import Acutance.Codec.Error
import Acutance.Edit

namespace Acutance

/-- The bytes written so far, and how many more there is room for, if there is a limit. -/
structure Sink where
  written : Array UInt8
  room : Option Nat
  deriving DecidableEq

namespace Sink

/-- An empty sink without a limit. -/
def unlimited : Sink := ⟨#[], none⟩

/-- An empty sink with room for a number of bytes. -/
def limited (room : Nat) : Sink := ⟨#[], some room⟩

/-- The bytes written so far. -/
def bytes (s : Sink) : Bytes := s.written.toList

/-- Writes bytes. Of those that exceed the room, the ones that fit are written all the same. -/
def write (data : Bytes) : Edit Sink SystemError Unit := fun s =>
  match s.room with
  | none => .ok () { s with written := s.written ++ data }
  | some room =>
    let s := ⟨s.written ++ data.take room, some (room - data.length)⟩
    if data.length ≤ room then .ok () s else .error (.error .writerFull) s

theorem bytes_append (written : Array UInt8) (data : Bytes) (room : Option Nat) :
    bytes ⟨written ++ data, room⟩ = bytes ⟨written, room⟩ ++ data := by
  simp [bytes]

end Sink

/-- What an encoder leaves in a sink, or the reason why it stopped early. -/
def Edit.collect {ε : Type} (act : Edit Sink ε Unit) : Run ε Bytes :=
  match act .unlimited with
  | .ok _ sink => .ok sink.bytes
  | .error stop _ => .error stop

end Acutance
