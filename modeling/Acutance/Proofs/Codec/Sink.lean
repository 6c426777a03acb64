import Acutance.Codec.Sink
import Acutance.Proofs.Edit.Outcome

namespace Acutance

theorem Edit.collect_eq_ok_iff {ε : Type} {act : Edit Sink ε Unit} {bytes : Bytes} :
    act.collect = .ok bytes ↔ ∃ sink, act .unlimited = .ok () sink ∧ sink.bytes = bytes := by
  unfold collect
  cases act .unlimited <;> simp

namespace Sink

private theorem write_nil : write [] = pure () := by
  funext s
  obtain ⟨written, _ | room⟩ := s <;> simp [write, pure, EStateM.pure]

private theorem write_of_room_none {s : Sink} (hroom : s.room = none) (data : Bytes) :
    write data s = .ok () { s with written := s.written ++ data } := by
  rw [write, hroom]

theorem write_of_le {written : Array UInt8} {room : Nat} {data : Bytes} (hdata : data.length ≤ room) :
    write data ⟨written, some room⟩ = .ok () ⟨written ++ data, some (room - data.length)⟩ := by
  simp [write, hdata, List.take_of_length_le hdata]

theorem write_of_lt {written : Array UInt8} {room : Nat} {data : Bytes} (hdata : room < data.length) :
    write data ⟨written, some room⟩ =
      .error (.error .writerFull) ⟨written ++ data.take room, some 0⟩ := by
  simp [write, Nat.not_le.2 hdata, Nat.sub_eq_zero_of_le (Nat.le_of_lt hdata)]

private theorem append_append (written : Array UInt8) (data more : Bytes) :
    written ++ data ++ more = written ++ (data ++ more) := by
  apply Array.ext'
  simp

/-- Writing bytes at once is writing a first part of them and then the rest. -/
theorem write_append (data more : Bytes) :
    write (data ++ more) = (write data >>= fun _ => write more) := by
  funext s
  obtain ⟨written, _ | room⟩ := s
  · rw [Edit.bind_of_eq_ok (write_of_room_none rfl data), write_of_room_none rfl,
      write_of_room_none rfl, append_append]
  have hlength : (data ++ more).length = data.length + more.length := List.length_append
  rcases Nat.lt_or_ge room data.length with hshort | hfirst
  · have hstop : write data ⟨written, some room⟩ = _ := write_of_lt hshort
    rw [Edit.bind_eq_error_iff.2 (.inl hstop), write_of_lt (by omega),
      List.take_append_of_le_length (Nat.le_of_lt hshort)]
  rw [Edit.bind_of_eq_ok (write_of_le hfirst)]
  rcases Nat.lt_or_ge (room - data.length) more.length with hshort | hsecond
  · rw [write_of_lt hshort, write_of_lt (by omega), append_append, List.take_append,
      List.take_of_length_le hfirst]
  · rw [write_of_le hsecond, write_of_le (by omega), append_append, hlength, Nat.sub_sub]

/-- Pieces that are written one after the other are written as if they were one. -/
theorem forM_write {β : Type} (items : List β) (piece : β → Bytes) :
    (items.forM fun b => write (piece b)) = write (items.flatMap piece) := by
  induction items with
  | nil => exact write_nil.symm
  | cons b items ih =>
    change (write (piece b) >>= fun _ => items.forM fun b => write (piece b)) = _
    rw [ih, List.flatMap_cons, write_append]

theorem collect_write {ε : Type} (f : SystemError → ε) (data : Bytes) :
    (Edit.restate f (write data)).collect = .ok data := by
  change Except.ok (bytes ⟨(#[] : Array UInt8) ++ data, none⟩) = _
  rw [bytes_append]
  rfl

end Sink

end Acutance
