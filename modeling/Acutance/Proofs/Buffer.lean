import Acutance.Proofs.Edit
import Acutance.Raster.Plane

namespace Acutance

/-- Why a guarded operation has no value: a rule of memory or of arithmetic is broken, or the operation
answers with an error of its own. -/
inductive Flaw (ε : Type) where
  /-- The entries from `first` up to, but not including, `last` of a buffer that does not have them. -/
  | outside (first last size : Nat)
  | countOverflow (count : Nat)
  | zeroDivisor
  | refused (error : ε)
  deriving DecidableEq, Repr

namespace Run

variable {ε α β : Type}

/-- A guarded operation without flaws of its own. -/
def guarded (x : Run ε α) : Run (Flaw ε) α := x.restate .refused

/-- A guarded operation that only answers. -/
def answering (x : Except ε α) : Run (Flaw ε) α := guarded (ofExcept x)

end Run

namespace Buffer

variable {ε α : Type}

/-- The first count that 64 bits do not hold. -/
def countLimit : Nat := 18446744073709551616

/-- The entry of a buffer at a place. -/
def read (buffer : Array α) (i : Nat) : Run (Flaw ε) α :=
  match buffer[i]? with
  | some a => .ok a
  | none => .error (.error (.outside i (i + 1) buffer.size))

/-- Replaces the entry of a buffer at a place. -/
def write (buffer : Array α) (i : Nat) (a : α) : Run (Flaw ε) (Array α) :=
  if i < buffer.size then .ok (buffer.setIfInBounds i a)
  else .error (.error (.outside i (i + 1) buffer.size))

/-- The entries of a buffer from one place up to another. -/
def slice (buffer : Array α) (first last : Nat) : Run (Flaw ε) (Array α) :=
  if first ≤ last ∧ last ≤ buffer.size then .ok (buffer.extract first last)
  else .error (.error (.outside first last buffer.size))

/-- Puts a part into a buffer from a place on, over as many entries as the part has. -/
def splice (buffer : Array α) (first : Nat) (part : Array α) : Run (Flaw ε) (Array α) :=
  if first + part.size ≤ buffer.size then
    .ok (buffer.extract 0 first ++ part ++ buffer.extract (first + part.size) buffer.size)
  else .error (.error (.outside first (first + part.size) buffer.size))

/-- A count that 64 bits hold. -/
def count (n : Nat) : Run (Flaw ε) Nat :=
  if n < countLimit then .ok n else .error (.error (.countOverflow n))

/-- Room for a number of samples, which memory has to address in one piece. -/
def room (samples : Nat) : Run (Flaw ε) Unit :=
  if Plane.addressLimit ≤ samples * Plane.sampleBytes then .error (.fault .capacityOverflow) else .ok ()

theorem read_of_lt {buffer : Array α} {i : Nat} (hi : i < buffer.size) :
    (read buffer i : Run (Flaw ε) α) = .ok buffer[i] := by
  rw [read, Array.getElem?_eq_getElem hi]

theorem write_of_lt {buffer : Array α} {i : Nat} (hi : i < buffer.size) (a : α) :
    (write buffer i a : Run (Flaw ε) (Array α)) = .ok (buffer.setIfInBounds i a) := if_pos hi

theorem slice_of_le {buffer : Array α} {first last : Nat} (hfirst : first ≤ last)
    (hlast : last ≤ buffer.size) :
    (slice buffer first last : Run (Flaw ε) (Array α)) = .ok (buffer.extract first last) :=
  if_pos ⟨hfirst, hlast⟩

theorem splice_of_le {buffer part : Array α} {first : Nat} (h : first + part.size ≤ buffer.size) :
    (splice buffer first part : Run (Flaw ε) (Array α)) =
      .ok (buffer.extract 0 first ++ part ++ buffer.extract (first + part.size) buffer.size) := if_pos h

/-- A part that is put into a buffer lies over the entries that were there. -/
theorem getElem?_splice {buffer part : Array α} {first : Nat} (h : first + part.size ≤ buffer.size)
    (i : Nat) :
    (buffer.extract 0 first ++ part ++ buffer.extract (first + part.size) buffer.size)[i]? =
      if first ≤ i ∧ i < first + part.size then part[i - first]? else buffer[i]? := by
  have hbefore : (buffer.extract 0 first).size = first := by
    rw [Array.size_extract]
    omega
  rw [Array.getElem?_append, Array.size_append, hbefore, Array.getElem?_append, hbefore]
  rcases Nat.lt_or_ge i first with habove | hfirst
  · rw [if_pos (by omega), if_pos habove, if_neg (by omega), Array.getElem?_extract, if_pos (by omega),
      Nat.zero_add]
  rcases Nat.lt_or_ge i (first + part.size) with hlast | hbelow
  · rw [if_pos hlast, if_neg (by omega), if_pos ⟨hfirst, hlast⟩]
  · rw [if_neg (by omega), if_neg (by omega), Array.getElem?_extract, Nat.min_self,
      Nat.add_sub_of_le hbelow]
    split
    · rfl
    · rw [Array.getElem?_eq_none (by omega)]

theorem count_of_lt {n : Nat} (hn : n < countLimit) : (count n : Run (Flaw ε) Nat) = .ok n := if_pos hn

theorem room_of_lt {samples : Nat} (h : samples * Plane.sampleBytes < Plane.addressLimit) :
    (room samples : Run (Flaw ε) Unit) = .ok () := if_neg (Nat.not_le.2 h)

end Buffer

end Acutance
