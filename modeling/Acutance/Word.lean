import Acutance.Fault

namespace Acutance

/-- One sample of an image: a signed 32-bit word. -/
abbrev Sample := Int32

/-- The low 32 bits of an integer, read as a signed word. -/
def narrow (n : Int) : Sample := Int32.ofInt n

/-- The byte of a sample. A sample below 0 counts as 0 and one above 255 as 255. -/
def byteOf (s : Sample) : UInt8 := UInt8.ofNat (min 255 s.toInt.toNat)

/-- The widths of the words that are computed with. An operation computes in the integers, and
faults when the exact result is not a word. -/
inductive Width where
  | bits32
  | bits64
  deriving DecidableEq, Repr

namespace Width

/-- The lowest word. -/
def lowest : Width → Int
  | bits32 => -2147483648
  | bits64 => -9223372036854775808

/-- The highest word. -/
def highest : Width → Int
  | bits32 => 2147483647
  | bits64 => 9223372036854775807

/-- Whether an integer is a word of this width. -/
def Holds (w : Width) (n : Int) : Prop := w.lowest ≤ n ∧ n ≤ w.highest

instance (w : Width) (n : Int) : Decidable (w.Holds n) :=
  inferInstanceAs (Decidable (_ ∧ _))

/-- An exact result, provided that it is a word. -/
def keep (w : Width) (fault : Fault) (n : Int) : Checked Int :=
  if w.Holds n then .ok n else .error fault

/-- The sum of two words. -/
def add (w : Width) (a b : Int) : Checked Int := w.keep .addOverflow (a + b)

/-- The difference of two words. -/
def sub (w : Width) (a b : Int) : Checked Int := w.keep .subOverflow (a - b)

/-- The product of two words. -/
def mul (w : Width) (a b : Int) : Checked Int := w.keep .mulOverflow (a * b)

/-- The quotient of two words, truncated toward zero. -/
def div (w : Width) (a b : Int) : Checked Int :=
  if b = 0 then .error .divByZero else w.keep .divOverflow (a.tdiv b)

/-- The remainder that belongs to the truncated quotient. It has the sign of the dividend. -/
def rem (w : Width) (a b : Int) : Checked Int :=
  if b = 0 then .error .remByZero
  else if w.Holds (a.tdiv b) then .ok (a.tmod b)
  else .error .remOverflow

theorem keep_of_holds {w : Width} {fault : Fault} {n : Int} (hn : w.Holds n) :
    w.keep fault n = .ok n := if_pos hn

theorem keep_eq_ok_iff {w : Width} {fault : Fault} {n m : Int} :
    w.keep fault n = .ok m ↔ w.Holds n ∧ m = n := by
  unfold keep
  split
  · simp_all [eq_comm]
  · simp_all

end Width

/-- Narrowing keeps every integer that is a 32-bit word. -/
theorem toInt_narrow {n : Int} (hn : Width.bits32.Holds n) : (narrow n).toInt = n := by
  obtain ⟨hlow, hhigh⟩ := hn
  simp only [Width.lowest, Width.highest] at hlow hhigh
  rw [narrow, Int32.toInt_ofInt]
  have hsize : (Int32.size : Int) = 4294967296 := rfl
  rw [Int.bmod_eq_of_le] <;> omega

/-- Every sample is a 32-bit word. -/
theorem holds_toInt (s : Sample) : Width.bits32.Holds s.toInt := by
  have hlow := s.le_toInt
  have hhigh := s.toInt_lt
  constructor <;> simp only [Width.lowest, Width.highest] <;> omega

end Acutance
