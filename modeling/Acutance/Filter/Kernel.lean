import Acutance.Filter.Error

namespace Acutance

/-- The taps of a filter along one line and the divisor of its sums. The number of taps is odd, so
there is one in the middle, and the divisor is not zero. -/
structure Kernel where
  taps : List Sample
  norm : Int
  odd : taps.length % 2 = 1
  norm_ne_zero : norm ≠ 0
  deriving DecidableEq

namespace Kernel

/-- The sum of taps in the integers. Up to `2 ^ 32` taps sum to the same in a word, by `addUp_eq`. -/
def total (taps : List Sample) : Int := taps.foldl (fun sum t => sum + t.toInt) 0

/-- The sum of taps, added up in a 64-bit word. -/
def addUp (taps : List Sample) : Checked Int :=
  taps.foldlM (fun sum t => Width.bits64.add sum t.toInt) 0

/-- The sum of `n` taps stays within `n` times the range of one, and so do all sums on the way. -/
theorem foldlM_add_eq {taps : List Sample} {n : Nat} {acc : Int} (hlow : -2147483648 * n ≤ acc)
    (hhigh : acc ≤ 2147483647 * n) (hlength : n + taps.length ≤ 4294967296) :
    taps.foldlM (fun sum t => Width.bits64.add sum t.toInt) acc =
      .ok (taps.foldl (fun sum t => sum + t.toInt) acc) := by
  induction taps generalizing n acc with
  | nil => rfl
  | cons t taps ih =>
    rw [List.length_cons] at hlength
    obtain ⟨htlow, hthigh⟩ := holds_toInt t
    simp only [Width.lowest, Width.highest] at htlow hthigh
    have hword : Width.bits64.Holds (acc + t.toInt) := by
      constructor <;> simp only [Width.lowest, Width.highest] <;> omega
    have hadd : Width.bits64.add acc t.toInt = .ok (acc + t.toInt) := Width.keep_of_holds hword
    rw [List.foldlM_cons, hadd, List.foldl_cons]
    exact ih (n := n + 1) (by omega) (by omega) (by omega)

theorem addUp_eq {taps : List Sample} (hlength : taps.length ≤ 4294967296) :
    addUp taps = .ok (total taps) :=
  foldlM_add_eq (n := 0) (by decide) (by decide) (by omega)

/-- A kernel that divides by the sum of its taps. -/
def ofTaps (taps : List Sample) : Except FilterError Kernel :=
  if hodd : taps.length % 2 = 1 then
    if hsum : total taps = 0 then .error .zeroTapSum
    else .ok ⟨taps, total taps, hodd, hsum⟩
  else .error (.tapCount taps.length)

/-- The smoothing kernel of the unsharp mask: seven taps along a bell curve that sum to a
million. -/
def gaussian : Kernel where
  taps := [4433, 54006, 242036, 399050, 242036, 54006, 4433]
  norm := 1000000
  odd := rfl
  norm_ne_zero := by decide

/-- The number of taps. -/
def size (k : Kernel) : Nat := k.taps.length

/-- The number of taps on either side of the middle one, which is also the place of that tap. -/
def radius (k : Kernel) : Nat := k.taps.length / 2

/-- The tap at a place, if there is one. -/
def get? (k : Kernel) (i : Nat) : Option Sample := k.taps[i]?

/-- The sum of the taps. -/
def sum (k : Kernel) : Int := total k.taps

/-- Whether the taps read the same from both ends. -/
def IsSymmetric (k : Kernel) : Prop := k.taps = k.taps.reverse

instance (k : Kernel) : Decidable k.IsSymmetric := inferInstanceAs (Decidable (_ = _))

/-- The kernel with the divisor taken off its middle tap. It keeps the divisor, so it yields what
smoothing adds to a sample instead of the smoothed sample. -/
def highpass (k : Kernel) : Kernel where
  taps := k.taps.modify k.radius fun t => narrow (t.toInt - k.norm)
  norm := k.norm
  odd := by rw [List.length_modify]; exact k.odd
  norm_ne_zero := k.norm_ne_zero

/-- A kernel has a tap in the middle. -/
theorem radius_lt_size (k : Kernel) : k.radius < k.size := by
  have := k.odd
  unfold radius size
  omega

/-- There are as many taps before the middle one as after it. -/
theorem size_eq (k : Kernel) : k.size = 2 * k.radius + 1 := by
  have := k.odd
  unfold radius size
  omega

end Kernel

end Acutance
