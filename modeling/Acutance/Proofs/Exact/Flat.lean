import Mathlib.Tactic.Ring
import Acutance.Proofs.Exact.Range
import Acutance.Proofs.Exact.Window

namespace Acutance

namespace Exact

section Detail

variable {p : Grid} {x y : Nat}

private theorem detail_eq_zero {height : Nat} (hmem : -142857 ≤ p x y ∧ p x y ≤ 142857)
    (hrows : 3 ≤ y → y + 3 < height → ∀ i < 7, p x (y - 3 + i) = p x y) :
    detail height p x y = 0 := by
  unfold detail
  by_cases hedge : y < 3 ∨ height ≤ y + 3
  · rw [if_pos hedge]
  · have hsame := hrows (by omega) (by omega)
    have hsum : ∑ i ∈ Finset.range 7, tap i * p x (y - 3 + i) = 1000000 * p x y := by
      rw [sum_tap fun i => p x (y - 3 + i), hsame 0 (by omega), hsame 1 (by omega),
        hsame 2 (by omega), hsame 3 (by omega), hsame 4 (by omega), hsame 5 (by omega),
        hsame 6 (by omega)]
      ring
    have hbias : 7 * p x y - 1000000 * p x y + 1000000 * p x y = 7 * p x y := by ring
    have hlower : (-999999 : Int) ≤ 7 * p x y := by omega
    have hupper : 7 * p x y ≤ (999999 : Int) := by omega
    have hquotient := tdiv_mem_of_mem (d := 1000000) (by omega) hlower hupper
    have hlow : (-999999 : Int).tdiv 1000000 = 0 := rfl
    have hhigh : (999999 : Int).tdiv 1000000 = 0 := rfl
    rw [if_neg hedge, hsum, hbias]
    omega

/-- The rows at most three away from a place hold what its own row holds, at most three columns away
from it. -/
def RowsAgree (e : Extent) (p : Grid) (x y : Nat) : Prop :=
  ∀ u v, e.Contains u v → x ≤ u + 3 → u ≤ x + 3 → y ≤ v + 3 → v ≤ y + 3 → p u v = p u y

/-- A place without detail: it is near the top or bottom edge, or the rows around it agree. -/
def Flat (e : Extent) (p : Grid) (x y : Nat) : Prop :=
  y < 3 ∨ e.height ≤ y + 3 ∨ RowsAgree e p x y

private theorem mask_eq_zero {e : Extent} (hin : e.Contains x y)
    (hmem : -142857 ≤ smooth e.width p x y ∧ smooth e.width p x y ≤ 142857)
    (hflat : Flat e p x y) : mask e p x y = 0 := by
  apply detail_eq_zero hmem
  intro htop hbottom i hi
  have hrows : RowsAgree e p x y := by
    rcases hflat with h | h | h
    · omega
    · omega
    · exact h
  have hrow : y ≤ y - 3 + i + 3 ∧ y - 3 + i ≤ y + 3 := by omega
  have hheight : y - 3 + i < e.height := by omega
  -- the two rows are smoothed from the same columns
  apply smooth_eq_of_window (Alike.refl e.width x)
  · exact hrows x _ ⟨hin.1, hheight⟩ (by omega) (by omega) hrow.1 hrow.2
  · intro hleft hright j hj
    exact hrows _ _ ⟨by omega, hheight⟩ (by omega) (by omega) hrow.1 hrow.2

end Detail

private theorem blend_no_detail {one s : Int} (hone : 0 < one) : blend one s 0 = min s (one - 1) := by
  have hshare : (s * (one - 4 * 0)).tdiv one = s := by
    rw [Int.mul_zero, Int.sub_zero]
    exact Int.mul_tdiv_cancel s hone.ne'
  unfold blend
  rw [hshare]
  omega

/-- A sample that is zero stays zero, whatever detail is blended into it. -/
theorem blend_zero {one : Int} (hone : 0 < one) (d : Int) : blend one 0 d = 0 := by
  unfold blend
  rw [Int.zero_mul, Int.zero_tdiv, if_neg (by omega)]

private theorem one_channel_pos (c : Channel) : 0 < one c := by
  cases c <;> decide

section Places

variable {e : Extent} {image : Channel → Grid} {x y : Nat}

private theorem hsv_flat (hflat : ∀ c, Flat e (image c) x y) (c : Channel) : Flat e (hsv image c) x y := by
  by_cases hedge : y < 3 ∨ e.height ≤ y + 3
  · rcases hedge with h | h
    · exact .inl h
    · exact .inr (.inl h)
  · have hrows : ∀ c, RowsAgree e (image c) x y := by
      intro c
      rcases hflat c with h | h | h
      · exact absurd (.inl h) hedge
      · exact absurd (.inr h) hedge
      · exact h
    right
    right
    intro u v hin hleft hright htop hbottom
    unfold hsv
    rw [hrows .red u v hin hleft hright htop hbottom, hrows .green u v hin hleft hright htop hbottom,
      hrows .blue u v hin hleft hright htop hbottom]

/-- Without detail, sharpening only holds a sample below one on its channel. -/
theorem sharpened_of_flat (hin : e.Contains x y) (hflat : ∀ c, Flat e (image c) x y) (c : Channel) :
    sharpened e image c x y = min (hsv image c x y) (one c - 1) := by
  have hmem := smooth_hsv_mem e image c x y
  have hsmall : -142857 ≤ lowest c ∧ highest c ≤ 142857 := by cases c <;> decide
  have hmask : mask e (hsv image c) x y = 0 :=
    mask_eq_zero hin ⟨by omega, by omega⟩ (hsv_flat hflat c)
  unfold sharpened sharpen
  rw [hmask, blend_no_detail (one_channel_pos c)]

theorem enhance_of_flat (hin : e.Contains x y) (hflat : ∀ c, Flat e (image c) x y) (c : Channel) :
    enhance e image c x y = toRgb (min (hsv image .hue x y) 359) (min (hsv image .saturation x y) 1023)
      (hsv image .value x y) c := by
  have hvalue : min (hsv image .value x y) (one .value - 1) = hsv image .value x y := by
    have hmem := hsv_value_mem image x y
    change min (hsv image .value x y) 1023 = _
    omega
  unfold enhance
  rw [sharpened_of_flat hin hflat, sharpened_of_flat hin hflat, sharpened_of_flat hin hflat, hvalue]
  rfl

private theorem saturation_of_alike (n : Int) : saturation n n n = 0 := by
  have hspread : spread n n n = 0 := by
    unfold spread
    omega
  unfold saturation
  rw [hspread, Int.mul_zero, Int.zero_tdiv, ite_self]

/-- A place whose stretched samples are alike has no saturation, and sharpening leaves it without. -/
theorem enhance_of_alike (hgreen : stretch (image .green x y) = stretch (image .red x y))
    (hblue : stretch (image .blue x y) = stretch (image .red x y)) (c : Channel) :
    enhance e image c x y = (sharpened e image .value x y).tdiv 4 := by
  have hhsv : hsv image .saturation x y = 0 := by
    change saturation _ _ _ = 0
    rw [hgreen, hblue, saturation_of_alike]
  have hsharpened : sharpened e image .saturation x y = 0 := by
    unfold sharpened sharpen
    rw [hhsv, blend_zero (one_channel_pos _)]
  unfold enhance toRgb
  rw [if_pos hsharpened]
  cases c <;> rfl

private theorem stretch_of_le_black {n : Int} (hn : n ≤ 10) : stretch n = 0 := by
  have hquotient : ((n - 10) * 255).tdiv 233 ≤ 0 := by
    have h := Int.tdiv_le_tdiv (c := 233) (by omega) (by omega : (n - 10) * 255 ≤ 0)
    rwa [Int.zero_tdiv] at h
  unfold stretch
  omega

/-- A place that is no brighter than the black level is black behind the enhancement. -/
theorem enhance_of_le_black (hdark : ∀ c, image c x y ≤ 10) (c : Channel) :
    enhance e image c x y = 0 := by
  have hlevel : ∀ c, stretch (image c x y) = 0 := fun c => stretch_of_le_black (hdark c)
  have hhsv : hsv image .value x y = 0 := by
    change value _ _ _ = 0
    rw [hlevel, hlevel, hlevel]
    rfl
  have hsharpened : sharpened e image .value x y = 0 := by
    unfold sharpened sharpen
    rw [hhsv, blend_zero (one_channel_pos _)]
  rw [enhance_of_alike (by rw [hlevel, hlevel]) (by rw [hlevel, hlevel]), hsharpened, Int.zero_tdiv]

end Places

end Exact

end Acutance
