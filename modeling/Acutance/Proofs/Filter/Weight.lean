import Acutance.Filter.Convolution
import Acutance.Proofs.Arithmetic
import Acutance.Proofs.Grid

namespace Acutance

/-- No sample is further from zero than the lowest one. -/
theorem abs_toInt_le (s : Sample) : |s.toInt| ≤ 2147483648 := by
  have hs := Width.bits32_holds_iff.1 (holds_toInt s)
  exact abs_le.2 ⟨by omega, by omega⟩

/-- The product of two samples is a 64-bit word. -/
theorem abs_sample_mul_le (s t : Sample) : |s.toInt * t.toInt| ≤ 4611686018427387904 := by
  have hs := abs_toInt_le s
  have ht := abs_toInt_le t
  rw [abs_mul]
  nlinarith [abs_nonneg s.toInt, abs_nonneg t.toInt]

theorem Width.mul_samples (s t : Sample) :
    Width.bits64.mul s.toInt t.toInt = .ok (s.toInt * t.toInt) := by
  have h := abs_le.1 (abs_sample_mul_le s t)
  exact mul_of_holds (bits64_holds_iff.2 ⟨by omega, by omega⟩)

namespace Kernel

variable {k : Kernel}

/-- The weight of a tap. There is none beyond the last tap. -/
def tap (k : Kernel) (i : Nat) : Int := (k.taps.getD i 0).toInt

/-- The weighted sum of a line of integers when the first tap stands over place `start`. -/
def dot (k : Kernel) (line : Nat → Int) (start : Nat) : Int :=
  ∑ i ∈ Finset.range k.size, k.tap i * line (start + i)

theorem dot_congr {line line' : Nat → Int} {start start' : Nat}
    (h : ∀ i < k.size, line (start + i) = line' (start' + i)) :
    k.dot line start = k.dot line' start' := by
  refine Finset.sum_congr rfl fun i hi => ?_
  rw [h i (Finset.mem_range.1 hi)]

theorem dot_const (k : Kernel) (c : Int) (start : Nat) :
    k.dot (fun _ => c) start = (∑ i ∈ Finset.range k.size, k.tap i) * c :=
  (Finset.sum_mul ..).symm

/-- The magnitudes of all taps together. -/
def mass (k : Kernel) : Int := ∑ i ∈ Finset.range k.size, |k.tap i|

/-- Samples of bounded magnitude make terms whose magnitudes add up to at most the mass of the kernel
times the bound. -/
theorem sum_abs_mul_le {f : Nat → Int} {bound : Int} (hf : ∀ i < k.size, |f i| ≤ bound) :
    ∑ i ∈ Finset.range k.size, |k.tap i * f i| ≤ k.mass * bound := by
  rw [mass, Finset.sum_mul]
  refine Finset.sum_le_sum fun i hi => ?_
  rw [abs_mul]
  exact mul_le_mul_of_nonneg_left (hf i (Finset.mem_range.1 hi)) (abs_nonneg _)

/-- The taps side by side with the samples under them. -/
theorem zip_window (k : Kernel) (f : Nat → Sample) : k.taps.zip ((List.range k.size).map f) =
    (List.range k.size).map fun i => (k.taps.getD i 0, f i) := by
  apply List.ext_getElem
  · simp [size]
  · intro i hi hi'
    have hlt : i < k.taps.length := by simpa [size] using hi'
    simp [hlt]

private theorem sum_zip_window (k : Kernel) (f : Nat → Sample) (g : Int → Int → Int) :
    ((k.taps.zip ((List.range k.size).map f)).map fun x => g x.1.toInt x.2.toInt).sum =
      ∑ i ∈ Finset.range k.size, g (k.tap i) (f i).toInt := by
  rw [zip_window, List.map_map]
  rfl

private theorem weigh_eq_ok {f : Nat → Sample} {sum : Int}
    (h : k.weigh ((List.range k.size).map f) = .ok sum) :
    sum = ∑ i ∈ Finset.range k.size, k.tap i * (f i).toInt := by
  have hsum := Width.foldlM_add_eq_ok (w := .bits64)
    (fun x : Sample × Sample => Width.bits64.mul x.1.toInt x.2.toInt)
    (fun x => x.1.toInt * x.2.toInt)
    (fun x _ t ht => (Width.mul_eq_ok_iff.1 ht).2) h
  rwa [sum_zip_window k f fun t v => t * v, zero_add] at hsum

private theorem weigh_of_abs_le {f : Nat → Sample}
    (hbound : ∑ i ∈ Finset.range k.size, |k.tap i * (f i).toInt| ≤ 9223372036854775807) :
    k.weigh ((List.range k.size).map f) =
      .ok (∑ i ∈ Finset.range k.size, k.tap i * (f i).toInt) := by
  rw [← sum_zip_window k f fun t v => |t * v|] at hbound
  have hsum := Width.foldlM_add_of_abs_le (w := .bits64)
    (fun x : Sample × Sample => Width.bits64.mul x.1.toInt x.2.toInt)
    (fun x => x.1.toInt * x.2.toInt) 0
    (fun x _ => Width.mul_samples x.1 x.2) (by simpa [Width.highest] using hbound)
  rwa [sum_zip_window k f fun t v => t * v, zero_add] at hsum

private theorem biased_term (bias s t : Sample) :
    (Width.bits64.mul s.toInt t.toInt >>= Width.bits64.add bias.toInt) =
      .ok (bias.toInt + s.toInt * t.toInt) := by
  have hproduct := abs_le.1 (abs_sample_mul_le s t)
  have hbias := holds_toInt bias
  rw [Width.bits32_holds_iff] at hbias
  rw [Width.mul_samples]
  exact Width.add_of_holds (Width.bits64_holds_iff.2 ⟨by omega, by omega⟩)

private theorem weighBiased_eq_foldlM (bias : Int) (values : List Sample) :
    k.weighBiased bias values = (k.taps.zip values).foldlM (fun sum x =>
      (Width.bits64.mul x.1.toInt x.2.toInt >>= Width.bits64.add bias) >>= Width.bits64.add sum)
      0 := by
  unfold weighBiased
  congr 1
  funext sum x
  rw [bind_assoc]

/-- A biased sum of a window has a value exactly when no partial sum leaves the range. -/
theorem weighBiased_eq_ok_iff {bias : Sample} {f : Nat → Sample} {sum : Int} :
    k.weighBiased bias.toInt ((List.range k.size).map f) = .ok sum ↔
      (∀ m ≤ k.size, Width.bits64.Holds
        (∑ i ∈ Finset.range m, (bias.toInt + k.tap i * (f i).toInt))) ∧
          sum = ∑ i ∈ Finset.range k.size, (bias.toInt + k.tap i * (f i).toInt) := by
  rw [weighBiased_eq_foldlM, zip_window, List.foldlM_map]
  simp only [biased_term]
  exact Width.foldlM_range_add_eq_ok_iff

/-- A biased sum of a window is the sum in the integers, with the bias once per tap, whenever it has
a value. -/
theorem weighBiased_eq_ok {bias : Sample} {f : Nat → Sample} {sum : Int}
    (h : k.weighBiased bias.toInt ((List.range k.size).map f) = .ok sum) :
    sum = k.size * bias.toInt + ∑ i ∈ Finset.range k.size, k.tap i * (f i).toInt := by
  rw [(weighBiased_eq_ok_iff.1 h).2, Finset.sum_add_distrib]
  simp

theorem weighBiased_of_abs_le (bias : Sample) {f : Nat → Sample}
    (hbound : ∑ i ∈ Finset.range k.size, |bias.toInt + k.tap i * (f i).toInt| ≤
      9223372036854775807) :
    k.weighBiased bias.toInt ((List.range k.size).map f) =
      .ok (k.size * bias.toInt + ∑ i ∈ Finset.range k.size, k.tap i * (f i).toInt) := by
  rw [← sum_zip_window k f fun t v => |bias.toInt + t * v|] at hbound
  have hsum := Width.foldlM_add_of_abs_le (w := .bits64)
    (fun x : Sample × Sample =>
      Width.bits64.mul x.1.toInt x.2.toInt >>= Width.bits64.add bias.toInt)
    (fun x => bias.toInt + x.1.toInt * x.2.toInt) 0
    (fun x _ => biased_term bias x.1 x.2) (by simpa [Width.highest] using hbound)
  rw [weighBiased_eq_foldlM, hsum, sum_zip_window k f fun t v => bias.toInt + t * v,
    Finset.sum_add_distrib]
  simp

/-- A sum is scaled down when the quotient is a word, of which the low bits are kept. -/
theorem scaleDown_eq_ok_iff {sum : Int} {s : Sample} : k.scaleDown sum = .ok s ↔
    Width.bits64.Holds (sum.tdiv k.norm) ∧ s = narrow (sum.tdiv k.norm) := by
  simp only [scaleDown, bind_eq_ok_iff, Width.div_eq_ok_iff]
  constructor
  · rintro ⟨_, ⟨-, hholds, rfl⟩, hs⟩
    exact ⟨hholds, (Except.ok.inj hs).symm⟩
  · rintro ⟨hholds, rfl⟩
    exact ⟨_, ⟨k.norm_ne_zero, hholds, rfl⟩, rfl⟩

theorem scaleDown_eq_ok {sum : Int} {s : Sample} (h : k.scaleDown sum = .ok s) :
    s = narrow (sum.tdiv k.norm) :=
  (scaleDown_eq_ok_iff.1 h).2

theorem scaleDown_of_abs_le {sum : Int} (hbound : |sum| ≤ 9223372036854775807) :
    k.scaleDown sum = .ok (narrow (sum.tdiv k.norm)) :=
  scaleDown_eq_ok_iff.2 ⟨Width.holds_tdiv hbound, rfl⟩

section Rows

variable {p : Plane} {x y : Nat}

theorem smooth_edge (hedge : x < k.radius ∨ p.extent.width ≤ x + k.radius) :
    k.smooth p x y = .ok (p.sample x y) :=
  if_pos hedge

private theorem smooth_inside (hleft : k.radius ≤ x) (hright : x + k.radius < p.extent.width) :
    k.smooth p x y = k.weigh (k.rowWindow p x y) >>= k.scaleDown :=
  if_neg (by omega)

/-- A smoothed sample away from the edges is the weighted sum of its row over the divisor. -/
theorem smooth_inside_eq_ok (hleft : k.radius ≤ x) (hright : x + k.radius < p.extent.width)
    {s : Sample} (h : k.smooth p x y = .ok s) :
    s = narrow ((k.dot (fun x' => p.grid x' y) (x - k.radius)).tdiv k.norm) := by
  rw [smooth_inside hleft hright, bind_eq_ok_iff] at h
  obtain ⟨sum, hsum, hscale⟩ := h
  obtain rfl := weigh_eq_ok hsum
  exact scaleDown_eq_ok hscale

/-- A sample is smoothed without a fault when the mass of the kernel times the largest magnitude in
its window is a word. -/
theorem smooth_inside_of_mass (bound : Int) (hleft : k.radius ≤ x)
    (hright : x + k.radius < p.extent.width)
    (hbound : ∀ i < k.size, |p.grid (x - k.radius + i) y| ≤ bound)
    (hmass : k.mass * bound ≤ 9223372036854775807) :
    k.smooth p x y = .ok (narrow ((k.dot (fun x' => p.grid x' y) (x - k.radius)).tdiv k.norm)) := by
  have hterms := (sum_abs_mul_le hbound).trans hmass
  have hsum := (Finset.abs_sum_le_sum_abs _ _).trans hterms
  rw [smooth_inside hleft hright, rowWindow, weigh_of_abs_le hterms]
  exact scaleDown_of_abs_le hsum

end Rows

end Kernel

end Acutance
