import Acutance.Proofs.Filter.Build
import Acutance.Proofs.InPlace

namespace Acutance

namespace Kernel

variable {k : Kernel} {taps : List Sample} {line line' : Nat → Int} {width x : Nat}

/-- The columns that go into a smoothed sample: those under the taps, or only its own where a tap would
stand outside the row. -/
def columns (k : Kernel) (width x : Nat) : Finset Nat :=
  if x < k.radius ∨ width ≤ x + k.radius then {x} else Finset.Icc (x - k.radius) (x + k.radius)

private theorem columns_nonempty (k : Kernel) (width x : Nat) : (k.columns width x).Nonempty := by
  refine ⟨x, ?_⟩
  unfold columns
  split_ifs
  · exact Finset.mem_singleton_self x
  · exact Finset.mem_Icc.2 ⟨Nat.sub_le .., Nat.le_add_right ..⟩

private theorem lt_of_mem_columns {x' : Nat} (hx : x < width) (hx' : x' ∈ k.columns width x) :
    x' < width := by
  unfold columns at hx'
  split_ifs at hx' with hedge
  · exact Finset.mem_singleton.1 hx' ▸ hx
  · have hright := (Finset.mem_Icc.1 hx').2
    omega

/-- What a place of a line is smoothed to in the integers. -/
def average (k : Kernel) (line : Nat → Int) (width x : Nat) : Int :=
  if x < k.radius ∨ width ≤ x + k.radius then line x
  else (k.dot line (x - k.radius)).tdiv k.norm

/-- Taps that are weights, and that divide by their sum. Their weighted sums of samples are words. -/
structure Weighs (k : Kernel) : Prop where
  tap_nonneg : ∀ i, 0 ≤ k.tap i
  norm_eq : k.norm = ∑ i ∈ Finset.range k.size, k.tap i
  norm_lt : k.norm < 4294967296

private theorem weighs_of_ofTaps (hk : ofTaps taps = .ok k) (htaps : ∀ t ∈ taps, 0 ≤ t.toInt)
    (hnorm : k.norm < 4294967296) : k.Weighs where
  tap_nonneg i := by
    obtain ⟨rfl, -⟩ := ofTaps_eq_ok_iff.1 hk
    by_cases hi : i < k.taps.length
    · have htap : k.tap i = k.taps[i].toInt := by simp [tap, hi]
      rw [htap]
      exact htaps _ (List.getElem_mem hi)
    · have htap : k.tap i = 0 := by simp [tap, Nat.le_of_not_lt hi]
      rw [htap]
  norm_eq := norm_eq_sum hk
  norm_lt := hnorm

namespace Weighs

variable (h : k.Weighs)
include h

private theorem norm_pos : 0 < k.norm := by
  have hnonneg : 0 ≤ k.norm := h.norm_eq ▸ Finset.sum_nonneg fun i _ => h.tap_nonneg i
  exact lt_of_le_of_ne hnonneg k.norm_ne_zero.symm

private theorem mass_eq : k.mass = k.norm := by
  rw [mass, h.norm_eq]
  exact Finset.sum_congr rfl fun i _ => abs_of_nonneg (h.tap_nonneg i)

/-- Averages of larger samples are no smaller. Only the columns that go into them matter. -/
theorem average_mono (hle : ∀ x' ∈ k.columns width x, line x' ≤ line' x') :
    k.average line width x ≤ k.average line' width x := by
  unfold columns at hle
  unfold average
  split_ifs at hle ⊢ with hedge
  · exact hle x (Finset.mem_singleton_self x)
  · refine Int.tdiv_le_tdiv h.norm_pos (Finset.sum_le_sum fun i hi => ?_)
    have hsize := k.size_eq
    have hi := Finset.mem_range.1 hi
    exact mul_le_mul_of_nonneg_left (hle _ (Finset.mem_Icc.2 ⟨by omega, by omega⟩))
      (h.tap_nonneg i)

private theorem average_const (c : Int) (width x : Nat) : k.average (fun _ => c) width x = c := by
  unfold average
  split_ifs
  · rfl
  · rw [dot_const, ← h.norm_eq, Int.mul_tdiv_cancel_left _ k.norm_ne_zero]

private theorem le_average {low : Int} (hlow : ∀ x' ∈ k.columns width x, low ≤ line x') :
    low ≤ k.average line width x := by
  have hle := h.average_mono hlow
  rwa [h.average_const] at hle

private theorem average_le {high : Int} (hhigh : ∀ x' ∈ k.columns width x, line x' ≤ high) :
    k.average line width x ≤ high := by
  have hle := h.average_mono hhigh
  rwa [h.average_const] at hle

/-- The average of samples is a sample. -/
theorem holds_average (p : Plane) (x y : Nat) :
    Width.bits32.Holds (k.average (fun x' => p.grid x' y) p.extent.width x) :=
  ⟨h.le_average fun x' _ => (holds_toInt (p.sample x' y)).1,
    h.average_le fun x' _ => (holds_toInt (p.sample x' y)).2⟩

/-- Every sample is smoothed to its average, and no sum on the way leaves a word. -/
theorem smooth_eq (p : Plane) (x y : Nat) :
    k.smooth p x y = .ok (narrow (k.average (fun x' => p.grid x' y) p.extent.width x)) := by
  unfold average
  split_ifs with hedge
  · rw [smooth_edge hedge]
    exact congrArg Except.ok (Int32.ofInt_toInt _).symm
  · have hlimit := h.norm_lt
    refine smooth_inside_of_mass 2147483648 (by omega) (by omega) (fun i _ => abs_toInt_le _) ?_
    rw [h.mass_eq]
    omega

end Weighs

end Kernel

namespace Plane

variable {k : Kernel} {taps : List Sample} {p target q : Plane} {x y : Nat}

/-- What is smoothed with weights does not depend on what the target has held. -/
theorem exists_smoothRows_of_weighs (h : k.Weighs) (p : Plane) : ∃ q, q.extent = p.extent ∧
    ∀ target, target.extent = p.extent → p.smoothRows k target = .ok q := by
  have hchoice : ∀ x y, p.extent.Contains x y → ∃ s, k.smooth p x y = .ok s :=
    fun x y _ => ⟨_, h.smooth_eq p x y⟩
  obtain ⟨q, hextent, hsmooth⟩ := p.exists_samples hchoice
  exact ⟨q, hextent, fun target htarget => smoothRows_eq_ok_iff.2 ⟨htarget, hextent, hsmooth⟩⟩

/-- Nothing is lost of an average when it is stored. -/
theorem grid_of_smoothRows (h : k.Weighs) (hq : p.smoothRows k target = .ok q)
    (hin : p.extent.Contains x y) :
    q.grid x y = k.average (fun x' => p.grid x' y) p.extent.width x := by
  obtain ⟨-, -, hsmooth⟩ := smoothRows_eq_ok_iff.1 hq
  have hsample := Except.ok.inj ((hsmooth x y hin).symm.trans (h.smooth_eq p x y))
  rw [grid, hsample, toInt_narrow (h.holds_average p x y)]

/-- Kernels of taps that are not negative and sum to less than `2 ^ 32` smooth the rows of every plane,
sample by sample and into any plane of the same extent. The smoothed plane does not depend on what that
one has held. Each of its samples is the truncated average itself, and lies between the smallest and the
largest of the samples that go into it. A plane of samples that are no smaller is smoothed to samples
that are no smaller. -/
theorem smoothRows_averages (hk : Kernel.ofTaps taps = .ok k) (htaps : ∀ t ∈ taps, 0 ≤ t.toInt)
    (hnorm : k.norm < 4294967296) :
    (∀ p : Plane, ∃ q, (∀ target, target.extent = p.extent →
        p.smoothRows k target = .ok q ∧ p.smoothRowsInPlace k target = .ok () q) ∧
      q.extent = p.extent ∧ ∀ x y, p.extent.Contains x y →
        q.grid x y = k.average (fun x' => p.grid x' y) p.extent.width x ∧
        (k.columns p.extent.width x).inf' (k.columns_nonempty ..) (fun x' => p.grid x' y) ≤
          q.grid x y ∧
        q.grid x y ≤
          (k.columns p.extent.width x).sup' (k.columns_nonempty ..) fun x' => p.grid x' y) ∧
    ∀ p p' target target' q q' : Plane, p'.extent = p.extent →
      (∀ x y, p.extent.Contains x y → p.grid x y ≤ p'.grid x y) →
      p.smoothRows k target = .ok q → p'.smoothRows k target' = .ok q' →
      ∀ x y, p.extent.Contains x y → q.grid x y ≤ q'.grid x y := by
  have h := Kernel.weighs_of_ofTaps hk htaps hnorm
  constructor
  · intro p
    obtain ⟨q, hextent, hsmooth⟩ := exists_smoothRows_of_weighs h p
    refine ⟨q, fun target htarget => ⟨hsmooth target htarget, ?_⟩, hextent, fun x y hin => ?_⟩
    · exact (smoothRowsInPlace_matches p k).eq_ok_iff.2
        (Edit.update_eq_ok_iff.2 (hsmooth target htarget))
    · have haverage := grid_of_smoothRows h (hsmooth p rfl) hin
      refine ⟨haverage, ?_, ?_⟩
      · rw [haverage]
        exact h.le_average fun x' hx' => Finset.inf'_le _ hx'
      · rw [haverage]
        exact h.average_le fun x' hx' => Finset.le_sup' (fun x' => p.grid x' y) hx'
  · intro p p' target target' q q' hextent hle hq hq' x y hin
    have hin' : p'.extent.Contains x y := by rw [hextent]; exact hin
    rw [grid_of_smoothRows h hq hin, grid_of_smoothRows h hq' hin', hextent]
    exact h.average_mono fun x' hx' => hle x' y ⟨Kernel.lt_of_mem_columns hin.1 hx', hin.2⟩

/-- Three weights that sum to as much as weights may. -/
def brim : Kernel := ⟨[2147483647, 2147483647, 1], 4294967295, rfl, by decide⟩

/-- The lowest plane of the extent of `Engine.relief`. -/
def abyss : Plane :=
  ⟨Engine.relief.extent, Engine.relief.nonempty, Vector.replicate _ (-2147483648)⟩

theorem smoothRows_averages_brim : Kernel.ofTaps [2147483647, 2147483647, 1] = .ok brim ∧
    (∀ t ∈ ([2147483647, 2147483647, 1] : List Sample), 0 ≤ t.toInt) ∧ brim.norm < 4294967296 ∧
    ∃ q q', abyss.smoothRows brim Engine.relief = .ok q ∧ q.grid 1 1 = -2147483648 ∧
      Engine.relief.smoothRows brim abyss = .ok q' ∧
      ∀ x y, abyss.extent.Contains x y → q.grid x y ≤ q'.grid x y := by
  have hk : Kernel.ofTaps [2147483647, 2147483647, 1] = .ok brim := by decide
  have htaps : ∀ t ∈ ([2147483647, 2147483647, 1] : List Sample), 0 ≤ t.toInt := by
    rw [List.forall_mem_cons, List.forall_mem_cons, List.forall_mem_singleton]
    decide
  have hnorm : brim.norm < 4294967296 := by decide
  have hle : ∀ x y, abyss.extent.Contains x y → abyss.grid x y ≤ Engine.relief.grid x y := by
    rintro x y ⟨hx, hy⟩
    have hall : ∀ x < 3, ∀ y < 4, abyss.grid x y ≤ Engine.relief.grid x y := by decide
    exact hall x hx y hy
  obtain ⟨haverages, hmono⟩ := smoothRows_averages hk htaps hnorm
  obtain ⟨q, hq, -, hgrid⟩ := haverages abyss
  obtain ⟨q', hq', -⟩ := haverages Engine.relief
  have hlow := (hq Engine.relief rfl).1
  have hhigh := (hq' abyss rfl).1
  have hmiddle := (hgrid 1 1 (by decide)).1
  exact ⟨hk, htaps, hnorm, q, q', hlow, hmiddle.trans (by decide), hhigh,
    hmono abyss Engine.relief _ _ q q' rfl hle hlow hhigh⟩

end Plane

end Acutance
