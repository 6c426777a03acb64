import Acutance.Proofs.Exact.Range
import Acutance.Proofs.Exact.Window
import Acutance.Proofs.Filter.Blend

namespace Acutance

namespace Kernel

theorem gaussian_tap {i : Nat} (hi : i < 7) : gaussian.tap i = Exact.tap i := by
  revert i
  decide

/-- Taking the divisor off the middle tap leaves a word, which is stored as it is. -/
theorem gaussian_highpass_tap {i : Nat} (hi : i < 7) :
    gaussian.highpass.tap i = Exact.tap i - if i = 3 then 1000000 else 0 := by
  revert i
  decide

private theorem gaussian_dot (line : Nat → Int) (start : Nat) :
    gaussian.dot line start = ∑ i ∈ Finset.range 7, Exact.tap i * line (start + i) := by
  refine Finset.sum_congr rfl fun i hi => ?_
  rw [gaussian_tap (Finset.mem_range.1 hi)]

private theorem gaussian_highpass_dot (line : Nat → Int) (start : Nat) :
    gaussian.highpass.dot line start =
      ∑ i ∈ Finset.range 7, Exact.tap i * line (start + i) - 1000000 * line (start + 3) := by
  have hterms : gaussian.highpass.dot line start =
      ∑ i ∈ Finset.range 7, (Exact.tap i - if i = 3 then 1000000 else 0) * line (start + i) := by
    refine Finset.sum_congr rfl fun i hi => ?_
    rw [gaussian_highpass_tap (Finset.mem_range.1 hi)]
  rw [hterms]
  simp [sub_mul, Finset.sum_sub_distrib]

private theorem gaussian_mass : gaussian.mass = 1000000 := by decide

private theorem gaussian_highpass_mass : gaussian.highpass.mass = 1201900 := by decide

variable {p : Plane} {x y : Nat}

private theorem gaussian_smooth_eq (hp : ∀ x y, |p.grid x y| ≤ 1024) :
    ∃ s, gaussian.smooth p x y = .ok s ∧ s.toInt = Exact.smooth p.extent.width p.grid x y := by
  by_cases hedge : x < 3 ∨ p.extent.width ≤ x + 3
  · refine ⟨p.sample x y, smooth_edge hedge, ?_⟩
    rw [Exact.smooth, if_pos hedge]
    rfl
  · have hsmooth := smooth_inside_of_mass (k := gaussian) (p := p) (x := x) (y := y) 1024
      (Nat.not_lt.1 fun h => hedge (.inl h)) (Nat.not_le.1 fun h => hedge (.inr h))
      (fun i _ => hp _ y) (by rw [gaussian_mass]; decide)
    have hmem := Exact.smooth_mem (p := p.grid) (fun x y => abs_le.1 (hp x y)) p.extent.width x y
    have hexact : (gaussian.dot (fun x' => p.grid x' y) (x - gaussian.radius)).tdiv gaussian.norm =
        Exact.smooth p.extent.width p.grid x y := by
      rw [gaussian_dot, Exact.smooth, if_neg hedge]
      rfl
    rw [hexact] at hsmooth
    exact ⟨_, hsmooth, toInt_narrow (Width.bits32_holds_iff.2 ⟨by omega, by omega⟩)⟩

private theorem gaussian_detail_eq (hp : ∀ x y, |p.grid x y| ≤ 1024) :
    ∃ d, gaussian.highpass.detail p x y = .ok d ∧
      d.toInt = Exact.detail p.extent.height p.grid x y := by
  by_cases hedge : y < 3 ∨ p.extent.height ≤ y + 3
  · refine ⟨0, detail_edge hedge, ?_⟩
    rw [Exact.detail, if_pos hedge]
    rfl
  · have hdetail := detail_inside_of_mass (k := gaussian.highpass) (p := p) (x := x) (y := y)
      1024 (by decide) (Nat.not_lt.1 fun h => hedge (.inl h))
      (Nat.not_le.1 fun h => hedge (.inr h)) (fun i _ => hp x _)
      (by rw [gaussian_highpass_mass]; decide)
    have hmem := Exact.detail_mem (p := p.grid) (fun x y => abs_le.1 (hp x y)) (by decide)
      (by decide) p.extent.height x y
    have hlow : ((600950 * -1024 - 600943 * 1024 : Int)).tdiv 1000000 = -1230 := by decide
    have hhigh : ((600950 * 1024 - 600943 * -1024 : Int)).tdiv 1000000 = 1230 := by decide
    rw [hlow, hhigh] at hmem
    have hexact : (gaussian.highpass.size * p.grid x y + gaussian.highpass.dot (p.grid x)
        (y - gaussian.highpass.radius)).tdiv gaussian.highpass.norm =
          Exact.detail p.extent.height p.grid x y := by
      have hmiddle : y - 3 + 3 = y := by omega
      have hsize : (gaussian.highpass.size : Int) = 7 := rfl
      have hradius : gaussian.highpass.radius = 3 := rfl
      rw [gaussian_highpass_dot, Exact.detail, if_neg hedge, hsize, hradius, hmiddle]
      congr 1
      ring
    rw [hexact] at hdetail
    exact ⟨_, hdetail, toInt_narrow (Width.bits32_holds_iff.2 ⟨by omega, by omega⟩)⟩

end Kernel

namespace Blend

private theorem scale_ofChannel (c : Channel) : (ofChannel c).scale.toInt = Exact.one c := by
  cases c <;> rfl

private theorem amount_ofChannel (c : Channel) : (ofChannel c).amount.toInt = -4 := by
  cases c <;> rfl

private theorem apply_eq {c : Channel} {s d : Sample} (hs : |s.toInt| ≤ 1024) (hd : |d.toInt| ≤ 1230) :
    ∃ t, (ofChannel c).apply s d = .ok t ∧
      t.toInt = Exact.blend (Exact.one c) s.toInt d.toInt := by
  have hone : 360 ≤ Exact.one c ∧ Exact.one c ≤ 1024 := by cases c <;> decide
  have hs' := abs_le.1 hs
  have hd' := abs_le.1 hd
  have hweight : -4560 ≤ Exact.one c - 4 * d.toInt ∧ Exact.one c - 4 * d.toInt ≤ 5944 :=
    ⟨by omega, by omega⟩
  have hscaled := mul_mem_of_mem hs' hweight (by decide) (by decide)
  norm_num at hscaled
  have hshare : (ofChannel c).scale.toInt + (ofChannel c).amount.toInt * d.toInt =
      Exact.one c - 4 * d.toInt := by
    rw [scale_ofChannel, amount_ofChannel]
    omega
  have hfits : (ofChannel c).Fits s d := by
    rw [Fits, product, hshare]
    exact Width.bits64_holds_iff.2 ⟨by omega, by omega⟩
  have happly := apply_of_fits (by rw [scale_ofChannel]; omega) hfits
  rw [stored, quotient, product, hshare, scale_ofChannel] at happly
  have hquotient :
      -6086656 ≤ (s.toInt * (Exact.one c - 4 * d.toInt)).tdiv (Exact.one c) ∧
        (s.toInt * (Exact.one c - 4 * d.toInt)).tdiv (Exact.one c) ≤ 6086656 :=
    tdiv_mem_of_mul_mem (by omega) (by omega) (by omega)
  have hblend : -6086656 ≤ Exact.blend (Exact.one c) s.toInt d.toInt ∧
      Exact.blend (Exact.one c) s.toInt d.toInt ≤ 6086656 := by
    unfold Exact.blend
    split_ifs <;> omega
  exact ⟨_, happly, toInt_narrow (Width.bits32_holds_iff.2 ⟨hblend.1.trans' (by decide),
    hblend.2.trans (by decide)⟩)⟩

end Blend

private theorem Plane.abs_grid_le {p : Plane} {g : Grid} {bound : Int} (hbound : ∀ x y, |g x y| ≤ bound)
    (hg : ∀ x y, p.extent.Contains x y → p.grid x y = g x y) (x y : Nat) :
    |p.grid x y| ≤ bound := by
  by_cases hin : p.extent.Contains x y
  · rw [hg x y hin]
    exact hbound x y
  · rw [grid, sample_of_not_contains hin]
    exact (abs_nonneg (g x y)).trans (hbound x y)

/-- A channel of samples up to 1024 passes through all stages without a fault, and at every place each
stage holds what its formula says. -/
theorem exists_gaussian_stages {source : Plane} {g : Grid} (c : Channel)
    (hbound : ∀ x y, |g x y| ≤ 1024)
    (hg : ∀ x y, source.extent.Contains x y → source.grid x y = g x y) :
    ∃ s : Kernel.gaussian.Stages (Blend.ofChannel c) source,
      ∀ x y, source.extent.Contains x y →
        s.smoothed.grid x y = Exact.smooth source.extent.width g x y ∧
          s.detail.grid x y = Exact.mask source.extent g x y ∧
            s.sharpened.grid x y = Exact.sharpen source.extent (Exact.one c) g x y := by
  obtain ⟨smoothed, hsmoothed, hrows⟩ := source.exists_samples (fun x y _ =>
    Kernel.gaussian_smooth_eq (x := x) (y := y) (Plane.abs_grid_le hbound hg))
  have hsmooth : ∀ x y, source.extent.Contains x y →
      smoothed.grid x y = Exact.smooth source.extent.width g x y := fun x y hin =>
    (hrows x y hin).2.trans (Exact.smooth_congr (fun x' hx' => hg x' y ⟨hx', hin.2⟩) hin.1)
  have hsmoothbound : ∀ x y, |Exact.smooth source.extent.width g x y| ≤ 1024 := fun x y =>
    abs_le.2 (Exact.smooth_mem (fun x y => abs_le.1 (hbound x y)) source.extent.width x y)
  obtain ⟨detail, hdetail, hcolumns⟩ := smoothed.exists_samples (fun x y _ =>
    Kernel.gaussian_detail_eq (x := x) (y := y)
      (Plane.abs_grid_le hsmoothbound (by rw [hsmoothed]; exact hsmooth)))
  rw [hsmoothed] at hdetail hcolumns
  have hmask : ∀ x y, source.extent.Contains x y →
      detail.grid x y = Exact.mask source.extent g x y := fun x y hin =>
    (hcolumns x y hin).2.trans (Exact.detail_congr (fun y' hy' => hsmooth x y' ⟨hin.1, hy'⟩) y)
  have hmaskbound : ∀ x y, |Exact.mask source.extent g x y| ≤ 1230 := fun x y =>
    abs_le.2 (Exact.detail_mem (fun x y => abs_le.1 (hsmoothbound x y)) (by decide) (by decide)
      source.extent.height x y)
  obtain ⟨sharpened, hsharpened, hblended⟩ := source.exists_samples (fun x y _ =>
    Blend.apply_eq (c := c) (Plane.abs_grid_le hbound hg x y)
      (Plane.abs_grid_le hmaskbound (by rw [hdetail]; exact hmask) x y))
  refine ⟨⟨smoothed, detail, sharpened, ?_, ?_, ?_⟩, fun x y hin => ⟨hsmooth x y hin,
    hmask x y hin, ?_⟩⟩
  · exact Plane.smoothRows_eq_ok_iff.2 ⟨rfl, hsmoothed, fun x y hin => (hrows x y hin).1⟩
  · refine Plane.detailColumns_eq_ok_iff.2 ⟨hdetail.trans hsmoothed.symm, fun x y hin => ?_⟩
    rw [hsmoothed] at hin
    exact (hcolumns x y hin).1
  · refine Plane.sharpen_eq_ok_iff.2 ⟨?_, hdetail, hsharpened, fun x y hin => (hblended x y hin).1⟩
    rw [Blend.scale_ofChannel]
    cases c <;> decide
  · have hplace := (hblended x y hin).2
    change _ = Exact.blend _ (source.grid x y) (detail.grid x y) at hplace
    rw [hg x y hin, hmask x y hin] at hplace
    exact hplace

end Acutance
