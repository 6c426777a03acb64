import Mathlib.Algebra.BigOperators.Fin
import Acutance.Proofs.Filter.Unsharp

namespace Acutance

namespace Kernel

variable {k : Kernel} {p : Plane} {x y : Nat}

/-- What a kernel is made of: its taps, and the sum of them to divide by. -/
theorem ofTaps_eq_ok_iff {taps : List Sample} :
    ofTaps taps = .ok k ↔ k.taps = taps ∧ k.norm = total taps := by
  constructor
  · intro h
    unfold ofTaps at h
    split_ifs at h with hodd hsum
    obtain rfl := Except.ok.inj h
    exact ⟨rfl, rfl⟩
  · rintro ⟨rfl, hnorm⟩
    have hsum : total k.taps ≠ 0 := hnorm ▸ k.norm_ne_zero
    rw [ofTaps, dif_pos k.odd, dif_neg hsum]
    simp only [← hnorm]

/-- A sum over the taps as they stand in their list. -/
theorem sum_map_taps (k : Kernel) (f : Int → Int) :
    (k.taps.map fun t => f t.toInt).sum = ∑ i ∈ Finset.range k.size, f (k.tap i) := by
  rw [size, Finset.sum_range, ← Fin.sum_univ_fun_getElem]
  refine Finset.sum_congr rfl fun i _ => ?_
  simp [tap]

theorem sum_eq (k : Kernel) : k.sum = ∑ i ∈ Finset.range k.size, k.tap i := by
  have hsum : k.sum = (k.taps.map fun t => t.toInt).sum := by
    rw [List.sum_eq_foldl, List.foldl_map]
    rfl
  rw [hsum, k.sum_map_taps fun t => t]

theorem norm_eq_sum {taps : List Sample} (hk : ofTaps taps = .ok k) :
    k.norm = ∑ i ∈ Finset.range k.size, k.tap i := by
  obtain ⟨rfl, hnorm⟩ := ofTaps_eq_ok_iff.1 hk
  exact hnorm.trans k.sum_eq

theorem mass_eq_sum (k : Kernel) : k.mass = (k.taps.map fun t => |t.toInt|).sum :=
  (k.sum_map_taps fun t => |t|).symm

theorem size_highpass (k : Kernel) : k.highpass.size = k.size := List.length_modify ..

theorem radius_highpass (k : Kernel) : k.highpass.radius = k.radius :=
  congrArg (· / 2) k.size_highpass

/-- Only the middle tap changes. -/
theorem get?_highpass_of_ne {i : Nat} (hi : i ≠ k.radius) : k.highpass.get? i = k.get? i := by
  simp [get?, highpass, hi.symm]

theorem tap_highpass_of_ne {i : Nat} (hi : i ≠ k.radius) : k.highpass.tap i = k.tap i := by
  simp [tap, highpass, hi.symm]

/-- The middle tap of the high-pass kernel is a sample, whatever is taken off it. -/
theorem mass_highpass_le (k : Kernel) : k.highpass.mass ≤ k.mass + 2147483648 := by
  have htap : ∀ i, |k.highpass.tap i| ≤ |k.tap i| + if i = k.radius then 2147483648 else 0 := by
    intro i
    by_cases hi : i = k.radius
    · rw [if_pos hi]
      exact (abs_toInt_le _).trans (le_add_of_nonneg_left (abs_nonneg _))
    · rw [tap_highpass_of_ne hi, if_neg hi, add_zero]
  calc k.highpass.mass
      ≤ ∑ i ∈ Finset.range k.size, (|k.tap i| + if i = k.radius then 2147483648 else 0) := by
        rw [mass, size_highpass]
        exact Finset.sum_le_sum fun i _ => htap i
    _ = k.mass + 2147483648 := by
        rw [Finset.sum_add_distrib, Finset.sum_ite_eq',
          if_pos (Finset.mem_range.2 k.radius_lt_size), mass]

section Moderate

variable (hmass : k.mass ≤ 1073741824)
  (hp : ∀ x y, p.extent.Contains x y → |p.grid x y| ≤ 1073741824) (hin : p.extent.Contains x y)
include hmass hp hin

/-- Moderate taps smooth moderate samples to what their weighted sum says. -/
theorem smooth_inside_of_moderate (hleft : k.radius ≤ x) (hright : x + k.radius < p.extent.width) :
    k.smooth p x y = .ok (narrow ((k.dot (fun x' => p.grid x' y) (x - k.radius)).tdiv k.norm)) := by
  refine smooth_inside_of_mass 1073741824 hleft hright (fun i hi => hp _ _ ⟨?_, hin.2⟩) (by omega)
  have hsize := k.size_eq
  omega

private theorem exists_smooth : ∃ s, k.smooth p x y = .ok s := by
  by_cases hedge : x < k.radius ∨ p.extent.width ≤ x + k.radius
  · exact ⟨_, smooth_edge hedge⟩
  · exact ⟨_, smooth_inside_of_moderate hmass hp hin (by omega) (by omega)⟩

end Moderate

/-- A kernel that fits between the top and the bottom of a plane is no longer than the plane is high, so
that even the samples that are added once per tap cannot leave a word. -/
theorem exists_detail (hpos : 0 < k.radius) (hmass : k.mass ≤ 3221225472)
    (hheight : p.extent.height ≤ Capacity.maxHeight) (x y : Nat) : ∃ d, k.detail p x y = .ok d := by
  by_cases hedge : y < k.radius ∨ p.extent.height ≤ y + k.radius
  · exact ⟨_, detail_edge hedge⟩
  · have hsize := k.size_eq
    have hlimit : Capacity.maxHeight = 1025 := by decide
    exact ⟨_, detail_inside_of_mass 2147483648 hpos (by omega) (by omega)
      (fun i _ => abs_toInt_le _) (by omega)⟩

section OneTap

variable (hone : k.size = 1)
include hone

private theorem radius_of_size_eq_one : k.radius = 0 := by
  have hsize := k.size_eq
  omega

/-- A kernel of one tap that divides by it leaves every sample as it is. -/
theorem smooth_of_size_eq_one (hnorm : k.norm = k.tap 0) (hmass : k.mass ≤ 1073741824)
    (hp : ∀ x y, p.extent.Contains x y → |p.grid x y| ≤ 1073741824) (hin : p.extent.Contains x y) :
    k.smooth p x y = .ok (p.sample x y) := by
  have hradius := radius_of_size_eq_one hone
  have hx := hin.1
  have hsmooth := smooth_inside_of_moderate hmass hp hin (by omega) (by omega)
  have hdot : k.dot (fun x' => p.grid x' y) (x - k.radius) = k.norm * p.grid x y := by
    simp [dot, hone, hradius, hnorm]
  rw [hdot, Int.mul_tdiv_cancel_left _ k.norm_ne_zero] at hsmooth
  rw [hsmooth]
  exact congrArg _ (Int32.ofInt_toInt _)

/-- The sum of one tap is a word, and then there is no row to leave the window. -/
theorem detail_of_size_eq_one (hy : y < p.extent.height) :
    k.detail p x y = .error .emptyWindow := by
  have hradius := radius_of_size_eq_one hone
  have hsum : ∑ i ∈ Finset.range k.size, |(p.sample x y).toInt +
      k.tap i * (p.sample x (y - k.radius + i)).toInt| ≤ 9223372036854775807 := by
    have hsample := abs_toInt_le (p.sample x y)
    have hproduct := abs_sample_mul_le (k.taps.getD 0 0) (p.sample x y)
    rw [hone, hradius, Finset.sum_range_one]
    exact (abs_add_le _ _).trans (by simp only [tap, Nat.sub_zero, Nat.add_zero]; omega)
  rw [detail_inside (by omega) (by omega), columnWindow, weighBiased_of_abs_le (p.sample x y) hsum]
  simp only [bind, Except.bind, if_pos hradius]

/-- The column pass of one tap stops in the first row of the first column. -/
theorem detailColumns_of_size_eq_one (p : Plane) : p.detailColumns k = .error .emptyWindow := by
  have hradius := radius_of_size_eq_one hone
  obtain ⟨hwidth, hheight⟩ := p.nonempty
  have hrow := (SweptTo.start k p 0).sweepRow_eq le_rfl (by omega)
  rw [detail_of_size_eq_one hone (by omega)] at hrow
  have hcolumn : k.sweepColumn p 0 = .error .emptyWindow := by
    obtain ⟨rest, hrest⟩ : ∃ rest, p.extent.height - 2 * k.radius = rest + 1 :=
      ⟨p.extent.height - 1, by omega⟩
    rw [sweepColumn, if_neg (by omega), bind_eq_error_iff, hrest, List.range'_succ,
      List.foldlM_cons, hrow]
    exact .inl rfl
  obtain ⟨rest, hrest⟩ : ∃ rest, p.extent.width = rest + 1 := ⟨p.extent.width - 1, by omega⟩
  rw [Plane.detailColumns, hrest, List.range_eq_range', List.range'_succ, List.foldlM_cons, hcolumn]
  rfl

end OneTap

end Kernel

namespace Plane

variable {k : Kernel} {source smoothed : Plane}

private theorem exists_smoothRows (hmass : k.mass ≤ 1073741824)
    (hsource : ∀ x y, source.extent.Contains x y → |source.grid x y| ≤ 1073741824) :
    ∃ smoothed, source.smoothRows k source = .ok smoothed := by
  obtain ⟨smoothed, hextent, hsmooth⟩ := source.exists_samples
    fun _ _ hin => Kernel.exists_smooth hmass hsource hin
  exact ⟨smoothed, smoothRows_eq_ok_iff.2 ⟨rfl, hextent, hsmooth⟩⟩

private theorem exists_detailColumns (hpos : 0 < k.radius) (hmass : k.mass ≤ 3221225472)
    (hheight : smoothed.extent.height ≤ Capacity.maxHeight) :
    ∃ mask, smoothed.detailColumns k = .ok mask := by
  obtain ⟨mask, hextent, hdetail⟩ := smoothed.exists_samples
    fun x y _ => Kernel.exists_detail (p := smoothed) hpos hmass hheight x y
  exact ⟨mask, detailColumns_eq_ok_iff.2 ⟨hextent, hdetail⟩⟩

end Plane

namespace Engine

variable {k : Kernel} {e : Extent} {source smoothed mask : Plane} {taps : List Sample}

/-- An engine that stops in the columns is left with the smoothed rows. -/
theorem build_of_detailColumns_eq_error {fault : Fault}
    (hrows : source.smoothRows k mask = .ok smoothed)
    (hcolumns : smoothed.detailColumns k.highpass = .error fault) :
    build source ⟨k, mask⟩ = .error (.fault fault) ⟨k, smoothed⟩ := by
  have hfirst : (Edit.update fun engine => do
      let mask ← source.smoothRows engine.kernel engine.mask
      return { engine with mask } : Edit Engine FilterError Unit) ⟨k, mask⟩ =
        .ok () ⟨k, smoothed⟩ :=
    Edit.update_eq_ok_iff.2 (bind_eq_ok_iff.2 ⟨smoothed, hrows, rfl⟩)
  rw [build, Edit.bind_of_eq_ok hfirst]
  simp only [Edit.update, hcolumns]
  rfl

/-- An engine can be made of every kernel with taps whose magnitudes add up to at most `2 ^ 30`, for every
extent that an image may have. It leaves the detail of every plane of samples of at most that magnitude
when the kernel has taps around the middle one. A kernel of one tap is refused by nothing, but has no
window: the engine smooths the rows, which leaves them as they are, and stops in the columns. -/
theorem build_of_ofTaps (hk : Kernel.ofTaps taps = .ok k)
    (htaps : (taps.map fun t => |t.toInt|).sum ≤ 1073741824) (he : e.check = .ok ())
    (hextent : source.extent = e)
    (hsource : ∀ x y, e.Contains x y → |(source.sample x y).toInt| ≤ 1073741824) :
    ∃ engine, ofExtent k e = .ok engine ∧
      (taps.length ≠ 1 → ∃ mask, mask.extent = e ∧ build source engine = .ok () ⟨k, mask⟩) ∧
      (taps.length = 1 → build source engine = .error (.fault .emptyWindow) ⟨k, source⟩) := by
  subst hextent
  obtain ⟨rfl, hnorm⟩ := Kernel.ofTaps_eq_ok_iff.1 hk
  have haccepted := Extent.check_eq_ok_iff.1 he
  have hmass : k.mass ≤ 1073741824 := by
    rw [k.mass_eq_sum]
    exact htaps
  obtain ⟨mask, hzeros, hmask⟩ := Plane.exists_zeros haccepted
  refine ⟨⟨k, mask⟩, ofExtent_eq_ok_iff.2 ⟨mask, hzeros, rfl⟩, fun hlength => ?_, fun hlength => ?_⟩
  · -- the smoothed samples can be any at all, so the bound on the source says nothing for the columns
    obtain ⟨smoothed, hrows⟩ := Plane.exists_smoothRows hmass hsource
    have hsmoothed := (Plane.smoothRows_eq_ok_iff.1 hrows).2.1
    have hpos : 0 < k.highpass.radius := by
      have hodd := k.size_eq
      rw [k.radius_highpass]
      unfold Kernel.size at hodd
      omega
    obtain ⟨detail, hcolumns⟩ := Plane.exists_detailColumns hpos
      (k.mass_highpass_le.trans (by omega)) (hsmoothed ▸ haccepted.le.2)
    exact ⟨detail, (Plane.detailColumns_eq_ok_iff.1 hcolumns).1.trans hsmoothed,
      build_eq_ok_iff.2 ⟨hmask, rfl, smoothed, hrows, hcolumns⟩⟩
  · have hdivisor : k.norm = k.tap 0 := by
      obtain ⟨t, ht⟩ := List.length_eq_one_iff.1 hlength
      simp [hnorm, Kernel.tap, Kernel.total, ht]
    have hrows : source.smoothRows k mask = .ok source :=
      Plane.smoothRows_eq_ok_iff.2 ⟨hmask, rfl, fun x y hin =>
        Kernel.smooth_of_size_eq_one hlength hdivisor hmass hsource hin⟩
    exact build_of_detailColumns_eq_error hrows
      (Kernel.detailColumns_of_size_eq_one (k.size_highpass.trans hlength) source)

/-- Three taps that smooth gently. -/
def gentle : Kernel := ⟨[3, 10, 3], 16, rfl, by decide⟩

/-- One tap, which leaves every row as it is. -/
def lone : Kernel := ⟨[5], 5, rfl, by decide⟩

/-- A plane with samples of both signs. -/
def relief : Plane := ⟨⟨3, 4⟩, by decide, #v[7, -8, 40, 0, 300, -2, 65, 1, 9, -1073741824, 5, 12]⟩

private theorem relief_bounded : ∀ x y, relief.extent.Contains x y →
    |(relief.sample x y).toInt| ≤ 1073741824 := by
  rintro x y ⟨hx, hy⟩
  have hall : ∀ x < 3, ∀ y < 4, |(relief.sample x y).toInt| ≤ 1073741824 := by decide
  exact hall x hx y hy

theorem build_of_ofTaps_gentle : Kernel.ofTaps [3, 10, 3] = .ok gentle ∧
    relief.extent.check = .ok () ∧ ∃ engine mask, ofExtent gentle relief.extent = .ok engine ∧
      mask.extent = relief.extent ∧ build relief engine = .ok () ⟨gentle, mask⟩ := by
  have hk : Kernel.ofTaps [3, 10, 3] = .ok gentle := by decide
  have he : relief.extent.check = .ok () := by decide
  obtain ⟨engine, hengine, hbuild, -⟩ := build_of_ofTaps hk (by decide) he rfl relief_bounded
  obtain ⟨mask, hmask, hend⟩ := hbuild (by decide)
  exact ⟨hk, he, engine, mask, hengine, hmask, hend⟩

/-- No bound is broken, and no argument refused, when an engine stops over a kernel of one tap. -/
theorem build_lone_stops : Kernel.ofTaps [5] = .ok lone ∧
    (lone.taps.map fun t => |t.toInt|).sum ≤ 1073741824 ∧ relief.extent.check = .ok () ∧
    (∀ x y, relief.extent.Contains x y → |(relief.sample x y).toInt| ≤ 1073741824) ∧
    ∃ engine, ofExtent lone relief.extent = .ok engine ∧
      build relief engine = .error (.fault .emptyWindow) ⟨lone, relief⟩ := by
  have he : relief.extent.check = .ok () := by decide
  obtain ⟨mask, hzeros, hmask⟩ := Plane.exists_zeros (Extent.check_eq_ok_iff.1 he)
  have hrows : relief.smoothRows lone mask = .ok relief := by
    refine Plane.smoothRows_eq_ok_iff.2 ⟨hmask, rfl, fun x y hin => ?_⟩
    exact Kernel.smooth_of_size_eq_one rfl rfl (by decide) relief_bounded hin
  exact ⟨by decide, by decide, he, relief_bounded, ⟨lone, mask⟩, ofExtent_eq_ok_iff.2 ⟨mask, hzeros, rfl⟩,
    build_of_detailColumns_eq_error hrows (Kernel.detailColumns_of_size_eq_one rfl relief)⟩

end Engine

end Acutance
