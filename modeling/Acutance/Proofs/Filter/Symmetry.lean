import Acutance.Proofs.Filter.Unsharp
import Acutance.Proofs.Raster.Reflection

namespace Acutance

namespace Kernel

variable {k : Kernel}

private theorem IsSymmetric.getElem_eq (hk : k.IsSymmetric) {i : Nat} (hi : i < k.taps.length)
    (hi' : k.taps.length - 1 - i < k.taps.length) :
    k.taps[k.taps.length - 1 - i] = k.taps[i] := by
  have hreverse := List.getElem_reverse (l := k.taps) (i := i) (by rw [List.length_reverse]; exact hi)
  rw [← hreverse]
  exact List.getElem_of_eq hk.symm _

/-- The middle tap stays in the middle, so the high-pass kernel is symmetric when its origin is. -/
theorem IsSymmetric.highpass (hk : k.IsSymmetric) : k.highpass.IsSymmetric := by
  have hsize := k.size_eq
  rw [size] at hsize
  change k.taps.modify k.radius _ = (k.taps.modify k.radius _).reverse
  apply List.ext_getElem
  · simp
  · intro i hi _
    rw [List.length_modify] at hi
    rw [List.getElem_reverse, List.getElem_modify, List.getElem_modify]
    simp only [List.length_modify, hk.getElem_eq hi (by omega)]
    by_cases hmiddle : k.radius = i
    · rw [if_pos hmiddle, if_pos (by omega)]
    · rw [if_neg hmiddle, if_neg (by omega)]

private theorem IsSymmetric.tap_eq (hk : k.IsSymmetric) {i : Nat} (hi : i < k.size) :
    k.tap (k.size - 1 - i) = k.tap i := by
  have hlt : i < k.taps.length := hi
  have hlt' : k.taps.length - 1 - i < k.taps.length := by omega
  have htaps := hk.getElem_eq hlt hlt'
  simp only [tap, size, List.getD_eq_getElem?_getD, List.getElem?_eq_getElem hlt,
    List.getElem?_eq_getElem hlt', htaps]

/-- A line that is turned around under the taps has the same weighted sum. -/
theorem IsSymmetric.dot_eq (hk : k.IsSymmetric) {line line' : Nat → Int} {start start' : Nat}
    (h : ∀ i < k.size, line' (start' + i) = line (start + (k.size - 1 - i))) :
    k.dot line' start' = k.dot line start := by
  rw [dot, dot, ← Finset.sum_range_reflect (fun i => k.tap i * line (start + i))]
  refine Finset.sum_congr rfl fun i hi => ?_
  have hlt := Finset.mem_range.1 hi
  rw [h i hlt, hk.tap_eq hlt]

section Passes

variable {p : Plane} {x y : Nat}

/-- The row pass turns every window around, or takes it from another row. -/
theorem IsSymmetric.smooth_reflect (hk : k.IsSymmetric) (r : Reflection)
    (hin : p.extent.Contains x y) {s s' : Sample}
    (hs : k.smooth p (r.column p.extent x) (r.row p.extent y) = .ok s)
    (hs' : k.smooth (p.reflect r) x y = .ok s') : s' = s := by
  have hsize := k.size_eq
  by_cases hedge : x < k.radius ∨ p.extent.width ≤ x + k.radius
  · have hedge' : r.column p.extent x < k.radius ∨
        p.extent.width ≤ r.column p.extent x + k.radius := by
      have hx := hin.1
      cases r <;> simp only [Reflection.column] <;> omega
    rw [smooth_edge hedge'] at hs
    rw [smooth_edge (p := p.reflect r) hedge] at hs'
    obtain rfl := Except.ok.inj hs
    obtain rfl := Except.ok.inj hs'
    exact Plane.sample_reflect r hin
  · have hleft : k.radius ≤ x := by omega
    have hright : x + k.radius < p.extent.width := by omega
    have hwindow : ∀ i < k.size, (p.reflect r).grid (x - k.radius + i) y =
        p.grid (r.column p.extent (x - k.radius + i)) (r.row p.extent y) := fun i hi =>
      Plane.grid_reflect r ⟨by omega, hin.2⟩
    rw [smooth_inside_eq_ok (p := p.reflect r) hleft hright hs']
    -- only a mirrored row is read backwards under the taps
    cases r with
    | mirror =>
      simp only [Reflection.column, Reflection.row] at hs hwindow
      rw [smooth_inside_eq_ok (by omega) (by omega) hs]
      congr 2
      refine hk.dot_eq fun i hi => ?_
      rw [hwindow i hi]
      congr 1
      omega
    | flip =>
      simp only [Reflection.column, Reflection.row] at hs hwindow
      rw [smooth_inside_eq_ok hleft hright hs]
      congr 2
      exact dot_congr hwindow

/-- The column pass takes every window from another column, or turns it around. -/
theorem IsSymmetric.detail_reflect (hk : k.IsSymmetric) (r : Reflection)
    (hin : p.extent.Contains x y) {d d' : Sample}
    (hd : k.detail p (r.column p.extent x) (r.row p.extent y) = .ok d)
    (hd' : k.detail (p.reflect r) x y = .ok d') : d' = d := by
  have hsize := k.size_eq
  by_cases hedge : y < k.radius ∨ p.extent.height ≤ y + k.radius
  · have hedge' : r.row p.extent y < k.radius ∨
        p.extent.height ≤ r.row p.extent y + k.radius := by
      have hy := hin.2
      cases r <;> simp only [Reflection.row] <;> omega
    rw [detail_edge hedge'] at hd
    rw [detail_edge (p := p.reflect r) hedge] at hd'
    exact Except.ok.inj (hd'.symm.trans hd)
  · have htop : k.radius ≤ y := by omega
    have hbottom : y + k.radius < p.extent.height := by omega
    have hwindow : ∀ i < k.size, (p.reflect r).grid x (y - k.radius + i) =
        p.grid (r.column p.extent x) (r.row p.extent (y - k.radius + i)) := fun i hi =>
      Plane.grid_reflect r ⟨hin.1, by omega⟩
    rw [detail_inside_eq_ok (p := p.reflect r) htop hbottom hd', Plane.grid_reflect r hin]
    -- only a flipped column is read backwards under the taps
    cases r with
    | mirror =>
      simp only [Reflection.column, Reflection.row] at hd hwindow ⊢
      rw [detail_inside_eq_ok htop hbottom hd]
      congr 3
      exact dot_congr hwindow
    | flip =>
      simp only [Reflection.column, Reflection.row] at hd hwindow ⊢
      rw [detail_inside_eq_ok (by omega) (by omega) hd]
      congr 3
      refine hk.dot_eq fun i hi => ?_
      rw [hwindow i hi]
      congr 1
      omega

end Passes

namespace Stages

variable {b : Blend} {source : Plane}

private theorem smoothed_reflect (hk : k.IsSymmetric) (r : Reflection) (s : k.Stages b source)
    (s' : k.Stages b (source.reflect r)) : s'.smoothed = s.smoothed.reflect r := by
  have hextent := s.smoothed_extent
  refine Plane.ext_sample (s'.smoothed_extent.trans hextent.symm) fun x y hin => ?_
  rw [s'.smoothed_extent, Plane.extent_reflect] at hin
  rw [Plane.sample_reflect r (by rw [hextent]; exact hin), hextent]
  have hin' : (source.reflect r).extent.Contains x y := hin
  exact hk.smooth_reflect r hin (s.smooth_eq (r.contains hin)) (s'.smooth_eq hin')

private theorem detail_reflect (hk : k.IsSymmetric) (r : Reflection) (s : k.Stages b source)
    (s' : k.Stages b (source.reflect r)) : s'.detail = s.detail.reflect r := by
  have hextent := s.detail_extent
  refine Plane.ext_sample (s'.detail_extent.trans hextent.symm) fun x y hin => ?_
  rw [s'.detail_extent, Plane.extent_reflect] at hin
  have hdetail := s.highpass_detail_eq (r.contains hin)
  have hin' : (source.reflect r).extent.Contains x y := hin
  have hdetail' := s'.highpass_detail_eq hin'
  rw [smoothed_reflect hk r s s'] at hdetail'
  rw [Plane.sample_reflect r (by rw [hextent]; exact hin), hextent]
  refine hk.highpass.detail_reflect r (by rw [s.smoothed_extent]; exact hin) ?_ hdetail'
  rw [s.smoothed_extent]
  exact hdetail

/-- The stages of a reflected channel are the reflected stages. -/
theorem sharpened_reflect (hk : k.IsSymmetric) (r : Reflection) (s : k.Stages b source)
    (s' : k.Stages b (source.reflect r)) : s'.sharpened = s.sharpened.reflect r := by
  have hextent := s.sharpened_extent
  refine Plane.ext_sample (s'.sharpened_extent.trans hextent.symm) fun x y hin => ?_
  rw [s'.sharpened_extent, Plane.extent_reflect] at hin
  have happly := s.apply_eq (r.contains hin)
  have hin' : (source.reflect r).extent.Contains x y := hin
  have happly' := s'.apply_eq hin'
  rw [detail_reflect hk r s s', Plane.sample_reflect r hin,
    Plane.sample_reflect r (by rw [s.detail_extent]; exact hin), s.detail_extent] at happly'
  rw [Plane.sample_reflect r (by rw [hextent]; exact hin), hextent]
  exact Except.ok.inj (happly'.symm.trans happly)

end Stages

end Kernel

/-- Sharpening with a symmetric kernel commutes with both reflections wherever both sides have a
value. -/
theorem unsharp_reflect {k : Kernel} (hk : k.IsSymmetric) (r : Reflection) {a b b' : Image}
    {u u' : Unit} (h : unsharp k a = .ok u b) (h' : unsharp k (a.reflect r) = .ok u' b') :
    b' = b.reflect r := by
  obtain ⟨-, hspace, hextent, hstages⟩ := unsharp_eq_ok_iff.1 h
  obtain ⟨-, hspace', hextent', hstages'⟩ := unsharp_eq_ok_iff.1 h'
  refine Image.ext_channel (hextent'.trans hextent.symm) (hspace'.trans hspace.symm) fun c => ?_
  obtain ⟨s, hs⟩ := hstages c
  obtain ⟨s', hs'⟩ := hstages' c
  rw [Image.channel_reflect, ← hs, ← hs']
  -- the type of `s'` names the channel that is rewritten
  revert s'
  rw [Image.channel_reflect]
  intro s' _
  exact s.sharpened_reflect hk r s'

end Acutance
