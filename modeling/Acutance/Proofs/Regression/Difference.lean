import Acutance.Proofs.Loop
import Acutance.Proofs.Raster.Access
import Acutance.Regression

namespace Acutance

/-- Of two places the one with the smaller number is in a row further above, or in the same row further left. -/
theorem Extent.index_lt_index_iff {e : Extent} {x y x' y' : Nat} (hx : x < e.width) (hx' : x' < e.width) :
    e.index x' y' < e.index x y ↔ y' < y ∨ y' = y ∧ x' < x := by
  have hrow {top bottom : Nat} (h : top < bottom) : top * e.width + e.width ≤ bottom * e.width := by
    rw [← Nat.succ_mul]
    exact Nat.mul_le_mul_right _ h
  rw [index, index]
  rcases Nat.lt_trichotomy y' y with habove | rfl | hbelow
  · have hend := hrow habove
    omega
  · omega
  · have hend := hrow hbelow
    omega

theorem Image.eq_iff_samples {a b : Image} :
    a = b ↔ a.extent = b.extent ∧ a.space = b.space ∧ a.samples = b.samples := by
  constructor
  · rintro rfl
    exact ⟨rfl, rfl, rfl⟩
  · rintro ⟨hextent, hspace, hsamples⟩
    exact ext_samples hextent hspace hsamples

private theorem Plane.sample_eq_of_rowSamples_eq {p q : Plane} {x y : Nat} (hextent : p.extent = q.extent)
    (hrow : p.rowSamples y = q.rowSamples y) (hx : x < p.extent.width) :
    p.sample x y = q.sample x y := by
  rw [rowSamples, rowSamples, ← hextent] at hrow
  exact List.map_inj_left.1 hrow x (List.mem_range.2 hx)

namespace Check

variable {a b : Image} {p q : Plane} {x y : Nat}

/-- The first place where two images differ: they agree in all rows above, and in its row further left. -/
structure FirstDifference (a b : Image) (x y : Nat) : Prop where
  contains : a.extent.Contains x y
  differs : a.get? x y ≠ b.get? x y
  agrees : ∀ x' y', a.extent.Contains x' y' → y' < y ∨ y' = y ∧ x' < x → a.get? x' y' = b.get? x' y'

theorem firstDifference?_eq_some_iff :
    firstDifference? a b = some (x, y) ↔ FirstDifference a b x y := by
  rw [firstDifference?, Option.map_eq_some_iff]
  simp only [List.find?_range_eq_some, List.mem_range, decide_eq_true_eq, Bool.not_eq_true',
    decide_eq_false_iff_not, ne_eq, Decidable.not_not]
  constructor
  · rintro ⟨i, ⟨hdiffers, hi, hagrees⟩, hplace⟩
    obtain ⟨rfl, rfl⟩ := Prod.mk.inj hplace
    have hin := Extent.contains_of_lt_area hi
    refine ⟨hin, hdiffers, fun x' y' hin' hbefore => ?_⟩
    rw [← Extent.index_lt_index_iff hin.1 hin'.1, Extent.index_mod_div] at hbefore
    have hsame := hagrees _ hbefore
    rwa [Extent.index_mod hin'.1, Extent.index_div hin'.1] at hsame
  · rintro ⟨hin, hdiffers, hagrees⟩
    have hcolumn := Extent.index_mod (y := y) hin.1
    have hrow := Extent.index_div (y := y) hin.1
    refine ⟨a.extent.index x y, ⟨by rwa [hcolumn, hrow], Extent.index_lt_area hin, fun j hj => ?_⟩,
      by rw [hcolumn, hrow]⟩
    have hin' := Extent.contains_of_lt_area (Nat.lt_trans hj (Extent.index_lt_area hin))
    refine hagrees _ _ hin' ((Extent.index_lt_index_iff hin.1 hin'.1).1 ?_)
    rwa [Extent.index_mod_div]

/-- No place is found in images of one shape only when they are equal. -/
theorem firstDifference?_eq_none_iff (hextent : a.extent = b.extent) (hspace : a.space = b.space) :
    firstDifference? a b = none ↔ a = b := by
  rw [firstDifference?, Option.map_eq_none_iff, List.find?_range_eq_none]
  simp only [Bool.not_eq_true', decide_eq_false_iff_not, ne_eq, Decidable.not_not]
  constructor
  · intro hagrees
    refine Image.ext_pixel hextent hspace fun x y hin => ?_
    have hsame := hagrees _ (Extent.index_lt_area hin)
    rw [Extent.index_mod hin.1, Extent.index_div hin.1] at hsame
    rw [Image.pixel, Image.pixel, hsame]
  · rintro rfl i -
    rfl

/-- The first row where two planes differ. -/
structure FirstRow (p q : Plane) (y : Nat) : Prop where
  inside : y < p.extent.height
  differs : p.rowSamples y ≠ q.rowSamples y
  agrees : ∀ y' < y, p.rowSamples y' = q.rowSamples y'

theorem firstRow?_eq_some_iff : firstRow? p q = some y ↔ FirstRow p q y := by
  rw [firstRow?]
  simp only [List.find?_range_eq_some, List.mem_range, decide_eq_true_eq, Bool.not_eq_true',
    decide_eq_false_iff_not, ne_eq, Decidable.not_not]
  exact ⟨fun h => ⟨h.2.1, h.1, h.2.2⟩, fun h => ⟨h.differs, h.inside, h.agrees⟩⟩

/-- No row is found in planes of one extent only when they are equal. -/
theorem firstRow?_eq_none_iff (hextent : p.extent = q.extent) : firstRow? p q = none ↔ p = q := by
  rw [firstRow?, List.find?_range_eq_none]
  simp only [Bool.not_eq_true', decide_eq_false_iff_not, ne_eq, Decidable.not_not]
  constructor
  · intro hagrees
    exact Plane.ext_sample hextent fun x y hin =>
      Plane.sample_eq_of_rowSamples_eq hextent (hagrees y hin.2) hin.1
  · rintro rfl i -
    rfl

/-- The search for a place is a loop over the rows with a loop over the columns inside. -/
theorem firstDifference?_eq_rows (a b : Image) : firstDifference? a b =
    (List.range a.extent.height).findSome? fun y => (List.range a.extent.width).findSome? fun x =>
      if a.get? x y ≠ b.get? x y then some (x, y) else none := by
  have hplaces : firstDifference? a b = ((List.range a.extent.area).map fun i =>
      (i % a.extent.width, i / a.extent.width)).find? fun place =>
        a.get? place.1 place.2 ≠ b.get? place.1 place.2 := by
    rw [List.find?_map]
    rfl
  rw [hplaces, Extent.map_range_area_mod_div _ Prod.mk, List.find?_flatMap]
  congr 1
  funext y
  rw [← List.findSome?_guard, List.findSome?_map]
  congr 1
  funext x
  simp [Option.guard]

end Check

namespace ImageBuffer

variable {ε : Type}

/-- Looks for a place where two images differ, pixel by pixel and row by row. -/
def firstDifference? (a b : ImageBuffer) : Run (Flaw ε) (Option (Nat × Nat)) :=
  (List.range a.extent.height).findSomeM? fun y => (List.range a.extent.width).findSomeM? fun x => do
    let p ← a.get? x y
    let q ← b.get? x y
    return if p ≠ q then some (x, y) else none

end ImageBuffer

/-- The loops over two images in buffers find the place that is found in the images. -/
theorem Image.firstDifference?_buffer {ε : Type} (a b : Image) :
    (a.buffer.firstDifference? b.buffer : Run (Flaw ε) (Option (Nat × Nat))) =
      .ok (Check.firstDifference? a b) := by
  rw [Check.firstDifference?_eq_rows]
  refine findSomeM?_eq_ok fun y _ => findSomeM?_eq_ok fun x _ => ?_
  rw [a.get?_buffer, b.get?_buffer]
  rfl

namespace PlaneBuffer

variable {ε : Type}

/-- Looks for a row where two planes differ. -/
def firstRow? (p q : PlaneBuffer) : Run (Flaw ε) (Option Nat) :=
  (List.range p.extent.height).findSomeM? fun y => do
    let expected ← p.row y
    let actual ← q.row y
    return if expected ≠ actual then some y else none

end PlaneBuffer

/-- The loop over the rows of two planes in buffers finds the row that is found in the planes. -/
theorem Plane.firstRow?_buffer {ε : Type} {p q : Plane} (hextent : p.extent = q.extent) :
    (p.buffer.firstRow? q.buffer : Run (Flaw ε) (Option Nat)) = .ok (Check.firstRow? p q) := by
  have hfind : Check.firstRow? p q = (List.range p.extent.height).findSome? fun y =>
      if (p.rowSamples y).toArray ≠ (q.rowSamples y).toArray then some y else none := by
    rw [Check.firstRow?, ← List.findSome?_guard]
    congr 1
    funext y
    simp [Option.guard]
  rw [hfind]
  refine findSomeM?_eq_ok fun y hy => ?_
  have hinside := List.mem_range.1 hy
  rw [p.row_buffer hinside, q.row_buffer (hextent ▸ hinside)]
  rfl

end Acutance
