import Acutance.Proofs.Grid

namespace Acutance

/-- A rectangle of at least one place inside an extent, and how far it lies from the left and from
the top. -/
structure Tile (e : Extent) where
  left : Nat
  top : Nat
  extent : Extent
  nonempty : extent.Nonempty
  right_le : left + extent.width ≤ e.width
  bottom_le : top + extent.height ≤ e.height

namespace Tile

variable {e : Extent}

/-- A tile is no larger than the extent that it lies in. -/
theorem accepted (t : Tile e) (h : e.Accepted) : t.extent.Accepted := by
  obtain ⟨-, hwidth, himage, hscratch⟩ := h
  have hright := t.right_le
  have hbottom := t.bottom_le
  refine ⟨t.nonempty, by omega, ?_, ?_⟩
  · exact Nat.le_trans (Nat.mul_le_mul_right _ (by omega)) himage
  · exact Nat.le_trans (Nat.mul_le_mul_right _ (by omega)) hscratch

theorem contains (t : Tile e) {x y : Nat} (hin : t.extent.Contains x y) :
    e.Contains (t.left + x) (t.top + y) := by
  obtain ⟨hx, hy⟩ := hin
  have hright := t.right_le
  have hbottom := t.bottom_le
  exact ⟨by omega, by omega⟩

/-- On each of the four sides, a place of the tile is three places of the tile away from that side,
or else the side is a side of the whole extent. -/
structure Sees (t : Tile e) (x y : Nat) : Prop where
  inside : t.extent.Contains x y
  left : 3 ≤ x ∨ t.left = 0
  right : x + 3 < t.extent.width ∨ t.left + t.extent.width = e.width
  top : 3 ≤ y ∨ t.top = 0
  bottom : y + 3 < t.extent.height ∨ t.top + t.extent.height = e.height

end Tile

namespace Image

/-- The part of an image in a tile. -/
def crop (image : Image) (t : Tile image.extent) : Image where
  extent := t.extent
  space := image.space
  pixels := t.extent.tabulate fun x y => image.pixel (t.left + x) (t.top + y)
  accepted := t.accepted image.accepted

private theorem pixel_crop {image : Image} (t : Tile image.extent) {x y : Nat}
    (hin : t.extent.Contains x y) :
    (image.crop t).pixel x y = image.pixel (t.left + x) (t.top + y) := by
  rw [crop, pixel_mk hin, Extent.get_tabulate hin]

theorem grid_crop {image : Image} (t : Tile image.extent) (c : Channel) {x y : Nat}
    (hin : t.extent.Contains x y) :
    (image.crop t).grid c x y = image.grid c (t.left + x) (t.top + y) :=
  pixel_eq_iff_grid.1 (pixel_crop t hin) c

end Image

end Acutance
