import Acutance.Proofs.Enhance.ClosedForm
import Acutance.Proofs.Exact.Window
import Acutance.Proofs.Raster.Tile

namespace Acutance

/-- Two enhanced images agree at matched places when the images agree around these. -/
theorem pixel_enhance_eq {a b a' b' : Image} {x y x' y' : Nat}
    (hmatch : Exact.Matched a.extent b.extent x y x' y')
    (ha : ∀ c, a'.grid c x y = Exact.enhance a.extent a.grid c x y)
    (hb : ∀ c, b'.grid c x' y' = Exact.enhance b.extent b.grid c x' y')
    (hagree : ∀ c, Exact.AgreeAround a.extent b.extent x y x' y' (a.grid c) (b.grid c)) :
    a'.pixel x y = b'.pixel x' y' := by
  refine Image.pixel_eq_iff_grid.2 fun c => ?_
  rw [ha, hb, Exact.enhance_eq_of_agreeAround hmatch hagree]

namespace Tile

variable {e : Extent} {t : Tile e} {x y : Nat}

/-- A place that a tile sees as far as the extent is near the same edges in both. -/
theorem Sees.matched (h : t.Sees x y) :
    Exact.Matched t.extent e x y (t.left + x) (t.top + y) := by
  obtain ⟨hin, hleft, hright, htop, hbottom⟩ := h
  have hright' := t.right_le
  have hbottom' := t.bottom_le
  refine ⟨hin, t.contains hin, ⟨?_, ?_⟩, ⟨?_, ?_⟩⟩ <;> omega

end Tile

private theorem crop_agreeAround {image : Image} (t : Tile image.extent) (c : Channel) (x y : Nat) :
    Exact.AgreeAround t.extent image.extent x y (t.left + x) (t.top + y)
      ((image.crop t).grid c) (image.grid c) := by
  intro u v u' v' hu hv hin _
  have hcolumn : u' = t.left + u := by
    have := hu.shift_eq
    omega
  have hrow : v' = t.top + v := by
    have := hv.shift_eq
    omega
  rw [Image.grid_crop t c hin, hcolumn, hrow]

/-- Two images agree at most three columns and rows away from a place. -/
def Image.AgreeNear (a b : Image) (x y : Nat) : Prop :=
  ∀ u v, a.extent.Contains u v → x ≤ u + 3 → u ≤ x + 3 → y ≤ v + 3 → v ≤ y + 3 →
    a.pixel u v = b.pixel u v

private theorem Image.AgreeNear.agreeAround {a b : Image} {x y : Nat} (h : a.AgreeNear b x y)
    (c : Channel) : Exact.AgreeAround a.extent b.extent x y x y (a.grid c) (b.grid c) := by
  intro u v u' v' hu hv hin _
  have hcolumn : u' = u := by
    have := hu.shift_eq
    omega
  have hrow : v' = v := by
    have := hv.shift_eq
    omega
  rw [hcolumn, hrow]
  exact Image.pixel_eq_iff_grid.1
    (h u v hin hu.start_le hu.le_end hv.start_le hv.le_end) c

/-- A tile of an image is enhanced like the image itself, at every place of the tile that sees as far
in it as in the image. And an enhanced place depends on no pixel that is more than three columns or
three rows away. What is enhanced keeps its extent, so that all the places compared are inside. -/
theorem enhance_tiles {image : Image} (hrgb : image.space = .rgb) :
    ∃ out, enhance image = .ok () out ∧ out.extent = image.extent ∧
      (∀ t : Tile image.extent, ∃ part, enhance (image.crop t) = .ok () part ∧
        part.extent = t.extent ∧
          ∀ x y, t.Sees x y → part.pixel x y = out.pixel (t.left + x) (t.top + y)) ∧
      ∀ other : Image, other.space = .rgb → other.extent = image.extent →
        ∃ out', enhance other = .ok () out' ∧ out'.extent = other.extent ∧
          ∀ x y, image.extent.Contains x y →
            image.AgreeNear other x y → out.pixel x y = out'.pixel x y := by
  obtain ⟨out, hout, hsize, -, hgrid⟩ := exists_enhance hrgb
  refine ⟨out, hout, hsize, fun t => ?_, fun other hrgb' hextent => ?_⟩
  · have hcrop : (image.crop t).space = .rgb := hrgb
    obtain ⟨part, hpart, hpartsize, -, hpartgrid⟩ := exists_enhance hcrop
    refine ⟨part, hpart, hpartsize, fun x y hsees => ?_⟩
    exact pixel_enhance_eq hsees.matched (fun c => hpartgrid c x y hsees.inside)
      (fun c => hgrid c _ _ (t.contains hsees.inside)) fun c => crop_agreeAround t c x y
  · obtain ⟨out', hout', hsize', -, hgrid'⟩ := exists_enhance hrgb'
    refine ⟨out', hout', hsize', fun x y hin hnear => ?_⟩
    have hin' : other.extent.Contains x y := by rw [hextent]; exact hin
    refine pixel_enhance_eq ⟨hin, hin', ?_, ?_⟩ (fun c => hgrid c x y hin)
      (fun c => hgrid' c x y hin') hnear.agreeAround
    · rw [hextent]
      exact Exact.Alike.refl _ _
    · rw [hextent]
      exact Exact.Alike.refl _ _

theorem enhance_tiles_spot : spot.space = .rgb ∧
    ∃ t : Tile spot.extent, t.Sees 3 3 ∧ ∃ out part, enhance spot = .ok () out ∧
      out.extent = spot.extent ∧ enhance (spot.crop t) = .ok () part ∧ part.extent = ⟨5, 7⟩ ∧
        part.pixel 3 3 = out.pixel 5 3 := by
  have hrgb : spot.space = .rgb := rfl
  obtain ⟨out, hout, hextent, htiles, -⟩ := enhance_tiles hrgb
  let t : Tile spot.extent := ⟨2, 0, ⟨5, 7⟩, by decide, by decide, by decide⟩
  have hsees : t.Sees 3 3 := ⟨by decide, by decide, by decide, by decide, by decide⟩
  obtain ⟨part, hpart, hsize, hpixel⟩ := htiles t
  exact ⟨hrgb, t, hsees, out, part, hout, hextent, hpart, hsize, hpixel 3 3 hsees⟩

end Acutance
