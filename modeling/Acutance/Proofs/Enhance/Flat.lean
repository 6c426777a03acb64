import Acutance.Proofs.Enhance.ClosedForm
import Acutance.Proofs.Exact.Flat

namespace Acutance

/-- A pixel enhanced by itself: its levels are stretched, and hue and saturation are held below one on
their channels. Value cannot reach that. -/
def Pixel.enhanceAlone (p : Pixel) : Checked Pixel := do
  let leveled ← p.mapM Levels.stretch
  let hsv ← leveled.toHsv
  Pixel.toRgb ⟨narrow (min hsv.first.toInt 359), narrow (min hsv.second.toInt 1023), hsv.third⟩

private theorem Pixel.enhanceAlone_eq {p : Pixel} {image : Channel → Grid} {x y : Nat}
    (hp : ∀ c, (p.get c).toInt = image c x y) :
    ∃ q, p.enhanceAlone = .ok q ∧ ∀ c, (q.get c).toInt =
      Exact.toRgb (min (Exact.hsv image .hue x y) 359) (min (Exact.hsv image .saturation x y) 1023)
        (Exact.hsv image .value x y) c := by
  obtain ⟨leveled, hleveled, hlevel⟩ := p.mapM_stretch_eq
  have hbyte : ∀ c, 0 ≤ (leveled.get c).toInt ∧ (leveled.get c).toInt ≤ 2097151 := by
    intro c
    have hmem := Exact.stretch_mem (p.get c).toInt
    rw [hlevel c]
    omega
  obtain ⟨hsv, hhsv, hexact⟩ := Pixel.toHsv_eq hbyte
  simp only [hlevel, hp] at hexact
  have hhue : hsv.first.toInt = Exact.hsv image .hue x y := hexact .hue
  have hsaturation : hsv.second.toInt = Exact.hsv image .saturation x y := hexact .saturation
  have hvalue : hsv.third.toInt = Exact.hsv image .value x y := hexact .value
  have hhmem := Exact.hsv_hue_mem image x y
  have hsmem := Exact.hsv_saturation_mem image x y
  have hvmem := Exact.hsv_value_mem image x y
  obtain ⟨q, hq, hqexact⟩ := Pixel.toRgb_eq
    (p := ⟨narrow (min (Exact.hsv image .hue x y) 359),
      narrow (min (Exact.hsv image .saturation x y) 1023), hsv.third⟩)
    (toInt_narrow (Width.bits32_holds_iff.2 ⟨by omega, by omega⟩))
    (toInt_narrow (Width.bits32_holds_iff.2 ⟨by omega, by omega⟩)) hvalue
    ⟨by omega, by omega⟩ ⟨by omega, by omega⟩
  refine ⟨q, ?_, hqexact⟩
  rw [enhanceAlone, hleveled]
  simp only [bind, Except.bind, hhsv, hhue, hsaturation]
  exact hq

namespace Image

variable {image : Image}

/-- The rows at most three away from a place hold what its own row holds, at most three columns away
from it. -/
def RowsAgree (image : Image) (x y : Nat) : Prop :=
  ∀ u v, image.extent.Contains u v → x ≤ u + 3 → u ≤ x + 3 → y ≤ v + 3 → v ≤ y + 3 →
    image.pixel u v = image.pixel u y

/-- A place without detail: it is near the top or bottom edge, or the rows around it agree. -/
def FlatAt (image : Image) (x y : Nat) : Prop :=
  y < 3 ∨ image.extent.height ≤ y + 3 ∨ image.RowsAgree x y

/-- All pixels of an image are the same. -/
def IsUniform (image : Image) : Prop := ∃ p, ∀ x y, image.extent.Contains x y → image.pixel x y = p

/-- All rows of an image are the same. -/
def RowsAlike (image : Image) : Prop :=
  ∀ x y y', image.extent.Contains x y → image.extent.Contains x y' →
    image.pixel x y = image.pixel x y'

private theorem FlatAt.grid {x y : Nat} (h : image.FlatAt x y) (c : Channel) :
    Exact.Flat image.extent (image.grid c) x y := by
  rcases h with htop | hbottom | hrows
  · exact .inl htop
  · exact .inr (.inl hbottom)
  · right
    right
    intro u v hin hleft hright htop hbottom
    exact pixel_eq_iff_grid.1 (hrows u v hin hleft hright htop hbottom) c

private theorem IsUniform.rowsAlike (h : image.IsUniform) : image.RowsAlike := by
  obtain ⟨p, hp⟩ := h
  intro x y y' hin hin'
  rw [hp x y hin, hp x y' hin']

private theorem flatAt_of_height_le (h : image.extent.height ≤ 6) (x y : Nat) : image.FlatAt x y := by
  by_cases htop : y < 3
  · exact .inl htop
  · exact .inr (.inl (by omega))

private theorem RowsAlike.flatAt (h : image.RowsAlike) {x y : Nat} (hin : image.extent.Contains x y) :
    image.FlatAt x y := by
  right
  right
  intro u v huv _ _ _ _
  exact h u v y huv ⟨huv.1, hin.2⟩

end Image

/-- A place without detail is enhanced like its pixel alone. An image that has no other places,
because it is low or because its rows are all the same, is enhanced pixel by pixel. The enhanced image
has the extent of the image. -/
theorem exists_enhance_flat {image : Image} (hrgb : image.space = .rgb) :
    ∃ out, enhance image = .ok () out ∧ out.extent = image.extent ∧
      (∀ x y, image.extent.Contains x y → image.FlatAt x y →
        (image.pixel x y).enhanceAlone = .ok (out.pixel x y)) ∧
      (image.extent.height ≤ 6 ∨ image.IsUniform ∨ image.RowsAlike →
        image.mapPixels .rgb Pixel.enhanceAlone = .ok out) := by
  obtain ⟨out, henhance, hextent, hspace, hgrid⟩ := exists_enhance hrgb
  have hplace : ∀ x y, image.extent.Contains x y → image.FlatAt x y →
      (image.pixel x y).enhanceAlone = .ok (out.pixel x y) := by
    intro x y hin hflat
    have hgridPixel : ∀ c, ((image.pixel x y).get c).toInt = image.grid c x y := fun c => rfl
    obtain ⟨q, hq, hexact⟩ := Pixel.enhanceAlone_eq hgridPixel
    have hout : q = out.pixel x y := by
      apply Pixel.ext_get
      intro c
      have hplain := hgrid c x y hin
      rw [Exact.enhance_of_flat hin hflat.grid, ← hexact c] at hplain
      exact Int32.toInt_inj.1 hplain.symm
    rw [hq, hout]
  refine ⟨out, henhance, hextent, hplace, fun hplain => ?_⟩
  have hflat : ∀ x y, image.extent.Contains x y → image.FlatAt x y := by
    intro x y hin
    rcases hplain with hlow | huniform | hrows
    · exact Image.flatAt_of_height_le hlow x y
    · exact huniform.rowsAlike.flatAt hin
    · exact hrows.flatAt hin
  exact Image.recode_eq_ok_iff.2
    ⟨hrgb, hextent, hspace, fun x y hin => hplace x y hin (hflat x y hin)⟩

/-- Columns of different colors, with the same rows all the way down. -/
def columns : Image where
  extent := spot.extent
  space := .rgb
  pixels := Extent.tabulate spot.extent fun x _ => if x = 3 then ⟨255, 40, 10⟩ else ⟨20, 90, 160⟩
  accepted := spot.accepted

theorem exists_enhance_flat_columns : columns.space = .rgb ∧ columns.RowsAlike ∧
    ∃ out, enhance columns = .ok () out ∧ out.extent = columns.extent ∧
      out.pixel 3 3 = ⟨255, 29, 0⟩ := by
  have hrgb : columns.space = .rgb := rfl
  have hrows : columns.RowsAlike := by
    intro x y y' hin hin'
    have hpixel : ∀ v, columns.extent.Contains x v →
        columns.pixel x v = if x = 3 then ⟨255, 40, 10⟩ else ⟨20, 90, 160⟩ :=
      fun v hv => (Image.pixel_mk hv).trans (Extent.get_tabulate hv)
    rw [hpixel y hin, hpixel y' hin']
  obtain ⟨out, henhance, hextent, hplace, -⟩ := exists_enhance_flat hrgb
  have hin : columns.extent.Contains 3 3 := by decide
  have hpixel := hplace 3 3 hin (hrows.flatAt hin)
  refine ⟨hrgb, hrows, out, henhance, hextent, ?_⟩
  have halone : (columns.pixel 3 3).enhanceAlone = .ok ⟨255, 29, 0⟩ := by decide +kernel
  exact Except.ok.inj (hpixel.symm.trans halone)

end Acutance
