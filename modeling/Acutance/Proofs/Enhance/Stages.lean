import Acutance.Enhance
import Acutance.Proofs.Color.Pixel
import Acutance.Proofs.Filter.Gaussian

namespace Acutance

namespace Levels

theorem stretch_eq (s : Sample) :
    ∃ t, stretch s = .ok t ∧ t.toInt = Exact.stretch s.toInt := by
  have hs := Width.bits32_holds_iff.1 (holds_toInt s)
  have hscaled : Width.bits64.Holds ((s.toInt - 10) * 255) :=
    Width.bits64_holds_iff.2 ⟨by omega, by omega⟩
  have hmem := Exact.stretch_mem s.toInt
  refine ⟨narrow (Exact.stretch s.toInt), ?_,
    toInt_narrow (Width.bits32_holds_iff.2 ⟨by omega, by omega⟩)⟩
  have hsub : Width.bits64.sub s.toInt 10 = .ok (s.toInt - 10) :=
    Width.sub_of_holds (Width.bits64_holds_iff.2 ⟨by omega, by omega⟩)
  have hdiv := Width.div_of_holds (b := 233) (by decide)
    (Width.holds_tdiv_of_pos (b := 233) (by decide) hscaled)
  simp only [stretch, black, top, white, hsub, Width.mul_of_holds hscaled, bind, Except.bind]
  rw [show (243 - 10 : Int) = 233 by decide, hdiv]
  rfl

end Levels

theorem Pixel.mapM_stretch_eq (p : Pixel) :
    ∃ q, p.mapM Levels.stretch = .ok q ∧ ∀ c, (q.get c).toInt = Exact.stretch (p.get c).toInt := by
  obtain ⟨r, hr, hr'⟩ := Levels.stretch_eq p.first
  obtain ⟨g, hg, hg'⟩ := Levels.stretch_eq p.second
  obtain ⟨b, hb, hb'⟩ := Levels.stretch_eq p.third
  refine ⟨⟨r, g, b⟩, ?_, fun c => ?_⟩
  · simp only [mapM, hr, hg, hb, bind, Except.bind]
    rfl
  · cases c
    · exact hr'
    · exact hg'
    · exact hb'

/-- The images and planes that an image passes through on its way to the enhanced one. -/
structure Enhancement (image : Image) where
  leveled : Image
  hsv : Image
  stages : ∀ c, Kernel.gaussian.Stages (Blend.ofChannel c) (hsv.channel c)
  sharpened : Image
  out : Image
  levels_eq : image.levels = .ok leveled
  toHsv_eq : leveled.toHsv = .ok hsv
  unsharp_eq : unsharp .gaussian hsv = .ok () sharpened
  channel_eq : ∀ c, sharpened.channel c = (stages c).sharpened
  toRgb_eq : sharpened.toRgb = .ok out

namespace Enhancement

variable {image : Image}

theorem enhance_eq (e : Enhancement image) : enhance image = .ok () e.out := by
  simp only [enhance, Edit.bind_eq_ok_iff, Edit.restate_eq_ok_iff, Edit.update_eq_ok_iff]
  exact ⟨(), e.leveled, e.levels_eq, (), e.hsv, e.toHsv_eq, (), e.sharpened, e.unsharp_eq,
    e.toRgb_eq⟩

/-- Every stage holds at every place what its formula says. -/
structure IsExact (e : Enhancement image) : Prop where
  leveled_eq : ∀ c x y, image.extent.Contains x y →
    e.leveled.grid c x y = Exact.stretch (image.grid c x y)
  hsv_eq : ∀ c x y, image.extent.Contains x y →
    e.hsv.grid c x y = Exact.hsv image.grid c x y
  smoothed_eq : ∀ c x y, image.extent.Contains x y →
    (e.stages c).smoothed.grid x y =
      Exact.smooth image.extent.width (Exact.hsv image.grid c) x y
  detail_eq : ∀ c x y, image.extent.Contains x y →
    (e.stages c).detail.grid x y = Exact.mask image.extent (Exact.hsv image.grid c) x y
  sharpened_eq : ∀ c x y, image.extent.Contains x y →
    e.sharpened.grid c x y = Exact.sharpened image.extent image.grid c x y
  out_eq : ∀ c x y, image.extent.Contains x y →
    e.out.grid c x y = Exact.enhance image.extent image.grid c x y

/-- The enhanced image has the extent of the image, and is in red, green and blue again. -/
structure KeepsShape (e : Enhancement image) : Prop where
  extent_eq : e.out.extent = image.extent
  space_eq : e.out.space = .rgb

end Enhancement

private theorem exists_levels {image : Image} (hrgb : image.space = .rgb) :
    ∃ leveled, image.levels = .ok leveled ∧ leveled.extent = image.extent ∧
      leveled.space = .rgb ∧ ∀ c x y, image.extent.Contains x y →
        leveled.grid c x y = Exact.stretch (image.grid c x y) := by
  obtain ⟨leveled, hlevels, hextent, hspace, hgrid⟩ := Image.exists_recode .rgb
    (g := fun c x y => Exact.stretch (image.grid c x y)) hrgb
    fun x y _ => Pixel.mapM_stretch_eq (image.pixel x y)
  exact ⟨leveled, Run.restate_eq_ok_iff.2 hlevels, hextent, hspace, hgrid⟩

private theorem exists_toHsv {image : Image} (hrgb : image.space = .rgb) {g : Channel → Grid}
    (hg : ∀ c x y, image.extent.Contains x y → image.grid c x y = g c x y)
    (hmem : ∀ c x y, 0 ≤ g c x y ∧ g c x y ≤ 2097151) :
    ∃ hsv, image.toHsv = .ok hsv ∧ hsv.extent = image.extent ∧ hsv.space = .hsv ∧
      ∀ c x y, image.extent.Contains x y →
        hsv.grid c x y = Exact.toHsv (g .red x y) (g .green x y) (g .blue x y) c := by
  obtain ⟨hsv, hconvert, hextent, hspace, hgrid⟩ := Image.exists_recode .hsv
    (f := Pixel.toHsv)
    (g := fun c x y => Exact.toHsv (g .red x y) (g .green x y) (g .blue x y) c) hrgb (by
      intro x y hin
      have hsamples : ∀ c, ((image.pixel x y).get c).toInt = g c x y := fun c => hg c x y hin
      obtain ⟨q, hq, hexact⟩ := Pixel.toHsv_eq (p := image.pixel x y)
        fun c => by rw [hsamples c]; exact hmem c x y
      refine ⟨q, hq, fun c => ?_⟩
      rw [hexact c, hsamples, hsamples, hsamples])
  exact ⟨hsv, Run.restate_eq_ok_iff.2 hconvert, hextent, hspace, hgrid⟩

private theorem exists_toRgb {image : Image} (hhsv : image.space = .hsv) {g : Channel → Grid}
    (hg : ∀ c x y, image.extent.Contains x y → image.grid c x y = g c x y)
    (hsaturation : ∀ x y, -1436 ≤ g .saturation x y ∧ g .saturation x y ≤ 1023)
    (hvalue : ∀ x y, -1418 ≤ g .value x y ∧ g .value x y ≤ 1023) :
    ∃ rgb, image.toRgb = .ok rgb ∧ rgb.extent = image.extent ∧ rgb.space = .rgb ∧
      ∀ c x y, image.extent.Contains x y →
        rgb.grid c x y = Exact.toRgb (g .hue x y) (g .saturation x y) (g .value x y) c := by
  obtain ⟨rgb, hconvert, hextent, hspace, hgrid⟩ := Image.exists_recode .rgb
    (f := Pixel.toRgb)
    (g := fun c x y => Exact.toRgb (g .hue x y) (g .saturation x y) (g .value x y) c) hhsv
    fun x y hin => Pixel.toRgb_eq (hg .hue x y hin) (hg .saturation x y hin) (hg .value x y hin)
      (hsaturation x y) (hvalue x y)
  exact ⟨rgb, Run.restate_eq_ok_iff.2 hconvert, hextent, hspace, hgrid⟩

/-- Every channel of an image in hue, saturation and value that came from stretched levels passes
through its stages, and each of them is exact. -/
theorem exists_hsv_stages {hsv : Image} {g : Channel → Grid}
    (hhsv : ∀ c x y, hsv.extent.Contains x y → hsv.grid c x y = Exact.hsv g c x y) :
    ∃ stages : ∀ c, Kernel.gaussian.Stages (Blend.ofChannel c) (hsv.channel c),
      ∀ c x y, hsv.extent.Contains x y →
        (stages c).smoothed.grid x y = Exact.smooth hsv.extent.width (Exact.hsv g c) x y ∧
          (stages c).detail.grid x y = Exact.mask hsv.extent (Exact.hsv g c) x y ∧
            (stages c).sharpened.grid x y = Exact.sharpened hsv.extent g c x y := by
  have hbound : ∀ c x y, |Exact.hsv g c x y| ≤ 1024 := by
    intro c x y
    have hmem := Exact.hsv_mem g c x y
    cases c <;> simp only [Exact.lowest, Exact.highest] at hmem <;> exact abs_le.2 (by omega)
  have hchannel : ∀ c x y, (hsv.channel c).extent.Contains x y →
      (hsv.channel c).grid x y = Exact.hsv g c x y := by
    intro c x y hin
    rw [Image.grid_channel]
    exact hhsv c x y hin
  choose stages hexact using fun c => exists_gaussian_stages c (hbound c) (hchannel c)
  exact ⟨stages, hexact⟩

/-- Every image in red, green and blue is enhanced: no stage refuses it or faults, whatever its
samples are, and every stage is exact. -/
theorem exists_enhancement {image : Image} (hrgb : image.space = .rgb) :
    ∃ e : Enhancement image, e.KeepsShape ∧ e.IsExact := by
  obtain ⟨leveled, hlevels, hextent₁, hspace₁, hgrid₁⟩ := exists_levels hrgb
  obtain ⟨hsv, htoHsv, hextent₂, hspace₂, hgrid₂⟩ := exists_toHsv hspace₁
    (g := fun c x y => Exact.stretch (image.grid c x y)) (by rw [hextent₁]; exact hgrid₁)
    fun c x y => by
      have hmem := Exact.stretch_mem (image.grid c x y)
      omega
  have hextent : hsv.extent = image.extent := hextent₂.trans hextent₁
  -- the formulas speak of the extent that each stage finds, and all of these are one
  rw [← hextent₂] at hgrid₂
  obtain ⟨stages, hexact⟩ := exists_hsv_stages (g := image.grid) hgrid₂
  obtain ⟨sharpened, hunsharp, hextent₃, hspace₃, hchannel⟩ := exists_unsharp hspace₂ stages
  have hsharpened : ∀ c x y, sharpened.extent.Contains x y →
      sharpened.grid c x y = Exact.sharpened hsv.extent image.grid c x y := by
    intro c x y hin
    rw [hextent₃] at hin
    rw [← Image.grid_channel, hchannel c]
    exact (hexact c x y hin).2.2
  obtain ⟨out, htoRgb, hextent₄, hspace₄, hgrid₄⟩ := exists_toRgb hspace₃ hsharpened
    (Exact.sharpened_mem hsv.extent image.grid .saturation)
    (Exact.sharpened_mem hsv.extent image.grid .value)
  rw [hextent] at hexact hgrid₂ hextent₃
  rw [hextent₃] at hextent₄ hsharpened hgrid₄
  rw [hextent] at hsharpened hgrid₄
  exact ⟨⟨leveled, hsv, stages, sharpened, out, hlevels, htoHsv, hunsharp, hchannel, htoRgb⟩,
    ⟨hextent₄, hspace₄⟩, hgrid₁, hgrid₂, fun c x y hin => (hexact c x y hin).1,
    fun c x y hin => (hexact c x y hin).2.1, hsharpened, hgrid₄⟩

/-- A bright spot on a plain ground. This is the smallest image with a place that no edge is near. -/
def spot : Image where
  extent := ⟨7, 7⟩
  space := .rgb
  pixels := Extent.tabulate ⟨7, 7⟩ fun x y =>
    if x = 3 ∧ y = 3 then ⟨230, 120, 40⟩ else ⟨90, 60, 30⟩
  accepted := by decide

end Acutance
