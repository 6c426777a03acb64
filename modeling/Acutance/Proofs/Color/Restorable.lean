import Acutance.Color.Convert
import Acutance.Proofs.Color.Pixel
import Acutance.Proofs.Edit
import Acutance.Proofs.Raster

namespace Acutance

namespace Exact

variable {h s v : Int}

/-- The products that the falling and the rising sample are made of fit into a word. A gray has none. -/
def Restorable (h s v : Int) : Prop :=
  s ≠ 0 → Width.bits64.Holds (v * (61440 - s * h.tmod 60)) ∧
    Width.bits64.Holds (v * (61440 - s * (60 - h.tmod 60)))

instance (h s v : Int) : Decidable (Restorable h s v) := inferInstanceAs (Decidable (_ → _))

/-- A value times a weight below two to the 32nd is a word. -/
theorem holds_mul_weight {weight : Int} (hv : Width.bits32.Holds v)
    (hweight : -4294967295 ≤ weight ∧ weight ≤ 4294967296) : Width.bits64.Holds (v * weight) := by
  have hproduct := mul_mem_of_mem (Width.bits32_holds_iff.1 hv) hweight (by decide) (by decide)
  norm_num at hproduct
  exact Width.bits64_holds_iff.2 ⟨by omega, by omega⟩

/-- Moderate saturations come back with every hue and every value. A hue below zero leaves up to 119 degrees
of its sector, which is what bounds them. -/
theorem restorable_of_saturation_mem (h : Int) (hv : Width.bits32.Holds v)
    (hs : -36091645 ≤ s ∧ s ≤ 36092678) : Restorable h s v := by
  intro _
  have hwithin := tmod_mem (n := h) (d := 60) (by decide)
  have hfallen := mul_mem_of_mem hs
    (⟨by omega, by omega⟩ : -59 ≤ h.tmod 60 ∧ h.tmod 60 ≤ 59) (by decide) (by decide)
  have hrisen := mul_mem_of_mem hs
    (⟨by omega, by omega⟩ : 1 ≤ 60 - h.tmod 60 ∧ 60 - h.tmod 60 ≤ 119) (by decide) (by decide)
  norm_num at hfallen hrisen
  exact ⟨holds_mul_weight hv ⟨by omega, by omega⟩, holds_mul_weight hv ⟨by omega, by omega⟩⟩

/-- The lowest value tells the saturations apart, at a hue that leaves as much of its sector as there can be. -/
theorem saturation_mem_of_restorable (hrestorable : Restorable (-59) s (-2147483648)) :
    -36091645 ≤ s ∧ s ≤ 36092678 := by
  by_cases hgray : s = 0
  · omega
  · obtain ⟨-, hleast, hmost⟩ := hrestorable hgray
    have hwithin : (-59 : Int).tmod 60 = -59 := by decide
    simp only [hwithin, Width.lowest, Width.highest] at hleast hmost
    omega

end Exact

namespace Pixel

variable {p q : Pixel}

/-- A pixel in hue, saturation and value whose conversion to red, green and blue does not stop. -/
def Restorable (p : Pixel) : Prop :=
  Exact.Restorable p.first.toInt p.second.toInt p.third.toInt

instance (p : Pixel) : Decidable p.Restorable := inferInstanceAs (Decidable (Exact.Restorable _ _ _))

/-- What a restorable color is converted back to. -/
theorem toRgb_of_restorable (hcolor : p.second.toInt ≠ 0) (h : p.Restorable) :
    p.toRgb = .ok (inSector ((p.first.toInt.tdiv 60).tmod 6) (narrow (p.third.toInt.tdiv 4))
      (narrow (Exact.low p.second.toInt p.third.toInt))
      (narrow (Exact.falling p.first.toInt p.second.toInt p.third.toInt))
      (narrow (Exact.rising p.first.toInt p.second.toInt p.third.toInt))) :=
  toRgb_eq_inSector rfl rfl rfl hcolor (h hcolor).1 (h hcolor).2

/-- A color that is not restorable stops at a product. -/
theorem toRgb_of_not_restorable (h : ¬ p.Restorable) : p.toRgb = .error .mulOverflow := by
  obtain ⟨hcolor, hproducts⟩ := Classical.not_imp.1 h
  rw [toRgb_eq_shares rfl rfl rfl hcolor]
  by_cases hfalling : Width.bits64.Holds
      (p.third.toInt * (61440 - p.second.toInt * p.first.toInt.tmod 60))
  · have hrising := fun hrising => hproducts ⟨hfalling, hrising⟩
    rw [Hsv.share_eq (by decide) hfalling, Hsv.share_eq_error _ hrising]
    rfl
  · rw [Hsv.share_eq_error _ hfalling]
    rfl

theorem Restorable.exists_toRgb (h : p.Restorable) : ∃ q, p.toRgb = .ok q := by
  by_cases hgray : p.second.toInt = 0
  · exact ⟨_, toRgb_eq_gray hgray⟩
  · exact ⟨_, toRgb_of_restorable hgray h⟩

theorem restorable_of_toRgb (h : p.toRgb = .ok q) : p.Restorable := by
  by_contra hnot
  rw [toRgb_of_not_restorable hnot] at h
  cases h

private theorem restorable_of_toRgb_eq_error {fault : Fault} (h : p.toRgb = .error fault) :
    ¬ p.Restorable := by
  intro hrestorable
  obtain ⟨q, hq⟩ := hrestorable.exists_toRgb
  rw [hq] at h
  cases h

end Pixel

namespace Image

variable {image : Image}

/-- An image in hue, saturation and value all of whose pixels come back. -/
def Restorable (image : Image) : Prop :=
  ∀ x y, image.extent.Contains x y → (image.pixel x y).Restorable

theorem Restorable.exists_toRgb (hhsv : image.space = .hsv) (h : image.Restorable) :
    ∃ rgb, image.toRgb = .ok rgb := by
  obtain ⟨rgb, hextent, hspace, hpixel⟩ := image.exists_pixels .rgb
    (fun x y q => (image.pixel x y).toRgb = .ok q) fun x y hin => (h x y hin).exists_toRgb
  exact ⟨rgb, Run.restate_eq_ok_iff.2 (recode_eq_ok_iff.2 ⟨hhsv, hextent, hspace, hpixel⟩)⟩

theorem toRgb_of_not_restorable (hhsv : image.space = .hsv) (h : ¬ image.Restorable) :
    image.toRgb = .error (.fault .mulOverflow) := by
  obtain ⟨rgb, hrgb⟩ | ⟨fault, hfault, x, y, -, hpixel⟩ := recode_cases .rgb Pixel.toRgb hhsv
  · obtain ⟨-, -, -, hpixel⟩ := recode_eq_ok_iff.1 hrgb
    exact absurd (fun x y hin => Pixel.restorable_of_toRgb (hpixel x y hin)) h
  · have hnot := Pixel.restorable_of_toRgb_eq_error hpixel
    rw [Pixel.toRgb_of_not_restorable hnot] at hpixel
    obtain rfl := Except.error.inj hpixel
    rw [toRgb, hfault]
    rfl

/-- A pixel and an image come back from hue, saturation and value when they are restorable, and else their
conversion ends with a product that overflows. The saturation of a pixel comes back with every hue and every
value when it lies between -36091645 and 36092678, and only then. -/
theorem toRgb_ends (p : Pixel) (hhsv : image.space = .hsv) :
    (p.Restorable → ∃ q, p.toRgb = .ok q) ∧ (¬ p.Restorable → p.toRgb = .error .mulOverflow) ∧
    (image.Restorable → ∃ rgb, image.toRgb = .ok rgb) ∧
    (¬ image.Restorable → image.toRgb = .error (.fault .mulOverflow)) ∧
    ((∀ h v, Pixel.Restorable ⟨h, p.second, v⟩) ↔
      -36091645 ≤ p.second.toInt ∧ p.second.toInt ≤ 36092678) := by
  refine ⟨Pixel.Restorable.exists_toRgb, Pixel.toRgb_of_not_restorable,
    Restorable.exists_toRgb hhsv, toRgb_of_not_restorable hhsv, ?_⟩
  constructor
  · intro hall
    exact Exact.saturation_mem_of_restorable (hall (-59) (-2147483648))
  · intro hsaturation h v
    exact Exact.restorable_of_saturation_mem h.toInt (holds_toInt v) hsaturation

/-- The two ends of the saturations that come back with every hue and every value, a stronger one that comes
back with a hue and a value of its own, and a gray. -/
def vivid : Image where
  extent := ⟨2, 2⟩
  space := .hsv
  pixels := #v[⟨-59, 36092678, -2147483648⟩, ⟨2147483647, -36091645, 2147483647⟩,
    ⟨60, 2147483647, 70000000⟩, ⟨-1, 0, 2147483647⟩]
  accepted := by decide

theorem toRgb_ends_vivid : vivid.space = .hsv ∧ vivid.Restorable ∧ (∃ rgb, vivid.toRgb = .ok rgb) ∧
    ∀ h v, Pixel.Restorable ⟨h, (vivid.pixel 0 0).second, v⟩ := by
  have hrestorable : vivid.Restorable := by
    rintro x y ⟨hx, hy⟩
    have hall : ∀ x < 2, ∀ y < 2, (vivid.pixel x y).Restorable := by decide
    exact hall x hx y hy
  have hhsv : vivid.space = .hsv := rfl
  obtain ⟨-, -, himage, -, hsaturation⟩ := toRgb_ends (vivid.pixel 0 0) hhsv
  exact ⟨hhsv, hrestorable, himage hrestorable, hsaturation.2 (by decide)⟩

/-- A color that is too vivid to come back. Its sector lies below zero, where every color is black. -/
def glaring : Pixel := ⟨-119, 2147483647, 2147483647⟩

/-- An image that holds it. -/
def glare : Image := { vivid with pixels := vivid.pixels.set 3 glaring }

/-- Neither the pixel nor the image comes back. -/
theorem toRgb_glare_overflows : glaring.toRgb = .error .mulOverflow ∧
    glare.space = .hsv ∧ glare.pixel 1 1 = glaring ∧ glare.toRgb = .error (.fault .mulOverflow) := by
  have hin : glare.extent.Contains 1 1 := by decide
  have hpixel : glare.pixel 1 1 = glaring := by decide
  have hnot : ¬ glaring.Restorable := by decide
  have hglare : ¬ glare.Restorable := fun h => hnot (hpixel ▸ h 1 1 hin)
  exact ⟨Pixel.toRgb_of_not_restorable hnot, rfl, hpixel, toRgb_of_not_restorable rfl hglare⟩

end Image

end Acutance
