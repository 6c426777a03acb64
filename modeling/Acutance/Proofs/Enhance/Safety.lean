import Acutance.Proofs.Enhance.Stages
import Acutance.Proofs.Filter.Bounds

namespace Acutance

namespace Enhancement

variable {image : Image}

/-- The ranges of the stages, at every place. -/
structure InRange (e : Enhancement image) : Prop where
  leveled_mem : ∀ c x y, image.extent.Contains x y →
    0 ≤ e.leveled.grid c x y ∧ e.leveled.grid c x y ≤ 255
  hue_mem : ∀ x y, image.extent.Contains x y →
    e.hsv.grid .hue x y = -1 ∨ 0 ≤ e.hsv.grid .hue x y ∧ e.hsv.grid .hue x y ≤ 360
  saturation_mem : ∀ x y, image.extent.Contains x y →
    0 ≤ e.hsv.grid .saturation x y ∧ e.hsv.grid .saturation x y ≤ 1024
  value_mem : ∀ x y, image.extent.Contains x y →
    0 ≤ e.hsv.grid .value x y ∧ e.hsv.grid .value x y ≤ 1020
  hue_detail_le : ∀ x y, image.extent.Contains x y →
    |(e.stages .hue).detail.grid x y| ≤ 216
  saturation_detail_le : ∀ x y, image.extent.Contains x y →
    |(e.stages .saturation).detail.grid x y| ≤ 615
  value_detail_le : ∀ x y, image.extent.Contains x y →
    |(e.stages .value).detail.grid x y| ≤ 612
  sharpened_hue_mem : ∀ x y, image.extent.Contains x y →
    -504 ≤ e.sharpened.grid .hue x y ∧ e.sharpened.grid .hue x y ≤ 359
  sharpened_saturation_mem : ∀ x y, image.extent.Contains x y →
    -1436 ≤ e.sharpened.grid .saturation x y ∧ e.sharpened.grid .saturation x y ≤ 1023
  sharpened_value_mem : ∀ x y, image.extent.Contains x y →
    -1418 ≤ e.sharpened.grid .value x y ∧ e.sharpened.grid .value x y ≤ 1023
  out_mem : ∀ c x y, image.extent.Contains x y →
    -1340 ≤ e.out.grid c x y ∧ e.out.grid c x y ≤ 967

/-- The numbers that are cut to 32 bits and do not show in the outcome: the taps of the high-pass
kernel, and the three shares of a value of which a sector takes two or fewer. -/
structure KeepsBits (e : Enhancement image) : Prop where
  highpass_eq : ∀ i < 7, Kernel.gaussian.highpass.tap i =
    Kernel.gaussian.tap i - if i = 3 then Kernel.gaussian.norm else 0
  low_holds : ∀ x y, image.extent.Contains x y → Width.bits32.Holds
    (Exact.low (e.sharpened.grid .saturation x y) (e.sharpened.grid .value x y))
  falling_holds : ∀ x y, image.extent.Contains x y → Width.bits32.Holds
    (Exact.falling (e.sharpened.grid .hue x y) (e.sharpened.grid .saturation x y)
      (e.sharpened.grid .value x y))
  rising_holds : ∀ x y, image.extent.Contains x y → Width.bits32.Holds
    (Exact.rising (e.sharpened.grid .hue x y) (e.sharpened.grid .saturation x y)
      (e.sharpened.grid .value x y))

/-- The passes of all three channels end with the same samples when every access is guarded. -/
structure StaysInside (e : Enhancement image) : Prop where
  smooth_eq : ∀ c x y, image.extent.Contains x y →
    Kernel.gaussian.smoothGuarded (e.hsv.channel c) x y = .ok ((e.stages c).smoothed.sample x y)
  detail_eq : ∀ c, (e.stages c).smoothed.detailColumnsGuarded Kernel.gaussian.highpass =
    .ok (e.stages c).detail

private theorem hsv_extent (e : Enhancement image) : e.hsv.extent = image.extent := by
  obtain ⟨-, hleveled, -⟩ := Image.recode_eq_ok_iff.1 (Run.restate_eq_ok_iff.1 e.levels_eq)
  obtain ⟨-, hhsv, -⟩ := Image.recode_eq_ok_iff.1 (Run.restate_eq_ok_iff.1 e.toHsv_eq)
  exact hhsv.trans hleveled

private theorem staysInside (e : Enhancement image) : e.StaysInside where
  smooth_eq := by
    intro c x y hin
    rw [← e.hsv_extent] at hin
    rw [Kernel.smoothGuarded_eq hin, (e.stages c).smooth_eq hin]
    rfl
  detail_eq := by
    intro c
    rw [Plane.detailColumnsGuarded_eq, (e.stages c).detail_eq]
    rfl

namespace IsExact

variable {e : Enhancement image}

private theorem inRange (h : e.IsExact) : e.InRange where
  leveled_mem := by
    intro c x y hin
    rw [h.leveled_eq c x y hin]
    exact Exact.stretch_mem _
  hue_mem := by
    intro x y hin
    rw [h.hsv_eq .hue x y hin]
    exact Exact.hsv_hue_mem image.grid x y
  saturation_mem := by
    intro x y hin
    rw [h.hsv_eq .saturation x y hin]
    exact Exact.hsv_saturation_mem image.grid x y
  value_mem := by
    intro x y hin
    rw [h.hsv_eq .value x y hin]
    exact Exact.hsv_value_mem image.grid x y
  hue_detail_le := by
    intro x y hin
    rw [h.detail_eq .hue x y hin]
    exact abs_le.2 (Exact.mask_hsv_mem image.extent image.grid .hue x y)
  saturation_detail_le := by
    intro x y hin
    rw [h.detail_eq .saturation x y hin]
    exact abs_le.2 (Exact.mask_hsv_mem image.extent image.grid .saturation x y)
  value_detail_le := by
    intro x y hin
    rw [h.detail_eq .value x y hin]
    exact abs_le.2 (Exact.mask_hsv_mem image.extent image.grid .value x y)
  sharpened_hue_mem := by
    intro x y hin
    rw [h.sharpened_eq .hue x y hin]
    exact Exact.sharpened_mem image.extent image.grid .hue x y
  sharpened_saturation_mem := by
    intro x y hin
    rw [h.sharpened_eq .saturation x y hin]
    exact Exact.sharpened_mem image.extent image.grid .saturation x y
  sharpened_value_mem := by
    intro x y hin
    rw [h.sharpened_eq .value x y hin]
    exact Exact.sharpened_mem image.extent image.grid .value x y
  out_mem := by
    intro c x y hin
    rw [h.out_eq c x y hin]
    exact Exact.toRgb_mem _ (Exact.sharpened_mem image.extent image.grid .saturation x y)
      (Exact.sharpened_mem image.extent image.grid .value x y) c

private theorem keepsBits (h : e.IsExact) : e.KeepsBits where
  highpass_eq := by
    intro i hi
    rw [Kernel.gaussian_tap hi]
    exact Kernel.gaussian_highpass_tap hi
  low_holds := by
    intro x y hin
    have hrange := h.inRange
    have hmem := Exact.low_mem (hrange.sharpened_saturation_mem x y hin)
      (hrange.sharpened_value_mem x y hin)
    exact Width.bits32_holds_iff.2 ⟨by omega, by omega⟩
  falling_holds := by
    intro x y hin
    have hrange := h.inRange
    have hmem := Exact.falling_mem (e.sharpened.grid .hue x y)
      (hrange.sharpened_saturation_mem x y hin) (hrange.sharpened_value_mem x y hin)
    exact Width.bits32_holds_iff.2 ⟨by omega, by omega⟩
  rising_holds := by
    intro x y hin
    have hrange := h.inRange
    have hmem := Exact.rising_mem (e.sharpened.grid .hue x y)
      (hrange.sharpened_saturation_mem x y hin) (hrange.sharpened_value_mem x y hin)
    exact Width.bits32_holds_iff.2 ⟨by omega, by omega⟩

end IsExact

end Enhancement

/-- Every image in red, green and blue is enhanced without a fault, to an image of its extent in the
same color space. Every stage is what its formula says in the integers, so nothing that is stored
loses a bit; every stage keeps its range; and no access leaves a plane or a window. -/
theorem exists_safe_enhancement {image : Image} (hrgb : image.space = .rgb) :
    ∃ e : Enhancement image, enhance image = .ok () e.out ∧ e.KeepsShape ∧ e.IsExact ∧
      e.InRange ∧ e.KeepsBits ∧ e.StaysInside := by
  obtain ⟨e, hshape, hexact⟩ := exists_enhancement hrgb
  exact ⟨e, e.enhance_eq, hshape, hexact, hexact.inRange, hexact.keepsBits, e.staysInside⟩

theorem exists_safe_enhancement_spot : spot.space = .rgb ∧
    ∃ e : Enhancement spot, enhance spot = .ok () e.out ∧ e.KeepsShape ∧ e.InRange ∧
      e.sharpened.grid .value 3 3 = 1023 := by
  have hrgb : spot.space = .rgb := rfl
  obtain ⟨e, henhance, hshape, hexact, hrange, -⟩ := exists_safe_enhancement hrgb
  refine ⟨hrgb, e, henhance, hshape, hrange, ?_⟩
  rw [hexact.sharpened_eq .value 3 3 (by decide)]
  decide +kernel

end Acutance
