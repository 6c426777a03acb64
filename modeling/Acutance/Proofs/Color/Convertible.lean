import Acutance.Color.Convert
import Acutance.Proofs.Color.Pixel
import Acutance.Proofs.Raster
import Acutance.Proofs.Raster.Samples
import Acutance.Proofs.Edit

namespace Acutance

namespace Exact

/-- The difference of two samples that the hue of a color is a share of. -/
def hueDifference (r g b : Int) : Int :=
  if max r (max g b) = r then g - b
  else if max r (max g b) = g then b - r
  else r - g

/-- The products that the hue, the saturation and the value of a color are made of fit into a word. Black
has no saturation, so that its spread is only bounded as a difference. -/
structure Convertible (r g b : Int) : Prop where
  value_fits : -536870912 ≤ max r (max g b) ∧ max r (max g b) ≤ 536870911
  spread_le : spread r g b ≤ 2147483647
  saturation_fits : max r (max g b) ≠ 0 → spread r g b ≤ 2097151
  hue_fits : -35791394 ≤ hueDifference r g b ∧ hueDifference r g b ≤ 35791394

variable {r g b : Int}

private theorem hueDifference_mem (r g b : Int) :
    -spread r g b ≤ hueDifference r g b ∧ hueDifference r g b ≤ spread r g b := by
  unfold hueDifference spread
  split_ifs <;> omega

/-- Samples from zero up to 2097151 are convertible, whatever the color. -/
theorem Convertible.of_mem (hr : 0 ≤ r ∧ r ≤ 2097151) (hg : 0 ≤ g ∧ g ≤ 2097151)
    (hb : 0 ≤ b ∧ b ≤ 2097151) : Convertible r g b := by
  have hspread := spread_mem hr.1 hg.1 hb.1
  have hdifference := hueDifference_mem r g b
  constructor <;> omega

/-- The formulas of a convertible color give words. -/
theorem Convertible.holds_toHsv (h : Convertible r g b) (c : Channel) :
    Width.bits32.Holds (toHsv r g b c) := by
  obtain ⟨hvalue, -, hsaturation, -⟩ := h
  cases c with
  | first =>
    have hhue := hue_mem r g b
    change Width.bits32.Holds (hue r g b)
    exact Width.bits32_holds_iff.2 ⟨by omega, by omega⟩
  | second =>
    have hnonneg := spread_nonneg r g b
    change Width.bits32.Holds (saturation r g b)
    unfold saturation
    split_ifs with hblack
    · exact Width.bits32_holds_iff.2 ⟨by omega, by omega⟩
    · have hmost := hsaturation hblack
      refine Width.holds_tdiv ?_
      rw [abs_of_nonneg (by omega), Width.highest]
      omega
  | third =>
    change Width.bits32.Holds (value r g b)
    unfold value
    exact Width.bits32_holds_iff.2 ⟨by omega, by omega⟩

/-- Dividing the spread by the largest sample and multiplying by it again gives at most what there was. -/
theorem Convertible.value_mul_saturation_mem (h : Convertible r g b) :
    0 ≤ value r g b * saturation r g b ∧ value r g b * saturation r g b ≤ 8589930496 := by
  have hnonneg := spread_nonneg r g b
  unfold value saturation
  split_ifs with hblack
  · omega
  · have hmost := h.saturation_fits hblack
    have hsplit := Int.mul_tdiv_add_tmod (1024 * spread r g b) (max r (max g b))
    have hrest := tmod_mem_of_nonneg (max r (max g b)) (show 0 ≤ 1024 * spread r g b by omega)
    rw [mul_assoc]
    omega

end Exact

namespace Hsv

variable {r g b n : Int}

/-- The share of a difference that is no larger than the spread has a value when sixty times the
difference is a word. -/
theorem hueOffset_eq_ok_iff {a b s : Int} (hpos : 0 < s) (hsize : s ≤ 2147483647)
    (hlow : -s ≤ a - b) (hhigh : a - b ≤ s) : hueOffset a b s = .ok n ↔
      (-35791394 ≤ a - b ∧ a - b ≤ 35791394) ∧ n = (60 * (a - b)).tdiv s := by
  have hshare := Exact.offset_mem hpos hlow hhigh
  have hquotient : Width.bits32.Holds ((60 * (a - b)).tdiv s) :=
    Width.bits32_holds_iff.2 ⟨by omega, by omega⟩
  have hdifference : Width.bits32.Holds (a - b) := Width.bits32_holds_iff.2 ⟨by omega, by omega⟩
  simp only [hueOffset, sectorDegrees, bind_eq_ok_iff, Width.sub_eq_ok_iff, Width.mul_eq_ok_iff,
    Width.div_eq_ok_iff]
  constructor
  · rintro ⟨_, ⟨-, rfl⟩, _, ⟨hproduct, rfl⟩, -, -, rfl⟩
    obtain ⟨hleast, hmost⟩ := Width.bits32_holds_iff.1 hproduct
    exact ⟨⟨by omega, by omega⟩, rfl⟩
  · rintro ⟨⟨hleast, hmost⟩, rfl⟩
    exact ⟨_, ⟨hdifference, rfl⟩, _, ⟨Width.bits32_holds_iff.2 ⟨by omega, by omega⟩, rfl⟩,
      hpos.ne', hquotient, rfl⟩

/-- Adding the share to the degrees of a pure color never stops. -/
theorem add_hueOffset_eq_ok_iff {start a b s : Int} (hstart : 0 ≤ start ∧ start ≤ 360) (hpos : 0 < s)
    (hsize : s ≤ 2147483647) (hlow : -s ≤ a - b) (hhigh : a - b ≤ s) :
    (do Width.bits32.add start (← hueOffset a b s)) = .ok n ↔
      (-35791394 ≤ a - b ∧ a - b ≤ 35791394) ∧ n = start + (60 * (a - b)).tdiv s := by
  have hshare := Exact.offset_mem hpos hlow hhigh
  have hsum : Width.bits32.Holds (start + (60 * (a - b)).tdiv s) :=
    Width.bits32_holds_iff.2 ⟨by omega, by omega⟩
  simp only [bind_eq_ok_iff, hueOffset_eq_ok_iff hpos hsize hlow hhigh, Width.add_eq_ok_iff]
  constructor
  · rintro ⟨_, ⟨hfits, rfl⟩, -, rfl⟩
    exact ⟨hfits, rfl⟩
  · rintro ⟨hfits, rfl⟩
    exact ⟨_, ⟨hfits, rfl⟩, hsum, rfl⟩

private theorem hue_eq_ok_iff (hsize : Exact.spread r g b ≤ 2147483647) :
    hue r g b (max r (max g b)) (Exact.spread r g b) = .ok n ↔
      (-35791394 ≤ Exact.hueDifference r g b ∧ Exact.hueDifference r g b ≤ 35791394) ∧
        n = Exact.hue r g b := by
  have hmem := Exact.hueDifference_mem r g b
  unfold hue Exact.hue
  by_cases hgray : Exact.spread r g b = 0
  · rw [if_pos hgray, if_pos hgray]
    constructor
    · intro h
      obtain rfl := Except.ok.inj h
      exact ⟨by omega, rfl⟩
    · rintro ⟨-, rfl⟩
      rfl
  · have hpos : 0 < Exact.spread r g b := by
      have hnonneg := Exact.spread_nonneg r g b
      omega
    rw [if_neg hgray, if_neg hgray]
    unfold Exact.hueDifference at hmem ⊢
    split_ifs at hmem ⊢ with hred hle hgreen
    · exact hueOffset_eq_ok_iff hpos hsize hmem.1 hmem.2
    · exact add_hueOffset_eq_ok_iff (by decide) hpos hsize hmem.1 hmem.2
    · exact add_hueOffset_eq_ok_iff (by decide) hpos hsize hmem.1 hmem.2
    · exact add_hueOffset_eq_ok_iff (by decide) hpos hsize hmem.1 hmem.2

private theorem saturation_eq_ok_iff :
    saturation (max r (max g b)) (Exact.spread r g b) = .ok n ↔
      (max r (max g b) ≠ 0 → Exact.spread r g b ≤ 2097151) ∧ n = Exact.saturation r g b := by
  have hnonneg := Exact.spread_nonneg r g b
  unfold saturation Exact.saturation
  split_ifs with hblack
  · constructor
    · intro h
      obtain rfl := Except.ok.inj h
      exact ⟨fun hcolor => absurd hblack hcolor, rfl⟩
    · rintro ⟨-, rfl⟩
      rfl
  · simp only [saturationOne, bind_eq_ok_iff, Width.mul_eq_ok_iff, Width.div_eq_ok_iff]
    constructor
    · rintro ⟨_, ⟨hproduct, rfl⟩, -, -, rfl⟩
      have hmost := (Width.bits32_holds_iff.1 hproduct).2
      exact ⟨fun _ => by omega, rfl⟩
    · rintro ⟨hfits, rfl⟩
      have hmost := hfits hblack
      have hproduct : |1024 * Exact.spread r g b| ≤ Width.bits32.highest := by
        rw [abs_of_nonneg (by omega), Width.highest]
        omega
      exact ⟨_, ⟨Width.holds_of_abs_le hproduct, rfl⟩, hblack, Width.holds_tdiv hproduct, rfl⟩

end Hsv

namespace Pixel

variable {p q : Pixel}

/-- A pixel whose conversion to hue, saturation and value and back does not stop. -/
def Convertible (p : Pixel) : Prop :=
  Exact.Convertible (p.get .red).toInt (p.get .green).toInt (p.get .blue).toInt

/-- A pixel is converted exactly when it is convertible, and then to what the formulas say. -/
theorem toHsv_eq_ok_iff : p.toHsv = .ok q ↔ p.Convertible ∧ ∀ c, (q.get c).toInt =
    Exact.toHsv (p.get .red).toInt (p.get .green).toInt (p.get .blue).toInt c := by
  obtain ⟨r, g, b⟩ := p
  change _ ↔ Exact.Convertible r.toInt g.toInt b.toInt ∧
    ∀ c, (q.get c).toInt = Exact.toHsv r.toInt g.toInt b.toInt c
  have hstored (h : Exact.Convertible r.toInt g.toInt b.toInt) (c : Channel) :=
    toInt_narrow (h.holds_toHsv c)
  have hspread : max r.toInt (max g.toInt b.toInt) - min r.toInt (min g.toInt b.toInt) =
      Exact.spread r.toInt g.toInt b.toInt := rfl
  simp only [toHsv, Hsv.bounds_eq, Hsv.valueScale, bind_eq_ok_iff, Width.sub_eq_ok_iff,
    Width.mul_eq_ok_iff, hspread]
  constructor
  · rintro ⟨_, ⟨hsub, rfl⟩, _, ⟨hmul, rfl⟩, saturation, hsaturation, hue, hhue, hq⟩
    obtain ⟨hsaturationFits, rfl⟩ := Hsv.saturation_eq_ok_iff.1 hsaturation
    have hle := (Width.bits32_holds_iff.1 hsub).2
    obtain ⟨hhueFits, rfl⟩ := (Hsv.hue_eq_ok_iff hle).1 hhue
    obtain ⟨hleast, hmost⟩ := Width.bits32_holds_iff.1 hmul
    have hconvertible : Exact.Convertible r.toInt g.toInt b.toInt :=
      ⟨⟨by omega, by omega⟩, hle, hsaturationFits, hhueFits⟩
    obtain rfl := Except.ok.inj hq
    refine ⟨hconvertible, fun c => ?_⟩
    rw [← hstored hconvertible c]
    cases c <;> rfl
  · rintro ⟨hconvertible, hq⟩
    have hnonneg := Exact.spread_nonneg r.toInt g.toInt b.toInt
    have hle := hconvertible.spread_le
    refine ⟨_, ⟨Width.bits32_holds_iff.2 ⟨by omega, hle⟩, rfl⟩, _,
      ⟨hconvertible.holds_toHsv .third, rfl⟩, _,
      Hsv.saturation_eq_ok_iff.2 ⟨hconvertible.saturation_fits, rfl⟩, _,
      (Hsv.hue_eq_ok_iff hle).2 ⟨hconvertible.hue_fits, rfl⟩, ?_⟩
    refine congrArg Except.ok (ext_get fun c => Int32.toInt_inj.1 ?_)
    rw [hq c, ← hstored hconvertible c]
    cases c <;> rfl

private theorem Convertible.exists_toHsv (h : p.Convertible) : ∃ q, p.toHsv = .ok q := by
  let exact (c : Channel) : Int :=
    Exact.toHsv (p.get .red).toInt (p.get .green).toInt (p.get .blue).toInt c
  have hstored (c : Channel) : (narrow (exact c)).toInt = exact c :=
    toInt_narrow (Exact.Convertible.holds_toHsv h c)
  refine ⟨⟨narrow (exact .hue), narrow (exact .saturation), narrow (exact .value)⟩,
    toHsv_eq_ok_iff.2 ⟨h, fun c => ?_⟩⟩
  cases c
  · exact hstored .hue
  · exact hstored .saturation
  · exact hstored .value

/-- What a color is converted to is converted back: no product of its value is larger than the ones that
made it. -/
theorem exists_toRgb (h : p.toHsv = .ok q) : ∃ back, q.toRgb = .ok back := by
  obtain ⟨hp, hq⟩ := toHsv_eq_ok_iff.1 h
  by_cases hgray : q.second.toInt = 0
  · exact ⟨_, toRgb_eq_gray hgray⟩
  · have hproduct : 0 ≤ q.third.toInt * q.second.toInt ∧
        q.third.toInt * q.second.toInt ≤ 8589930496 := by
      have hmem := hp.value_mul_saturation_mem
      have hsaturation := hq .saturation
      have hvalue := hq .value
      simp only [get, Exact.toHsv] at hmem hsaturation hvalue
      rwa [hsaturation, hvalue]
    have hvalue := Width.bits32_holds_iff.1 (holds_toInt q.third)
    have hwithin := tmod_mem (n := q.first.toInt) (d := 60) (by decide)
    have hfallen := mul_mem_of_mem hproduct
      (⟨by omega, by omega⟩ : -59 ≤ q.first.toInt.tmod 60 ∧ q.first.toInt.tmod 60 ≤ 59)
      (by decide) (by decide)
    have hrisen := mul_mem_of_mem hproduct
      (⟨by omega, by omega⟩ : 1 ≤ 60 - q.first.toInt.tmod 60 ∧ 60 - q.first.toInt.tmod 60 ≤ 119)
      (by decide) (by decide)
    norm_num at hfallen hrisen
    refine ⟨_, toRgb_eq_inSector rfl rfl rfl hgray ?_ ?_⟩
    · rw [mul_sub, ← mul_assoc]
      exact Width.bits64_holds_iff.2 ⟨by omega, by omega⟩
    · rw [mul_sub, ← mul_assoc]
      exact Width.bits64_holds_iff.2 ⟨by omega, by omega⟩

end Pixel

namespace Image

variable {image : Image}

/-- An image that is converted to hue, saturation and value and back. -/
def Converts (image : Image) : Prop :=
  ∃ hsv back, image.toHsv = .ok hsv ∧ hsv.toRgb = .ok back

private theorem convertible_of_toHsv {hsv : Image} (h : image.toHsv = .ok hsv) {x y : Nat}
    (hin : image.extent.Contains x y) : (image.pixel x y).Convertible := by
  obtain ⟨-, -, -, hpixel⟩ := recode_eq_ok_iff.1 (Run.restate_eq_ok_iff.1 h)
  exact (Pixel.toHsv_eq_ok_iff.1 (hpixel x y hin)).1

/-- An image in red, green and blue is converted and converted back exactly when every pixel of it is
convertible. -/
theorem converts_iff (hrgb : image.space = .rgb) : image.Converts ↔
    ∀ x y, image.extent.Contains x y → (image.pixel x y).Convertible := by
  constructor
  · rintro ⟨hsv, _, hto, -⟩ x y hin
    exact convertible_of_toHsv hto hin
  · intro hconvertible
    obtain ⟨hsv, hextent, hspace, hto⟩ := image.exists_pixels .hsv
      (fun x y q => (image.pixel x y).toHsv = .ok q) fun x y hin => (hconvertible x y hin).exists_toHsv
    obtain ⟨back, hextent', hspace', hfrom⟩ := hsv.exists_pixels .rgb
      (fun x y q => (hsv.pixel x y).toRgb = .ok q) fun x y hin =>
        Pixel.exists_toRgb (hto x y (hextent ▸ hin))
    exact ⟨hsv, back, Run.restate_eq_ok_iff.2 (recode_eq_ok_iff.2 ⟨hrgb, hextent, hspace, hto⟩),
      Run.restate_eq_ok_iff.2 (recode_eq_ok_iff.2 ⟨hspace, hextent', hspace', hfrom⟩)⟩

/-- The conversion of an image in red, green and blue ends in a fault when it does not end in an image. -/
theorem exists_fault_of_not_converts (hrgb : image.space = .rgb) (hnot : ¬ image.Converts) :
    ∃ fault, image.toHsv = .error (.fault fault) := by
  obtain ⟨hsv, hrecode⟩ | ⟨fault, hfault, -⟩ := recode_cases .hsv Pixel.toHsv hrgb
  · have hto : image.toHsv = .ok hsv := Run.restate_eq_ok_iff.2 hrecode
    exact absurd ((converts_iff hrgb).2 fun x y hin => convertible_of_toHsv hto hin) hnot
  · refine ⟨fault, ?_⟩
    rw [toHsv, hfault]
    rfl

/-- An image whose samples lie between zero and 2097151 is converted, whatever its colors. -/
theorem converts_of_sample_mem (hrgb : image.space = .rgb)
    (h : ∀ s ∈ image.samples, 0 ≤ s.toInt ∧ s.toInt ≤ 2097151) : image.Converts := by
  refine (converts_iff hrgb).2 fun x y hin => ?_
  have hmem (c : Channel) := h _ (image.get_pixel_mem_samples hin c)
  exact Exact.Convertible.of_mem (hmem .red) (hmem .green) (hmem .blue)

end Image

end Acutance
