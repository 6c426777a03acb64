import Acutance.Color.Hsv
import Acutance.Proofs.Exact.Range

namespace Acutance

namespace Hsv

variable {r g b : Int}

theorem bounds_eq (r g b : Int) : bounds r g b = (max r (max g b), min r (min g b)) := by
  unfold bounds
  by_cases hrg : r > g
  · rw [if_pos hrg]
    simp only
    split_ifs <;> rw [Prod.mk.injEq] <;> omega
  · rw [if_neg hrg]
    simp only
    split_ifs <;> rw [Prod.mk.injEq] <;> omega

private theorem hueOffset_eq {a b s : Int} (hpos : 0 < s) (hsize : s ≤ 2097151) (hlow : -s ≤ a - b)
    (hhigh : a - b ≤ s) : hueOffset a b s = .ok ((60 * (a - b)).tdiv s) := by
  have hshare := Exact.offset_mem hpos hlow hhigh
  rw [hueOffset, sectorDegrees,
    Width.sub_of_holds (Width.bits32_holds_iff.2 ⟨by omega, by omega⟩)]
  simp only [bind, Except.bind]
  rw [Width.mul_of_holds (Width.bits32_holds_iff.2 ⟨by omega, by omega⟩)]
  exact Width.div_of_holds (by omega) (Width.bits32_holds_iff.2 ⟨by omega, by omega⟩)

/-- A share of the circle added to the degrees of a pure color. -/
theorem add_hueOffset_eq {start a b s : Int} (hstart : 0 ≤ start ∧ start ≤ 360) (hpos : 0 < s)
    (hsize : s ≤ 2097151) (hlow : -s ≤ a - b) (hhigh : a - b ≤ s) :
    (do Width.bits32.add start (← hueOffset a b s)) = .ok (start + (60 * (a - b)).tdiv s) := by
  have hshare := Exact.offset_mem hpos hlow hhigh
  rw [hueOffset_eq hpos hsize hlow hhigh]
  exact Width.add_of_holds (Width.bits32_holds_iff.2 ⟨by omega, by omega⟩)

private theorem hue_eq (hsize : Exact.spread r g b ≤ 2097151) :
    hue r g b (max r (max g b)) (Exact.spread r g b) = .ok (Exact.hue r g b) := by
  unfold hue Exact.hue
  by_cases hgray : Exact.spread r g b = 0
  · rw [if_pos hgray, if_pos hgray]
    rfl
  · have hpos : 0 < Exact.spread r g b := by
      unfold Exact.spread at hgray ⊢
      omega
    rw [if_neg hgray, if_neg hgray]
    split_ifs with hred hle hgreen
    · exact hueOffset_eq hpos hsize (by unfold Exact.spread; omega) (by unfold Exact.spread; omega)
    · exact add_hueOffset_eq (by decide) hpos hsize (by unfold Exact.spread; omega)
        (by unfold Exact.spread; omega)
    · exact add_hueOffset_eq (by decide) hpos hsize (by unfold Exact.spread; omega)
        (by unfold Exact.spread; omega)
    · exact add_hueOffset_eq (by decide) hpos hsize (by unfold Exact.spread; omega)
        (by unfold Exact.spread; omega)

private theorem saturation_eq (hr : 0 ≤ r) (hg : 0 ≤ g) (hb : 0 ≤ b)
    (hsize : Exact.spread r g b ≤ 2097151) :
    saturation (max r (max g b)) (Exact.spread r g b) = .ok (Exact.saturation r g b) := by
  have hmem := Exact.saturation_mem hr hg hb
  have hspread := Exact.spread_mem hr hg hb
  unfold saturation Exact.saturation at *
  split_ifs with hblack
  · rfl
  · rw [if_neg hblack] at hmem
    rw [saturationOne, Width.mul_of_holds (Width.bits32_holds_iff.2 ⟨by omega, by omega⟩)]
    exact Width.div_of_holds hblack (Width.bits32_holds_iff.2 ⟨by omega, by omega⟩)

theorem share_eq {value weight one : Int} (hone : 0 < one)
    (hproduct : Width.bits64.Holds (value * weight)) :
    share value weight one = .ok (narrow ((value * weight).tdiv (one * 4))) := by
  have hscale : 0 < one * 4 := by omega
  rw [share, valueScale, Width.mul_of_holds hproduct]
  simp only [bind, Except.bind]
  rw [Width.div_of_holds hscale.ne' (Width.holds_tdiv_of_pos hscale hproduct)]
  rfl

theorem share_eq_error {value weight : Int} (one : Int)
    (hproduct : ¬ Width.bits64.Holds (value * weight)) :
    share value weight one = .error .mulOverflow := by
  rw [share, Width.mul, Width.keep, if_neg hproduct]
  rfl

end Hsv

namespace Pixel

/-- Samples up to 2097151 are converted without a fault, and to what the formulas say. -/
theorem toHsv_eq {p : Pixel} (hp : ∀ c, 0 ≤ (p.get c).toInt ∧ (p.get c).toInt ≤ 2097151) :
    ∃ q, p.toHsv = .ok q ∧ ∀ c, (q.get c).toInt =
      Exact.toHsv (p.get .red).toInt (p.get .green).toInt (p.get .blue).toInt c := by
  obtain ⟨r, g, b⟩ := p
  obtain ⟨hr, hr'⟩ : 0 ≤ r.toInt ∧ r.toInt ≤ 2097151 := hp .red
  obtain ⟨hg, hg'⟩ : 0 ≤ g.toInt ∧ g.toInt ≤ 2097151 := hp .green
  obtain ⟨hb, hb'⟩ : 0 ≤ b.toInt ∧ b.toInt ≤ 2097151 := hp .blue
  have hspread := Exact.spread_mem hr hg hb
  have hvalue : Width.bits32.Holds (4 * max r.toInt (max g.toInt b.toInt)) :=
    Width.bits32_holds_iff.2 ⟨by omega, by omega⟩
  have hhue := Exact.hue_mem r.toInt g.toInt b.toInt
  have hsaturation := Exact.saturation_mem hr hg hb
  refine ⟨⟨narrow (Exact.hue r.toInt g.toInt b.toInt),
    narrow (Exact.saturation r.toInt g.toInt b.toInt),
    narrow (Exact.value r.toInt g.toInt b.toInt)⟩, ?_, ?_⟩
  · have hsub : Width.bits32.sub (max r.toInt (max g.toInt b.toInt))
        (min r.toInt (min g.toInt b.toInt)) = .ok (Exact.spread r.toInt g.toInt b.toInt) :=
      Width.sub_of_holds (Width.bits32_holds_iff.2 ⟨by omega, by omega⟩)
    simp only [toHsv, Hsv.bounds_eq, hsub, bind, Except.bind, Hsv.valueScale,
      Width.mul_of_holds hvalue]
    rw [Hsv.saturation_eq hr hg hb (by omega)]
    simp only
    rw [Hsv.hue_eq (by omega)]
    rfl
  · intro c
    cases c
    · exact toInt_narrow (Width.bits32_holds_iff.2 ⟨by omega, by omega⟩)
    · exact toInt_narrow (Width.bits32_holds_iff.2 ⟨by omega, by omega⟩)
    · exact toInt_narrow hvalue

section Back

variable {p : Pixel}

theorem toRgb_eq_gray (hs : p.second.toInt = 0) :
    p.toRgb = .ok (gray (narrow (p.third.toInt.tdiv 4))) := by
  have hfull := Width.div_of_holds (b := 4) (by decide)
    (Width.holds_tdiv_of_pos (b := 4) (by decide) (holds_toInt p.third))
  simp only [toRgb, if_pos hs, Hsv.valueScale, hfull, bind, Except.bind]
  rfl

/-- The way back of a color, with the two products of its value that can leave a word still to be taken.
The product of the sample that stays low never leaves it. -/
theorem toRgb_eq_shares {h s v : Int} (hh : p.first.toInt = h) (hs : p.second.toInt = s)
    (hv : p.third.toInt = v) (hcolor : s ≠ 0) :
    p.toRgb = do
      let falling ← Hsv.share v (61440 - s * h.tmod 60) Hsv.sectorOne
      let rising ← Hsv.share v (61440 - s * (60 - h.tmod 60)) Hsv.sectorOne
      return inSector ((h.tdiv 60).tmod 6) (narrow (v.tdiv 4)) (narrow (Exact.low s v)) falling
        rising := by
  have hhue : Width.bits32.Holds h := hh ▸ holds_toInt p.first
  have hsat : Width.bits32.Holds s := hs ▸ holds_toInt p.second
  have hval : Width.bits32.Holds v := hv ▸ holds_toInt p.third
  have hwithin := tmod_mem (n := h) (d := 60) (by decide)
  have hsbound := Width.bits32_holds_iff.1 hsat
  have hfallen : -126701535232 ≤ s * h.tmod 60 ∧ s * h.tmod 60 ≤ 126701535232 := by
    constructor <;> nlinarith
  have hrisen : -257698037760 ≤ s * (60 - h.tmod 60) ∧ s * (60 - h.tmod 60) ≤ 257698037760 := by
    constructor <;> nlinarith
  have hlow : Width.bits64.Holds (v * (1024 - s)) := by
    have hproduct := mul_mem_of_mem (Width.bits32_holds_iff.1 hval)
      (⟨by omega, by omega⟩ : -2147482623 ≤ 1024 - s ∧ 1024 - s ≤ 2147484672) (by decide) (by decide)
    norm_num at hproduct
    exact Width.bits64_holds_iff.2 ⟨by omega, by omega⟩
  have hturn := Width.holds_tdiv_of_pos (b := 60) (by decide) hhue
  have hsector := Width.rem_of_holds (b := 6) (by decide)
    (Width.holds_tdiv_of_pos (b := 6) (by decide) hturn)
  have hfull := Width.div_of_holds (b := 4) (by decide)
    (Width.holds_tdiv_of_pos (b := 4) (by decide) hval)
  have hlowWeight : Width.bits64.sub 1024 s = .ok (1024 - s) :=
    Width.sub_of_holds (Width.bits64_holds_iff.2 ⟨by omega, by omega⟩)
  have hlowShare : Hsv.share v (1024 - s) 1024 = .ok (narrow (Exact.low s v)) :=
    Hsv.share_eq (by decide) hlow
  have hfallingPart : Width.bits64.mul s (h.tmod 60) = .ok (s * h.tmod 60) :=
    Width.mul_of_holds (Width.bits64_holds_iff.2 ⟨by omega, by omega⟩)
  have hfallingWeight : Width.bits64.sub Hsv.sectorOne (s * h.tmod 60) =
      .ok (61440 - s * h.tmod 60) :=
    Width.sub_of_holds (a := 61440) (Width.bits64_holds_iff.2 ⟨by omega, by omega⟩)
  have hleft : Width.bits64.sub 60 (h.tmod 60) = .ok (60 - h.tmod 60) :=
    Width.sub_of_holds (Width.bits64_holds_iff.2 ⟨by omega, by omega⟩)
  have hrisingPart : Width.bits64.mul s (60 - h.tmod 60) = .ok (s * (60 - h.tmod 60)) :=
    Width.mul_of_holds (Width.bits64_holds_iff.2 ⟨by omega, by omega⟩)
  have hrisingWeight : Width.bits64.sub Hsv.sectorOne (s * (60 - h.tmod 60)) =
      .ok (61440 - s * (60 - h.tmod 60)) :=
    Width.sub_of_holds (a := 61440) (Width.bits64_holds_iff.2 ⟨by omega, by omega⟩)
  simp only [toRgb, hh, hs, hv, if_neg hcolor, Hsv.sectorDegrees, Hsv.sectorCount,
    Hsv.valueScale, Hsv.saturationOne, Width.div_of_holds (b := 60) (by decide) hturn, hsector,
    Width.rem_of_holds (b := 60) (by decide) hturn, hfull, bind, Except.bind, hlowWeight,
    hlowShare, hfallingPart, hfallingWeight, hleft, hrisingPart, hrisingWeight]

/-- A color is converted back without a fault when the two products that are taken of its value
through its sector are words. -/
theorem toRgb_eq_inSector {h s v : Int} (hh : p.first.toInt = h) (hs : p.second.toInt = s)
    (hv : p.third.toInt = v) (hcolor : s ≠ 0)
    (hfalling : Width.bits64.Holds (v * (61440 - s * h.tmod 60)))
    (hrising : Width.bits64.Holds (v * (61440 - s * (60 - h.tmod 60)))) :
    p.toRgb = .ok (inSector ((h.tdiv 60).tmod 6) (narrow (v.tdiv 4)) (narrow (Exact.low s v))
      (narrow (Exact.falling h s v)) (narrow (Exact.rising h s v))) := by
  rw [toRgb_eq_shares hh hs hv hcolor, Hsv.share_eq (by decide) hfalling,
    Hsv.share_eq (by decide) hrising]
  rfl

theorem toInt_inSector (sector : Int) {full low falling rising : Int} (hfull : Width.bits32.Holds full)
    (hlow : Width.bits32.Holds low) (hfalling : Width.bits32.Holds falling)
    (hrising : Width.bits32.Holds rising) (c : Channel) :
    ((inSector sector (narrow full) (narrow low) (narrow falling) (narrow rising)).get c).toInt =
      Exact.inSector sector full low falling rising c := by
  have hfull' := toInt_narrow hfull
  have hlow' := toInt_narrow hlow
  have hfalling' := toInt_narrow hfalling
  have hrising' := toInt_narrow hrising
  unfold inSector Exact.inSector
  split_ifs <;> cases c <;> simp [get, Exact.triple, gray, *]

private theorem holds_share {v weight : Int} (hv : -1418 ≤ v ∧ v ≤ 1023)
    (hweight : -1000000 ≤ weight ∧ weight ≤ 1000000) : Width.bits64.Holds (v * weight) := by
  have hproduct := mul_mem_of_mem hv hweight (by decide) (by decide)
  norm_num at hproduct
  exact Width.bits64_holds_iff.2 ⟨by omega, by omega⟩

/-- A pixel from the ranges behind sharpening is converted back without a fault, and to what the
formulas say. -/
theorem toRgb_eq {h s v : Int} (hh : p.first.toInt = h) (hs : p.second.toInt = s)
    (hv : p.third.toInt = v) (hsmem : -1436 ≤ s ∧ s ≤ 1023) (hvmem : -1418 ≤ v ∧ v ≤ 1023) :
    ∃ q, p.toRgb = .ok q ∧ ∀ c, (q.get c).toInt = Exact.toRgb h s v c := by
  have hfull := Exact.full_mem hvmem
  by_cases hgray : s = 0
  · refine ⟨_, toRgb_eq_gray (hs.trans hgray), fun c => ?_⟩
    have hstored := toInt_narrow (n := v.tdiv 4) (Width.bits32_holds_iff.2 ⟨by omega, by omega⟩)
    rw [hv, Exact.toRgb, if_pos hgray]
    cases c <;> exact hstored
  · have hlow := Exact.low_mem hsmem hvmem
    have hfalling := Exact.falling_mem h hsmem hvmem
    have hrising := Exact.rising_mem h hsmem hvmem
    have hstored := toInt_inSector ((h.tdiv 60).tmod 6)
      (Width.bits32_holds_iff.2 ⟨by omega, by omega⟩ : Width.bits32.Holds (v.tdiv 4))
      (Width.bits32_holds_iff.2 ⟨by omega, by omega⟩ : Width.bits32.Holds (Exact.low s v))
      (Width.bits32_holds_iff.2 ⟨by omega, by omega⟩ : Width.bits32.Holds (Exact.falling h s v))
      (Width.bits32_holds_iff.2 ⟨by omega, by omega⟩ : Width.bits32.Holds (Exact.rising h s v))
    have hfallingWeight := Exact.fallingWeight_mem h hsmem
    have hrisingWeight := Exact.risingWeight_mem h hsmem
    refine ⟨_, toRgb_eq_inSector hh hs hv hgray (holds_share hvmem ⟨by omega, by omega⟩)
      (holds_share hvmem ⟨by omega, by omega⟩), fun c => ?_⟩
    rw [hstored, Exact.toRgb, if_neg hgray]

end Back

end Pixel

end Acutance
