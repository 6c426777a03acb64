import Acutance.Proofs.Color.Pixel
import Acutance.Proofs.Exact.Wheel

namespace Acutance

namespace Pixel

/-- The largest sample of a pixel in red, green and blue. -/
def highest (p : Pixel) : Int := max p.first.toInt (max p.second.toInt p.third.toInt)

/-- The smallest sample of a pixel in red, green and blue. -/
def lowest (p : Pixel) : Int := min p.first.toInt (min p.second.toInt p.third.toInt)

theorem lowest_le (p : Pixel) (c : Channel) : p.lowest ≤ (p.get c).toInt := by
  cases c <;> simp only [lowest, get] <;> omega

theorem le_highest (p : Pixel) (c : Channel) : (p.get c).toInt ≤ p.highest := by
  cases c <;> simp only [highest, get] <;> omega

variable {p : Pixel}

theorem highest_eq {n : Int} (hle : ∀ c, (p.get c).toInt ≤ n) (heq : ∃ c, (p.get c).toInt = n) :
    p.highest = n := by
  obtain ⟨c, hc⟩ := heq
  exact le_antisymm (max_le (hle .first) (max_le (hle .second) (hle .third))) (hc ▸ p.le_highest c)

theorem lowest_eq {n : Int} (hle : ∀ c, n ≤ (p.get c).toInt) (heq : ∃ c, (p.get c).toInt = n) :
    p.lowest = n := by
  obtain ⟨c, hc⟩ := heq
  exact le_antisymm (hc ▸ p.lowest_le c) (le_min (hle .first) (le_min (hle .second) (hle .third)))

/-- A pixel of nominal saturation and value is converted back without a fault, and to what the formulas
say. Its hue may be any that is not below zero, and any at all where there is no saturation. -/
theorem toRgb_eq_of_nominal {h s v : Int} (hh : p.first.toInt = h) (hs : p.second.toInt = s)
    (hv : p.third.toInt = v) (hhue : s = 0 ∨ 0 ≤ h) (hsmem : 0 ≤ s ∧ s ≤ 1024) (hvmem : 0 ≤ v) :
    ∃ q, p.toRgb = .ok q ∧ ∀ c, (q.get c).toInt = Exact.toRgb h s v c := by
  have hword := Width.bits32_holds_iff.1 (hv ▸ holds_toInt p.third)
  have hfull := Width.holds_tdiv_of_pos (b := 4) (by decide) (hv ▸ holds_toInt p.third)
  have hfull' := Width.bits32_holds_iff.1 hfull
  by_cases hgray : s = 0
  · refine ⟨_, toRgb_eq_gray (hs.trans hgray), fun c => ?_⟩
    rw [hv, Exact.toRgb, if_pos hgray]
    cases c <;> exact toInt_narrow hfull
  · have hwithin : 0 ≤ h.tmod 60 ∧ h.tmod 60 < 60 :=
      ⟨Int.tmod_nonneg 60 (hhue.resolve_left hgray), Int.tmod_lt_of_pos h (by decide)⟩
    have falls := Exact.fadeWeight_mem hsmem (d := h.tmod 60) ⟨hwithin.1, hwithin.2.le⟩
    have rises := Exact.fadeWeight_mem hsmem (d := 60 - h.tmod 60) ⟨by omega, by omega⟩
    have product {weight : Int} (hweight : 0 ≤ weight ∧ weight ≤ 61440) :
        Width.bits64.Holds (v * weight) := by
      have hleast := mul_nonneg hvmem hweight.1
      have hmost := mul_le_mul hword.2 hweight.2 hweight.1 (by decide)
      exact Width.bits64_holds_iff.2 ⟨by omega, by omega⟩
    have stored {degrees : Int} (hdegrees : 0 ≤ degrees ∧ degrees ≤ 60) :
        Width.bits32.Holds (Exact.fade s v degrees) := by
      have hmem := Exact.fade_mem hsmem hvmem hdegrees
      exact Width.bits32_holds_iff.2 ⟨by omega, by omega⟩
    refine ⟨_, toRgb_eq_inSector hh hs hv hgray (product falls) (product rises), fun c => ?_⟩
    rw [Exact.toRgb, if_neg hgray]
    refine toInt_inSector _ hfull ?_ (stored ⟨hwithin.1, hwithin.2.le⟩)
      (stored ⟨by omega, by omega⟩) c
    rw [Exact.low_eq_fade]
    exact stored (by decide)

/-- Samples up to 2097151 go to hue, saturation and value and back without a fault. -/
theorem exists_restored (hp : ∀ c, 0 ≤ (p.get c).toInt ∧ (p.get c).toInt ≤ 2097151) :
    ∃ hsv back, p.toHsv = .ok hsv ∧ hsv.toRgb = .ok back ∧ ∀ c, (back.get c).toInt =
      Exact.restored p.first.toInt p.second.toInt p.third.toInt (p.get c).toInt := by
  obtain ⟨hsv, hto, hformula⟩ := toHsv_eq hp
  obtain ⟨r, g, b⟩ := p
  have hr : 0 ≤ r.toInt := (hp .red).1
  have hg : 0 ≤ g.toInt := (hp .green).1
  have hb : 0 ≤ b.toInt := (hp .blue).1
  have hhue : Exact.saturation r.toInt g.toInt b.toInt = 0 ∨
      0 ≤ Exact.hue r.toInt g.toInt b.toInt := by
    by_cases hgray : Exact.spread r.toInt g.toInt b.toInt = 0
    · exact .inl (Exact.saturation_of_gray hgray)
    · exact .inr (Exact.hue_mem_of_color hgray).1
  have hvalue : 0 ≤ Exact.value r.toInt g.toInt b.toInt := by
    unfold Exact.value
    omega
  obtain ⟨back, hfrom, hback⟩ := toRgb_eq_of_nominal (hformula .hue) (hformula .saturation)
    (hformula .value) hhue (Exact.saturation_mem hr hg hb) hvalue
  refine ⟨hsv, back, hto, hfrom, fun c => (hback c).trans ?_⟩
  refine (Exact.toRgb_toHsv r.toInt g.toInt b.toInt c).trans ?_
  cases c <;> rfl

/-- Samples up to 2097151 go to hue, saturation and value and back without a fault. The largest sample
comes back as it was, and no sample comes back below the smallest one; every sample comes back above
itself less one and a sixtieth of the spread, and below itself and a 1024th of the largest one. When no
sample exceeds 1024, none grows, all but the middle one come back as they were, and so do grays. -/
theorem exists_round_trip (hp : ∀ c, 0 ≤ (p.get c).toInt ∧ (p.get c).toInt ≤ 2097151) :
    ∃ hsv back, p.toHsv = .ok hsv ∧ hsv.toRgb = .ok back ∧
      (∀ c, ((p.get c).toInt = p.highest → back.get c = p.get c) ∧
        p.lowest ≤ (back.get c).toInt ∧
        60 * ((p.get c).toInt - (back.get c).toInt) < p.highest - p.lowest + 60 ∧
        (0 < p.highest → 1024 * ((back.get c).toInt - (p.get c).toInt) < p.highest)) ∧
      (p.highest ≤ 1024 → (∀ c, (back.get c).toInt ≤ (p.get c).toInt) ∧
        (∀ c, (p.get c).toInt = p.lowest ∨ (p.get c).toInt = p.highest → back.get c = p.get c) ∧
        (p.lowest = p.highest → back = p) ∧
        ∀ c, back.get c ≠ p.get c → p.lowest < (p.get c).toInt ∧ (p.get c).toInt < p.highest ∧
          60 * ((p.get c).toInt - (back.get c).toInt) < p.highest - p.lowest + 60) := by
  obtain ⟨hsv, back, hto, hfrom, hback⟩ := exists_restored hp
  have hspread : Exact.spread p.first.toInt p.second.toInt p.third.toInt = p.highest - p.lowest := rfl
  have hmem (c : Channel) : p.lowest ≤ (back.get c).toInt ∧
      60 * ((p.get c).toInt - (back.get c).toInt) < p.highest - p.lowest + 60 ∧
        (0 < p.highest → 1024 * ((back.get c).toInt - (p.get c).toInt) < p.highest) := by
    rw [hback c, ← hspread]
    exact Exact.restored_mem (hp .red).1 (hp .green).1 (hp .blue).1 (p.lowest_le c) (p.le_highest c)
  have hlargest (c : Channel) (h : (p.get c).toInt = p.highest) : back.get c = p.get c := by
    rw [← Int32.toInt_inj, hback c, h]
    exact Exact.restored_highest _ _ _
  refine ⟨hsv, back, hto, hfrom, fun c => ⟨hlargest c, hmem c⟩, fun hdim => ?_⟩
  -- a gain of less than one is none
  have hle (c : Channel) : (back.get c).toInt ≤ (p.get c).toInt := by
    have hleast := (hp c).1
    have hlow := hmem c
    have hhigh := p.le_highest c
    by_cases hblack : p.highest = 0
    · rw [hlargest c (by omega)]
    · omega
  have hsmallest (c : Channel) (h : (p.get c).toInt = p.lowest) : back.get c = p.get c := by
    rw [← Int32.toInt_inj]
    exact le_antisymm (hle c) (h ▸ (hmem c).1)
  refine ⟨hle, fun c h => h.elim (hsmallest c) (hlargest c), fun hgray => ext_get fun c => ?_,
    fun c hne => ?_⟩
  · exact hlargest c (le_antisymm (p.le_highest c) (hgray ▸ p.lowest_le c))
  · have hlow := p.lowest_le c
    have hhigh := p.le_highest c
    exact ⟨lt_of_le_of_ne hlow fun h => hne (hsmallest c h.symm),
      lt_of_le_of_ne hhigh fun h => hne (hlargest c h), (hmem c).2.1⟩

/-- A red that is closer to blue than to green. -/
def crimson : Pixel := ⟨200, 40, 60⟩

theorem exists_round_trip_crimson :
    (∀ c, 0 ≤ (crimson.get c).toInt ∧ (crimson.get c).toInt ≤ 2097151) ∧
      ∃ hsv back, crimson.toHsv = .ok hsv ∧ hsv.toRgb = .ok back ∧ back.get .red = 200 ∧
        back.get .green = 40 ∧ 57 ≤ (back.get .blue).toInt ∧ (back.get .blue).toInt ≤ 60 := by
  have hsamples : ∀ c, 0 ≤ (crimson.get c).toInt ∧ (crimson.get c).toInt ≤ 2097151 := by
    intro c
    cases c <;> decide
  obtain ⟨hsv, back, hto, hfrom, hnear, hexact⟩ := exists_round_trip hsamples
  obtain ⟨hle, hends, -⟩ := hexact (by decide)
  have hblue : 60 * (60 - (back.get .blue).toInt) < 160 + 60 := (hnear .blue).2.2.1
  exact ⟨hsamples, hsv, back, hto, hfrom, hends .red (by decide), hends .green (by decide),
    by omega, hle .blue⟩

end Pixel

end Acutance
