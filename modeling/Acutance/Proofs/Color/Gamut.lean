import Acutance.Proofs.Color.Restorable
import Acutance.Proofs.Color.RoundTrip

namespace Acutance

namespace Exact

variable {h s v : Int}

/-- The samples of a color are its value, each faded through the descent of its channel at some hue. -/
theorem exists_toRgb_eq_fade (hhue : s = 0 ∨ 0 ≤ h) (v : Int) : ∃ turn, (0 ≤ turn ∧ turn ≤ 360) ∧
    ∀ c, toRgb h s v c = fade s v (descent turn c) := by
  obtain rfl | hh := hhue
  · refine ⟨0, by decide, fun c => ?_⟩
    rw [fade_unsaturated, toRgb, if_pos rfl]
    cases c <;> rfl
  · have hturn : 0 ≤ h % 360 ∧ h % 360 ≤ 360 := ⟨by omega, by omega⟩
    have hmod : h % 360 = h % 360 % 360 := by omega
    refine ⟨h % 360, hturn, fun c => ?_⟩
    rw [toRgb_eq_of_emod_eq hh hturn.1 hmod, toRgb_eq_fade hturn]

/-- Below zero a turn begins with its last degrees: the sector counts back from zero. -/
theorem sector_of_neg (hh : h < 0) : (h.tdiv 60).tmod 6 = -(-h / 60 % 6) := by
  have hneg : h.tdiv 60 = -(-h / 60) := by
    rw [← Int.tdiv_eq_ediv_of_nonneg (by omega), Int.neg_tdiv, neg_neg]
  rw [hneg, Int.neg_tmod, Int.tmod_eq_emod_of_nonneg (by omega)]

end Exact

namespace Pixel

variable {p : Pixel}

/-- A color of nominal saturation whose hue is not below zero comes back without a fault. Its samples lie
between zero and a quarter of the value; the largest one is that quarter, and the smallest one what the
saturation leaves of it. So a nominal color comes back as bytes. The hue of a gray may be any. -/
theorem exists_toRgb_in_gamut (hhue : p.second.toInt = 0 ∨ 0 ≤ p.first.toInt)
    (hsaturation : 0 ≤ p.second.toInt ∧ p.second.toInt ≤ 1024) (hvalue : 0 ≤ p.third.toInt) :
    ∃ q, p.toRgb = .ok q ∧
      (∀ c, 0 ≤ (q.get c).toInt ∧ (q.get c).toInt ≤ p.third.toInt.tdiv 4) ∧
      q.highest = p.third.toInt.tdiv 4 ∧
      q.lowest = (p.third.toInt * (1024 - p.second.toInt)).tdiv 4096 ∧
      (p.third.toInt ≤ 1023 → ∀ c, 0 ≤ (q.get c).toInt ∧ (q.get c).toInt ≤ 255) := by
  obtain ⟨q, hq, hformula⟩ := toRgb_eq_of_nominal rfl rfl rfl hhue hsaturation hvalue
  obtain ⟨turn, hturn, hfade⟩ := Exact.exists_toRgb_eq_fade hhue p.third.toInt
  obtain ⟨full, hfull⟩ := Exact.exists_descent_eq_zero hturn
  obtain ⟨gone, hgone⟩ := Exact.exists_descent_eq_sixty hturn
  have hsample (c : Channel) : (q.get c).toInt =
      Exact.fade p.second.toInt p.third.toInt (Exact.descent turn c) := by rw [hformula, hfade]
  have hmem (c : Channel) : 0 ≤ (q.get c).toInt ∧ (q.get c).toInt ≤ p.third.toInt.tdiv 4 := by
    rw [hsample]
    exact Exact.fade_mem hsaturation hvalue (Exact.descent_mem turn c)
  refine ⟨q, hq, hmem, highest_eq (fun c => (hmem c).2) ⟨full, ?_⟩, lowest_eq (fun c => ?_) ⟨gone, ?_⟩,
    fun hbyte c => ?_⟩
  · rw [hsample, hfull, Exact.fade_zero]
  · rw [hsample]
    refine (Exact.low_eq_fade _ _).trans_le ?_
    exact Exact.fade_le_fade hsaturation.1 hvalue (Exact.descent_mem turn c).2
  · rw [hsample, hgone, ← Exact.low_eq_fade]
    rfl
  · have hquarter := Int.tdiv_le_tdiv (c := 4) (by decide) hbyte
    exact ⟨(hmem c).1, (hmem c).2.trans hquarter⟩

/-- A dark blue, a hundred turns further than the wheel says. -/
def navy : Pixel := ⟨36230, 901, 502⟩

theorem exists_toRgb_in_gamut_navy :
    (navy.second.toInt = 0 ∨ 0 ≤ navy.first.toInt) ∧
    (0 ≤ navy.second.toInt ∧ navy.second.toInt ≤ 1024) ∧ 0 ≤ navy.third.toInt ∧
      ∃ q, navy.toRgb = .ok q ∧ q.highest = 125 ∧ q.lowest = 15 ∧
        ∀ c, 0 ≤ (q.get c).toInt ∧ (q.get c).toInt ≤ 255 := by
  have hhue : navy.second.toInt = 0 ∨ 0 ≤ navy.first.toInt := .inr (by decide)
  have hsaturation : 0 ≤ navy.second.toInt ∧ navy.second.toInt ≤ 1024 := by decide
  have hvalue : 0 ≤ navy.third.toInt := by decide
  obtain ⟨q, hq, -, hhighest, hlowest, hbytes⟩ := exists_toRgb_in_gamut hhue hsaturation hvalue
  exact ⟨hhue, hsaturation, hvalue, q, hq, hhighest, hlowest, hbytes (by decide)⟩

private theorem inSector_of_neg {sector : Int} (hneg : sector < 0) (full low falling rising : Sample) :
    inSector sector full low falling rising = gray 0 := by
  unfold inSector
  split_ifs
  case neg => rfl
  all_goals omega

/-- A color with a hue below zero comes back black, unless it lies in the sector next to a full turn. There it
comes back as in the sector of red, with the degrees counted below zero. -/
theorem toRgb_of_hue_neg (hhue : p.first.toInt < 0) (hcolor : p.second.toInt ≠ 0)
    (hproducts : p.Restorable) : p.toRgb = .ok (
      if -p.first.toInt % 360 < 60 then
        ⟨narrow (p.third.toInt.tdiv 4),
          narrow (Exact.rising p.first.toInt p.second.toInt p.third.toInt),
          narrow (Exact.low p.second.toInt p.third.toInt)⟩
      else gray 0) := by
  rw [toRgb_of_restorable hcolor hproducts, Exact.sector_of_neg hhue]
  refine congrArg Except.ok ?_
  split_ifs with hnext
  · have hsector : -p.first.toInt / 60 % 6 = 0 := by omega
    rw [hsector]
    rfl
  · exact inSector_of_neg (by omega) _ _ _ _

/-- A faded color on either side of the first sector below zero. -/
def faded (hue : Sample) : Pixel := ⟨hue, 512, 800⟩

theorem toRgb_of_hue_neg_faded :
    ((faded (-1)).first.toInt < 0 ∧ (faded (-1)).second.toInt ≠ 0 ∧ (faded (-1)).Restorable ∧
      (faded (-1)).toRgb = .ok ⟨200, 98, 100⟩) ∧
    (faded (-70)).first.toInt < 0 ∧ (faded (-70)).second.toInt ≠ 0 ∧ (faded (-70)).Restorable ∧
      (faded (-70)).toRgb = .ok (gray 0) := by
  have hnear := toRgb_of_hue_neg (p := faded (-1)) (by decide) (by decide) (by decide)
  have hfar := toRgb_of_hue_neg (p := faded (-70)) (by decide) (by decide) (by decide)
  exact ⟨⟨by decide, by decide, by decide, hnear⟩, by decide, by decide, by decide, hfar⟩

/-- A full turn below zero a color is not black. -/
theorem toRgb_faded_fullTurn : (faded (-360)).first.toInt < -59 ∧ (faded (-360)).second.toInt ≠ 0 ∧
    (faded (-360)).Restorable ∧ (faded (-360)).toRgb = .ok ⟨200, 100, 100⟩ ∧
      (⟨200, 100, 100⟩ : Pixel) ≠ gray 0 := by
  decide

end Pixel

end Acutance
