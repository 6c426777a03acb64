import Acutance.Proofs.Exact.Range

namespace Acutance

namespace Exact

/-- A sample that has faded through so many degrees of a sector. -/
def fade (s v degrees : Int) : Int := (v * (61440 - s * degrees)).tdiv 245760

/-- The hue of the pure color of a channel, in degrees. -/
def pureHue : Channel → Int
  | .first => 0
  | .second => 120
  | .third => 240

/-- How far a hue lies from another one on the wheel, in degrees, by the shorter way. -/
def hueDistance (h h' : Int) : Int :=
  min (max (h - h') (h' - h)) (360 - max (h - h') (h' - h))

/-- The degrees of a sector that a channel has faded through at a hue. -/
def descent (h : Int) (c : Channel) : Int := max 0 (min 60 (hueDistance h (pureHue c) - 60))

variable {h s v : Int}

theorem fade_zero (s v : Int) : fade s v 0 = v.tdiv 4 := by
  rw [fade, mul_zero, sub_zero]
  exact Int.mul_tdiv_mul_of_pos_left v 4 (by decide : (0 : Int) < 61440)

theorem fade_unsaturated (v degrees : Int) : fade 0 v degrees = v.tdiv 4 := by
  rw [← fade_zero 0 v, fade, fade, zero_mul, zero_mul]

theorem low_eq_fade (s v : Int) : low s v = fade s v 60 := by
  have hweight : v * (61440 - s * 60) = v * (1024 - s) * 60 := by ring
  rw [fade, hweight]
  exact (Int.mul_tdiv_mul_of_pos_left _ 4096 (by decide : (0 : Int) < 60)).symm

/-- What is left of full strength behind some degrees of a sector. -/
theorem fadeWeight_mem (hs : 0 ≤ s ∧ s ≤ 1024) {d : Int} (hd : 0 ≤ d ∧ d ≤ 60) :
    0 ≤ 61440 - s * d ∧ 61440 - s * d ≤ 61440 := by
  have hleast := mul_nonneg hs.1 hd.1
  have hmost : s * d ≤ 1024 * 60 := mul_le_mul hs.2 hd.2 hd.1 (by decide)
  omega

theorem fade_le_fade {degrees more : Int} (hs : 0 ≤ s) (hv : 0 ≤ v) (hle : degrees ≤ more) :
    fade s v more ≤ fade s v degrees := by
  have hweight : 61440 - s * more ≤ 61440 - s * degrees :=
    sub_le_sub_left (mul_le_mul_of_nonneg_left hle hs) _
  exact Int.tdiv_le_tdiv (by decide) (mul_le_mul_of_nonneg_left hweight hv)

/-- Fading takes nothing below black, and adds nothing to the full sample. -/
theorem fade_mem {degrees : Int} (hs : 0 ≤ s ∧ s ≤ 1024) (hv : 0 ≤ v)
    (hdegrees : 0 ≤ degrees ∧ degrees ≤ 60) : 0 ≤ fade s v degrees ∧ fade s v degrees ≤ v.tdiv 4 := by
  obtain ⟨hleast, -⟩ := fadeWeight_mem hs hdegrees
  rw [← fade_zero s v]
  exact ⟨Int.tdiv_nonneg (mul_nonneg hv hleast) (by decide), fade_le_fade hs.1 hv hdegrees.1⟩

/-- The sector of a hue and the degrees within it. A full turn is back in the first sector. -/
theorem sector_eq {j f : Int} (hh : h = 60 * j + f) (hj : 0 ≤ j) (hf : 0 ≤ f ∧ f < 60) :
    (h.tdiv 60).tmod 6 = j % 6 ∧ h.tmod 60 = f := by
  have hturn : h.tdiv 60 = j := by
    rw [Int.tdiv_eq_ediv_of_nonneg (by omega)]
    omega
  rw [hturn, Int.tmod_eq_emod_of_nonneg hj, Int.tmod_eq_emod_of_nonneg (by omega)]
  exact ⟨rfl, by omega⟩

/-- The samples of a color by its sector, after a function that is applied to each of them. -/
theorem inSector_map (f : Int → Int) {sector : Int} (hsector : 0 ≤ sector ∧ sector < 6)
    (full low falling rising : Int) (c : Channel) :
    inSector sector (f full) (f low) (f falling) (f rising) c =
      f (inSector sector full low falling rising c) := by
  unfold inSector
  split_ifs
  case neg => omega
  all_goals cases c <;> rfl

/-- In each sector one channel is full, one is gone, and one falls or rises. -/
theorem descent_eq_inSector {j f : Int} (hj : 0 ≤ j ∧ j ≤ 6) (hf : 0 ≤ f ∧ f < 60)
    (hturn : 60 * j + f ≤ 360) (c : Channel) :
    descent (60 * j + f) c = inSector (j % 6) 0 60 f (60 - f) c := by
  obtain rfl | rfl | rfl | rfl | rfl | rfl | rfl :
      j = 0 ∨ j = 1 ∨ j = 2 ∨ j = 3 ∨ j = 4 ∨ j = 5 ∨ j = 6 := by omega
  all_goals
    simp only [inSector, Int.reduceMod, Int.reduceEq, if_true, if_false]
    cases c <;> simp only [descent, hueDistance, pureHue, triple] <;> omega

/-- On the way back every sample is the value faded through the descent of its channel. -/
theorem toRgb_eq_fade (hh : 0 ≤ h ∧ h ≤ 360) (s v : Int) (c : Channel) :
    toRgb h s v c = fade s v (descent h c) := by
  unfold toRgb
  split_ifs with hgray
  · rw [hgray, fade_unsaturated]
    cases c <;> rfl
  · have hf : 0 ≤ h % 60 ∧ h % 60 < 60 := ⟨by omega, by omega⟩
    have hj : 0 ≤ h / 60 ∧ h / 60 ≤ 6 := ⟨by omega, by omega⟩
    have hsplit : 60 * (h / 60) + h % 60 = h := Int.mul_ediv_add_emod h 60
    obtain ⟨hsector, hwithin⟩ := sector_eq hsplit.symm hj.1 hf
    have hfalling : falling h s v = fade s v (h % 60) := by rw [falling, hwithin, fade]
    have hrising : rising h s v = fade s v (60 - h % 60) := by rw [rising, hwithin, fade]
    have hdescent := descent_eq_inSector hj hf (by omega) c
    rw [hsplit] at hdescent
    rw [hsector, hfalling, hrising, low_eq_fade, ← fade_zero s v, hdescent]
    exact inSector_map (fade s v) ⟨by omega, by omega⟩ 0 60 (h % 60) (60 - h % 60) c

/-- Hues that differ by whole turns are the same color. -/
theorem toRgb_eq_of_emod_eq {h' : Int} (hh : 0 ≤ h) (hh' : 0 ≤ h') (hmod : h % 360 = h' % 360)
    (s v : Int) : toRgb h s v = toRgb h' s v := by
  obtain ⟨hsector, hwithin⟩ := sector_eq (h := h) (j := h / 60) (f := h % 60) (by omega) (by omega)
    ⟨by omega, by omega⟩
  obtain ⟨hsector', hwithin'⟩ := sector_eq (h := h') (j := h' / 60) (f := h' % 60) (by omega)
    (by omega) ⟨by omega, by omega⟩
  have hsame : h / 60 % 6 = h' / 60 % 6 ∧ h % 60 = h' % 60 := ⟨by omega, by omega⟩
  simp only [toRgb, falling, rising, hsector, hsector', hwithin, hwithin', hsame]

theorem descent_mem (h : Int) (c : Channel) : 0 ≤ descent h c ∧ descent h c ≤ 60 := by
  unfold descent
  omega

/-- At every hue some sample is full. -/
theorem exists_descent_eq_zero (hh : 0 ≤ h ∧ h ≤ 360) : ∃ c, descent h c = 0 := by
  obtain hred | hgreen | hblue : (h ≤ 60 ∨ 300 ≤ h) ∨ (60 ≤ h ∧ h ≤ 180) ∨ (180 ≤ h ∧ h ≤ 300) := by
    omega
  · exact ⟨.red, by simp only [descent, hueDistance, pureHue]; omega⟩
  · exact ⟨.green, by simp only [descent, hueDistance, pureHue]; omega⟩
  · exact ⟨.blue, by simp only [descent, hueDistance, pureHue]; omega⟩

/-- At every hue some sample is gone. -/
theorem exists_descent_eq_sixty (hh : 0 ≤ h ∧ h ≤ 360) : ∃ c, descent h c = 60 := by
  obtain hred | hgreen | hblue : (120 ≤ h ∧ h ≤ 240) ∨ 240 ≤ h ∨ h ≤ 120 := by omega
  · exact ⟨.red, by simp only [descent, hueDistance, pureHue]; omega⟩
  · exact ⟨.green, by simp only [descent, hueDistance, pureHue]; omega⟩
  · exact ⟨.blue, by simp only [descent, hueDistance, pureHue]; omega⟩

section Colors

variable {r g b n : Int}

/-- How far a sample of a color stands above the smallest one, in sixtieths of the spread. -/
def rise (r g b n : Int) : Int := 60 * (n - min r (min g b)) / spread r g b

private theorem rise_lowest (r g b : Int) : rise r g b (min r (min g b)) = 0 := by
  rw [rise, sub_self, mul_zero, Int.zero_ediv]

private theorem rise_highest (hcolor : spread r g b ≠ 0) : rise r g b (max r (max g b)) = 60 :=
  Int.mul_ediv_cancel 60 hcolor

private theorem rise_mem (hlow : min r (min g b) ≤ n) (hhigh : n ≤ max r (max g b)) :
    0 ≤ rise r g b n ∧ rise r g b n ≤ 60 := by
  rcases (spread_nonneg r g b).eq_or_lt with hgray | hpos
  · rw [rise, ← hgray, Int.ediv_zero]
    decide
  · have hle := Int.ediv_le_ediv hpos (show 60 * (n - min r (min g b)) ≤ 60 * spread r g b by
      unfold spread
      omega)
    rw [Int.mul_ediv_cancel 60 hpos.ne'] at hle
    exact ⟨Int.ediv_nonneg (by omega) hpos.le, hle⟩

/-- The rise of a sample of a color, from none at the smallest one to all at the largest one. -/
theorem rise_range (hcolor : spread r g b ≠ 0) (hlow : min r (min g b) ≤ n)
    (hhigh : n ≤ max r (max g b)) : (0 ≤ rise r g b n ∧ rise r g b n ≤ 60) ∧
      (n = max r (max g b) → rise r g b n = 60) ∧ (n = min r (min g b) → rise r g b n = 0) :=
  ⟨rise_mem hlow hhigh, fun h => h ▸ rise_highest hcolor, fun h => h ▸ rise_lowest r g b⟩

/-- The share of a difference to the smallest sample, taken in either direction. -/
theorem offset_eq_rise (hlow : min r (min g b) ≤ n) :
    (60 * (n - min r (min g b))).tdiv (spread r g b) = rise r g b n ∧
      (60 * (min r (min g b) - n)).tdiv (spread r g b) = -rise r g b n := by
  have hshare : (60 * (n - min r (min g b))).tdiv (spread r g b) = rise r g b n :=
    Int.tdiv_eq_ediv_of_nonneg (by omega)
  refine ⟨hshare, ?_⟩
  rw [← hshare, ← Int.neg_tdiv, ← mul_neg, neg_sub]

/-- The hue of a color counts from the pure color of its largest sample, toward the middle one. -/
theorem hue_eq_rise (hcolor : spread r g b ≠ 0) : hue r g b =
    if max r (max g b) = r then if b ≤ g then rise r g b g else 360 - rise r g b b
    else if max r (max g b) = g then if r ≤ b then 120 + rise r g b b else 120 - rise r g b r
    else if g ≤ r then 240 + rise r g b r else 240 - rise r g b g := by
  have toward {a low : Int} (hlow : min r (min g b) = low) (hle : low ≤ a) :
      (60 * (a - low)).tdiv (spread r g b) = rise r g b a := by
    rw [← hlow] at hle ⊢
    exact (offset_eq_rise hle).1
  have back {a low : Int} (hlow : min r (min g b) = low) (hle : low ≤ a) :
      (60 * (low - a)).tdiv (spread r g b) = -rise r g b a := by
    rw [← hlow] at hle ⊢
    exact (offset_eq_rise hle).2
  rw [hue, if_neg hcolor]
  split_ifs with hred hside hgreen hside hside
  · exact toward (by omega) hside
  · rw [back (by omega) (by omega), ← sub_eq_add_neg]
  · rw [toward (by omega) hside]
  · rw [back (by omega) (by omega), ← sub_eq_add_neg]
  · rw [toward (by omega) hside]
  · rw [back (by omega) (by omega), ← sub_eq_add_neg]

theorem hue_mem_of_color (hcolor : spread r g b ≠ 0) : 0 ≤ hue r g b ∧ hue r g b ≤ 360 := by
  have hred : 0 ≤ rise r g b r ∧ rise r g b r ≤ 60 := rise_mem (by omega) (by omega)
  have hgreen : 0 ≤ rise r g b g ∧ rise r g b g ≤ 60 := rise_mem (by omega) (by omega)
  have hblue : 0 ≤ rise r g b b ∧ rise r g b b ≤ 60 := rise_mem (by omega) (by omega)
  rw [hue_eq_rise hcolor]
  split_ifs <;> omega

/-- At the hue of a color every channel has faded by as much as its sample lies below the largest one. -/
theorem descent_hue (hcolor : spread r g b ≠ 0) (c : Channel) :
    descent (hue r g b) c = 60 - rise r g b (triple r g b c) := by
  have hred := rise_range hcolor (n := r) (by omega) (by omega)
  have hgreen := rise_range hcolor (n := g) (by omega) (by omega)
  have hblue := rise_range hcolor (n := b) (by omega) (by omega)
  rw [hue_eq_rise hcolor]
  -- in each of the six cases the largest sample is full, the smallest one gone, and the hue tells the other
  split_ifs <;> cases c <;> simp only [descent, hueDistance, pureHue, triple] <;> omega

theorem saturation_of_gray (hgray : spread r g b = 0) : saturation r g b = 0 := by
  rw [saturation, hgray, mul_zero, Int.zero_tdiv, ite_self]

/-- What becomes of a sample of a color that goes to hue, saturation and value and back: the largest one,
faded by as much as the sample lies below it. -/
def restored (r g b n : Int) : Int := fade (saturation r g b) (value r g b) (60 - rise r g b n)

theorem toRgb_toHsv (r g b : Int) (c : Channel) :
    toRgb (hue r g b) (saturation r g b) (value r g b) c = restored r g b (triple r g b c) := by
  by_cases hcolor : spread r g b = 0
  · rw [restored, saturation_of_gray hcolor, fade_unsaturated, toRgb, if_pos rfl]
    cases c <;> rfl
  · rw [toRgb_eq_fade (hue_mem_of_color hcolor), descent_hue hcolor, restored]

/-- The largest sample comes back. -/
theorem restored_highest (r g b : Int) : restored r g b (max r (max g b)) = max r (max g b) := by
  have hvalue : (value r g b).tdiv 4 = max r (max g b) := Int.mul_tdiv_cancel_left _ (by decide)
  by_cases hcolor : spread r g b = 0
  · rw [restored, saturation_of_gray hcolor, fade_unsaturated, hvalue]
  · rw [restored, rise_highest hcolor, sub_self, fade_zero, hvalue]

/-- Saturation, times the largest sample, loses less than that sample. -/
theorem saturation_mul_mem (hr : 0 ≤ r) (hg : 0 ≤ g) (hb : 0 ≤ b) (hlight : 0 < max r (max g b)) :
    saturation r g b * max r (max g b) ≤ 1024 * spread r g b ∧
      1024 * spread r g b < saturation r g b * max r (max g b) + max r (max g b) := by
  have hspread := spread_mem hr hg hb
  rw [saturation, if_neg hlight.ne']
  exact tdiv_mul_mem (by omega) hlight

/-- The rise of a sample, times the spread, loses less than the spread. -/
theorem rise_mul_mem (hlow : min r (min g b) ≤ n)
    (hhigh : n ≤ max r (max g b)) : rise r g b n * spread r g b ≤ 60 * (n - min r (min g b)) ∧
      60 * (n - min r (min g b)) ≤ rise r g b n * spread r g b + spread r g b := by
  rcases (spread_nonneg r g b).eq_or_lt with hgray | hpos
  · rw [← hgray, mul_zero]
    unfold spread at hgray
    omega
  · have h := tdiv_mul_mem (a := 60 * (n - min r (min g b))) (by omega) hpos
    rw [(offset_eq_rise hlow).1] at h
    exact ⟨h.1, h.2.le⟩

private theorem restored_mul_mem (hr : 0 ≤ r) (hg : 0 ≤ g) (hb : 0 ≤ b) (hlow : min r (min g b) ≤ n)
    (hhigh : n ≤ max r (max g b)) :
    restored r g b n * 61440 ≤ 61440 * max r (max g b) -
        saturation r g b * max r (max g b) * (60 - rise r g b n) ∧
      61440 * max r (max g b) - saturation r g b * max r (max g b) * (60 - rise r g b n) <
        restored r g b n * 61440 + 61440 := by
  have hrise := rise_mem hlow hhigh
  have hweight := fadeWeight_mem (saturation_mem hr hg hb) (d := 60 - rise r g b n)
    ⟨by omega, by omega⟩
  have hscale : restored r g b n =
      (max r (max g b) * (61440 - saturation r g b * (60 - rise r g b n))).tdiv 61440 := by
    rw [restored, fade, value, mul_assoc]
    exact Int.mul_tdiv_mul_of_pos _ 61440 (by decide : (0 : Int) < 4)
  have hdividend : max r (max g b) * (61440 - saturation r g b * (60 - rise r g b n)) =
      61440 * max r (max g b) - saturation r g b * max r (max g b) * (60 - rise r g b n) := by ring
  rw [hscale, ← hdividend]
  exact tdiv_mul_mem (mul_nonneg (by omega) hweight.1) (by decide)

/-- How far a sample can be from where it started: never below the smallest one, below itself by less than
one and a sixtieth of the spread, and above itself by less than a 1024th of the largest one. -/
theorem restored_mem (hr : 0 ≤ r) (hg : 0 ≤ g) (hb : 0 ≤ b) (hlow : min r (min g b) ≤ n)
    (hhigh : n ≤ max r (max g b)) :
    min r (min g b) ≤ restored r g b n ∧ 60 * (n - restored r g b n) < spread r g b + 60 ∧
      (0 < max r (max g b) → 1024 * (restored r g b n - n) < max r (max g b)) := by
  rcases (le_max_of_le_left hr : 0 ≤ max r (max g b)).eq_or_lt with hblack | hlight
  · have hvalue : restored r g b n = 0 := by
      rw [restored, fade, value, ← hblack, mul_zero, zero_mul, Int.zero_tdiv]
    have hspread := spread_mem hr hg hb
    omega
  · obtain ⟨hquotient, hquotient'⟩ := restored_mul_mem hr hg hb hlow hhigh
    obtain ⟨hsaturation, hsaturation'⟩ := saturation_mul_mem hr hg hb hlight
    obtain ⟨hshare, hshare'⟩ := rise_mul_mem hlow hhigh
    obtain ⟨hrise, hrise'⟩ := rise_mem hlow hhigh
    have hspread : spread r g b = max r (max g b) - min r (min g b) := rfl
    -- what the sample fades by, from above and from below
    have hmost : saturation r g b * max r (max g b) * (60 - rise r g b n) ≤
        1024 * spread r g b * (60 - rise r g b n) :=
      mul_le_mul_of_nonneg_right hsaturation (by omega)
    have hleast : (1024 * spread r g b - max r (max g b) + 1) * (60 - rise r g b n) ≤
        saturation r g b * max r (max g b) * (60 - rise r g b n) :=
      mul_le_mul_of_nonneg_right (by omega) (by omega)
    have hwhole : spread r g b * (60 - rise r g b n) ≤ spread r g b * 60 :=
      mul_le_mul_of_nonneg_left (by omega) (spread_nonneg r g b)
    have hloss : (max r (max g b) - 1) * (60 - rise r g b n) ≤ (max r (max g b) - 1) * 60 :=
      mul_le_mul_of_nonneg_left (by omega) (by omega)
    refine ⟨?_, ?_, fun _ => ?_⟩
    · linarith
    · linarith
    · linarith

end Colors

end Exact

end Acutance
