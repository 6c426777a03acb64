import Acutance.Proofs.Exact

namespace Acutance

namespace Exact

theorem stretch_mem (n : Int) : 0 ≤ stretch n ∧ stretch n ≤ 255 := by
  constructor
  · exact le_max_left _ _
  · exact max_le (by decide) (min_le_left _ _)

section Colors

variable {r g b : Int}

/-- A difference of two samples is at most the spread, so its share of the spread is at most a
sixth of the circle. -/
theorem offset_mem {a b s : Int} (hpos : 0 < s) (hlow : -s ≤ a - b) (hhigh : a - b ≤ s) :
    -60 ≤ (60 * (a - b)).tdiv s ∧ (60 * (a - b)).tdiv s ≤ 60 :=
  tdiv_mem_of_mul_mem hpos (by linarith) (by linarith)

private theorem offset_nonneg {a b s : Int} (hpos : 0 < s) (hle : b ≤ a) : 0 ≤ (60 * (a - b)).tdiv s :=
  Int.tdiv_nonneg (by omega) (by omega)

theorem hue_mem (r g b : Int) : hue r g b = -1 ∨ 0 ≤ hue r g b ∧ hue r g b ≤ 360 := by
  by_cases hgray : spread r g b = 0
  · left
    rw [hue, if_pos hgray]
  · right
    have hpos : 0 < spread r g b := by
      unfold spread at hgray ⊢
      omega
    rw [hue, if_neg hgray]
    have hgb := offset_mem (a := g) (b := b) hpos (by unfold spread; omega) (by unfold spread; omega)
    have hbr := offset_mem (a := b) (b := r) hpos (by unfold spread; omega) (by unfold spread; omega)
    have hrg := offset_mem (a := r) (b := g) hpos (by unfold spread; omega) (by unfold spread; omega)
    split_ifs with hred hle hgreen
    · exact ⟨offset_nonneg hpos hle, by omega⟩
    · have hneg : -60 ≤ (60 * (g - b)).tdiv (spread r g b) ∧
          (60 * (g - b)).tdiv (spread r g b) ≤ 0 :=
        tdiv_mem_of_mul_mem hpos (by unfold spread; omega) (by omega)
      omega
    · omega
    · omega

theorem spread_nonneg (r g b : Int) : 0 ≤ spread r g b := by
  unfold spread
  omega

theorem spread_mem (hr : 0 ≤ r) (hg : 0 ≤ g) (hb : 0 ≤ b) :
    0 ≤ spread r g b ∧ spread r g b ≤ max r (max g b) := by
  unfold spread
  omega

theorem saturation_mem (hr : 0 ≤ r) (hg : 0 ≤ g) (hb : 0 ≤ b) :
    0 ≤ saturation r g b ∧ saturation r g b ≤ 1024 := by
  obtain ⟨hlow, hhigh⟩ := spread_mem hr hg hb
  unfold saturation
  split_ifs with hblack
  · decide
  · exact tdiv_mem_of_mul_mem (by omega) (by omega) (by omega)

end Colors

theorem sum_tap (f : Nat → Int) : ∑ i ∈ Finset.range 7, tap i * f i =
    4433 * f 0 + 54006 * f 1 + 242036 * f 2 + 399050 * f 3 + 242036 * f 4 + 54006 * f 5 +
      4433 * f 6 := by
  simp [Finset.sum_range_succ, tap]

section Planes

variable {p : Grid} {lowest highest : Int}

/-- Smoothing stays within the bounds of the samples, as an average does. -/
theorem smooth_mem (h : ∀ x y, lowest ≤ p x y ∧ p x y ≤ highest) (width x y : Nat) :
    lowest ≤ smooth width p x y ∧ smooth width p x y ≤ highest := by
  unfold smooth
  split_ifs with hedge
  · exact h x y
  · rw [sum_tap fun i => p (x - 3 + i) y]
    have h₀ := h (x - 3 + 0) y
    have h₁ := h (x - 3 + 1) y
    have h₂ := h (x - 3 + 2) y
    have h₃ := h (x - 3 + 3) y
    have h₄ := h (x - 3 + 4) y
    have h₅ := h (x - 3 + 5) y
    have h₆ := h (x - 3 + 6) y
    exact tdiv_mem_of_mul_mem (by decide) (by omega) (by omega)

/-- The weights of the neighbours in a detail sum to 600950, and that of the sample to -600943. -/
theorem detail_mem (h : ∀ x y, lowest ≤ p x y ∧ p x y ≤ highest) (hlowest : lowest ≤ 0)
    (hhighest : 0 ≤ highest) (height x y : Nat) :
    (600950 * lowest - 600943 * highest).tdiv 1000000 ≤ detail height p x y ∧
      detail height p x y ≤ (600950 * highest - 600943 * lowest).tdiv 1000000 := by
  unfold detail
  split_ifs with hedge
  · have hbelow : 600950 * lowest - 600943 * highest ≤ 0 := by omega
    have habove : 0 ≤ 600950 * highest - 600943 * lowest := by omega
    have hzero := tdiv_mem_of_mem (d := 1000000) (by decide) hbelow habove
    rwa [Int.zero_tdiv] at hzero
  · have hmiddle : y - 3 + 3 = y := by omega
    rw [sum_tap fun i => p x (y - 3 + i), hmiddle]
    have h₀ := h x (y - 3 + 0)
    have h₁ := h x (y - 3 + 1)
    have h₂ := h x (y - 3 + 2)
    have h₃ := h x y
    have h₄ := h x (y - 3 + 4)
    have h₅ := h x (y - 3 + 5)
    have h₆ := h x (y - 3 + 6)
    exact tdiv_mem_of_mem (by decide) (by omega) (by omega)

/-- A blended sample stays below one on its channel, and above the corners of what the sample and its
share can reach. -/
theorem blend_mem {one s d bound : Int} (hone : 0 < one) (hs : lowest ≤ s ∧ s ≤ highest)
    (hlowest : lowest ≤ 0) (hhighest : 0 ≤ highest) (hd : -bound ≤ d ∧ d ≤ bound) :
    (min (lowest * (one + 4 * bound)) (highest * (one - 4 * bound))).tdiv one ≤ blend one s d ∧
      blend one s d ≤ one - 1 := by
  have hshare : one - 4 * bound ≤ one - 4 * d ∧ one - 4 * d ≤ one + 4 * bound := by omega
  have hproduct := (mul_mem_of_mem hs hshare hlowest hhighest).1
  have hquotient := Int.tdiv_le_tdiv hone hproduct
  have hcorner : lowest * (one + 4 * bound) ≤ 0 := by nlinarith
  have hbelow := Int.tdiv_le_tdiv hone ((min_le_left _ _).trans hcorner :
    min (lowest * (one + 4 * bound)) (highest * (one - 4 * bound)) ≤ 0)
  rw [Int.zero_tdiv] at hbelow
  unfold blend
  split_ifs with htop <;> omega

end Planes

section Back

variable {h s v : Int}

/-- A value and a weight from the ranges behind sharpening make a product within the corners. -/
theorem share_mem {weight bottom top one : Int} (hv : -1418 ≤ v ∧ v ≤ 1023)
    (hweight : bottom ≤ weight ∧ weight ≤ top) (hone : 0 < one) :
    (min (-1418 * top) (1023 * bottom)).tdiv one ≤ (v * weight).tdiv one ∧
      (v * weight).tdiv one ≤ (max (-1418 * bottom) (1023 * top)).tdiv one := by
  obtain ⟨hlow, hhigh⟩ := mul_mem_of_mem hv hweight (by decide) (by decide)
  exact tdiv_mem_of_mem hone hlow hhigh

/-- What is left of full strength through a sector, with the remainder on either side of zero. -/
theorem fallingWeight_mem (h : Int) (hs : -1436 ≤ s ∧ s ≤ 1023) :
    -23284 ≤ 61440 - s * h.tmod 60 ∧ 61440 - s * h.tmod 60 ≤ 146164 := by
  have hwithin := tmod_mem (n := h) (d := 60) (by decide)
  have hbound : -59 ≤ h.tmod 60 ∧ h.tmod 60 ≤ 59 := ⟨by omega, by omega⟩
  have hfallen := mul_mem_of_mem hs hbound (by decide) (by decide)
  norm_num at hfallen
  omega

theorem risingWeight_mem (h : Int) (hs : -1436 ≤ s ∧ s ≤ 1023) :
    -60297 ≤ 61440 - s * (60 - h.tmod 60) ∧ 61440 - s * (60 - h.tmod 60) ≤ 232324 := by
  have hwithin := tmod_mem (n := h) (d := 60) (by decide)
  have hbound : 1 ≤ 60 - h.tmod 60 ∧ 60 - h.tmod 60 ≤ 119 := ⟨by omega, by omega⟩
  have hrisen := mul_mem_of_mem hs hbound (by decide) (by decide)
  norm_num at hrisen
  omega

theorem low_mem (hs : -1436 ≤ s ∧ s ≤ 1023) (hv : -1418 ≤ v ∧ v ≤ 1023) :
    -851 ≤ low s v ∧ low s v ≤ 614 := by
  have hweight : 1 ≤ 1024 - s ∧ 1024 - s ≤ 2460 := ⟨by omega, by omega⟩
  exact share_mem hv hweight (by decide)

theorem falling_mem (h : Int) (hs : -1436 ≤ s ∧ s ≤ 1023) (hv : -1418 ≤ v ∧ v ≤ 1023) :
    -843 ≤ falling h s v ∧ falling h s v ≤ 608 :=
  share_mem hv (fallingWeight_mem h hs) (by decide)

theorem rising_mem (h : Int) (hs : -1436 ≤ s ∧ s ≤ 1023) (hv : -1418 ≤ v ∧ v ≤ 1023) :
    -1340 ≤ rising h s v ∧ rising h s v ≤ 967 :=
  share_mem hv (risingWeight_mem h hs) (by decide)

theorem full_mem (hv : -1418 ≤ v ∧ v ≤ 1023) : -354 ≤ v.tdiv 4 ∧ v.tdiv 4 ≤ 255 := by
  have hpos : (0 : Int) < 4 := by decide
  exact tdiv_mem_of_mem hpos hv.1 hv.2

private theorem triple_mem {a b c bottom top : Int} (ha : bottom ≤ a ∧ a ≤ top)
    (hb : bottom ≤ b ∧ b ≤ top) (hc : bottom ≤ c ∧ c ≤ top) (channel : Channel) :
    bottom ≤ triple a b c channel ∧ triple a b c channel ≤ top := by
  cases channel
  · exact ha
  · exact hb
  · exact hc

theorem toRgb_mem (h : Int) (hs : -1436 ≤ s ∧ s ≤ 1023) (hv : -1418 ≤ v ∧ v ≤ 1023)
    (c : Channel) : -1340 ≤ toRgb h s v c ∧ toRgb h s v c ≤ 967 := by
  have hfull : -1340 ≤ v.tdiv 4 ∧ v.tdiv 4 ≤ 967 := by
    have := full_mem hv
    omega
  have hlow : -1340 ≤ low s v ∧ low s v ≤ 967 := by
    have := low_mem hs hv
    omega
  have hfalling : -1340 ≤ falling h s v ∧ falling h s v ≤ 967 := by
    have := falling_mem h hs hv
    omega
  have hrising := rising_mem h hs hv
  unfold toRgb inSector
  split_ifs
  · exact triple_mem hfull hfull hfull c
  · exact triple_mem hfull hrising hlow c
  · exact triple_mem hfalling hfull hlow c
  · exact triple_mem hlow hfull hrising c
  · exact triple_mem hlow hfalling hfull c
  · exact triple_mem hrising hlow hfull c
  · exact triple_mem hfull hlow hfalling c
  · exact triple_mem (by decide) (by decide) (by decide) c

end Back

section Images

variable (e : Extent) (image : Channel → Grid) (x y : Nat)

theorem hsv_hue_mem :
    hsv image .hue x y = -1 ∨ 0 ≤ hsv image .hue x y ∧ hsv image .hue x y ≤ 360 :=
  hue_mem _ _ _

theorem hsv_saturation_mem :
    0 ≤ hsv image .saturation x y ∧ hsv image .saturation x y ≤ 1024 :=
  saturation_mem (stretch_mem _).1 (stretch_mem _).1 (stretch_mem _).1

theorem hsv_value_mem : 0 ≤ hsv image .value x y ∧ hsv image .value x y ≤ 1020 := by
  have hr := stretch_mem (image .red x y)
  have hg := stretch_mem (image .green x y)
  have hb := stretch_mem (image .blue x y)
  change 0 ≤ value _ _ _ ∧ value _ _ _ ≤ 1020
  unfold value
  omega

/-- The largest sample that a channel of hue, saturation or value has before sharpening. -/
def highest : Channel → Int
  | .first => 360
  | .second => 1024
  | .third => 1020

/-- The smallest sample that a channel of hue, saturation or value has before sharpening. -/
def lowest : Channel → Int
  | .first => -1
  | .second => 0
  | .third => 0

/-- How far the detail of a channel is from zero. -/
def detailBound : Channel → Int
  | .first => 216
  | .second => 615
  | .third => 612

/-- The smallest sample that a channel of hue, saturation or value has behind sharpening. -/
def sharpenedLowest : Channel → Int
  | .first => -504
  | .second => -1436
  | .third => -1418

theorem hsv_mem (c : Channel) (x y : Nat) :
    lowest c ≤ hsv image c x y ∧ hsv image c x y ≤ highest c := by
  cases c
  · have h : hsv image .first x y = -1 ∨ 0 ≤ hsv image .first x y ∧ hsv image .first x y ≤ 360 :=
      hsv_hue_mem image x y
    simp only [lowest, highest]
    omega
  · exact hsv_saturation_mem image x y
  · exact hsv_value_mem image x y

theorem smooth_hsv_mem (c : Channel) (x y : Nat) :
    lowest c ≤ smooth e.width (hsv image c) x y ∧
      smooth e.width (hsv image c) x y ≤ highest c :=
  smooth_mem (hsv_mem image c) e.width x y

theorem mask_hsv_mem (c : Channel) (x y : Nat) :
    -detailBound c ≤ mask e (hsv image c) x y ∧ mask e (hsv image c) x y ≤ detailBound c := by
  have hlowest : lowest c ≤ 0 := by cases c <;> decide
  have hhighest : 0 ≤ highest c := by cases c <;> decide
  have h := detail_mem (smooth_hsv_mem e image c) hlowest hhighest e.height x y
  cases c <;> exact h

theorem sharpened_mem (c : Channel) (x y : Nat) :
    sharpenedLowest c ≤ sharpened e image c x y ∧ sharpened e image c x y ≤ one c - 1 := by
  have hlowest : lowest c ≤ 0 := by cases c <;> decide
  have hhighest : 0 ≤ highest c := by cases c <;> decide
  have hone : 0 < one c := by cases c <;> decide
  have h := blend_mem hone (hsv_mem image c x y) hlowest hhighest (mask_hsv_mem e image c x y)
  cases c <;> exact h

end Images

end Exact

end Acutance
