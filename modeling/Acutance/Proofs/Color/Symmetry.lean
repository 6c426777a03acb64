import Mathlib.Data.Int.ModEq
import Mathlib.Logic.Equiv.Defs
import Acutance.Proofs.Color.Restorable
import Acutance.Proofs.Color.RoundTrip

namespace Acutance

namespace Channel

/-- The channel whose pure color lies a third of the wheel further on. -/
def next : Channel → Channel
  | .first => .second
  | .second => .third
  | .third => .first

/-- The channel whose pure color lies as far on the other side of red. -/
def mirrored : Channel → Channel
  | .first => .first
  | .second => .third
  | .third => .second

private theorem next_mirrored (c : Channel) : c.mirrored.next = c.next.next.mirrored := by
  cases c <;> rfl

private theorem next_next_next (c : Channel) : c.next.next.next = c := by
  cases c <;> rfl

end Channel

namespace Exact

variable {r g b n : Int}

section Reordered

variable {r' g' b' : Int} (hhigh : max r' (max g' b') = max r (max g b))
  (hlow : min r' (min g' b') = min r (min g b))
include hhigh hlow

private theorem spread_congr : spread r' g' b' = spread r g b := by rw [spread, spread, hhigh, hlow]

private theorem saturation_congr : saturation r' g' b' = saturation r g b := by
  rw [saturation, saturation, spread_congr hhigh hlow, hhigh]

private theorem rise_congr (n : Int) : rise r' g' b' n = rise r g b n := by
  rw [rise, rise, spread_congr hhigh hlow, hlow]

private theorem restored_congr (n : Int) : restored r' g' b' n = restored r g b n := by
  rw [restored, restored, saturation_congr hhigh hlow, value, hhigh, rise_congr hhigh hlow, value]

end Reordered

private theorem hue_eq_undefined_iff : hue r g b = -1 ↔ spread r g b = 0 := by
  constructor
  · intro hundefined
    by_contra hcolor
    have hmem := hue_mem_of_color hcolor
    omega
  · exact fun hgray => if_pos hgray

private theorem exists_triple_eq (h : r = n ∨ g = n ∨ b = n) : ∃ c, triple r g b c = n := by
  obtain h | h | h := h
  · exact ⟨.red, h⟩
  · exact ⟨.green, h⟩
  · exact ⟨.blue, h⟩

/-- The hue of a color counts from any pure color that is full in it: on as far as the next sample rises, and
back as far as the one after that does. One of these two is gone. -/
theorem hue_modEq (hcolor : spread r g b ≠ 0) (c : Channel)
    (hfull : triple r g b c = max r (max g b)) : hue r g b ≡
      pureHue c + rise r g b (triple r g b c.next) - rise r g b (triple r g b c.next.next)
        [ZMOD 360] := by
  have hred := rise_range hcolor (n := r) (by omega) (by omega)
  have hgreen := rise_range hcolor (n := g) (by omega) (by omega)
  have hblue := rise_range hcolor (n := b) (by omega) (by omega)
  have hmem : (r ≤ max r (max g b) ∧ g ≤ max r (max g b) ∧ b ≤ max r (max g b)) ∧
      min r (min g b) ≤ r ∧ min r (min g b) ≤ g ∧ min r (min g b) ≤ b := by simp
  have hgone : r = min r (min g b) ∨ g = min r (min g b) ∨ b = min r (min g b) := by omega
  have hne : max r (max g b) ≠ min r (min g b) := fun h => hcolor (sub_eq_zero.2 h)
  rw [hue_eq_rise hcolor, Int.ModEq]
  -- all that is left to know of the two bounds are the facts above
  generalize max r (max g b) = high at *
  generalize min r (min g b) = low at *
  cases c <;> simp only [triple, pureHue, Channel.next] at hfull ⊢ <;> split_ifs <;> omega

private theorem pureHue_next (c : Channel) : pureHue c.next ≡ pureHue c + 120 [ZMOD 360] := by
  cases c <;> decide

private theorem pureHue_mirrored (c : Channel) : pureHue c.mirrored ≡ -pureHue c [ZMOD 360] := by
  cases c <;> decide

private theorem triple_next (r g b : Int) (c : Channel) : triple b r g c.next = triple r g b c := by
  cases c <;> rfl

private theorem triple_mirrored (r g b : Int) (c : Channel) :
    triple r b g c.mirrored = triple r g b c := by
  cases c <;> rfl

/-- The hue turns with the samples. -/
theorem hue_turn (hcolor : spread r g b ≠ 0) : hue b r g ≡ hue r g b + 120 [ZMOD 360] := by
  have hhigh : max b (max r g) = max r (max g b) := by omega
  have hlow : min b (min r g) = min r (min g b) := by omega
  obtain ⟨c, hfull⟩ : ∃ c, triple r g b c = max r (max g b) := exists_triple_eq (by omega)
  have hturned := hue_modEq (r := b) (g := r) (b := g) (by rwa [spread_congr hhigh hlow]) c.next
    (by rw [triple_next, hfull, hhigh])
  simp only [rise_congr hhigh hlow, triple_next r g b] at hturned
  calc hue b r g
      ≡ pureHue c.next + rise r g b (triple r g b c.next) - rise r g b (triple r g b c.next.next)
          [ZMOD 360] := hturned
    _ ≡ pureHue c + 120 + rise r g b (triple r g b c.next) -
          rise r g b (triple r g b c.next.next) [ZMOD 360] :=
        ((pureHue_next c).add_right _).sub_right _
    _ = pureHue c + rise r g b (triple r g b c.next) - rise r g b (triple r g b c.next.next) +
          120 := by ring
    _ ≡ hue r g b + 120 [ZMOD 360] := (hue_modEq hcolor c hfull).symm.add_right 120

/-- The hue is mirrored with the samples. -/
theorem hue_mirror (hcolor : spread r g b ≠ 0) : hue r b g ≡ -hue r g b [ZMOD 360] := by
  have hhigh : max r (max b g) = max r (max g b) := by omega
  have hlow : min r (min b g) = min r (min g b) := by omega
  obtain ⟨c, hfull⟩ : ∃ c, triple r g b c = max r (max g b) := exists_triple_eq (by omega)
  have hmirrored := hue_modEq (r := r) (g := b) (b := g) (by rwa [spread_congr hhigh hlow])
    c.mirrored (by rw [triple_mirrored, hfull, hhigh])
  simp only [rise_congr hhigh hlow, Channel.next_mirrored, Channel.next_next_next,
    triple_mirrored] at hmirrored
  calc hue r b g
      ≡ pureHue c.mirrored + rise r g b (triple r g b c.next.next) -
          rise r g b (triple r g b c.next) [ZMOD 360] := hmirrored
    _ ≡ -pureHue c + rise r g b (triple r g b c.next.next) - rise r g b (triple r g b c.next)
          [ZMOD 360] := ((pureHue_mirrored c).add_right _).sub_right _
    _ = -(pureHue c + rise r g b (triple r g b c.next) - rise r g b (triple r g b c.next.next)) := by
        ring
    _ ≡ -hue r g b [ZMOD 360] := (hue_modEq hcolor c hfull).symm.neg

end Exact

namespace Pixel

/-- The pixel whose channels take their samples from those that `σ` says. -/
def permute (p : Pixel) (σ : Equiv.Perm Channel) : Pixel :=
  ⟨p.get (σ .first), p.get (σ .second), p.get (σ .third)⟩

/-- Every sample passed on to the next channel. -/
def turn (p : Pixel) : Pixel := ⟨p.third, p.first, p.second⟩

/-- Green and blue exchanged. -/
def mirror (p : Pixel) : Pixel := ⟨p.first, p.third, p.second⟩

variable {p q hsv back : Pixel} {σ : Equiv.Perm Channel}

@[simp] theorem get_permute (p : Pixel) (σ : Equiv.Perm Channel) (c : Channel) :
    (p.permute σ).get c = p.get (σ c) := by
  cases c <;> rfl

private theorem exists_permute_eq_turn : ∃ σ, ∀ p : Pixel, p.permute σ = p.turn :=
  ⟨⟨fun c => c.next.next, Channel.next, Channel.next_next_next, Channel.next_next_next⟩, fun _ => rfl⟩

private theorem exists_permute_eq_mirror : ∃ σ, ∀ p : Pixel, p.permute σ = p.mirror :=
  ⟨⟨Channel.mirrored, Channel.mirrored, fun c => by cases c <;> rfl, fun c => by cases c <;> rfl⟩,
    fun _ => rfl⟩

private theorem toInt_get (p : Pixel) (c : Channel) :
    (p.get c).toInt = Exact.triple p.first.toInt p.second.toInt p.third.toInt c := by
  cases c <;> rfl

private theorem exists_get_eq_highest (p : Pixel) : ∃ c, (p.get c).toInt = p.highest := by
  simp only [toInt_get]
  exact Exact.exists_triple_eq (by unfold highest; omega)

private theorem exists_get_eq_lowest (p : Pixel) : ∃ c, (p.get c).toInt = p.lowest := by
  simp only [toInt_get]
  exact Exact.exists_triple_eq (by unfold lowest; omega)

private theorem highest_permute (p : Pixel) (σ : Equiv.Perm Channel) : (p.permute σ).highest = p.highest := by
  obtain ⟨c, hc⟩ := p.exists_get_eq_highest
  refine highest_eq (fun d => ?_) ⟨σ.symm c, ?_⟩
  · rw [get_permute]
    exact p.le_highest _
  · rw [get_permute, σ.apply_symm_apply, hc]

private theorem lowest_permute (p : Pixel) (σ : Equiv.Perm Channel) : (p.permute σ).lowest = p.lowest := by
  obtain ⟨c, hc⟩ := p.exists_get_eq_lowest
  refine lowest_eq (fun d => ?_) ⟨σ.symm c, ?_⟩
  · rw [get_permute]
    exact p.lowest_le _
  · rw [get_permute, σ.apply_symm_apply, hc]

private theorem spread_eq_zero_iff (p : Pixel) :
    Exact.spread p.first.toInt p.second.toInt p.third.toInt = 0 ↔
      p.first = p.second ∧ p.second = p.third := by
  rw [← Int32.toInt_inj, ← Int32.toInt_inj]
  unfold Exact.spread
  omega

/-- The full sample, the lowest one and those that fall and rise, two sectors further on. -/
theorem inSector_turn {sector : Int} (hsector : 0 ≤ sector ∧ sector < 6)
    (full low falling rising : Sample) : inSector ((sector + 2) % 6) full low falling rising =
      (inSector sector full low falling rising).turn := by
  obtain rfl | rfl | rfl | rfl | rfl | rfl :
      sector = 0 ∨ sector = 1 ∨ sector = 2 ∨ sector = 3 ∨ sector = 4 ∨ sector = 5 := by omega
  all_goals rfl

/-- A hue that is not below zero, a third of the wheel further on, gives the samples passed on. -/
theorem toRgb_turn (hleast : 0 ≤ p.first.toInt) (hmost : p.first.toInt ≤ 2147483527)
    (h : p.toRgb = .ok q) : (p.set .hue (narrow (p.first.toInt + 120))).toRgb = .ok q.turn := by
  have hstored : (narrow (p.first.toInt + 120)).toInt = p.first.toInt + 120 :=
    toInt_narrow (Width.bits32_holds_iff.2 ⟨by omega, by omega⟩)
  by_cases hgray : p.second.toInt = 0
  · rw [toRgb_eq_gray hgray] at h
    obtain rfl := Except.ok.inj h
    exact toRgb_eq_gray hgray
  · have hrestorable := restorable_of_toRgb h
    rw [toRgb_of_restorable hgray hrestorable] at h
    obtain rfl := Except.ok.inj h
    obtain ⟨hfalling, hrising⟩ := hrestorable hgray
    obtain ⟨hsector, hwithin⟩ := Exact.sector_eq (h := p.first.toInt) (j := p.first.toInt / 60)
      (f := p.first.toInt % 60) (by omega) (by omega) ⟨by omega, by omega⟩
    obtain ⟨hsector', hwithin'⟩ := Exact.sector_eq (h := p.first.toInt + 120)
      (j := p.first.toInt / 60 + 2) (f := p.first.toInt % 60) (by omega) (by omega)
      ⟨by omega, by omega⟩
    have hsame : (p.first.toInt + 120).tmod 60 = p.first.toInt.tmod 60 := hwithin'.trans hwithin.symm
    have hfurther : ((p.first.toInt + 120).tdiv 60).tmod 6 =
        ((p.first.toInt.tdiv 60).tmod 6 + 2) % 6 := by
      rw [hsector, hsector']
      omega
    have hturned := toRgb_eq_inSector (p := p.set .hue (narrow (p.first.toInt + 120))) hstored rfl rfl
      hgray (by rwa [hsame]) (by rwa [hsame])
    rw [hfurther, Exact.falling, Exact.rising, hsame] at hturned
    exact hturned.trans (congrArg Except.ok (inSector_turn (by omega) _ _ _ _))

section Conversion

variable (hp : ∀ c, 0 ≤ (p.get c).toInt ∧ (p.get c).toInt ≤ 2097151)
include hp

private theorem permute_mem (σ : Equiv.Perm Channel) (c : Channel) :
    0 ≤ ((p.permute σ).get c).toInt ∧ ((p.permute σ).get c).toInt ≤ 2097151 := by
  rw [get_permute]
  exact hp (σ c)

private theorem toInt_toHsv (hto : p.toHsv = .ok hsv) (c : Channel) : (hsv.get c).toInt =
    Exact.toHsv p.first.toInt p.second.toInt p.third.toInt c := by
  obtain ⟨_, hto', hformula⟩ := toHsv_eq hp
  obtain rfl := Except.ok.inj (hto.symm.trans hto')
  exact hformula c

/-- A color with its samples permuted has the same saturation and value, and its samples come back permuted. -/
theorem exists_toHsv_permute (σ : Equiv.Perm Channel) (hto : p.toHsv = .ok hsv)
    (hfrom : hsv.toRgb = .ok back) : ∃ hsv', (p.permute σ).toHsv = .ok hsv' ∧
      hsv'.second = hsv.second ∧ hsv'.third = hsv.third ∧ hsv'.toRgb = .ok (back.permute σ) := by
  obtain ⟨_, _, hto₁, hfrom₁, hback⟩ := exists_restored hp
  obtain rfl := Except.ok.inj (hto.symm.trans hto₁)
  obtain rfl := Except.ok.inj (hfrom.symm.trans hfrom₁)
  obtain ⟨hsv', back', hto', hfrom', hback'⟩ := exists_restored (permute_mem hp σ)
  have hhigh := highest_permute p σ
  have hlow := lowest_permute p σ
  have hformula := toInt_toHsv hp hto
  have hformula' := toInt_toHsv (permute_mem hp σ) hto'
  refine ⟨hsv', hto', ?_, ?_, hfrom'.trans (congrArg Except.ok (ext_get fun c => ?_))⟩
  · rw [← Int32.toInt_inj]
    exact (hformula' .saturation).trans
      ((Exact.saturation_congr hhigh hlow).trans (hformula .saturation).symm)
  · rw [← Int32.toInt_inj]
    exact (hformula' .value).trans ((congrArg (4 * ·) hhigh).trans (hformula .value).symm)
  · rw [← Int32.toInt_inj, hback', get_permute, get_permute, hback]
    exact Exact.restored_congr hhigh hlow _

/-- Hue, saturation and value of a color, and how the hue moves with the samples. -/
theorem toHsv_wheel (hto : p.toHsv = .ok hsv) :
    (hsv.first.toInt = -1 ↔ p.first = p.second ∧ p.second = p.third) ∧
    (0 ≤ hsv.second.toInt ∧ hsv.second.toInt ≤ 1024) ∧ hsv.third.toInt = 4 * p.highest ∧
    (hsv.first.toInt ≠ -1 → (0 ≤ hsv.first.toInt ∧ hsv.first.toInt ≤ 360) ∧
      (∀ turned, p.turn.toHsv = .ok turned →
        turned.first.toInt ≡ hsv.first.toInt + 120 [ZMOD 360]) ∧
      ∀ mirrored, p.mirror.toHsv = .ok mirrored →
        mirrored.first.toInt ≡ -hsv.first.toInt [ZMOD 360]) := by
  have hhue : hsv.first.toInt = Exact.hue p.first.toInt p.second.toInt p.third.toInt :=
    toInt_toHsv hp hto .hue
  obtain ⟨third, hthird⟩ := exists_permute_eq_turn
  obtain ⟨exchange, hexchange⟩ := exists_permute_eq_mirror
  refine ⟨?_, ?_, toInt_toHsv hp hto .value, fun hcolor => ?_⟩
  · rw [hhue, Exact.hue_eq_undefined_iff, spread_eq_zero_iff]
  · have hsaturation : hsv.second.toInt = Exact.saturation p.first.toInt p.second.toInt p.third.toInt :=
      toInt_toHsv hp hto .saturation
    rw [hsaturation]
    exact Exact.saturation_mem (hp .red).1 (hp .green).1 (hp .blue).1
  · rw [hhue, Ne, Exact.hue_eq_undefined_iff] at hcolor
    rw [hhue]
    refine ⟨Exact.hue_mem_of_color hcolor, fun turned hturned => ?_, fun mirrored hmirrored => ?_⟩
    · have hmoved := toInt_toHsv (hthird p ▸ permute_mem hp third) hturned .hue
      exact hmoved ▸ Exact.hue_turn hcolor
    · have hmoved := toInt_toHsv (hexchange p ▸ permute_mem hp exchange) hmirrored .hue
      exact hmoved ▸ Exact.hue_mirror hcolor

end Conversion

/-- Grays and no other colors have the hue -1; all hues of colors are on the wheel. Saturation and value do not
depend on the order of the samples, and the samples of a color that goes there and back come back in their
order. Samples passed on to the next channel turn the hue by a third of the wheel, and green and blue exchanged
mirror it. A hue that is turned by a third of the wheel gives the samples passed on. -/
theorem toHsv_turn_and_toRgb_turn :
    (∀ p : Pixel, (∀ c, 0 ≤ (p.get c).toInt ∧ (p.get c).toInt ≤ 2097151) →
      ∃ hsv back, p.toHsv = .ok hsv ∧ hsv.toRgb = .ok back ∧
        (hsv.first.toInt = -1 ↔ p.first = p.second ∧ p.second = p.third) ∧
        (hsv.first.toInt ≠ -1 → 0 ≤ hsv.first.toInt ∧ hsv.first.toInt ≤ 360) ∧
        (0 ≤ hsv.second.toInt ∧ hsv.second.toInt ≤ 1024) ∧ hsv.third.toInt = 4 * p.highest ∧
        (∀ σ : Equiv.Perm Channel, ∃ hsv', (p.permute σ).toHsv = .ok hsv' ∧
          hsv'.second = hsv.second ∧ hsv'.third = hsv.third ∧
            hsv'.toRgb = .ok (back.permute σ)) ∧
        (∃ turned, p.turn.toHsv = .ok turned ∧ turned.toRgb = .ok back.turn ∧
          (hsv.first.toInt ≠ -1 → turned.first.toInt ≡ hsv.first.toInt + 120 [ZMOD 360])) ∧
        ∃ mirrored, p.mirror.toHsv = .ok mirrored ∧ mirrored.toRgb = .ok back.mirror ∧
          (hsv.first.toInt ≠ -1 → mirrored.first.toInt ≡ -hsv.first.toInt [ZMOD 360])) ∧
    ∀ p q : Pixel, 0 ≤ p.first.toInt → p.first.toInt ≤ 2147483527 → p.toRgb = .ok q →
      (p.set .hue (narrow (p.first.toInt + 120))).toRgb = .ok q.turn := by
  refine ⟨fun p hp => ?_, fun p q => toRgb_turn⟩
  obtain ⟨hsv, back, hto, hfrom, -⟩ := exists_restored hp
  obtain ⟨hgray, hsaturation, hvalue, hhue⟩ := toHsv_wheel hp hto
  have hpermuted (σ : Equiv.Perm Channel) := exists_toHsv_permute hp σ hto hfrom
  obtain ⟨third, hthird⟩ := exists_permute_eq_turn
  obtain ⟨turned, hturned, -, -, hturnedBack⟩ := hpermuted third
  obtain ⟨exchange, hexchange⟩ := exists_permute_eq_mirror
  obtain ⟨mirrored, hmirrored, -, -, hmirroredBack⟩ := hpermuted exchange
  rw [hthird] at hturned hturnedBack
  rw [hexchange] at hmirrored hmirroredBack
  exact ⟨hsv, back, hto, hfrom, hgray, fun hcolor => (hhue hcolor).1, hsaturation, hvalue, hpermuted,
    ⟨turned, hturned, hturnedBack, fun hcolor => (hhue hcolor).2.1 turned hturned⟩,
    mirrored, hmirrored, hmirroredBack, fun hcolor => (hhue hcolor).2.2 mirrored hmirrored⟩

/-- A red with so little blue that its hue is the full circle. -/
def scarlet : Pixel := ⟨255, 0, 1⟩

/-- A color at the last hue that can be turned. -/
def outermost : Pixel := ⟨2147483527, 700, 903⟩

theorem toHsv_turn_and_toRgb_turn_scarlet :
    (∀ c, 0 ≤ (scarlet.get c).toInt ∧ (scarlet.get c).toInt ≤ 2097151) ∧
    (∃ turned, scarlet.toHsv = .ok ⟨360, 1024, 1020⟩ ∧ scarlet.turn.toHsv = .ok turned ∧
      turned.first.toInt ≡ 360 + 120 [ZMOD 360] ∧ turned.toRgb = .ok ⟨0, 255, 0⟩) ∧
    (0 ≤ outermost.first.toInt ∧ outermost.first.toInt ≤ 2147483527) ∧
      outermost.toRgb = .ok ⟨225, 89, 71⟩ ∧
      (outermost.set .hue (narrow (outermost.first.toInt + 120))).toRgb = .ok ⟨71, 225, 89⟩ := by
  have hsamples : ∀ c, 0 ≤ (scarlet.get c).toInt ∧ (scarlet.get c).toInt ≤ 2097151 := by
    intro c
    cases c <;> decide
  have hleast : 0 ≤ outermost.first.toInt := by decide
  have hmost : outermost.first.toInt ≤ 2147483527 := by decide
  have hcolor : outermost.toRgb = .ok ⟨225, 89, 71⟩ := by decide
  obtain ⟨hwheel, hturn⟩ := toHsv_turn_and_toRgb_turn
  obtain ⟨hsv, back, hto, hfrom, -, -, -, -, -, ⟨turned, hturned, hback, hhue⟩, -⟩ :=
    hwheel scarlet hsamples
  have hscarlet : scarlet.toHsv = .ok ⟨360, 1024, 1020⟩ := by decide
  obtain rfl := Except.ok.inj (hto.symm.trans hscarlet)
  have hred : (⟨360, 1024, 1020⟩ : Pixel).toRgb = .ok ⟨255, 0, 0⟩ := by decide
  obtain rfl := Except.ok.inj (hfrom.symm.trans hred)
  exact ⟨hsamples, ⟨turned, hscarlet, hturned, hhue (by decide), hback⟩, ⟨hleast, hmost⟩, hcolor,
    hturn outermost _ hleast hmost hcolor⟩

end Pixel

end Acutance
