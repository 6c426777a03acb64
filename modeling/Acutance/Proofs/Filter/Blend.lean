import Acutance.Proofs.Filter.Unsharp

namespace Acutance

namespace Blend

variable {b : Blend} {s d : Sample}

/-- A sample times its share of the scale. -/
def product (b : Blend) (s d : Sample) : Int :=
  s.toInt * (b.scale.toInt + b.amount.toInt * d.toInt)

/-- A sample with its detail blended in, before it is clamped and stored. -/
def quotient (b : Blend) (s d : Sample) : Int := (b.product s d).tdiv b.scale.toInt

/-- The product of a sample and its share is a word. -/
def Fits (b : Blend) (s d : Sample) : Prop := Width.bits64.Holds (b.product s d)

instance (b : Blend) (s d : Sample) : Decidable (b.Fits s d) :=
  inferInstanceAs (Decidable (Width.Holds _ _))

/-- The sample that is stored: the quotient below the clamp, and one less than the scale from there. -/
def stored (b : Blend) (s d : Sample) : Sample :=
  narrow (if b.scale.toInt ≤ b.quotient s d then b.scale.toInt - 1 else b.quotient s d)

/-- The first two steps of a blend never leave their words, and the last one only if the third does. -/
theorem apply_eq_ite (hscale : 0 < b.scale.toInt) (s d : Sample) :
    b.apply s d = if b.Fits s d then .ok (b.stored s d) else .error .mulOverflow := by
  have hstrength := abs_le.1 (abs_sample_mul_le b.amount d)
  have hone := Width.bits32_holds_iff.1 (holds_toInt b.scale)
  have hshare : Width.bits64.add b.scale.toInt (b.amount.toInt * d.toInt) =
      .ok (b.scale.toInt + b.amount.toInt * d.toInt) :=
    Width.add_of_holds (Width.bits64_holds_iff.2 ⟨by omega, by omega⟩)
  simp only [apply, Width.mul_samples, hshare, bind, Except.bind]
  by_cases hfits : b.Fits s d
  · have hdiv := Width.div_of_holds hscale.ne' (Width.holds_tdiv_of_pos hscale hfits)
    rw [Width.mul_of_holds hfits, if_pos hfits]
    simp only [product] at hdiv
    simp only [hdiv]
    rfl
  · have hmul : Width.bits64.mul s.toInt (b.scale.toInt + b.amount.toInt * d.toInt) =
        .error .mulOverflow := if_neg hfits
    rw [hmul, if_neg hfits]

/-- What is stored stays below the scale: the quotient is not below every sample, or the low 32 bits of it
happen to make a sample that is small enough. -/
def StaysBelow (b : Blend) (s d : Sample) : Prop :=
  -2147483648 ≤ b.quotient s d ∨ (narrow (b.quotient s d)).toInt < b.scale.toInt

instance (b : Blend) (s d : Sample) : Decidable (b.StaysBelow s d) :=
  inferInstanceAs (Decidable (_ ∨ _))

theorem apply_of_fits (hscale : 0 < b.scale.toInt) (hfits : b.Fits s d) :
    b.apply s d = .ok (b.stored s d) := by
  rw [apply_eq_ite hscale, if_pos hfits]

/-- A quotient at the scale or above is clamped, whatever it is. -/
theorem toInt_stored_of_scale_le (hscale : 0 < b.scale.toInt) (hle : b.scale.toInt ≤ b.quotient s d) :
    (b.stored s d).toInt = b.scale.toInt - 1 := by
  have hone := Width.bits32_holds_iff.1 (holds_toInt b.scale)
  rw [stored, if_pos hle, toInt_narrow (Width.bits32_holds_iff.2 ⟨by omega, by omega⟩)]

private theorem stored_of_lt_scale (hlt : b.quotient s d < b.scale.toInt) :
    b.stored s d = narrow (b.quotient s d) := by
  rw [stored, if_neg (by omega)]

/-- A quotient below the scale is kept, also below zero, as long as it is a sample. -/
theorem toInt_stored_of_lt_scale (hlow : -2147483648 ≤ b.quotient s d)
    (hlt : b.quotient s d < b.scale.toInt) : (b.stored s d).toInt = b.quotient s d := by
  have hone := Width.bits32_holds_iff.1 (holds_toInt b.scale)
  rw [stored_of_lt_scale hlt, toInt_narrow (Width.bits32_holds_iff.2 ⟨hlow, by omega⟩)]

/-- Only a quotient that is below every sample can be stored at the scale or above. -/
theorem toInt_stored_lt_scale_iff (hscale : 0 < b.scale.toInt) :
    (b.stored s d).toInt < b.scale.toInt ↔ b.StaysBelow s d := by
  unfold StaysBelow
  by_cases hclamped : b.scale.toInt ≤ b.quotient s d
  · rw [toInt_stored_of_scale_le hscale hclamped]
    exact ⟨fun _ => .inl (by omega), fun _ => by omega⟩
  · have hlt : b.quotient s d < b.scale.toInt := by omega
    by_cases hlow : -2147483648 ≤ b.quotient s d
    · rw [toInt_stored_of_lt_scale hlow hlt]
      exact ⟨fun _ => .inl hlow, fun _ => hlt⟩
    · rw [stored_of_lt_scale hlt]
      exact ⟨.inr, fun h => h.resolve_left hlow⟩

end Blend

namespace Plane

variable {p mask q : Plane} {b : Blend}

section Blending

variable (hscale : 0 < b.scale.toInt) (hmask : mask.extent = p.extent)
include hscale hmask

private theorem sharpen_eq_ok_iff_stored : p.sharpen mask b = .ok q ↔ q.extent = p.extent ∧
    ∀ x y, p.extent.Contains x y → b.Fits (p.sample x y) (mask.sample x y) ∧
      q.sample x y = b.stored (p.sample x y) (mask.sample x y) := by
  have hplace (x y : Nat) : b.apply (p.sample x y) (mask.sample x y) = .ok (q.sample x y) ↔
      b.Fits (p.sample x y) (mask.sample x y) ∧
        q.sample x y = b.stored (p.sample x y) (mask.sample x y) := by
    rw [Blend.apply_eq_ite hscale]
    split_ifs with hfits <;> simp [hfits, eq_comm]
  rw [sharpen_eq_ok_iff]
  simp only [hplace, hscale, hmask, true_and]

/-- Blending stops for no other reason than a product that is no word. -/
theorem sharpen_of_not_fits {x y : Nat} (hin : p.extent.Contains x y)
    (hstop : ¬ b.Fits (p.sample x y) (mask.sample x y)) :
    p.sharpen mask b = .error (.fault .mulOverflow) := by
  have hcheck : mask.expectExtent p.extent = .ok () := expectExtent_eq_ok_iff.2 hmask
  have hgo : p.sharpen mask b = Run.ofChecked
      (p.fillM fun x y => b.apply (p.sample x y) (mask.sample x y)) := by
    rw [sharpen, if_neg (by omega), hcheck]
    rfl
  rcases p.fillM_cases fun x y => b.apply (p.sample x y) (mask.sample x y) with
    ⟨q, hfill⟩ | ⟨fault, hfill, x', y', -, hfault⟩
  · have hok : p.sharpen mask b = .ok q := by rw [hgo, hfill, Run.ofChecked_ok]
    exact absurd (((sharpen_eq_ok_iff_stored hscale hmask).1 hok).2 x y hin).1 hstop
  · rw [Blend.apply_eq_ite hscale] at hfault
    split_ifs at hfault
    obtain rfl := Except.error.inj hfault
    rw [hgo, hfill, Run.ofChecked_error]

/-- A plane is sharpened exactly when the products of all samples with their shares are words, and else
it stops over such a product. A quotient at the scale or above is then stored as one less than the
scale, and one below the scale as it is, also below zero, as long as it is a sample. All samples stay
below the scale exactly when no quotient is so low that its low 32 bits make a sample at the scale or
above. -/
theorem sharpen_stores :
    (∀ q, p.sharpen mask b = .ok q ↔ q.extent = p.extent ∧
      ∀ x y, p.extent.Contains x y → b.Fits (p.sample x y) (mask.sample x y) ∧
        q.sample x y = b.stored (p.sample x y) (mask.sample x y)) ∧
    (∀ x y, p.extent.Contains x y → ¬ b.Fits (p.sample x y) (mask.sample x y) →
      p.sharpen mask b = .error (.fault .mulOverflow)) ∧
    (∀ s d, (b.scale.toInt ≤ b.quotient s d → (b.stored s d).toInt = b.scale.toInt - 1) ∧
      (-2147483648 ≤ b.quotient s d → b.quotient s d < b.scale.toInt →
        (b.stored s d).toInt = b.quotient s d)) ∧
    ((∃ q, p.sharpen mask b = .ok q ∧
      ∀ x y, p.extent.Contains x y → q.grid x y ≤ b.scale.toInt - 1) ↔
        ∀ x y, p.extent.Contains x y → b.Fits (p.sample x y) (mask.sample x y) ∧
          b.StaysBelow (p.sample x y) (mask.sample x y)) := by
  have hok {q : Plane} := sharpen_eq_ok_iff_stored (q := q) hscale hmask
  refine ⟨fun q => hok, fun x y hin hstop => sharpen_of_not_fits hscale hmask hin hstop,
    fun s d => ⟨Blend.toInt_stored_of_scale_le hscale, Blend.toInt_stored_of_lt_scale⟩, ?_, ?_⟩
  · rintro ⟨q, hq, hbelow⟩ x y hin
    obtain ⟨hfits, hstored⟩ := (hok.1 hq).2 x y hin
    have hlt := hbelow x y hin
    rw [grid, hstored, Int.le_sub_one_iff] at hlt
    exact ⟨hfits, (Blend.toInt_stored_lt_scale_iff hscale).1 hlt⟩
  · intro hplaces
    have hchoice : ∀ x y, p.extent.Contains x y →
        ∃ s, s = b.stored (p.sample x y) (mask.sample x y) := fun _ _ _ => ⟨_, rfl⟩
    obtain ⟨q, hextent, hq⟩ := p.exists_samples hchoice
    refine ⟨q, hok.2 ⟨hextent, fun x y hin => ⟨(hplaces x y hin).1, hq x y hin⟩⟩, fun x y hin => ?_⟩
    rw [grid, hq x y hin, Int.le_sub_one_iff]
    exact (Blend.toInt_stored_lt_scale_iff hscale).2 (hplaces x y hin).2

end Blending

/-- Samples around the top of the hue. -/
def dusk : Plane := ⟨⟨4, 1⟩, by decide, #v[360, 1000, -1, 300]⟩

/-- What `dusk` is blended with. -/
def veil : Plane := ⟨dusk.extent, dusk.nonempty, #v[0, -10, 1, 200]⟩

theorem sharpen_stores_dusk : 0 < (Blend.ofChannel .first).scale.toInt ∧
    veil.extent = dusk.extent ∧ ∃ q, dusk.sharpen veil (Blend.ofChannel .first) = .ok q ∧
      q.rowSamples 0 = [359, 359, 0, -366] := by
  have hscale : 0 < (Blend.ofChannel .first).scale.toInt := by decide
  have hplaces : ∀ x < 4, ∀ y < 1, (Blend.ofChannel .first).Fits (dusk.sample x y) (veil.sample x y) ∧
      (Blend.ofChannel .first).StaysBelow (dusk.sample x y) (veil.sample x y) := by decide
  have hmask : veil.extent = dusk.extent := rfl
  obtain ⟨hok, -, -, hbelow⟩ := sharpen_stores hscale hmask
  obtain ⟨q, hq, -⟩ := hbelow.2 fun x y hin => hplaces x hin.1 y hin.2
  obtain ⟨hextent, hsamples⟩ := (hok q).1 hq
  refine ⟨hscale, hmask, q, hq, ?_⟩
  have hrow : q.rowSamples 0 = (List.range 4).map fun x =>
      (Blend.ofChannel .first).stored (dusk.sample x 0) (veil.sample x 0) := by
    rw [rowSamples, hextent]
    exact List.map_congr_left fun x hx => (hsamples x 0 ⟨List.mem_range.1 hx, by decide⟩).2
  rw [hrow]
  decide

/-- A single sample. -/
def flash (s : Sample) : Plane := ⟨⟨1, 1⟩, by decide, #v[s]⟩

/-- The highest sample cannot be blended with every detail, and with some it comes out far above the
scale, although the scale is the one of a channel and the extents agree. -/
theorem sharpen_flash_exceeds : 0 < (Blend.ofChannel .second).scale.toInt ∧
    (flash 2147483647).sharpen (flash (-2147483648)) (Blend.ofChannel .second) =
      .error (.fault .mulOverflow) ∧
    ∃ q, (flash 2147483647).sharpen (flash 640) (Blend.ofChannel .second) = .ok q ∧
      q.sample 0 0 = 1073741826 ∧ (Blend.ofChannel .second).scale = 1024 := by
  have hscale : 0 < (Blend.ofChannel .second).scale.toInt := by decide
  refine ⟨hscale, ?_, flash 1073741826, ?_, rfl, rfl⟩
  · exact sharpen_of_not_fits (x := 0) (y := 0) hscale rfl (by decide) (by decide)
  · have hmask : (flash 640).extent = (flash 2147483647).extent := rfl
    refine (sharpen_eq_ok_iff_stored hscale hmask).2 ⟨rfl, ?_⟩
    rintro x y ⟨hx, hy⟩
    have hall : ∀ x < 1, ∀ y < 1,
        (Blend.ofChannel .second).Fits ((flash 2147483647).sample x y) ((flash 640).sample x y) ∧
          (flash 1073741826).sample x y = (Blend.ofChannel .second).stored
            ((flash 2147483647).sample x y) ((flash 640).sample x y) := by decide
    exact hall x hx y hy

end Plane

end Acutance
