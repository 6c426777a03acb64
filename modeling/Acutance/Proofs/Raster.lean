import Acutance.Proofs.Grid

namespace Acutance

namespace Extent

variable {ε α : Type} {error : ε}

private theorem exists_of_ofFnM_eq_error {n : Nat} {f : Fin n → Except ε α}
    (h : Vector.ofFnM f = .error error) : ∃ i, f i = .error error := by
  induction n with
  | zero =>
    rw [Vector.ofFnM_zero] at h
    cases h
  | succ n ih =>
    rw [Vector.ofFnM_succ] at h
    cases hinit : Vector.ofFnM fun i : Fin n => f i.castSucc with
    | error e =>
      rw [hinit] at h
      obtain rfl : e = error := Except.error.inj h
      obtain ⟨i, hi⟩ := ih hinit
      exact ⟨i.castSucc, hi⟩
    | ok init =>
      cases hlast : f (Fin.last n) with
      | error e =>
        rw [hinit, hlast] at h
        obtain rfl : e = error := Except.error.inj h
        exact ⟨Fin.last n, hlast⟩
      | ok last => rw [hinit, hlast] at h; cases h

/-- A raster that is not filled stops at one of its places. -/
theorem exists_of_tabulateM_eq_error {e : Extent} {f : Nat → Nat → Except ε α}
    (h : e.tabulateM f = .error error) : ∃ x y, e.Contains x y ∧ f x y = .error error := by
  obtain ⟨i, hi⟩ := exists_of_ofFnM_eq_error h
  exact ⟨_, _, contains_of_lt_area i.isLt, hi⟩

end Extent

namespace Image

variable {a b : Image} {c : Channel} {plane : Plane}

/-- Images of one extent and color space are equal when their channels are. -/
theorem ext_channel (hextent : a.extent = b.extent) (hspace : a.space = b.space)
    (hchannel : ∀ c, a.channel c = b.channel c) : a = b := by
  refine ext_pixel hextent hspace fun x y _ => Pixel.ext_get fun c => ?_
  rw [← sample_channel a c x y, hchannel c, sample_channel]

/-- An image can be chosen place by place. -/
theorem exists_pixels (a : Image) (space : ColorSpace) (holds : Nat → Nat → Pixel → Prop)
    (h : ∀ x y, a.extent.Contains x y → ∃ p, holds x y p) :
    ∃ b : Image, b.extent = a.extent ∧ b.space = space ∧
      ∀ x y, a.extent.Contains x y → holds x y (b.pixel x y) := by
  classical
  let choice : Nat → Nat → Pixel := fun x y =>
    if hin : a.extent.Contains x y then (h x y hin).choose else default
  refine ⟨⟨a.extent, space, a.extent.tabulate choice, a.accepted⟩, rfl, rfl, fun x y hin => ?_⟩
  rw [pixel_mk hin, Extent.get_tabulate hin]
  simp only [choice, dif_pos hin]
  exact (h x y hin).choose_spec

/-- An image can be put together from a plane for each channel. -/
theorem exists_channels (a : Image) (space : ColorSpace) (planes : Channel → Plane)
    (hplanes : ∀ c, (planes c).extent = a.extent) :
    ∃ b : Image, b.extent = a.extent ∧ b.space = space ∧ ∀ c, b.channel c = planes c := by
  obtain ⟨b, hextent, hspace, hpixel⟩ := a.exists_pixels space
    (fun x y p => ∀ c, p.get c = (planes c).sample x y) fun x y _ =>
      ⟨⟨(planes .first).sample x y, (planes .second).sample x y, (planes .third).sample x y⟩,
        fun c => by cases c <;> rfl⟩
  refine ⟨b, hextent, hspace, fun c => ?_⟩
  refine Plane.ext_sample (hextent.trans (hplanes c).symm) fun x y hin => ?_
  rw [sample_channel, hpixel x y (by rw [← hextent]; exact hin) c]

/-- An image is recoded without a fault, and to what a grid for each channel says, when every pixel
of it is. -/
theorem exists_recode {source : ColorSpace} (target : ColorSpace) {f : Pixel → Checked Pixel}
    {g : Channel → Grid} (hspace : a.space = source)
    (hf : ∀ x y, a.extent.Contains x y →
      ∃ p, f (a.pixel x y) = .ok p ∧ ∀ c, (p.get c).toInt = g c x y) :
    ∃ b, a.recode source target f = .ok b ∧ b.extent = a.extent ∧ b.space = target ∧
      ∀ c x y, a.extent.Contains x y → b.grid c x y = g c x y := by
  obtain ⟨b, hextent, htarget, hpixel⟩ := a.exists_pixels target _ hf
  exact ⟨b, recode_eq_ok_iff.2 ⟨hspace, hextent, htarget, fun x y hin => (hpixel x y hin).1⟩,
    hextent, htarget, fun c x y hin => (hpixel x y hin).2 c⟩

/-- An image in the right color space is recoded, or stops with the fault of one of its pixels. -/
theorem recode_cases {source : ColorSpace} (target : ColorSpace) (f : Pixel → Checked Pixel)
    (hspace : a.space = source) : (∃ b, a.recode source target f = .ok b) ∨
      ∃ fault, a.recode source target f = .error (.fault fault) ∧
        ∃ x y, a.extent.Contains x y ∧ f (a.pixel x y) = .error fault := by
  have hcheck : a.expectSpace source = .ok () := expectSpace_eq_ok_iff.2 hspace
  rw [recode, hcheck]
  cases hfill : a.extent.tabulateM fun x y => f (a.pixel x y) with
  | ok pixels => exact .inl ⟨_, rfl⟩
  | error fault => exact .inr ⟨fault, rfl, Extent.exists_of_tabulateM_eq_error hfill⟩

/-- One channel of an image has been replaced by a plane, and nothing else. -/
structure Replaced (a : Image) (c : Channel) (plane : Plane) (b : Image) : Prop where
  extent_eq : b.extent = a.extent
  space_eq : b.space = a.space
  channel_eq : b.channel c = plane
  others_eq : ∀ d, d ≠ c → b.channel d = a.channel d

theorem replaced_of_setChannel (h : a.setChannel c plane = .ok b) : a.Replaced c plane b := by
  obtain ⟨hplane, hextent, hspace, hpixel⟩ := setChannel_eq_ok_iff.1 h
  refine ⟨hextent, hspace, ?_, fun d hd => ?_⟩
  · refine Plane.ext_sample (hextent.trans hplane.symm) fun x y hin => ?_
    have hin' : a.extent.Contains x y := by rw [← hextent]; exact hin
    rw [sample_channel, hpixel x y hin', Pixel.get_set_self]
  · refine Plane.ext_sample hextent fun x y hin => ?_
    have hin' : a.extent.Contains x y := by rw [← hextent]; exact hin
    rw [sample_channel, sample_channel, hpixel x y hin', Pixel.get_set_of_ne _ _ (Ne.symm hd)]

theorem exists_replaced (hplane : plane.extent = a.extent) :
    ∃ b, a.setChannel c plane = .ok b := by
  refine ⟨_, bind_eq_ok_iff.2 ⟨(), if_pos hplane, rfl⟩⟩

end Image

namespace Plane

/-- A plane is filled, or stops with the fault of one of its places. -/
theorem fillM_cases (p : Plane) (f : Nat → Nat → Checked Sample) : (∃ q, p.fillM f = .ok q) ∨
    ∃ fault, p.fillM f = .error fault ∧ ∃ x y, p.extent.Contains x y ∧ f x y = .error fault := by
  rw [fillM]
  cases hfill : p.extent.tabulateM f with
  | ok samples => exact .inl ⟨_, rfl⟩
  | error fault => exact .inr ⟨fault, rfl, Extent.exists_of_tabulateM_eq_error hfill⟩

/-- A plane can be chosen place by place. -/
theorem exists_samples (p : Plane) {holds : Nat → Nat → Sample → Prop}
    (h : ∀ x y, p.extent.Contains x y → ∃ s, holds x y s) :
    ∃ q : Plane, q.extent = p.extent ∧
      ∀ x y, p.extent.Contains x y → holds x y (q.sample x y) := by
  classical
  let choice : Nat → Nat → Sample := fun x y =>
    if hin : p.extent.Contains x y then (h x y hin).choose else 0
  refine ⟨⟨p.extent, p.nonempty, p.extent.tabulate choice⟩, rfl, fun x y hin => ?_⟩
  rw [sample_mk hin, Extent.get_tabulate hin]
  simp only [choice, dif_pos hin]
  exact (h x y hin).choose_spec

/-- An accepted extent is small enough for a plane of zeros. -/
theorem exists_zeros {e : Extent} (haccepted : e.Accepted) :
    ∃ p, Plane.zeros e = .ok p ∧ p.extent = e := by
  obtain ⟨hwidth, hheight⟩ := haccepted.le
  have harea : e.area ≤ Capacity.maxWidth * Capacity.maxHeight := Nat.mul_le_mul hwidth hheight
  have hsmall : ¬ addressLimit ≤ e.area * sampleBytes := by
    have hbound : Capacity.maxWidth * Capacity.maxHeight * sampleBytes < addressLimit := by decide
    have hscaled : e.area * sampleBytes ≤ Capacity.maxWidth * Capacity.maxHeight * sampleBytes :=
      Nat.mul_le_mul_right _ harea
    omega
  refine ⟨⟨e, haccepted.1, Vector.replicate e.area 0⟩, ?_, rfl⟩
  rw [zeros, dif_pos haccepted.1, if_neg hsmall]

theorem extent_of_zeros {e : Extent} {p : Plane} (h : Plane.zeros e = .ok p) : p.extent = e := by
  unfold zeros at h
  split at h
  · split at h
    · cases h
    · obtain rfl := Except.ok.inj h
      rfl
  · cases h

end Plane

end Acutance
