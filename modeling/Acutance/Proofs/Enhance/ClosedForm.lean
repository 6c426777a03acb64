import Acutance.Proofs.Enhance.Stages

namespace Acutance

variable {image out : Image} {u : Unit}

/-- The outcome of an enhancement that an image in red, green and blue cannot fail to have. -/
theorem exists_enhance (hrgb : image.space = .rgb) :
    ∃ out, enhance image = .ok () out ∧ out.extent = image.extent ∧ out.space = .rgb ∧
      ∀ c x y, image.extent.Contains x y →
        out.grid c x y = Exact.enhance image.extent image.grid c x y := by
  obtain ⟨e, hshape, hexact⟩ := exists_enhancement hrgb
  exact ⟨e.out, e.enhance_eq, hshape.extent_eq, hshape.space_eq, hexact.out_eq⟩

/-- The first stage refuses an image in another color space. -/
theorem space_of_enhance_eq_ok (h : enhance image = .ok u out) : image.space = .rgb := by
  simp only [enhance, Edit.bind_eq_ok_iff, Edit.restate_eq_ok_iff, Edit.update_eq_ok_iff] at h
  obtain ⟨_, leveled, hlevels, -⟩ := h
  exact (Image.recode_eq_ok_iff.1 (Run.restate_eq_ok_iff.1 hlevels)).1

/-- An enhancement has a value when the image is in red, green and blue, whatever its extent and its
samples are. The outcome keeps both, and holds at every place the closed form in unbounded integers:
no order of places, no sample that was replaced too early, no mask that another channel left behind
and no lost bit can be seen in it. -/
theorem enhance_eq_ok_iff : enhance image = .ok u out ↔
    image.space = .rgb ∧ out.space = .rgb ∧ out.extent = image.extent ∧
      ∀ c x y, image.extent.Contains x y →
        out.grid c x y = Exact.enhance image.extent image.grid c x y := by
  constructor
  · intro h
    have hrgb := space_of_enhance_eq_ok h
    obtain ⟨out', hout', hextent, hspace, hgrid⟩ := exists_enhance hrgb
    obtain ⟨-, rfl⟩ := EStateM.Result.ok.inj (h.symm.trans hout')
    exact ⟨hrgb, hspace, hextent, hgrid⟩
  · rintro ⟨hrgb, hspace, hextent, hgrid⟩
    obtain ⟨out', hout', hextent', hspace', hgrid'⟩ := exists_enhance hrgb
    have heq : out' = out := by
      refine Image.ext_pixel (hextent'.trans hextent.symm) (hspace'.trans hspace.symm)
        fun x y hin => Image.pixel_eq_iff_grid.2 fun c => ?_
      rw [hextent'] at hin
      rw [hgrid' c x y hin, hgrid c x y hin]
    rw [hout', heq]

example : Exact.enhance spot.extent spot.grid .red 3 3 = 255 := by decide +kernel

end Acutance
