import Acutance.Proofs.Enhance.ClosedForm
import Acutance.Proofs.Exact.Flat

namespace Acutance

/-- The samples of a pixel stretch to the same level. -/
def Pixel.LevelsAlike (p : Pixel) : Prop :=
  ∀ c d, Levels.stretch (p.get c) = Levels.stretch (p.get d)

private theorem Levels.stretch_eq_iff {s t : Sample} :
    stretch s = stretch t ↔ Exact.stretch s.toInt = Exact.stretch t.toInt := by
  obtain ⟨a, ha, hexact⟩ := stretch_eq s
  obtain ⟨b, hb, hexact'⟩ := stretch_eq t
  rw [ha, hb, ← hexact, ← hexact', Int32.toInt_inj]
  exact ⟨Except.ok.inj, congrArg Except.ok⟩

/-- A pixel whose samples stretch to one level is gray behind the enhancement, whatever stands around it. It
is black if its samples do not exceed the black level. The enhanced image has the extent of the image, so
there is a pixel at every such place. Detail from around it is blended into all of its channels, but what
has no saturation gets none by that, and what has no value stays black. -/
theorem exists_enhance_gray {image : Image} (hrgb : image.space = .rgb) :
    ∃ out, enhance image = .ok () out ∧ out.extent = image.extent ∧ out.space = .rgb ∧
      ∀ x y, image.extent.Contains x y →
        (image.pixel x y).LevelsAlike → (∃ s, out.pixel x y = .gray s) ∧
          ((∀ c, ((image.pixel x y).get c).toInt ≤ Levels.black) → out.pixel x y = .gray 0) := by
  obtain ⟨out, henhance, hextent, hspace, hgrid⟩ := exists_enhance hrgb
  refine ⟨out, henhance, hextent, hspace, fun x y hin halike => ⟨?_, fun hdark => ?_⟩⟩
  · have hlevel : ∀ c d, Exact.stretch (image.grid c x y) = Exact.stretch (image.grid d x y) :=
      fun c d => Levels.stretch_eq_iff.1 (halike c d)
    have hsame : ∀ c, out.grid c x y =
        (Exact.sharpened image.extent image.grid .value x y).tdiv 4 := by
      intro c
      rw [hgrid c x y hin]
      exact Exact.enhance_of_alike (hlevel _ _) (hlevel _ _) c
    refine ⟨(out.pixel x y).first, Pixel.ext_get fun c => Int32.toInt_inj.1 ?_⟩
    have hfirst := (hsame c).trans (hsame .first).symm
    cases c <;> exact hfirst
  · apply Pixel.ext_get
    intro c
    have hblack := hgrid c x y hin
    rw [Exact.enhance_of_le_black hdark] at hblack
    have hzero : out.grid c x y = (0 : Sample).toInt := hblack
    cases c <;> exact Int32.toInt_inj.1 hzero

/-- A gray place on a colored ground. -/
def hollow : Image where
  extent := spot.extent
  space := .rgb
  pixels := Extent.tabulate spot.extent fun x y =>
    if x = 3 ∧ y = 3 then .gray 9 else ⟨90, 200, 30⟩
  accepted := spot.accepted

theorem exists_enhance_gray_hollow : hollow.space = .rgb ∧ (hollow.pixel 3 3).LevelsAlike ∧
    ∃ out, enhance hollow = .ok () out ∧ out.extent = hollow.extent ∧ out.space = .rgb ∧
      out.pixel 3 3 = .gray 0 := by
  have hrgb : hollow.space = .rgb := rfl
  have halike : (hollow.pixel 3 3).LevelsAlike := by
    intro c d
    cases c <;> cases d <;> rfl
  obtain ⟨out, henhance, hextent, hspace, hgray⟩ := exists_enhance_gray hrgb
  have hdark : ∀ c, ((hollow.pixel 3 3).get c).toInt ≤ Levels.black := by
    intro c
    cases c <;> decide
  exact ⟨hrgb, halike, out, henhance, hextent, hspace, (hgray 3 3 (by decide) halike).2 hdark⟩

end Acutance
