import Acutance.Proofs.Enhance.Stages
import Acutance.Proofs.Filter.Symmetry

namespace Acutance

namespace Enhancement

variable {image : Image}

private theorem leveled_reflect (r : Reflection) (e : Enhancement image)
    (e' : Enhancement (image.reflect r)) : e'.leveled = e.leveled.reflect r := by
  have hlevels := Image.recode_reflect r (Run.restate_eq_ok_iff.1 e.levels_eq)
  exact Except.ok.inj (e'.levels_eq.symm.trans (Run.restate_eq_ok_iff.2 hlevels))

private theorem hsv_reflect (r : Reflection) (e : Enhancement image)
    (e' : Enhancement (image.reflect r)) : e'.hsv = e.hsv.reflect r := by
  have hconvert := Image.recode_reflect r (Run.restate_eq_ok_iff.1 e.toHsv_eq)
  rw [← leveled_reflect r e e'] at hconvert
  exact Except.ok.inj (e'.toHsv_eq.symm.trans (Run.restate_eq_ok_iff.2 hconvert))

/-- The enhanced reflection is the reflection of the enhanced image. -/
theorem out_reflect (r : Reflection) (e : Enhancement image)
    (e' : Enhancement (image.reflect r)) : e'.out = e.out.reflect r := by
  have hunsharp := e'.unsharp_eq
  rw [hsv_reflect r e e'] at hunsharp
  have hsharpened := unsharp_reflect (by decide) r e.unsharp_eq hunsharp
  have hconvert := Image.recode_reflect r (Run.restate_eq_ok_iff.1 e.toRgb_eq)
  rw [← hsharpened] at hconvert
  exact Except.ok.inj (e'.toRgb_eq.symm.trans (Run.restate_eq_ok_iff.2 hconvert))

end Enhancement

/-- Enhancing commutes with the mirror image and with turning upside down, for every image in red,
green and blue. So does unsharp masking, for every image and every kernel that reads the same from
both ends, as long as it has a value on both sides. -/
theorem enhance_reflect_and_unsharp_reflect :
    (∀ (r : Reflection) (image : Image), image.space = .rgb →
      ∃ out, enhance image = .ok () out ∧ enhance (image.reflect r) = .ok () (out.reflect r)) ∧
    ∀ (r : Reflection) (k : Kernel) (a b b' : Image), k.IsSymmetric →
      unsharp k a = .ok () b → unsharp k (a.reflect r) = .ok () b' → b' = b.reflect r := by
  refine ⟨fun r image hrgb => ?_, fun r k a b b' hk h h' => unsharp_reflect hk r h h'⟩
  obtain ⟨e, -⟩ := exists_enhancement hrgb
  have hrgb' : (image.reflect r).space = .rgb := hrgb
  obtain ⟨e', -⟩ := exists_enhancement hrgb'
  refine ⟨e.out, e.enhance_eq, ?_⟩
  rw [← e.out_reflect r e']
  exact e'.enhance_eq

/-- A symmetric kernel of three taps. -/
def Kernel.binomial : Kernel where
  taps := [1, 2, 1]
  norm := 4
  odd := rfl
  norm_ne_zero := by decide

/-- A colored corner on a plain ground, in hue, saturation and value. -/
def corner : Image where
  extent := ⟨3, 3⟩
  space := .hsv
  pixels := Extent.tabulate ⟨3, 3⟩ fun x y =>
    if x = 0 ∧ y = 2 then ⟨230, 120, 40⟩ else ⟨90, 60, 30⟩
  accepted := by decide

theorem enhance_reflect_spot_and_unsharp_reflect_corner :
    (∃ out, enhance spot = .ok () out ∧
      enhance (spot.reflect .mirror) = .ok () (out.reflect .mirror)) ∧
    ∃ b, unsharp .binomial corner = .ok () b ∧
      unsharp .binomial (corner.reflect .flip) = .ok () (b.reflect .flip) := by
  obtain ⟨henhance, hunsharp⟩ := enhance_reflect_and_unsharp_reflect
  have hcorner : ∃ b, unsharp .binomial corner = .ok () b :=
    Edit.exists_of_result (by decide +kernel)
  have hflip : ∃ b, unsharp .binomial (corner.reflect .flip) = .ok () b :=
    Edit.exists_of_result (by decide +kernel)
  obtain ⟨b, hb⟩ := hcorner
  obtain ⟨b', hb'⟩ := hflip
  refine ⟨henhance .mirror spot rfl, b, hb, ?_⟩
  rw [← hunsharp .flip .binomial corner b b' (by decide) hb hb']
  exact hb'

end Acutance
