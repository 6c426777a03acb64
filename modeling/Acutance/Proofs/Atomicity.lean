import Acutance.Proofs.InPlace

namespace Acutance

/-- An operation that works in place on a value of the first type, with the errors of the second. -/
inductive Call : Type → Type → Type where
  | setPixel (x y : Nat) (p : Pixel) : Call Image RasterError
  | mapPixels (space : ColorSpace) (f : Pixel → Checked Pixel) : Call Image RasterError
  | recode (source target : ColorSpace) (f : Pixel → Checked Pixel) : Call Image RasterError
  | setChannel (c : Channel) (plane : Plane) : Call Image RasterError
  | setSample (x y : Nat) (s : Sample) : Call Plane RasterError
  | levels : Call Image FilterError
  | toHsv : Call Image ColorError
  | toRgb : Call Image ColorError
  | smoothRows (source : Plane) (k : Kernel) : Call Plane FilterError
  | sharpen (detail : Plane) (blend : Blend) : Call Plane FilterError
  | build (source : Plane) : Call Engine FilterError
  | unsharpChannel (c : Channel) : Call (Image × Engine) FilterError
  | unsharp (k : Kernel) : Call Image FilterError
  | enhance : Call Image EnhanceError

namespace Call

variable {σ ε : Type}

/-- The operation that is called. -/
def run : Call σ ε → Edit σ ε Unit
  | setPixel x y p => Edit.update fun image => Run.ofExcept (image.set x y p)
  | mapPixels space f => Edit.update (Image.mapPixels space f)
  | recode source target f => Edit.update (Image.recode source target f)
  | setChannel c plane => Edit.update fun image => Run.ofExcept (image.setChannel c plane)
  | setSample x y s => Edit.update fun plane => Run.ofExcept (plane.set x y s)
  | levels => Edit.update Image.levels
  | toHsv => Edit.update Image.toHsv
  | toRgb => Edit.update Image.toRgb
  | smoothRows source k => Edit.update fun target => source.smoothRows k target
  | sharpen detail blend => Edit.update fun plane => plane.sharpen detail blend
  | build source => Engine.build source
  | unsharpChannel c => Acutance.unsharpChannel c
  | unsharp k => Acutance.unsharp k
  | enhance => Acutance.enhance

/-- The operation as it goes from place to place. A single place is written at once. -/
def inPlace : Call σ ε → Edit σ ε Unit
  | setPixel x y p => Edit.update fun image => Run.ofExcept (image.set x y p)
  | mapPixels space f => Image.recodeInPlace space space f
  | recode source target f => Image.recodeInPlace source target f
  | setChannel c plane => Image.setChannelInPlace c plane
  | setSample x y s => Edit.update fun plane => Run.ofExcept (plane.set x y s)
  | levels => Image.levelsInPlace
  | toHsv => Image.toHsvInPlace
  | toRgb => Image.toRgbInPlace
  | smoothRows source k => source.smoothRowsInPlace k
  | sharpen detail blend => Plane.sharpenInPlace detail blend
  | build source => Engine.buildInPlace source
  | unsharpChannel c => unsharpChannelInPlace c
  | unsharp k => unsharpInPlace k
  | enhance => enhanceInPlace

/-- The error that a call ends in, if any. It is there before the call begins. -/
def refusal : Call σ ε → σ → Option ε
  | setPixel x y _, image => image.extent.placeRefusal x y
  | mapPixels space _, image => image.spaceRefusal space
  | recode source _ _, image => image.spaceRefusal source
  | setChannel _ plane, image => image.extent.refusal plane.extent
  | setSample x y _, plane => plane.extent.placeRefusal x y
  | levels, image => (image.spaceRefusal .rgb).map .raster
  | toHsv, image => (image.spaceRefusal .rgb).map .raster
  | toRgb, image => (image.spaceRefusal .hsv).map .raster
  | smoothRows source _, target => (source.extent.refusal target.extent).map .raster
  | sharpen detail blend, plane =>
    (Plane.blendRefusal blend).or ((plane.extent.refusal detail.extent).map .raster)
  | build source, engine => (source.extent.refusal engine.mask.extent).map .raster
  | unsharpChannel _, state => channelRefusal state
  | unsharp _, image => (image.spaceRefusal .hsv).map .raster
  | enhance, image => (image.spaceRefusal .rgb).map fun e => .filter (.raster e)

private theorem inPlace_matches (call : Call σ ε) : call.inPlace.Matches call.run := by
  cases call with
  | setPixel x y p => exact .refl _
  | mapPixels space f => exact Image.recodeInPlace_matches space space f
  | recode source target f => exact Image.recodeInPlace_matches source target f
  | setChannel c plane => exact Image.setChannelInPlace_matches c plane
  | setSample x y s => exact .refl _
  | levels => exact Image.levelsInPlace_matches
  | toHsv => exact Image.toHsvInPlace_matches
  | toRgb => exact Image.toRgbInPlace_matches
  | smoothRows source k => exact source.smoothRowsInPlace_matches k
  | sharpen detail blend => exact detail.sharpenInPlace_matches blend
  | build source => exact Engine.buildInPlace_matches source
  | unsharpChannel c => exact unsharpChannelInPlace_matches c
  | unsharp k => exact unsharpInPlace_matches k
  | enhance => exact enhanceInPlace_matches

private theorem run_refuses (call : Call σ ε) : call.run.Refuses call.refusal := by
  cases call with
  | setPixel x y p => exact Image.set_refuses x y p
  | mapPixels space f => exact Image.recode_refuses space space f
  | recode source target f => exact Image.recode_refuses source target f
  | setChannel c plane => exact Image.setChannel_refuses c plane
  | setSample x y s => exact Plane.set_refuses x y s
  | levels => exact Image.levels_refuses
  | toHsv => exact Image.toHsv_refuses
  | toRgb => exact Image.toRgb_refuses
  | smoothRows source k => exact source.smoothRows_refuses k
  | sharpen detail blend => exact detail.sharpen_refuses blend
  | build source => exact Engine.build_refuses source
  | unsharpChannel c => exact unsharpChannel_refuses c
  | unsharp k => exact unsharp_refuses k
  | enhance => exact enhance_refuses

end Call

/-- Goes on behind an edit that is refused. Gives whether it was not. -/
def Edit.attempt {σ ε δ : Type} (act : Edit σ ε Unit) : Edit σ δ Bool := fun s =>
  match act s with
  | .ok _ s' => .ok true s'
  | .error (.error _) s' => .ok false s'
  | .error (.fault f) s' => .error (.fault f) s'

/-- An operation on a whole image. -/
inductive Stage where
  | levels
  | toHsv
  | toRgb
  | unsharp (k : Kernel)
  | enhance

namespace Stage

/-- Runs a stage. -/
def run : Stage → Edit Image EnhanceError Unit
  | levels => Edit.restate .filter Call.levels.run
  | toHsv => Edit.restate .color Call.toHsv.run
  | toRgb => Edit.restate .color Call.toRgb.run
  | unsharp k => Edit.restate .filter (Call.unsharp k).run
  | enhance => Call.enhance.run

/-- The color space that a stage needs. -/
def source : Stage → ColorSpace
  | levels | toHsv | enhance => .rgb
  | toRgb | unsharp _ => .hsv

/-- The color space that a stage leaves. -/
def target : Stage → ColorSpace
  | levels | toRgb | enhance => .rgb
  | toHsv | unsharp _ => .hsv

/-- Whether each of some stages ends well, and the color space in the end, as far as they can be told
from the color space in the beginning. -/
def trace : List Stage → ColorSpace → List Bool × ColorSpace
  | [], space => ([], space)
  | stage :: rest, space =>
    if space = stage.source then
      let (outcomes, final) := trace rest stage.target
      (true :: outcomes, final)
    else
      let (outcomes, final) := trace rest space
      (false :: outcomes, final)

/-- Runs stages one after the other, also behind one that is refused. -/
def runAll (stages : List Stage) : Edit Image Empty (List Bool) :=
  stages.mapM fun stage => stage.run.attempt

private theorem exists_refusal (stage : Stage) : ∃ refusal, stage.run.Refuses refusal ∧
    ∀ image, refusal image = none ↔ image.space = stage.source := by
  cases stage with
  | levels => exact ⟨_, Call.levels.run_refuses.restate _, by simp [Call.refusal, source]⟩
  | toHsv => exact ⟨_, Call.toHsv.run_refuses.restate _, by simp [Call.refusal, source]⟩
  | toRgb => exact ⟨_, Call.toRgb.run_refuses.restate _, by simp [Call.refusal, source]⟩
  | unsharp k => exact ⟨_, (Call.unsharp k).run_refuses.restate _, by simp [Call.refusal, source]⟩
  | enhance => exact ⟨_, Call.enhance.run_refuses, by simp [Call.refusal, source]⟩

private theorem space_of_run {stage : Stage} {a b : Image} {u : Unit} (h : stage.run a = .ok u b) :
    b.space = stage.target := by
  cases stage with
  | levels => exact Image.space_of_levels (Edit.update_eq_ok_iff.1 (Edit.restate_eq_ok_iff.1 h))
  | toHsv => exact Image.space_of_toHsv (Edit.update_eq_ok_iff.1 (Edit.restate_eq_ok_iff.1 h))
  | toRgb => exact Image.space_of_toRgb (Edit.update_eq_ok_iff.1 (Edit.restate_eq_ok_iff.1 h))
  | unsharp k => exact (unsharp_eq_ok_iff.1 (Edit.restate_eq_ok_iff.1 h)).2.1
  | enhance => exact space_of_enhance h

/-- One stage that does not fault ends well when it finds the color space that it needs. Else nothing
has changed. -/
theorem attempt_eq_ok {stage : Stage} {image next : Image} {ended : Bool}
    (h : (stage.run.attempt : Edit Image Empty Bool) image = .ok ended next) :
    (image.space = stage.source ∧ ended = true ∧ next.space = stage.target) ∨
      (image.space ≠ stage.source ∧ ended = false ∧ next = image) := by
  obtain ⟨refusal, hrefuses, hnone⟩ := stage.exists_refusal
  unfold Edit.attempt at h
  rcases hrun : stage.run image with ⟨_, s'⟩ | ⟨fault | e, s'⟩ <;> rw [hrun] at h <;> cases h
  · exact .inl ⟨(hnone _).1 (hrefuses.eq_none_of_eq_ok hrun), rfl, space_of_run hrun⟩
  · obtain ⟨hrefusal, rfl⟩ := hrefuses.eq_error_iff.1 hrun
    refine .inr ⟨fun hspace => ?_, rfl, rfl⟩
    simp [(hnone _).2 hspace] at hrefusal

private theorem runAll_eq_ok {stages : List Stage} {image final : Image} {outcomes : List Bool}
    (h : runAll stages image = .ok outcomes final) :
    (outcomes, final.space) = trace stages image.space := by
  -- each stage starts from the image that the one before it has left
  induction stages generalizing image outcomes with
  | nil =>
    obtain ⟨rfl, rfl⟩ := Edit.pure_eq_ok_iff.1 h
    rfl
  | cons stage stages ih =>
    obtain ⟨ended, rest, next, rfl, hfirst, hrest⟩ := Edit.mapM_cons_eq_ok_iff.1 h
    have hlater := ih hrest
    rw [trace]
    rcases attempt_eq_ok hfirst with ⟨hspace, rfl, hnext⟩ | ⟨hspace, rfl, rfl⟩
    · rw [if_pos hspace, ← hnext, ← hlater]
    · rw [if_neg hspace, ← hlater]

end Stage

/-- A call that ends in an error leaves what it works on exactly as it was, whether it replaces its value
at once or goes from place to place, and both do the same. The error can be told before the call begins.
Along a sequence of stages that do not fault, the color space alone decides which of them end well; it
changes where one of the two conversions ends well, and nowhere else. -/
theorem calls_atomic_and_stages_traced :
    (∀ (σ ε : Type) (call : Call σ ε), call.inPlace.Matches call.run ∧ ∀ s e s',
      (call.run s = .error (.error e) s' ↔ call.refusal s = some e ∧ s' = s) ∧
      (call.inPlace s = .error (.error e) s' ↔ call.refusal s = some e ∧ s' = s)) ∧
    (∀ stages image outcomes final, Stage.runAll stages image = .ok outcomes final →
      (outcomes, final.space) = Stage.trace stages image.space) ∧
    ∀ (stage : Stage) (image next : Image) (ended : Bool),
      (stage.run.attempt : Edit Image Empty Bool) image = .ok ended next →
        next.space ≠ image.space → ended = true ∧ (stage = .toHsv ∨ stage = .toRgb) := by
  refine ⟨fun σ ε call => ⟨call.inPlace_matches, fun s e s' => ⟨?_, ?_⟩⟩,
    fun _ _ _ _ => Stage.runAll_eq_ok, fun stage image next ended h hspace => ?_⟩
  · exact call.run_refuses.eq_error_iff
  · exact (call.inPlace_matches.refuses call.run_refuses).eq_error_iff
  · rcases Stage.attempt_eq_ok h with ⟨hsource, rfl, htarget⟩ | ⟨-, -, rfl⟩
    · rw [hsource, htarget] at hspace
      cases stage with
      | toHsv => exact ⟨rfl, .inl rfl⟩
      | toRgb => exact ⟨rfl, .inr rfl⟩
      | levels | unsharp | enhance => exact absurd rfl hspace
    · exact absurd rfl hspace

/-- An image of two pixels. -/
def pair (space : ColorSpace) : Image where
  extent := ⟨2, 1⟩
  space := space
  pixels := Extent.tabulate ⟨2, 1⟩ fun x _ => if x = 0 then ⟨200, 100, 50⟩ else ⟨90, 60, 30⟩
  accepted := by decide

/-- An engine that does not fit two pixels. -/
def wideEngine : Engine := ⟨.gaussian, ⟨3, 1⟩, by decide, #v[3, 4, 5]⟩

theorem calls_atomic_and_stages_traced_pair :
    unsharpChannelInPlace .second (pair .hsv, wideEngine) =
      .error (.error (.raster (.extentMismatch ⟨2, 1⟩ ⟨3, 1⟩))) (pair .hsv, wideEngine) ∧
    (∃ final, Stage.runAll [.toRgb, .toHsv, .levels, .unsharp .gaussian, .toRgb, .enhance] (pair .rgb) =
      .ok [false, true, false, true, true, true] final ∧ final.space = .rgb) ∧
    ∃ ended next, (Stage.toHsv.run.attempt : Edit Image Empty Bool) (pair .rgb) = .ok ended next ∧
      next.space ≠ .rgb ∧ ended = true := by
  obtain ⟨hcalls, htraced, hchanged⟩ := calls_atomic_and_stages_traced
  refine ⟨?_, ?_, ?_⟩
  · exact ((hcalls _ _ (.unsharpChannel .second)).2 _ _ _).2.2 ⟨by decide, rfl⟩
  · have hends : (Stage.runAll [.toRgb, .toHsv, .levels, .unsharp .gaussian, .toRgb, .enhance]).ends
        (pair .rgb) = true := by decide +kernel
    obtain ⟨outcomes, final, hrun⟩ := Edit.exists_of_ends hends
    obtain ⟨rfl, hspace⟩ := Prod.mk.inj (htraced _ _ _ _ hrun)
    exact ⟨final, hrun, hspace⟩
  · have hends : (Stage.toHsv.run.attempt : Edit Image Empty Bool).ends (pair .rgb) = true := by
      decide +kernel
    obtain ⟨ended, next, hstep⟩ := Edit.exists_of_ends hends
    rcases Stage.attempt_eq_ok hstep with ⟨-, -, hhsv⟩ | ⟨hrgb, -⟩
    · have hspace : next.space ≠ .rgb := by
        rw [hhsv]
        decide
      exact ⟨ended, next, hstep, hspace, (hchanged _ _ _ _ hstep hspace).1⟩
    · exact absurd rfl hrgb

end Acutance
