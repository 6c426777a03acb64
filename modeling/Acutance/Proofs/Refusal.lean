import Acutance.Enhance
import Acutance.Proofs.Edit.Outcome
import Acutance.Proofs.Filter.Unsharp

namespace Acutance

/-- The refusal of an image that is not in the expected color space. -/
def Image.spaceRefusal (expected : ColorSpace) (image : Image) : Option RasterError :=
  if image.space = expected then none else some (.spaceMismatch expected image.space)

/-- The refusal of an extent that is not the expected one. -/
def Extent.refusal (expected actual : Extent) : Option RasterError :=
  if actual = expected then none else some (.extentMismatch expected actual)

/-- The refusal of a place outside. -/
def Extent.placeRefusal (e : Extent) (x y : Nat) : Option RasterError :=
  if e.Contains x y then none else some (.outOfBounds (e.index x y) e.area)

@[simp] theorem Extent.refusal_eq_none_iff {expected actual : Extent} :
    expected.refusal actual = none ↔ actual = expected := by
  simp [refusal]

private theorem Plane.ofExcept_expectExtent (p : Plane) (expected : Extent) :
    Run.ofExcept (p.expectExtent expected) = Run.refuse (expected.refusal p.extent) := by
  unfold expectExtent Extent.refusal
  split <;> rfl

namespace Image

@[simp] theorem spaceRefusal_eq_none_iff {expected : ColorSpace} {image : Image} :
    image.spaceRefusal expected = none ↔ image.space = expected := by
  simp [spaceRefusal]

theorem ofExcept_expectSpace (image : Image) (expected : ColorSpace) :
    Run.ofExcept (image.expectSpace expected) = Run.refuse (image.spaceRefusal expected) := by
  unfold expectSpace spaceRefusal
  split <;> rfl

theorem set_refuses (x y : Nat) (p : Pixel) :
    (Edit.update fun image : Image => Run.ofExcept (image.set x y p)).Refuses
      fun image => image.extent.placeRefusal x y := by
  intro image
  by_cases hin : image.extent.Contains x y <;>
    simp [Edit.RefusedAt, Edit.update, Extent.placeRefusal, set, hin]

private theorem recode_eq_refuse (source target : ColorSpace) (f : Pixel → Checked Pixel) :
    recode source target f = fun image => do
      Run.refuse (image.spaceRefusal source)
      let pixels ← Run.ofChecked (image.extent.tabulateM fun x y => f (image.pixel x y))
      return { image with space := target, pixels } := by
  funext image
  rw [recode, ofExcept_expectSpace]

theorem recode_refuses (source target : ColorSpace) (f : Pixel → Checked Pixel) :
    (Edit.update (recode source target f)).Refuses (spaceRefusal source) := by
  rw [recode_eq_refuse]
  exact Edit.update_refuses _ fun _ => Run.bind_pure_ne_error (fun _ => Run.ofChecked_ne_error) _

theorem setChannel_refuses (c : Channel) (plane : Plane) :
    (Edit.update fun image : Image => Run.ofExcept (image.setChannel c plane)).Refuses
      fun image => image.extent.refusal plane.extent := by
  intro image
  by_cases hextent : plane.extent = image.extent
  · obtain ⟨b, hb⟩ := exists_replaced (a := image) (c := c) hextent
    simp [Edit.RefusedAt, Edit.update, Extent.refusal, hextent, hb]
  · have hcheck : plane.expectExtent image.extent = _ := if_neg hextent
    simp [Edit.RefusedAt, Edit.update, Extent.refusal, hextent, setChannel, hcheck, bind, Except.bind]

theorem space_of_levels {a b : Image} (h : a.levels = .ok b) : b.space = .rgb :=
  (recode_eq_ok_iff.1 (Run.restate_eq_ok_iff.1 h)).2.2.1

theorem space_of_toHsv {a b : Image} (h : a.toHsv = .ok b) : b.space = .hsv :=
  (recode_eq_ok_iff.1 (Run.restate_eq_ok_iff.1 h)).2.2.1

theorem space_of_toRgb {a b : Image} (h : a.toRgb = .ok b) : b.space = .rgb :=
  (recode_eq_ok_iff.1 (Run.restate_eq_ok_iff.1 h)).2.2.1

theorem levels_refuses : (Edit.update levels).Refuses
    fun image => (image.spaceRefusal .rgb).map FilterError.raster :=
  (recode_refuses .rgb .rgb (Pixel.mapM Levels.stretch)).update_restate FilterError.raster

theorem toHsv_refuses : (Edit.update toHsv).Refuses
    fun image => (image.spaceRefusal .rgb).map ColorError.raster :=
  (recode_refuses .rgb .hsv Pixel.toHsv).update_restate ColorError.raster

theorem toRgb_refuses : (Edit.update toRgb).Refuses
    fun image => (image.spaceRefusal .hsv).map ColorError.raster :=
  (recode_refuses .hsv .rgb Pixel.toRgb).update_restate ColorError.raster

end Image

namespace Plane

theorem set_refuses (x y : Nat) (s : Sample) :
    (Edit.update fun p : Plane => Run.ofExcept (p.set x y s)).Refuses
      fun p => p.extent.placeRefusal x y := by
  intro p
  by_cases hin : p.extent.Contains x y <;>
    simp [Edit.RefusedAt, Edit.update, Extent.placeRefusal, set, hin]

private theorem smoothRows_eq_refuse (source : Plane) (k : Kernel) (target : Plane) :
    source.smoothRows k target = (do
      Run.refuse ((source.extent.refusal target.extent).map .raster)
      Run.ofChecked (target.fillM (k.smooth source))) := by
  rw [smoothRows, ofExcept_expectExtent, Run.restate_refuse]

theorem smoothRows_refuses (source : Plane) (k : Kernel) :
    (Edit.update fun target => source.smoothRows k target).Refuses
      fun target => (source.extent.refusal target.extent).map .raster := by
  simp only [smoothRows_eq_refuse]
  exact Edit.update_refuses _ fun _ _ => Run.ofChecked_ne_error

/-- The refusal of a blend whose scale is not positive. -/
def blendRefusal (blend : Blend) : Option FilterError :=
  if blend.scale.toInt ≤ 0 then some (.scale blend.scale) else none

private theorem sharpen_eq_refuse (detail : Plane) (blend : Blend) (p : Plane) : p.sharpen detail blend = (do
    Run.refuse ((blendRefusal blend).or ((p.extent.refusal detail.extent).map .raster))
    Run.ofChecked (p.fillM fun x y => blend.apply (p.sample x y) (detail.sample x y))) := by
  unfold sharpen blendRefusal
  rw [ofExcept_expectExtent, Run.restate_refuse]
  split <;> rfl

private theorem sharpen_ne_error {p detail : Plane} {blend : Blend} (hscale : blendRefusal blend = none)
    (hextent : detail.extent = p.extent) (e : FilterError) :
    p.sharpen detail blend ≠ .error (.error e) := by
  rw [sharpen_eq_refuse, hscale, Extent.refusal_eq_none_iff.2 hextent]
  exact Run.ofChecked_ne_error

theorem sharpen_refuses (detail : Plane) (blend : Blend) :
    (Edit.update fun p : Plane => p.sharpen detail blend).Refuses
      fun p => (blendRefusal blend).or ((p.extent.refusal detail.extent).map .raster) := by
  simp only [sharpen_eq_refuse]
  exact Edit.update_refuses _ fun _ _ => Run.ofChecked_ne_error

end Plane

/-- An engine refuses a plane of another extent before its mask is touched. The columns have nothing to
refuse. -/
theorem Engine.build_refuses (source : Plane) : (Engine.build source).Refuses
    fun engine => (source.extent.refusal engine.mask.extent).map .raster := by
  intro engine
  refine Edit.RefusedAt.bind ?_ fun _ _ _ =>
    Edit.update_refusedAt (Run.bind_pure_ne_error (fun _ => Run.ofChecked_ne_error) _)
  simp only [Plane.smoothRows_eq_refuse, bind_assoc]
  exact Edit.update_refuses _
    (fun _ => Run.bind_pure_ne_error (fun _ => Run.ofChecked_ne_error) _) engine

theorem Engine.extent_of_build {source : Plane} {engine engine' : Engine} {u : Unit}
    (h : Engine.build source engine = .ok u engine') : engine'.mask.extent = source.extent := by
  obtain ⟨-, -, smoothed, hsmoothed, hdetail⟩ := Engine.build_eq_ok_iff.1 h
  exact (Plane.detailColumns_eq_ok_iff.1 hdetail).1.trans
    (Plane.smoothRows_eq_ok_iff.1 hsmoothed).2.1

private theorem blendRefusal_ofChannel (c : Channel) : Plane.blendRefusal (Blend.ofChannel c) = none := by
  cases c <;> decide

/-- The refusal of an image and an engine: the color space is looked at before the extents. -/
def channelRefusal : Image × Engine → Option FilterError
  | (image, engine) =>
    ((image.spaceRefusal .hsv).or (image.extent.refusal engine.mask.extent)).map .raster

/-- Sharpening a channel is refused for the color space of the image or for the extent of the engine.
The mask of the engine has changed by the time that the detail is blended in and the channel put back,
but neither of these is refused then. -/
theorem unsharpChannel_refuses (c : Channel) : (unsharpChannel c).Refuses channelRefusal := by
  rintro ⟨image, engine⟩
  refine Edit.RefusedAt.get_bind ?_
  simp only [channelRefusal, Image.ofExcept_expectSpace, Run.restate_refuse, Option.map_or]
  refine .refuse_bind fun hspace => ?_
  refine .bind (.on (Engine.build_refuses (image.channel c) engine) rfl) ?_
  rintro ⟨⟩ _ hedit
  obtain ⟨engine', hbuild, rfl⟩ := Edit.on_eq_ok_iff.1 hedit
  have hmask : engine'.mask.extent = image.extent := Engine.extent_of_build hbuild
  refine .get_bind (.bind (Edit.lift_refusedAt ?_) ?_)
  · exact Plane.sharpen_ne_error (blendRefusal_ofChannel c) hmask
  · intro sharpened next hblend
    obtain ⟨hsharpen, rfl⟩ := Edit.lift_eq_ok_iff.1 hblend
    have hextent : sharpened.extent = image.extent := (Plane.sharpen_eq_ok_iff.1 hsharpen).2.2.1
    obtain ⟨b, hset⟩ := Image.exists_replaced (a := image) (c := c) hextent
    refine Edit.update_refusedAt fun e => ?_
    simp [hset, bind, Except.bind, pure, Except.pure]

/-- Channels that are sharpened one after the other are not refused once the first is not. -/
theorem forM_unsharpChannel_refusedAt {image : Image} {engine : Engine} (hspace : image.space = .hsv)
    (hmask : engine.mask.extent = image.extent) (channels : List Channel) :
    (channels.forM unsharpChannel).RefusedAt (image, engine) none := by
  -- every channel leaves the color space and the extents, which is all that the next one looks at
  induction channels generalizing image engine with
  | nil => exact fun _ _ h => by cases h
  | cons c channels ih =>
    refine .bind ((unsharpChannel_refuses c).refusedAt_none (by simp [channelRefusal, *])) ?_
    rintro ⟨⟩ ⟨next, engine'⟩ hstep
    obtain ⟨-, hmask', _, hset⟩ := unsharpChannel_replaced hstep
    exact ih (hset.space_eq.trans hspace) hmask'

/-- Sharpening an image is refused for its color space, and for nothing else: the engine fits. -/
theorem unsharp_refuses (k : Kernel) :
    (unsharp k).Refuses fun image => (image.spaceRefusal .hsv).map .raster := by
  intro image
  refine .get_bind ?_
  rw [Image.ofExcept_expectSpace, Run.restate_refuse]
  refine .refuse_bind_none fun hspace => ?_
  have hhsv : image.space = .hsv :=
    Image.spaceRefusal_eq_none_iff.1 (Option.map_eq_none_iff.1 hspace)
  obtain ⟨mask, hzeros, hmask⟩ := Plane.exists_zeros image.accepted
  have hengine : Engine.ofExtent k image.extent = .ok ⟨k, mask⟩ :=
    Engine.ofExtent_eq_ok_iff.2 ⟨mask, hzeros, rfl⟩
  rw [hengine]
  exact .lending (forM_unsharpChannel_refusedAt hhsv hmask Channel.all)

/-- An enhancement is refused by its first stage or not at all: every other stage finds the color space
that the one before it has left. -/
theorem enhance_refuses :
    enhance.Refuses fun image => (image.spaceRefusal .rgb).map fun e => .filter (.raster e) := by
  intro image
  have hlevels := (Image.levels_refuses image).restate EnhanceError.filter
  simp only [Option.map_map] at hlevels
  refine .bind hlevels fun _ leveled hleveled => .bind ?_ fun _ converted hconverted =>
    .bind ?_ fun _ sharpened hsharpened => ?_
  · have hrgb := Image.space_of_levels (Edit.update_eq_ok_iff.1 (Edit.restate_eq_ok_iff.1 hleveled))
    exact (Image.toHsv_refuses.refusedAt_none (by simp [hrgb])).restate EnhanceError.color
  · have hhsv := Image.space_of_toHsv (Edit.update_eq_ok_iff.1 (Edit.restate_eq_ok_iff.1 hconverted))
    exact ((unsharp_refuses .gaussian).refusedAt_none (by simp [hhsv])).restate EnhanceError.filter
  · have hhsv := (unsharp_eq_ok_iff.1 (Edit.restate_eq_ok_iff.1 hsharpened)).2.1
    exact (Image.toRgb_refuses.refusedAt_none (by simp [hhsv])).restate EnhanceError.color

theorem space_of_enhance {a b : Image} {u : Unit} (h : enhance a = .ok u b) : b.space = .rgb := by
  simp only [enhance, Edit.bind_eq_ok_iff, Edit.restate_eq_ok_iff, Edit.update_eq_ok_iff] at h
  obtain ⟨_, _, _, _, _, _, _, _, _, hlast⟩ := h
  exact Image.space_of_toRgb hlast

end Acutance
