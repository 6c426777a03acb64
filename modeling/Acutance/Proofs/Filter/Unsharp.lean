import Acutance.Filter.Unsharp
import Acutance.Proofs.Edit
import Acutance.Proofs.Filter.Columns
import Acutance.Proofs.Raster

namespace Acutance

namespace Plane

variable {k : Kernel} {p q target : Plane}

theorem expectExtent_eq_ok_iff {e : Extent} {u : Unit} :
    p.expectExtent e = .ok u ↔ p.extent = e := by
  unfold expectExtent
  split <;> simp_all

/-- The row pass fills its target when no place faults. What the target held before is lost. -/
theorem smoothRows_eq_ok_iff : p.smoothRows k target = .ok q ↔ target.extent = p.extent ∧
    q.extent = p.extent ∧ ∀ x y, p.extent.Contains x y → k.smooth p x y = .ok (q.sample x y) := by
  rw [smoothRows, bind_eq_ok_iff]
  simp only [Run.restate_eq_ok_iff, Run.ofExcept_eq_ok_iff, Run.ofChecked_eq_ok_iff,
    expectExtent_eq_ok_iff, fillM_eq_ok_iff]
  constructor
  · rintro ⟨_, htarget, hextent, hsmooth⟩
    rw [htarget] at hextent hsmooth
    exact ⟨htarget, hextent, hsmooth⟩
  · rintro ⟨htarget, hextent, hsmooth⟩
    refine ⟨(), htarget, ?_⟩
    rw [htarget]
    exact ⟨hextent, hsmooth⟩

/-- Blending has a value when the scale is positive, the extents agree and no place faults. -/
theorem sharpen_eq_ok_iff {mask : Plane} {b : Blend} : p.sharpen mask b = .ok q ↔
    0 < b.scale.toInt ∧ mask.extent = p.extent ∧ q.extent = p.extent ∧
      ∀ x y, p.extent.Contains x y →
        b.apply (p.sample x y) (mask.sample x y) = .ok (q.sample x y) := by
  by_cases hscale : b.scale.toInt ≤ 0
  · have hfail : p.sharpen mask b = .error (.error (.scale b.scale)) := by
      rw [sharpen, if_pos hscale]
      rfl
    rw [hfail]
    constructor
    · intro h
      cases h
    · rintro ⟨hpos, -⟩
      omega
  · have hgo : p.sharpen mask b = (Run.restate .raster (Run.ofExcept (mask.expectExtent p.extent))
        >>= fun _ => Run.ofChecked
          (p.fillM fun x y => b.apply (p.sample x y) (mask.sample x y))) := by
      rw [sharpen, if_neg hscale]
    rw [hgo, bind_eq_ok_iff]
    simp only [Run.restate_eq_ok_iff, Run.ofExcept_eq_ok_iff, Run.ofChecked_eq_ok_iff,
      expectExtent_eq_ok_iff, fillM_eq_ok_iff]
    constructor
    · rintro ⟨_, hmask, hrest⟩
      exact ⟨by omega, hmask, hrest⟩
    · rintro ⟨_, hmask, hrest⟩
      exact ⟨(), hmask, hrest⟩

end Plane

/-- The planes that a channel passes through: its smoothed rows, the detail that the columns of
those leave, and the channel with the detail blended in. -/
structure Kernel.Stages (k : Kernel) (b : Blend) (source : Plane) where
  smoothed : Plane
  detail : Plane
  sharpened : Plane
  smoothed_eq : source.smoothRows k source = .ok smoothed
  detail_eq : smoothed.detailColumns k.highpass = .ok detail
  sharpened_eq : source.sharpen detail b = .ok sharpened

namespace Kernel.Stages

variable {k : Kernel} {b : Blend} {source : Plane}

theorem smoothed_extent (s : k.Stages b source) : s.smoothed.extent = source.extent :=
  (Plane.smoothRows_eq_ok_iff.1 s.smoothed_eq).2.1

theorem detail_extent (s : k.Stages b source) : s.detail.extent = source.extent :=
  (Plane.detailColumns_eq_ok_iff.1 s.detail_eq).1.trans s.smoothed_extent

theorem sharpened_extent (s : k.Stages b source) : s.sharpened.extent = source.extent :=
  (Plane.sharpen_eq_ok_iff.1 s.sharpened_eq).2.2.1

theorem smooth_eq (s : k.Stages b source) {x y : Nat} (hin : source.extent.Contains x y) :
    k.smooth source x y = .ok (s.smoothed.sample x y) :=
  (Plane.smoothRows_eq_ok_iff.1 s.smoothed_eq).2.2 x y hin

theorem highpass_detail_eq (s : k.Stages b source) {x y : Nat}
    (hin : source.extent.Contains x y) :
    k.highpass.detail s.smoothed x y = .ok (s.detail.sample x y) :=
  (Plane.detailColumns_eq_ok_iff.1 s.detail_eq).2 x y (by rw [s.smoothed_extent]; exact hin)

/-- The stages of a channel are determined by the plane that it starts from. -/
instance : Subsingleton (k.Stages b source) where
  allEq s t := by
    obtain ⟨smoothed, detail, sharpened, hsmoothed, hdetail, hsharpened⟩ := s
    obtain ⟨smoothed', detail', sharpened', hsmoothed', hdetail', hsharpened'⟩ := t
    obtain rfl := Except.ok.inj (hsmoothed.symm.trans hsmoothed')
    obtain rfl := Except.ok.inj (hdetail.symm.trans hdetail')
    obtain rfl := Except.ok.inj (hsharpened.symm.trans hsharpened')
    rfl

theorem apply_eq (s : k.Stages b source) {x y : Nat} (hin : source.extent.Contains x y) :
    b.apply (source.sample x y) (s.detail.sample x y) = .ok (s.sharpened.sample x y) :=
  (Plane.sharpen_eq_ok_iff.1 s.sharpened_eq).2.2.2 x y hin

end Kernel.Stages

/-- The engine's plane is overwritten as a whole, and its kernel stays. -/
theorem Engine.build_eq_ok_iff {source : Plane} {engine engine' : Engine} {u : Unit} :
    Engine.build source engine = .ok u engine' ↔ engine.mask.extent = source.extent ∧
      engine'.kernel = engine.kernel ∧ ∃ smoothed,
        source.smoothRows engine.kernel source = .ok smoothed ∧
          smoothed.detailColumns engine.kernel.highpass = .ok engine'.mask := by
  obtain ⟨k, mask⟩ := engine
  obtain ⟨k', mask'⟩ := engine'
  simp only [build, Edit.bind_eq_ok_iff, Edit.update_eq_ok_iff, bind_eq_ok_iff,
    Run.ofChecked_eq_ok_iff, Plane.smoothRows_eq_ok_iff]
  constructor
  · rintro ⟨_, _, ⟨rows, ⟨hmask, hrows⟩, hengine⟩, detail, hdetail, hend⟩
    obtain rfl := Except.ok.inj hengine
    obtain ⟨rfl, rfl⟩ := Engine.mk.inj (Except.ok.inj hend)
    exact ⟨hmask, rfl, rows, ⟨trivial, hrows⟩, hdetail⟩
  · rintro ⟨hmask, rfl, rows, ⟨_, hrows⟩, hdetail⟩
    exact ⟨(), ⟨_, rows⟩, ⟨rows, ⟨hmask, hrows⟩, rfl⟩, mask', hdetail, rfl⟩

section Channels

variable {c : Channel} {image image' : Image} {engine engine' : Engine} {u : Unit}

/-- One channel is sharpened when it passes through its stages with an engine of the same extent. -/
theorem unsharpChannel_eq_ok_iff :
    unsharpChannel c (image, engine) = .ok u (image', engine') ↔ image.space = .hsv ∧
      engine.mask.extent = image.extent ∧
        ∃ s : engine.kernel.Stages (Blend.ofChannel c) (image.channel c),
          engine' = ⟨engine.kernel, s.detail⟩ ∧ image.setChannel c s.sharpened = .ok image' := by
  simp only [unsharpChannel, Edit.bind_eq_ok_iff, Edit.get_eq_ok_iff, Edit.lift_eq_ok_iff,
    Edit.on_eq_ok_iff, Edit.update_eq_ok_iff, bind_eq_ok_iff, Run.restate_eq_ok_iff,
    Run.ofExcept_eq_ok_iff, Image.expectSpace_eq_ok_iff, Engine.build_eq_ok_iff]
  constructor
  · rintro ⟨_, _, ⟨rfl, rfl⟩, _, _, ⟨hspace, rfl⟩, _, _,
      ⟨built, ⟨hmask, hkernel, rows, hrows, hdetail⟩, rfl⟩, _, _, ⟨rfl, rfl⟩,
      sharpened, _, ⟨hsharpen, rfl⟩, replaced, hset, hend⟩
    obtain ⟨rfl, rfl⟩ := Prod.mk.inj (Except.ok.inj hend)
    exact ⟨hspace, hmask, ⟨rows, built.mask, sharpened, hrows, hdetail, hsharpen⟩,
      congrArg (Engine.mk · built.mask) hkernel, hset⟩
  · rintro ⟨hspace, hmask, s, rfl, hset⟩
    exact ⟨(image, engine), _, ⟨rfl, rfl⟩, (), _, ⟨hspace, rfl⟩, (), _,
      ⟨⟨engine.kernel, s.detail⟩, ⟨hmask, rfl, s.smoothed, s.smoothed_eq, s.detail_eq⟩, rfl⟩,
      _, _, ⟨rfl, rfl⟩, s.sharpened, _, ⟨s.sharpened_eq, rfl⟩, image', hset, rfl⟩

theorem unsharpChannel_replaced
    (h : unsharpChannel c (image, engine) = .ok u (image', engine')) :
    engine'.kernel = engine.kernel ∧ engine'.mask.extent = image'.extent ∧
      ∃ s : engine.kernel.Stages (Blend.ofChannel c) (image.channel c),
        image.Replaced c s.sharpened image' := by
  obtain ⟨_, _, s, rfl, hset⟩ := unsharpChannel_eq_ok_iff.1 h
  have hreplaced := Image.replaced_of_setChannel hset
  exact ⟨rfl, s.detail_extent.trans hreplaced.extent_eq.symm, s, hreplaced⟩

private theorem exists_unsharpChannel (hspace : image.space = .hsv)
    (hmask : engine.mask.extent = image.extent)
    (s : engine.kernel.Stages (Blend.ofChannel c) (image.channel c)) :
    ∃ next, unsharpChannel c (image, engine) = .ok () next := by
  obtain ⟨image', hset⟩ := Image.exists_replaced (a := image) (c := c) s.sharpened_extent
  exact ⟨(image', ⟨engine.kernel, s.detail⟩),
    unsharpChannel_eq_ok_iff.2 ⟨hspace, hmask, s, rfl, hset⟩⟩

/-- Some channels of an image have passed through their stages, and nothing else has changed. -/
structure SharpenedIn (k : Kernel) (channels : List Channel) (a b : Image) : Prop where
  extent_eq : b.extent = a.extent
  space_eq : b.space = a.space
  sharpened : ∀ c ∈ channels,
    ∃ s : k.Stages (Blend.ofChannel c) (a.channel c), s.sharpened = b.channel c
  others : ∀ c, c ∉ channels → b.channel c = a.channel c

end Channels

private theorem Channel.mem_all (c : Channel) : c ∈ Channel.all := by
  cases c <;> decide

/-- Edits that sharpen one channel of an image each, with an aid that is fit for images of an extent.
Their outcome is that of the channel's stages, and leaves the aid fit for the next one. -/
structure SharpensEach {τ : Type} (k : Kernel) (fit : Extent → τ → Prop)
    (act : Channel → Edit (Image × τ) FilterError Unit) : Prop where
  replaced : ∀ {c image aid u image' aid'}, fit image.extent aid →
    act c (image, aid) = .ok u (image', aid') → image.space = .hsv ∧ fit image'.extent aid' ∧
      ∃ s : k.Stages (Blend.ofChannel c) (image.channel c), image.Replaced c s.sharpened image'
  exists_next : ∀ {c image aid}, fit image.extent aid → image.space = .hsv →
    k.Stages (Blend.ofChannel c) (image.channel c) → ∃ next, act c (image, aid) = .ok () next

theorem unsharpChannel_sharpensEach (k : Kernel) :
    SharpensEach k (fun e engine => engine.kernel = k ∧ engine.mask.extent = e) unsharpChannel where
  replaced := by
    rintro c image engine u image' engine' ⟨rfl, -⟩ h
    obtain ⟨hkernel, hmask, s, hset⟩ := unsharpChannel_replaced h
    exact ⟨(unsharpChannel_eq_ok_iff.1 h).1, ⟨hkernel, hmask⟩, s, hset⟩
  exists_next := by
    rintro c image engine ⟨rfl, hmask⟩ hspace s
    exact exists_unsharpChannel hspace hmask s

namespace SharpensEach

variable {τ : Type} {k : Kernel} {fit : Extent → τ → Prop}
  {act : Channel → Edit (Image × τ) FilterError Unit} {channels : List Channel}
  {image image' : Image} {aid aid' : τ} {u : Unit}

/-- Distinct channels that are sharpened one after the other do not meet. -/
theorem forM_sharpenedIn (h : SharpensEach k fit act) (hfit : fit image.extent aid)
    (hnodup : channels.Nodup) (hrun : channels.forM act (image, aid) = .ok u (image', aid')) :
    SharpenedIn k channels image image' := by
  -- the image and the aid change with every channel, and what is left of the list stays distinct
  induction channels generalizing image aid with
  | nil =>
    obtain ⟨_, hend⟩ := Edit.pure_eq_ok_iff.1 hrun
    obtain ⟨rfl, rfl⟩ := Prod.mk.inj hend
    exact ⟨rfl, rfl, by simp, fun _ _ => rfl⟩
  | cons c channels ih =>
    obtain ⟨hfresh, hnodup⟩ := List.nodup_cons.1 hnodup
    obtain ⟨_, ⟨next, aid₁⟩, hfirst, hrest⟩ := Edit.bind_eq_ok_iff.1 hrun
    obtain ⟨-, hfit₁, s, hset⟩ := h.replaced hfit hfirst
    have hlater := ih hfit₁ hnodup hrest
    refine ⟨hlater.extent_eq.trans hset.extent_eq, hlater.space_eq.trans hset.space_eq, ?_, ?_⟩
    · intro d hd
      rcases List.mem_cons.1 hd with rfl | hmem
      · exact ⟨s, by rw [hlater.others d hfresh, hset.channel_eq]⟩
      · have hne : d ≠ c := fun heq => hfresh (heq ▸ hmem)
        rw [← hset.others_eq d hne]
        exact hlater.sharpened d hmem
    · intro d hd
      simp only [List.mem_cons, not_or] at hd
      obtain ⟨hne, hmem⟩ := hd
      rw [hlater.others d hmem, hset.others_eq d hne]

private theorem exists_forM (h : SharpensEach k fit act) (hfit : fit image.extent aid)
    (hnodup : channels.Nodup) (hspace : image.space = .hsv)
    (hstages : ∀ c ∈ channels, Nonempty (k.Stages (Blend.ofChannel c) (image.channel c))) :
    ∃ next, channels.forM act (image, aid) = .ok () next := by
  induction channels generalizing image aid with
  | nil => exact ⟨_, rfl⟩
  | cons c channels ih =>
    obtain ⟨hfresh, hnodup⟩ := List.nodup_cons.1 hnodup
    obtain ⟨s⟩ := hstages c (by simp)
    obtain ⟨⟨next, aid₁⟩, hfirst⟩ := h.exists_next hfit hspace s
    obtain ⟨-, hfit₁, _, hset⟩ := h.replaced hfit hfirst
    have hlater : ∀ d ∈ channels, Nonempty (k.Stages (Blend.ofChannel d) (next.channel d)) := by
      intro d hd
      have hne : d ≠ c := fun heq => hfresh (heq ▸ hd)
      rw [hset.others_eq d hne]
      exact hstages d (by simp [hd])
    obtain ⟨last, hrest⟩ := ih hfit₁ hnodup (hset.space_eq.trans hspace) hlater
    exact ⟨last, Edit.bind_eq_ok_iff.2 ⟨(), _, hfirst, hrest⟩⟩

/-- All channels, in some order, are sharpened when each passes through its stages. Neither the order
nor the aid has any part in the outcome. -/
theorem forM_eq_ok_iff (h : SharpensEach k fit act) (hfit : fit image.extent aid)
    (hall : channels.Perm Channel.all) :
    (∃ aid', channels.forM act (image, aid) = .ok u (image', aid')) ↔
      image.space = .hsv ∧ image'.space = .hsv ∧ image'.extent = image.extent ∧
        ∀ c, ∃ s : k.Stages (Blend.ofChannel c) (image.channel c),
          s.sharpened = image'.channel c := by
  have hnodup : channels.Nodup := hall.nodup_iff.2 (by decide)
  have hmem : ∀ c, c ∈ channels := fun c => hall.mem_iff.2 (Channel.mem_all c)
  constructor
  · rintro ⟨aid', hrun⟩
    have hsharpened := h.forM_sharpenedIn hfit hnodup hrun
    have hspace : image.space = .hsv := by
      cases channels with
      | nil => exact absurd (hmem .first) List.not_mem_nil
      | cons c channels =>
        obtain ⟨_, ⟨next, aid₁⟩, hfirst, -⟩ := Edit.bind_eq_ok_iff.1 hrun
        exact (h.replaced hfit hfirst).1
    exact ⟨hspace, hsharpened.space_eq.trans hspace, hsharpened.extent_eq,
      fun c => hsharpened.sharpened c (hmem c)⟩
  · rintro ⟨hspace, hspace', hextent, hstages⟩
    obtain ⟨⟨last, aid'⟩, hrun⟩ := h.exists_forM hfit hnodup hspace
      fun c _ => ⟨(hstages c).choose⟩
    have hsharpened := h.forM_sharpenedIn hfit hnodup hrun
    -- the run has some outcome, which the stages determine
    have heq : last = image' := by
      refine Image.ext_channel (hsharpened.extent_eq.trans hextent.symm)
        ((hsharpened.space_eq.trans hspace).trans hspace'.symm) fun c => ?_
      obtain ⟨s, hs⟩ := hsharpened.sharpened c (hmem c)
      obtain ⟨t, ht⟩ := hstages c
      rw [← hs, ← ht, Subsingleton.elim s t]
    subst heq
    exact ⟨aid', hrun⟩

end SharpensEach

theorem Engine.ofExtent_eq_ok_iff {k : Kernel} {e : Extent} {engine : Engine} :
    Engine.ofExtent k e = .ok engine ↔
      ∃ mask, Plane.zeros e = .ok mask ∧ engine = ⟨k, mask⟩ := by
  rw [ofExtent, bind_eq_ok_iff]
  simp only [Run.restate_eq_ok_iff]
  constructor
  · rintro ⟨mask, hzeros, hengine⟩
    exact ⟨mask, hzeros, (Except.ok.inj hengine).symm⟩
  · rintro ⟨mask, hzeros, rfl⟩
    exact ⟨mask, hzeros, rfl⟩

/-- An image is sharpened when it is in hue, saturation and value and each channel passes through
its stages. The outcome holds the last of these, and keeps the extent and the color space. -/
theorem unsharp_eq_ok_iff {k : Kernel} {a b : Image} {u : Unit} :
    unsharp k a = .ok u b ↔ a.space = .hsv ∧ b.space = .hsv ∧ b.extent = a.extent ∧
      ∀ c, ∃ s : k.Stages (Blend.ofChannel c) (a.channel c), s.sharpened = b.channel c := by
  simp only [unsharp, Edit.bind_eq_ok_iff, Edit.get_eq_ok_iff, Edit.lift_eq_ok_iff,
    Edit.lending_eq_ok_iff, Run.restate_eq_ok_iff, Run.ofExcept_eq_ok_iff,
    Image.expectSpace_eq_ok_iff, Engine.ofExtent_eq_ok_iff]
  obtain ⟨mask, hzeros, hmask⟩ := Plane.exists_zeros a.accepted
  have hrun : (∃ engine, Channel.all.forM unsharpChannel (a, ⟨k, mask⟩) = .ok u (b, engine)) ↔
      a.space = .hsv ∧ b.space = .hsv ∧ b.extent = a.extent ∧
        ∀ c, ∃ s : k.Stages (Blend.ofChannel c) (a.channel c), s.sharpened = b.channel c :=
    (unsharpChannel_sharpensEach k).forM_eq_ok_iff ⟨rfl, hmask⟩ (List.Perm.refl Channel.all)
  constructor
  · rintro ⟨_, _, ⟨rfl, rfl⟩, _, _, ⟨-, rfl⟩, _, _, ⟨⟨mask', hzeros', rfl⟩, rfl⟩, hend⟩
    obtain rfl := Except.ok.inj (hzeros.symm.trans hzeros')
    exact hrun.1 hend
  · intro hstages
    obtain ⟨engine, hend⟩ := hrun.2 hstages
    exact ⟨a, a, ⟨rfl, rfl⟩, (), a, ⟨hstages.1, rfl⟩, _, a, ⟨⟨mask, hzeros, rfl⟩, rfl⟩, engine, hend⟩

/-- The stages of all channels are all that it takes to sharpen an image. -/
theorem exists_unsharp {k : Kernel} {a : Image} (hspace : a.space = .hsv)
    (stages : ∀ c, k.Stages (Blend.ofChannel c) (a.channel c)) :
    ∃ b, unsharp k a = .ok () b ∧ b.extent = a.extent ∧ b.space = .hsv ∧
      ∀ c, b.channel c = (stages c).sharpened := by
  obtain ⟨b, hextent, hspace', hchannel⟩ := a.exists_channels .hsv
    (fun c => (stages c).sharpened) fun c => (stages c).sharpened_extent
  exact ⟨b, unsharp_eq_ok_iff.2 ⟨hspace, hspace', hextent, fun c => ⟨stages c, (hchannel c).symm⟩⟩,
    hextent, hspace', hchannel⟩

end Acutance
