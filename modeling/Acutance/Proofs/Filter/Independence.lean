import Mathlib.Logic.Function.Basic
import Acutance.Proofs.Filter.Unsharp

namespace Acutance

section Pools

variable {ι : Type} [DecidableEq ι]

/-- Sharpens one channel with the engine that is picked for it out of a pool. -/
def unsharpPicked (pick : Channel → ι) (c : Channel) :
    Edit (Image × (ι → Engine)) FilterError Unit :=
  Edit.on (fun (image, engines) => (image, engines (pick c)))
    (fun (image, engine) (_, engines) => (image, Function.update engines (pick c) engine))
    (unsharpChannel c)

/-- The engines that are picked out of a pool have the kernel, and are for images of the extent. -/
def PoolFits (k : Kernel) (pick : Channel → ι) (e : Extent) (engines : ι → Engine) : Prop :=
  ∀ c, (engines (pick c)).kernel = k ∧ (engines (pick c)).mask.extent = e

private theorem PoolFits.update {k : Kernel} {pick : Channel → ι} {e : Extent} {engines : ι → Engine}
    {engine : Engine} (h : PoolFits k pick e engines) (hkernel : engine.kernel = k)
    (hmask : engine.mask.extent = e) (c : Channel) :
    PoolFits k pick e (Function.update engines (pick c) engine) := by
  intro d
  by_cases hshared : pick d = pick c
  · rw [hshared, Function.update_self]
    exact ⟨hkernel, hmask⟩
  · rw [Function.update_of_ne hshared]
    exact h d

private theorem unsharpPicked_sharpensEach (k : Kernel) (pick : Channel → ι) :
    SharpensEach k (PoolFits k pick) (unsharpPicked pick) where
  replaced := by
    intro c image engines u image' engines' hfit h
    obtain ⟨⟨next, engine⟩, hrun, hend⟩ := Edit.on_eq_ok_iff.1 h
    obtain ⟨rfl, rfl⟩ := Prod.mk.inj hend
    obtain ⟨hspace, ⟨hkernel, hmask⟩, s, hset⟩ :=
      (unsharpChannel_sharpensEach k).replaced (hfit c) hrun
    have hstay : PoolFits k pick image'.extent engines := by
      rw [hset.extent_eq]
      exact hfit
    exact ⟨hspace, hstay.update hkernel hmask c, s, hset⟩
  exists_next := by
    intro c image engines hfit hspace s
    obtain ⟨next, hrun⟩ := (unsharpChannel_sharpensEach k).exists_next (hfit c) hspace s
    exact ⟨_, Edit.on_eq_ok_iff.2 ⟨next, hrun, rfl⟩⟩

end Pools

/-- Images in which the sharpening of a channel finds the same. -/
structure SameFor (c : Channel) (a b : Image) : Prop where
  space_eq : b.space = a.space
  extent_eq : b.extent = a.extent
  channel_eq : b.channel c = a.channel c

/-- The sharpening of a channel goes the same way from the same channel, and leaves the same detail in
its engine. -/
theorem SameFor.exists_unsharpChannel {c : Channel} {a b a' : Image} {engine rival engine' : Engine}
    {u : Unit} (h : SameFor c a b) (hkernel : rival.kernel = engine.kernel)
    (hmask : rival.mask.extent = engine.mask.extent)
    (hrun : unsharpChannel c (a, engine) = .ok u (a', engine')) :
    ∃ b', unsharpChannel c (b, rival) = .ok u (b', engine') ∧ b'.channel c = a'.channel c := by
  obtain ⟨hspace, hextent, s, rfl, hset⟩ := unsharpChannel_eq_ok_iff.1 hrun
  obtain ⟨t, hdetail, hsharpened⟩ : ∃ t : rival.kernel.Stages (Blend.ofChannel c) (b.channel c),
      t.detail = s.detail ∧ t.sharpened = s.sharpened := by
    rw [h.channel_eq, hkernel]
    exact ⟨s, rfl, rfl⟩
  obtain ⟨b', hset'⟩ := Image.exists_replaced (a := b) (c := c) t.sharpened_extent
  refine ⟨b', unsharpChannel_eq_ok_iff.2 ⟨h.space_eq.trans hspace, ?_, t, ?_, hset'⟩, ?_⟩
  · rw [hmask, hextent, h.extent_eq]
  · exact congrArg₂ Engine.mk hkernel.symm hdetail.symm
  · rw [(Image.replaced_of_setChannel hset').channel_eq, hsharpened,
      (Image.replaced_of_setChannel hset).channel_eq]

/-- The channels of an image are sharpened apart from each other. Sharpening all of them comes to
sharpening one after the other, in any order and with any choice of engines that have the kernel,
whatever those hold from before. The sharpening of one channel keeps the rest of the image, and its
outcome does not depend on that rest. -/
theorem unsharp_independent (k : Kernel) (image : Image) :
    (∀ (ι : Type) [DecidableEq ι] (pick : Channel → ι) (engines : ι → Engine),
      PoolFits k pick image.extent engines →
      ∀ order : List Channel, order.Perm Channel.all → ∀ out,
        unsharp k image = .ok () out ↔
          ∃ engines', order.forM (unsharpPicked pick) (image, engines) = .ok () (out, engines')) ∧
    ∀ (c : Channel) (engine engine' : Engine) (image' : Image),
      unsharpChannel c (image, engine) = .ok () (image', engine') →
        image'.extent = image.extent ∧ image'.space = image.space ∧
        (∀ d, d ≠ c → image'.channel d = image.channel d) ∧
        ∀ (other : Image) (rival : Engine), SameFor c image other → rival.kernel = engine.kernel →
          rival.mask.extent = engine.mask.extent →
          ∃ other', unsharpChannel c (other, rival) = .ok () (other', engine') ∧
            other'.channel c = image'.channel c := by
  constructor
  · intro ι _ pick engines hfit order hall out
    rw [unsharp_eq_ok_iff, (unsharpPicked_sharpensEach k pick).forM_eq_ok_iff hfit hall]
  · intro c engine engine' image' hrun
    obtain ⟨-, -, s, hset⟩ := unsharpChannel_replaced hrun
    refine ⟨hset.extent_eq, hset.space_eq, hset.others_eq, fun other rival hsame hkernel hmask => ?_⟩
    exact hsame.exists_unsharpChannel hkernel hmask hrun

/-- A kernel that does not read the same from both ends. -/
def Kernel.lopsided : Kernel where
  taps := [1, 5, 2]
  norm := 8
  odd := rfl
  norm_ne_zero := by decide

/-- A bright stripe on an image of one hue. -/
def stripe (hue : Sample) : Image where
  extent := ⟨2, 4⟩
  space := .hsv
  pixels := Extent.tabulate ⟨2, 4⟩ fun _ y => if y = 1 then ⟨hue, 700, 220⟩ else ⟨hue, 300, 60⟩
  accepted := by decide

/-- An engine in which an earlier run has left something. -/
def Engine.smeared (s : Sample) : Engine where
  kernel := .lopsided
  mask := ⟨(stripe 0).extent, (stripe 0).accepted.1, Vector.replicate _ s⟩

theorem unsharp_independent_stripe :
    (∃ out engines', unsharp .lopsided (stripe 230) = .ok () out ∧
      [Channel.third, .first, .second].forM (unsharpPicked id)
        (stripe 230, fun c => .smeared (if c = .first then 77 else 1019)) =
          .ok () (out, engines')) ∧
    ∃ image' engine' other',
      unsharpChannel .second (stripe 230, .smeared 5) = .ok () (image', engine') ∧
      unsharpChannel .second (stripe 40, .smeared 91) = .ok () (other', engine') ∧
      other'.channel .second = image'.channel .second := by
  obtain ⟨out, hout⟩ : ∃ out, unsharp .lopsided (stripe 230) = .ok () out :=
    Edit.exists_of_result (by decide +kernel)
  obtain ⟨⟨image', engine'⟩, hrun⟩ :
      ∃ next, unsharpChannel .second (stripe 230, .smeared 5) = .ok () next :=
    Edit.exists_of_result (by decide +kernel)
  obtain ⟨horder, hchannel⟩ := unsharp_independent .lopsided (stripe 230)
  constructor
  · obtain ⟨engines', hend⟩ := (horder Channel id
      (fun c => .smeared (if c = .first then 77 else 1019)) (fun _ => ⟨rfl, rfl⟩)
      [.third, .first, .second] (by decide) out).1 hout
    exact ⟨out, engines', hout, hend⟩
  · obtain ⟨-, -, -, hother⟩ := hchannel .second (.smeared 5) engine' image' hrun
    obtain ⟨other', hend, hsame⟩ :=
      hother (stripe 40) (.smeared 91) ⟨rfl, rfl, by decide +kernel⟩ rfl rfl
    exact ⟨image', engine', other', hrun, hend, hsame⟩

end Acutance
