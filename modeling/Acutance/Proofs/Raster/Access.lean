import Acutance.Proofs.Buffer.Image
import Acutance.Proofs.Raster

namespace Acutance

private theorem Pixel.set_get_self (p : Pixel) (c : Channel) : p.set c (p.get c) = p := by
  cases c <;> rfl

namespace Image

variable {a b base : Image} {c d : Channel} {p q : Plane}

private theorem get?_channel (image : Image) (c : Channel) (x y : Nat) :
    (image.channel c).get? x y = (image.get? x y).map fun pixel => pixel.get c := by
  by_cases hin : image.extent.Contains x y
  · have hplane : (image.channel c).extent.Contains x y := hin
    rw [get?_eq_some_pixel hin, Option.map_some, Plane.get?_eq_some_sample hplane, sample_channel]
  · have hplane : ¬ (image.channel c).extent.Contains x y := hin
    rw [get?, if_neg hin, Plane.get?, if_neg hplane, Option.map_none]

private theorem Replaced.channel (h : a.Replaced c p b) (d : Channel) :
    b.channel d = if d = c then p else a.channel d := by
  by_cases hd : d = c
  · rw [if_pos hd, hd, h.channel_eq]
  · rw [if_neg hd, h.others_eq d hd]

private theorem exists_setChannel (hp : p.extent = a.extent) :
    ∃ b, a.setChannel c p = .ok b ∧ a.Replaced c p b := by
  obtain ⟨b, hb⟩ : ∃ b, a.setChannel c p = .ok b := exists_replaced hp
  exact ⟨b, hb, replaced_of_setChannel hb⟩

/-- A channel that is replaced by itself stays what it is. -/
theorem setChannel_channel (image : Image) (c : Channel) :
    image.setChannel c (image.channel c) = .ok image := by
  refine setChannel_eq_ok_iff.2 ⟨rfl, rfl, rfl, fun x y _ => ?_⟩
  rw [sample_channel, Pixel.set_get_self]

/-- Two channels are replaced one after the other. If they are the same one, the second plane is left. -/
theorem exists_setChannel_setChannel (c d : Channel) (hp : p.extent = a.extent)
    (hq : q.extent = a.extent) :
    ∃ b, (a.setChannel c p >>= fun first => first.setChannel d q) = .ok b ∧ b.extent = a.extent ∧
      b.space = a.space ∧ ∀ e, b.channel e = if e = d then q else if e = c then p else a.channel e := by
  obtain ⟨first, hfirst, h⟩ : ∃ first, a.setChannel c p = .ok first ∧ a.Replaced c p first :=
    exists_setChannel hp
  obtain ⟨b, hb, h'⟩ : ∃ b, first.setChannel d q = .ok b ∧ first.Replaced d q b :=
    exists_setChannel (hq.trans h.extent_eq.symm)
  refine ⟨b, bind_eq_ok_iff.2 ⟨first, hfirst, hb⟩, h'.extent_eq.trans h.extent_eq,
    h'.space_eq.trans h.space_eq, fun e => ?_⟩
  rw [h'.channel, h.channel]

private theorem setChannel_comm (hne : c ≠ d) (hp : p.extent = a.extent) (hq : q.extent = a.extent) :
    (a.setChannel c p >>= fun b => b.setChannel d q) =
      a.setChannel d q >>= fun b => b.setChannel c p := by
  obtain ⟨b, hb, hextent, hspace, hchannel⟩ := exists_setChannel_setChannel c d hp hq
  obtain ⟨b', hb', hextent', hspace', hchannel'⟩ := exists_setChannel_setChannel d c hq hp
  rw [hb, hb']
  refine congrArg Except.ok (ext_channel (hextent.trans hextent'.symm) (hspace.trans hspace'.symm)
    fun e => ?_)
  rw [hchannel, hchannel']
  by_cases hd : e = d
  · have hc : e ≠ c := fun h => hne (h.symm.trans hd)
    rw [if_pos hd, if_neg hc, if_pos hd]
  · rw [if_neg hd, if_neg hd]

private theorem setChannel_setChannel (hp : p.extent = a.extent) (hq : q.extent = a.extent) :
    (a.setChannel c p >>= fun b => b.setChannel c q) = a.setChannel c q := by
  obtain ⟨b, hb, hextent, hspace, hchannel⟩ := exists_setChannel_setChannel c c hp hq
  obtain ⟨b', hb', h'⟩ : ∃ b', a.setChannel c q = .ok b' ∧ a.Replaced c q b' := exists_setChannel hq
  rw [hb, hb']
  refine congrArg Except.ok (ext_channel (hextent.trans h'.extent_eq.symm)
    (hspace.trans h'.space_eq.symm) fun e => ?_)
  rw [hchannel, h'.channel]
  by_cases hc : e = c
  · rw [if_pos hc, if_pos hc]
  · rw [if_neg hc, if_neg hc, if_neg hc]

/-- Channels that are taken over from another image, in any order and any number of times. -/
theorem exists_foldlM_setChannel (image : Image) (order : List Channel)
    (hextent : base.extent = image.extent) :
    ∃ b, order.foldlM (fun b c => b.setChannel c (image.channel c)) base = .ok b ∧
      b.extent = base.extent ∧ b.space = base.space ∧
        ∀ e, b.channel e = if e ∈ order then image.channel e else base.channel e := by
  induction order generalizing base with
  | nil => exact ⟨base, rfl, rfl, rfl, fun e => (if_neg List.not_mem_nil).symm⟩
  | cons c order ih =>
    obtain ⟨first, hfirst, h⟩ : ∃ first, base.setChannel c (image.channel c) = .ok first ∧
        base.Replaced c (image.channel c) first := exists_setChannel hextent.symm
    obtain ⟨b, hb, hextent', hspace', hchannel⟩ := ih (h.extent_eq.trans hextent)
    refine ⟨b, ?_, hextent'.trans h.extent_eq, hspace'.trans h.space_eq, fun e => ?_⟩
    · rw [List.foldlM_cons, hfirst]
      exact hb
    · rw [hchannel, h.channel]
      by_cases he : e = c
      · rw [if_pos he, if_pos (List.mem_cons.2 (.inl he)), he, ite_self]
      · rw [if_neg he]
        simp only [List.mem_cons, he, false_or]

/-- An image is put together again from its channels, when none is left out. -/
theorem foldlM_setChannel (image : Image) {order : List Channel} (hall : ∀ c, c ∈ order)
    (hextent : base.extent = image.extent) (hspace : base.space = image.space) :
    order.foldlM (fun b c => b.setChannel c (image.channel c)) base = .ok image := by
  obtain ⟨b, hb, hextent', hspace', hchannel⟩ := exists_foldlM_setChannel image order hextent
  rw [hb, ext_channel (hextent'.trans hextent) (hspace'.trans hspace) fun c => ?_]
  rw [hchannel, if_pos (hall c)]

/-- A pixel is replaced, and nothing else. -/
theorem exists_set {x y : Nat} (hin : a.extent.Contains x y) (pixel : Pixel) :
    ∃ b, a.set x y pixel = .ok b ∧ b.extent = a.extent ∧ b.space = a.space ∧
      b.get? x y = some pixel ∧ ∀ x' y', ¬ (x' = x ∧ y' = y) → b.get? x' y' = a.get? x' y' := by
  obtain ⟨b, hb⟩ : ∃ b, a.set x y pixel = .ok b := ⟨_, dif_pos hin⟩
  obtain ⟨-, hextent, hspace, hpixel⟩ := set_eq_ok_iff.1 hb
  refine ⟨b, hb, hextent, hspace, ?_, fun x' y' hother => ?_⟩
  · rw [get?_eq_some_pixel (hextent ▸ hin), hpixel x y hin, if_pos ⟨rfl, rfl⟩]
  · by_cases hin' : a.extent.Contains x' y'
    · rw [get?_eq_some_pixel (hextent ▸ hin'), get?_eq_some_pixel hin', hpixel x' y' hin', if_neg hother]
    · have hout : ¬ b.extent.Contains x' y' := hextent ▸ hin'
      rw [get?, if_neg hout, get?, if_neg hin']

/-- Where the samples of an image lie in a row, they are read and written by their offsets, three at a time,
with the outcome that the image has. -/
structure InRow (image : Image) : Prop where
  pixel_eq : ∀ x y,
    (image.buffer.get? x y : Run (Flaw RasterError) (Option Pixel)) = .ok (image.get? x y)
  pixels_eq : ImageBuffer.chunks image.buffer.data.toList = image.pixels.toList
  channel_eq : ∀ c, image.buffer.channel c = (image.channel c).buffer
  sample_eq : ∀ c x y, ((image.channel c).buffer.get? x y : Run (Flaw RasterError) (Option Sample)) =
    .ok ((image.channel c).get? x y)
  setChannel_eq : ∀ c (p : Plane), image.buffer.setChannel c p.buffer =
    (Run.ofExcept (image.setChannel c p)).laidOut buffer
  set_eq : ∀ x y pixel,
    image.buffer.set x y pixel = (Run.ofExcept (image.set x y pixel)).laidOut buffer

private theorem inRow (image : Image) : image.InRow where
  pixel_eq := image.get?_buffer
  pixels_eq := ImageBuffer.chunks_flatMap image.pixels.toList
  channel_eq := image.channel_buffer
  sample_eq c := (image.channel c).get?_buffer
  setChannel_eq := image.setChannel_buffer
  set_eq := image.set_buffer

/-- The laws of access, for every image. A plane holds the samples of its channel at every place, and the
pixels stand row by row. A channel that is replaced is found again, the others are as before, and nothing
changes when a channel is replaced by itself. Distinct channels can be replaced in either order, and of two
planes for one channel the later one is left. A pixel that is set is found again, and every other place is
as before. An image is put together again from its channels, in any order and on top of any image of its
extent and color space. All of this is so where the samples lie in a row. -/
theorem access_laws (image : Image) :
    (∀ c x y, (image.channel c).get? x y = (image.get? x y).map fun pixel => pixel.get c) ∧
    image.pixels.toList = ((List.range image.extent.height).flatMap fun y =>
      (List.range image.extent.width).map fun x => image.pixel x y) ∧
    (∀ c (p : Plane), p.extent = image.extent →
      ∃ b, image.setChannel c p = .ok b ∧ image.Replaced c p b) ∧
    (∀ c, image.setChannel c (image.channel c) = .ok image) ∧
    (∀ c d (p q : Plane), c ≠ d → p.extent = image.extent → q.extent = image.extent →
      (image.setChannel c p >>= fun b => b.setChannel d q) =
        image.setChannel d q >>= fun b => b.setChannel c p) ∧
    (∀ c (p q : Plane), p.extent = image.extent → q.extent = image.extent →
      (image.setChannel c p >>= fun b => b.setChannel c q) = image.setChannel c q) ∧
    (∀ x y pixel, image.extent.Contains x y → ∃ b, image.set x y pixel = .ok b ∧
      b.extent = image.extent ∧ b.space = image.space ∧ b.get? x y = some pixel ∧
        ∀ x' y', ¬ (x' = x ∧ y' = y) → b.get? x' y' = image.get? x' y') ∧
    (∀ (order : List Channel) (base : Image), (∀ c, c ∈ order) → base.extent = image.extent →
      base.space = image.space →
        order.foldlM (fun b c => b.setChannel c (image.channel c)) base = .ok image) ∧
    image.InRow :=
  ⟨image.get?_channel, image.toList_pixels_eq_rows, fun _ _ => exists_setChannel,
    image.setChannel_channel, fun _ _ _ _ => setChannel_comm, fun _ _ _ => setChannel_setChannel,
    fun _ _ pixel hin => exists_set hin pixel, fun _ _ => foldlM_setChannel image, image.inRow⟩

/-- An image with more rows than columns, whose samples are all different. -/
def tiles : Image where
  extent := ⟨2, 3⟩
  space := .hsv
  pixels := Extent.tabulate ⟨2, 3⟩ fun x y =>
    ⟨narrow (10 * y + x), narrow (10 * y + x + 100), narrow (10 * y + x + 200)⟩
  accepted := by decide

theorem access_laws_tiles :
    (tiles.channel .third).get? 1 2 = some 221 ∧
    (∃ b, tiles.setChannel .second (tiles.channel .third) = .ok b ∧
      (b.channel .second).get? 1 2 = some 221 ∧ b.channel .third = tiles.channel .third) ∧
    (tiles.setChannel .first (tiles.channel .third) >>= fun b =>
      b.setChannel .third (tiles.channel .first)) =
        (tiles.setChannel .third (tiles.channel .first) >>= fun b =>
          b.setChannel .first (tiles.channel .third)) ∧
    (∃ b, tiles.set 1 2 (.gray 7) = .ok b ∧ b.get? 1 2 = some (.gray 7) ∧ b.get? 0 2 = tiles.get? 0 2) ∧
    [Channel.third, .first, .second].foldlM (fun b c => b.setChannel c (tiles.channel c))
      { tiles with pixels := Vector.replicate _ default } = .ok tiles := by
  obtain ⟨hchannel, -, hreplace, -, hcomm, -, hset, hall, -⟩ := access_laws tiles
  have hcorner : (tiles.channel .third).get? 1 2 = some 221 :=
    (hchannel .third 1 2).trans (by decide +kernel)
  obtain ⟨b, hb, hreplaced⟩ := hreplace .second (tiles.channel .third) rfl
  obtain ⟨b', hb', -, -, hpixel, hothers⟩ := hset 1 2 (.gray 7) ⟨by decide, by decide⟩
  refine ⟨hcorner, ⟨b, hb, ?_, hreplaced.others_eq .third (by decide)⟩,
    hcomm .first .third _ _ (by decide) rfl rfl, ⟨b', hb', hpixel, hothers 0 2 (by decide)⟩,
    hall _ _ (fun c => by cases c <;> decide) rfl rfl⟩
  rw [hreplaced.channel_eq]
  exact hcorner

end Image

end Acutance
