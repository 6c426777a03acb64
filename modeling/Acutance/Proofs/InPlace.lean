import Acutance.Proofs.Loop
import Acutance.Proofs.Raster.Samples
import Acutance.Proofs.Refusal

namespace Acutance

section Rewrite

variable {σ ε α : Type} {n : Nat} {size : σ → Nat}

/-- Replaces one entry by what `f` makes of it. -/
def rewriteAt (f : Nat → α → Checked α) (i : Nat) : Edit (Vector α n) ε Unit :=
  Edit.update fun v =>
    if h : i < n then do
      let a ← Run.ofChecked (f i v[i])
      return v.set i a
    else return v

/-- Replaces the entries one after the other. A stop in the middle leaves what has been written by then. -/
def rewrite (f : Nat → α → Checked α) : Edit (Vector α n) ε Unit :=
  (List.range n).forM (rewriteAt f)

private theorem rewriteAt_eq_ok_iff {f : Nat → α → Checked α} {i : Nat} {v w : Vector α n} {u : Unit} :
    (rewriteAt f i : Edit _ ε _) v = .ok u w ↔
      ∀ j (hj : j < n), if j = i then f j v[j] = .ok w[j] else w[j] = v[j] := by
  rw [rewriteAt, Edit.update_eq_ok_iff]
  by_cases hi : i < n
  · rw [dif_pos hi, bind_eq_ok_iff]
    simp only [Run.ofChecked_eq_ok_iff]
    constructor
    · rintro ⟨a, ha, hw⟩ j hj
      obtain rfl := Except.ok.inj hw
      split
      · subst j
        rw [ha, Vector.getElem_set_self]
      · exact Vector.getElem_set_ne hi hj (Ne.symm ‹_›)
    · intro h
      have hwritten := h i hi
      rw [if_pos rfl] at hwritten
      refine ⟨w[i], hwritten, congrArg Except.ok (Vector.ext fun j hj => ?_)⟩
      by_cases hij : j = i
      · subst j
        exact Vector.getElem_set_self hi
      · have hkept := h j hj
        rw [if_neg hij] at hkept
        rw [Vector.getElem_set_ne hi hj (Ne.symm hij), hkept]
  · rw [dif_neg hi]
    constructor
    · rintro h j hj
      obtain rfl := Except.ok.inj h
      rw [if_neg (by omega)]
    · intro h
      refine congrArg Except.ok (Vector.ext fun j hj => ?_)
      have hkept := h j hj
      rw [if_neg (by omega)] at hkept
      exact hkept.symm

private theorem forM_rewriteAt_eq_ok_iff {f : Nat → α → Checked α} {places : List Nat}
    (hnodup : places.Nodup) {v w : Vector α n} {u : Unit} :
    (places.forM (rewriteAt f) : Edit _ ε _) v = .ok u w ↔
      ∀ i (hi : i < n), if i ∈ places then f i v[i] = .ok w[i] else w[i] = v[i] := by
  induction places generalizing v with
  | nil =>
    refine Edit.pure_eq_ok_iff.trans ?_
    constructor
    · rintro ⟨-, rfl⟩ i hi
      simp
    · intro h
      exact ⟨rfl, Vector.ext fun i hi => by simpa using h i hi⟩
  | cons j places ih =>
    obtain ⟨hfresh, hnodup⟩ := List.nodup_cons.1 hnodup
    refine Edit.bind_eq_ok_iff.trans ?_
    simp only [rewriteAt_eq_ok_iff]
    constructor
    · rintro ⟨_, next, hfirst, hrest⟩ i hi
      have h1 := hfirst i hi
      have h2 := (ih hnodup).1 hrest i hi
      by_cases hij : i = j
      · subst hij
        rw [if_neg hfresh] at h2
        simpa [h2] using h1
      · rw [if_neg hij] at h1
        simpa [hij, h1] using h2
    · intro h
      -- behind the first place, the entry there is the last one and all others are the first
      refine ⟨(), .ofFn fun i => if i = j then w[i] else v[i], fun i hi => ?_,
        (ih hnodup).2 fun i hi => ?_⟩
      · have hentry := h i hi
        by_cases hij : i = j
        · simpa [hij] using hentry
        · simp [hij]
      · have hentry := h i hi
        by_cases hij : i = j
        · subst hij
          simp [hfresh]
        · simpa [hij] using hentry

private theorem rewrite_eq_ok_iff {f : Nat → α → Checked α} {v w : Vector α n} {u : Unit} :
    (rewrite f : Edit _ ε _) v = .ok u w ↔ ∀ i (hi : i < n), f i v[i] = .ok w[i] := by
  refine (forM_rewriteAt_eq_ok_iff List.nodup_range).trans ?_
  exact forall₂_congr fun i hi => by rw [if_pos (List.mem_range.2 hi)]

private theorem rewrite_refusedAt (f : Nat → α → Checked α) (v : Vector α n) :
    (rewrite f : Edit _ ε _).RefusedAt v none := by
  refine Edit.RefusedAt.forM (fun i w => Edit.update_refusedAt fun e => ?_) _ v
  split
  · exact Run.bind_pure_ne_error (fun _ => Run.ofChecked_ne_error) _ e
  · simp [pure, Except.pure]

/-- Works on the buffer of a value, which is left as it is when the work stops. -/
def Edit.onBuffer (buffer : (s : σ) → Vector α (size s)) (put : (s : σ) → Vector α (size s) → σ)
    (act : (s : σ) → Edit (Vector α (size s)) ε Unit) : Edit σ ε Unit := fun s =>
  match act s (buffer s) with
  | .ok _ v => .ok () (put s v)
  | .error stop v => .error stop (put s v)

private theorem Edit.onBuffer_eq_ok_iff {buffer : (s : σ) → Vector α (size s)}
    {put : (s : σ) → Vector α (size s) → σ} {act : (s : σ) → Edit (Vector α (size s)) ε Unit}
    {s s' : σ} {u : Unit} : onBuffer buffer put act s = .ok u s' ↔
      ∃ v, act s (buffer s) = .ok () v ∧ s' = put s v := by
  unfold onBuffer
  cases act s (buffer s) <;> simp [eq_comm]

private theorem Edit.RefusedAt.onBuffer {buffer : (s : σ) → Vector α (size s)}
    {put : (s : σ) → Vector α (size s) → σ} {act : (s : σ) → Edit (Vector α (size s)) ε Unit} {s : σ}
    (h : (act s).RefusedAt (buffer s) none) : (onBuffer buffer put act).RefusedAt s none := by
  intro e s'
  unfold Edit.onBuffer
  cases hact : act s (buffer s) with
  | ok _ v => simp
  | error stop v =>
    intro hout
    cases hout
    exact h e v hact

/-- A buffer that is replaced entry by entry ends up as one that is computed anew. -/
theorem rewrite_matches (buffer : (s : σ) → Vector α (size s)) (put : (s : σ) → Vector α (size s) → σ)
    (f : σ → Nat → α → Checked α) :
    (Edit.onBuffer buffer put fun s => rewrite (f s) : Edit σ ε Unit).Matches (Edit.update fun s => do
      let v ← Run.ofChecked (Vector.ofFnM fun i => f s i (buffer s)[i])
      return put s v) := by
  intro s
  refine Edit.sameOutcome_of_eq_ok_iff (.onBuffer (rewrite_refusedAt _ _))
    (Edit.update_refusedAt (Run.bind_pure_ne_error (fun _ => Run.ofChecked_ne_error) _)) fun u s' => ?_
  rw [Edit.onBuffer_eq_ok_iff, Edit.update_eq_ok_iff, bind_eq_ok_iff]
  simp only [Run.ofChecked_eq_ok_iff, Extent.ofFnM_eq_ok_iff, rewrite_eq_ok_iff]
  exact exists_congr fun v => and_congr_right fun _ =>
    ⟨fun h => h ▸ rfl, fun h => (Except.ok.inj h).symm⟩

end Rewrite

/-- Filling a raster with values that are there already. -/
theorem Extent.tabulateM_ok {ε α : Type} (e : Extent) (f : Nat → Nat → α) :
    e.tabulateM (fun x y => .ok (f x y) : Nat → Nat → Except ε α) = .ok (e.tabulate f) :=
  Vector.ofFnM_pure

namespace Plane

variable {ε : Type}

/-- Replaces the samples one after the other by what `f` makes of the place and the sample there. -/
def rewriteSamples (f : Nat → Nat → Sample → Checked Sample) : Edit Plane ε Unit :=
  Edit.onBuffer samples (fun p samples => { p with samples }) fun p =>
    rewrite fun i => f (i % p.extent.width) (i / p.extent.width)

theorem sample_mod_div (p : Plane) {i : Nat} (hi : i < p.extent.area) :
    p.sample (i % p.extent.width) (i / p.extent.width) = p.samples[i] := by
  rw [sample_of_contains (Extent.contains_of_lt_area hi)]
  simp only [Extent.index_mod_div]
  rfl

/-- Replacing the samples one after the other fills the plane. -/
theorem rewriteSamples_matches (f : Nat → Nat → Sample → Checked Sample) :
    (rewriteSamples f : Edit Plane ε Unit).Matches
      (Edit.update fun p => Run.ofChecked (p.fillM fun x y => f x y (p.sample x y))) := by
  have hfill (p : Plane) : (Run.ofChecked (p.fillM fun x y => f x y (p.sample x y)) : Run ε Plane) =
      (do
        let samples ← Run.ofChecked (Vector.ofFnM fun i : Fin p.extent.area =>
          f (i % p.extent.width) (i / p.extent.width) p.samples[i])
        return { p with samples }) := by
    simp only [fillM, Extent.tabulateM, sample_mod_div p (Fin.isLt _), Run.ofChecked_bind]
    rfl
  simp only [hfill]
  exact rewrite_matches _ _ _

/-- `Plane.smoothRows`, sample by sample. -/
def smoothRowsInPlace (source : Plane) (k : Kernel) : Edit Plane FilterError Unit := do
  let target ← get
  Edit.lift (Run.restate .raster (Run.ofExcept (target.expectExtent source.extent)))
  rewriteSamples fun x y _ => k.smooth source x y

/-- `Plane.detailColumns`, column by column. -/
def detailColumnsInPlace (k : Kernel) : Edit Plane ε Unit := do
  let plane ← get
  (List.range plane.extent.width).forM fun x =>
    Edit.update fun p => Run.ofChecked (k.sweepColumn p x)

/-- The checks before a blend. -/
def checkBlend (plane detail : Plane) (blend : Blend) : Run FilterError Unit := do
  if blend.scale.toInt ≤ 0 then throw (.error (.scale blend.scale))
  Run.restate .raster (Run.ofExcept (detail.expectExtent plane.extent))

/-- `Plane.sharpen`, sample by sample. -/
def sharpenInPlace (detail : Plane) (blend : Blend) : Edit Plane FilterError Unit := do
  let plane ← get
  Edit.lift (plane.checkBlend detail blend)
  rewriteSamples fun x y s => blend.apply s (detail.sample x y)

theorem smoothRowsInPlace_matches (source : Plane) (k : Kernel) :
    (source.smoothRowsInPlace k).Matches (Edit.update fun target => source.smoothRows k target) :=
  .check (rewriteSamples_matches fun x y _ => k.smooth source x y)

private theorem detailColumnsInPlace_matches (k : Kernel) :
    (detailColumnsInPlace k : Edit Plane ε Unit).Matches
      (Edit.update fun p => Run.ofChecked (p.detailColumns k)) := by
  intro p
  exact Edit.sameOutcome_of_eq_ok_iff
    (.forM (fun _ _ => Edit.update_refusedAt fun _ => Run.ofChecked_ne_error) _ p)
    (Edit.update_refusedAt fun _ => Run.ofChecked_ne_error) fun u q =>
      Edit.forM_update_eq_ok_iff.trans
        (Edit.update_eq_ok_iff.trans Run.ofChecked_eq_ok_iff).symm

theorem sharpen_eq_check (p detail : Plane) (blend : Blend) : p.sharpen detail blend = (do
    p.checkBlend detail blend
    Run.ofChecked (p.fillM fun x y => blend.apply (p.sample x y) (detail.sample x y))) := by
  unfold sharpen checkBlend
  split <;> rfl

theorem sharpenInPlace_matches (detail : Plane) (blend : Blend) :
    (sharpenInPlace detail blend).Matches (Edit.update fun p => p.sharpen detail blend) := by
  simp only [sharpen_eq_check]
  exact .check (rewriteSamples_matches fun x y s => blend.apply s (detail.sample x y))

end Plane

namespace Image

variable {ε : Type}

/-- Replaces the pixels one after the other by what `f` makes of the place and the pixel there. -/
def rewritePixels (f : Nat → Nat → Pixel → Checked Pixel) : Edit Image ε Unit :=
  Edit.onBuffer pixels (fun image pixels => { image with pixels }) fun image =>
    rewrite fun i => f (i % image.extent.width) (i / image.extent.width)

/-- `Image.recode`, pixel by pixel. The color space changes after the last one. -/
def recodeInPlace (source target : ColorSpace) (f : Pixel → Checked Pixel) :
    Edit Image RasterError Unit := do
  let image ← get
  Edit.lift (Run.ofExcept (image.expectSpace source))
  rewritePixels fun _ _ => f
  modify fun image => { image with space := target }

/-- `Image.setChannel`, pixel by pixel. -/
def setChannelInPlace (c : Channel) (plane : Plane) : Edit Image RasterError Unit := do
  let image ← get
  Edit.lift (Run.ofExcept (plane.expectExtent image.extent))
  rewritePixels fun x y p => .ok (p.set c (plane.sample x y))

/-- `Image.levels`, pixel by pixel. -/
def levelsInPlace : Edit Image FilterError Unit :=
  Edit.restate .raster (recodeInPlace .rgb .rgb (Pixel.mapM Levels.stretch))

/-- `Image.toHsv`, pixel by pixel. -/
def toHsvInPlace : Edit Image ColorError Unit :=
  Edit.restate .raster (recodeInPlace .rgb .hsv Pixel.toHsv)

/-- `Image.toRgb`, pixel by pixel. -/
def toRgbInPlace : Edit Image ColorError Unit :=
  Edit.restate .raster (recodeInPlace .hsv .rgb Pixel.toRgb)

/-- Replacing the pixels one after the other fills the raster. -/
theorem rewritePixels_matches (f : Nat → Nat → Pixel → Checked Pixel) :
    (rewritePixels f : Edit Image ε Unit).Matches (Edit.update fun image => do
      let pixels ← Run.ofChecked (image.extent.tabulateM fun x y => f x y (image.pixel x y))
      return { image with pixels }) := by
  simp only [Extent.tabulateM, pixel_mod_div _ (Fin.isLt _)]
  exact rewrite_matches _ _ _

theorem recodeInPlace_matches (source target : ColorSpace) (f : Pixel → Checked Pixel) :
    (recodeInPlace source target f).Matches (Edit.update (recode source target f)) := by
  have htag := Edit.update_map
    (fun image : Image => (do
      let pixels ← Run.ofChecked (image.extent.tabulateM fun x y => f (image.pixel x y))
      return { image with pixels } : Run RasterError Image))
    fun image => { image with space := target }
  simp only [bind_assoc, pure_bind] at htag
  exact .check (htag ▸ .bind (rewritePixels_matches fun _ _ => f) fun _ => .refl _)

theorem levelsInPlace_matches : levelsInPlace.Matches (Edit.update levels) :=
  (recodeInPlace_matches .rgb .rgb (Pixel.mapM Levels.stretch)).update_restate FilterError.raster

theorem toHsvInPlace_matches : toHsvInPlace.Matches (Edit.update toHsv) :=
  (recodeInPlace_matches .rgb .hsv Pixel.toHsv).update_restate ColorError.raster

theorem toRgbInPlace_matches : toRgbInPlace.Matches (Edit.update toRgb) :=
  (recodeInPlace_matches .hsv .rgb Pixel.toRgb).update_restate ColorError.raster

theorem ofExcept_setChannel (image : Image) (c : Channel) (plane : Plane) :
    Run.ofExcept (image.setChannel c plane) = (do
      Run.ofExcept (plane.expectExtent image.extent)
      let pixels ← Run.ofChecked (image.extent.tabulateM fun x y =>
        .ok ((image.pixel x y).set c (plane.sample x y)))
      return { image with pixels }) := by
  rw [setChannel, Extent.tabulateM_ok]
  cases plane.expectExtent image.extent <;> rfl

theorem setChannelInPlace_matches (c : Channel) (plane : Plane) : (setChannelInPlace c plane).Matches
    (Edit.update fun image => Run.ofExcept (image.setChannel c plane)) := by
  simp only [ofExcept_setChannel]
  exact .check (rewritePixels_matches fun x y p => .ok (p.set c (plane.sample x y)))

end Image

namespace Engine

/-- The engine with another mask. -/
def withMask (mask : Plane) (engine : Engine) : Engine := { engine with mask }

/-- `Engine.build`, sample by sample and then column by column. -/
def buildInPlace (source : Plane) : Edit Engine FilterError Unit := do
  let engine ← get
  Edit.on mask withMask (source.smoothRowsInPlace engine.kernel)
  let engine ← get
  Edit.on mask withMask (Plane.detailColumnsInPlace engine.kernel.highpass)

theorem buildInPlace_matches (source : Plane) : (buildInPlace source).Matches (build source) := by
  have hsmooth := Edit.update_part mask withMask (fun _ => rfl)
    fun engine mask => source.smoothRows engine.kernel mask
  have hdetail := Edit.update_part mask withMask (fun _ => rfl) fun engine mask =>
    (Run.ofChecked (mask.detailColumns engine.kernel.highpass) : Run FilterError Plane)
  have hbuild : build source = _ :=
    congrArg₂ (fun first second : Edit Engine FilterError Unit => first >>= fun _ => second)
      hsmooth hdetail
  rw [hbuild, bind_assoc]
  refine .bind (.refl _) fun engine => .bind (.on (source.smoothRowsInPlace_matches engine.kernel))
    fun _ => .bind (.refl _) fun engine => .on (Plane.detailColumnsInPlace_matches _)

end Engine

/-- `unsharpChannel`, place by place. The plane of the channel is a copy, which a stop discards. -/
def unsharpChannelInPlace (c : Channel) : Edit (Image × Engine) FilterError Unit := do
  let (image, _) ← get
  Edit.lift (Run.restate .raster (Run.ofExcept (image.expectSpace .hsv)))
  let plane := image.channel c
  Edit.on Prod.snd (fun engine (image, _) => (image, engine)) (Engine.buildInPlace plane)
  let (_, engine) ← get
  let sharpened ← Edit.lift ((Plane.sharpenInPlace engine.mask (Blend.ofChannel c)).result plane)
  Edit.on Prod.fst (fun image (_, engine) => (image, engine))
    (Edit.restate .raster (Image.setChannelInPlace c sharpened))

/-- `unsharp`, place by place. -/
def unsharpInPlace (k : Kernel) : Edit Image FilterError Unit := do
  let image ← get
  Edit.lift (Run.restate .raster (Run.ofExcept (image.expectSpace .hsv)))
  let engine ← Edit.lift (Engine.ofExtent k image.extent)
  Edit.lending engine (Channel.all.forM unsharpChannelInPlace)

/-- `enhance`, place by place. -/
def enhanceInPlace : Edit Image EnhanceError Unit := do
  Edit.restate .filter Image.levelsInPlace
  Edit.restate .color Image.toHsvInPlace
  Edit.restate .filter (unsharpInPlace .gaussian)
  Edit.restate .color Image.toRgbInPlace

theorem unsharpChannelInPlace_matches (c : Channel) :
    (unsharpChannelInPlace c).Matches (unsharpChannel c) := by
  refine .bind (.refl _) fun (image, _) => .bind (.refl _) fun _ =>
    .bind (.on (Engine.buildInPlace_matches _)) fun _ => .bind (.refl _) fun (_, engine) =>
      .bind ?_ fun sharpened => ?_
  · rw [← Edit.result_update (fun p : Plane => p.sharpen engine.mask (Blend.ofChannel c))]
    exact (Plane.sharpenInPlace_matches engine.mask (Blend.ofChannel c)).lift_result _
  · have hset : (Edit.update fun ((image, engine) : Image × Engine) => do
        let image ← Run.restate FilterError.raster (Run.ofExcept (image.setChannel c sharpened))
        return (image, engine)) = Edit.on Prod.fst (fun image (_, engine) => (image, engine))
          ((Edit.update fun image => Run.ofExcept (image.setChannel c sharpened)).restate .raster) := by
      rw [← Edit.update_restate]
      exact Edit.update_part Prod.fst (fun image ((_, engine) : Image × Engine) => (image, engine))
        (fun _ => rfl) fun _ image =>
          Run.restate FilterError.raster (Run.ofExcept (image.setChannel c sharpened))
    rw [hset]
    exact .on ((Image.setChannelInPlace_matches c sharpened).restate _)

theorem unsharpInPlace_matches (k : Kernel) : (unsharpInPlace k).Matches (unsharp k) :=
  .bind (.refl _) fun _ => .bind (.refl _) fun _ => .bind (.refl _) fun _ =>
    .lending (.forM unsharpChannelInPlace_matches _)

theorem enhanceInPlace_matches : enhanceInPlace.Matches enhance :=
  .bind (Image.levelsInPlace_matches.restate _) fun _ =>
    .bind (Image.toHsvInPlace_matches.restate _) fun _ =>
      .bind ((unsharpInPlace_matches .gaussian).restate _) fun _ =>
        Image.toRgbInPlace_matches.restate _

end Acutance
