import Acutance.Proofs.Buffer.Session
import Acutance.Proofs.Buffer.Shape

namespace Acutance

private theorem Edit.final_of_answer {σ ε : Type} {act : Edit σ ε Unit} {s s' : σ} {e : Option ε}
    (h : act.answer s = .ok e s') : act.final s = s' := by
  unfold Edit.answer at h
  unfold Edit.final
  rcases hact : act s with ⟨u, t⟩ | ⟨fault | e, t⟩ <;> rw [hact] at h <;> cases h <;> rfl

/-- An edit of what is held leaves everything where it is, with the extent that it has. -/
def Grows {ε α : Type} (act : Edit (List Held) ε α) : Prop :=
  ∀ held, held.map Held.shape <+: (act.final held).map Held.shape

/-- A kind of things that are told apart, each with an extent. -/
structure Slot.Shaped {β γ : Type} (slot : Slot Held β) (extent : β → γ) : Prop where
  wrap_of_pick : ∀ a b, slot.pick a = some b → slot.wrap b = a
  shape_congr : ∀ b c, extent c = extent b → Held.shape (slot.wrap c) = Held.shape (slot.wrap b)

private theorem Slot.Shaped.set_map_shape {β γ : Type} {slot : Slot Held β} {extent : β → γ}
    (h : slot.Shaped extent) {held : List Held} {place : Nat} {b c : β}
    (hb : held[place]?.bind slot.pick = some b) (hc : extent c = extent b) :
    (held.set place (slot.wrap c)).map Held.shape = held.map Held.shape := by
  obtain ⟨a, ha, hb⟩ := Option.bind_eq_some_iff.1 hb
  obtain ⟨hplace, rfl⟩ := List.getElem?_eq_some_iff.1 ha
  rw [List.map_set, h.shape_congr b c hc, h.wrap_of_pick _ b hb, ← List.map_set, List.set_getElem_self]

namespace Grows

variable {ε α β γ δ : Type} {missing : Nat → ε}

private theorem find_bind {slot : Slot Held β} {next : β → Edit (List Held) ε Unit} {place : Nat}
    (h : ∀ b, Grows (next b)) : Grows (slot.find missing place >>= next) := by
  intro held
  rw [Edit.final_bind, Slot.find]
  cases held[place]?.bind slot.pick with
  | none => exact List.prefix_refl _
  | some b => exact h b held

private theorem add (slot : Slot Held β) (x : Run ε β) : Grows (slot.add x) := by
  intro held
  cases x with
  | ok b => exact ⟨_, (List.map_append (f := Held.shape)).symm⟩
  | error stop => exact List.prefix_refl _

private theorem edit {slot : Slot Held β} {extent : β → γ} (hslot : slot.Shaped extent)
    {act : Edit β ε Unit} (hact : Edit.Keeps extent act) (place : Nat) :
    Grows (slot.edit missing place act) := by
  intro held
  rw [Slot.edit, Edit.final_bind, Slot.find]
  cases hb : held[place]?.bind slot.pick with
  | none => exact List.prefix_refl _
  | some b =>
    dsimp only
    rw [Edit.final_on, hslot.set_map_shape hb (hact b)]

private theorem editBoth {slot : Slot Held β} {slot' : Slot Held γ} {extent : β → α} {extent' : γ → δ}
    (hslot : slot.Shaped extent) (hslot' : slot'.Shaped extent')
    (hapart : ∀ b c, slot.wrap b ≠ slot'.wrap c) {act : Edit (β × γ) ε Unit}
    (hact : Edit.Keeps (fun s => (extent s.1, extent' s.2)) act) (place place' : Nat) :
    Grows (slot.editBoth slot' missing place place' act) := by
  intro held
  rw [Slot.editBoth, Edit.final_bind, Slot.find]
  cases hb : held[place]?.bind slot.pick with
  | none => exact List.prefix_refl _
  | some b =>
    dsimp only
    rw [Edit.final_bind, Slot.find]
    cases hc : held[place']?.bind slot'.pick with
    | none => exact List.prefix_refl _
    | some c =>
      dsimp only
      rw [Edit.final_on]
      obtain ⟨hextent, hextent'⟩ := Prod.mk.inj (hact (b, c))
      -- what is held at one place is of one kind, so the second change is made at another place
      have hplaces : place ≠ place' := by
        rintro rfl
        obtain ⟨a, ha, hb⟩ := Option.bind_eq_some_iff.1 hb
        obtain ⟨a', ha', hc⟩ := Option.bind_eq_some_iff.1 hc
        obtain rfl := Option.some.inj (ha.symm.trans ha')
        exact hapart b c ((hslot.wrap_of_pick a b hb).trans (hslot'.wrap_of_pick a c hc).symm)
      have hc' : (held.set place (slot.wrap (act.final (b, c)).1))[place']?.bind slot'.pick = some c := by
        rwa [List.getElem?_set_ne hplaces]
      rw [hslot'.set_map_shape hc' hextent', hslot.set_map_shape hb hextent]

end Grows

namespace Session

private theorem images_shaped : (Object.images : Slot Held Image).Shaped Image.extent :=
  ⟨fun a b h => by cases a <;> cases h; rfl, fun _ _ h => congrArg Object.image h⟩

private theorem planes_shaped : (Object.planes : Slot Held Plane).Shaped Plane.extent :=
  ⟨fun a b h => by cases a <;> cases h; rfl, fun _ _ h => congrArg Object.plane h⟩

private theorem engines_shaped : (Object.engines : Slot Held Engine).Shaped fun e => e.mask.extent :=
  ⟨fun a b h => by cases a <;> cases h; rfl, fun _ _ h => congrArg Object.engine h⟩

/-- Every operation leaves what is held with the extent that it has, and may put something behind it. -/
theorem step_grows (operation : Operation) : Grows (step operation) := by
  cases operation with
  | makeImage | imageOfSamples | readImage => exact .add _ _
  | makePlane | planeOfSamples => exact .add _ _
  | gaussian | kernelOfTaps => exact .add _ _
  | copyChannel | copyMask | highpass | makeEngine | copyKernel | copy => exact .find_bind fun _ => .add _ _
  | setPixel i x y p =>
    exact .edit images_shaped (.restate (.update fun a b h =>
      (Image.set_eq_ok_iff.1 (Run.ofExcept_eq_ok_iff.1 h)).2.1) _) i
  | mapPixels i space f =>
    exact .edit images_shaped (.restate (.update fun a b h => Image.extent_of_recode h) _) i
  | recode i source target f =>
    exact .edit images_shaped (.restate (.update fun a b h => Image.extent_of_recode h) _) i
  | setChannel i c p =>
    exact .find_bind fun plane => .edit images_shaped (.restate (.update fun a b h =>
      Image.extent_of_setChannel (Run.ofExcept_eq_ok_iff.1 h)) _) i
  | levels i => exact .edit images_shaped (Image.keeps_levels.restate _) i
  | toHsv i => exact .edit images_shaped (Image.keeps_toHsv.restate _) i
  | toRgb i => exact .edit images_shaped (Image.keeps_toRgb.restate _) i
  | unsharp i k =>
    exact .find_bind fun kernel => .edit images_shaped ((keeps_unsharp kernel).restate _) i
  | enhance i => exact .edit images_shaped (keeps_enhance.restate _) i
  | setSample p x y s =>
    exact .edit planes_shaped (.restate (.update fun a b h =>
      Plane.extent_of_set (Run.ofExcept_eq_ok_iff.1 h)) _) p
  | editRow p y f =>
    exact .edit planes_shaped (.update fun a b h =>
      Plane.extent_of_editRow (Run.ofChecked_eq_ok_iff.1 h)) p
  | editSamples p f =>
    exact .edit planes_shaped (.update fun a b h => by obtain rfl := Except.ok.inj h; rfl) p
  | clear p =>
    exact .edit planes_shaped (.update fun a b h => by obtain rfl := Except.ok.inj h; rfl) p
  | smoothRows p k q =>
    exact .find_bind fun source => .find_bind fun kernel =>
      .edit planes_shaped (.restate (.update fun a b h => Plane.extent_of_smoothRows h) _) q
  | detailColumns p k =>
    exact .find_bind fun kernel => .edit planes_shaped (.update fun a b h =>
      (Plane.detailColumns_eq_ok_iff.1 (Run.ofChecked_eq_ok_iff.1 h)).1) p
  | sharpen p q blend =>
    exact .find_bind fun detail => .edit planes_shaped (.restate (.update fun a b h =>
      (Plane.sharpen_eq_ok_iff.1 h).2.2.1) _) p
  | build e p =>
    exact .find_bind fun source => .edit engines_shaped ((Engine.keeps_build source).restate _) e
  | unsharpChannel i c e =>
    exact .editBoth images_shaped engines_shaped (fun _ _ h => by cases h)
      ((keeps_unsharpChannel c).restate _) i e

private theorem run_grows {operations : List Operation} {held after : List Held}
    {errors : List (Option Error)} (h : run operations held = .ok errors after) :
    held.map Held.shape <+: after.map Held.shape := by
  induction operations generalizing held errors with
  | nil =>
    obtain ⟨-, rfl⟩ := Edit.pure_eq_ok_iff.1 h
    exact List.prefix_refl _
  | cons operation operations ih =>
    rw [run, List.mapM_cons] at h
    obtain ⟨error, next, hfirst, h⟩ := Edit.bind_eq_ok_iff.1 h
    obtain ⟨rest, last, hrest, h⟩ := Edit.bind_eq_ok_iff.1 h
    obtain ⟨rfl, rfl⟩ := Edit.pure_eq_ok_iff.1 h
    have hgrows := step_grows operation held
    rw [Edit.final_of_answer hfirst] at hgrows
    exact hgrows.trans (ih hrest)

end Session

namespace Held

private theorem buffer_wellFormed (held : Held) : HeldBuffer.WellFormed held.buffer := by
  cases held with
  | image i => exact i.buffer_wellFormed
  | plane p => exact p.buffer_wellFormed
  | kernel k => exact k.buffer_wellFormed
  | engine e => exact e.buffer_wellFormed

private theorem shape_buffer (held : Held) : HeldBuffer.shape held.buffer = held.shape := by
  cases held <;> rfl

/-- What is well formed is the buffer of something. -/
theorem exists_buffer_eq {b : HeldBuffer} (h : HeldBuffer.WellFormed b) :
    ∃ held : Held, held.buffer = b := by
  cases b with
  | image i =>
    obtain ⟨image, rfl⟩ := Image.exists_buffer_eq h
    exact ⟨.image image, rfl⟩
  | plane p =>
    obtain ⟨plane, rfl⟩ := Plane.exists_buffer_eq h
    exact ⟨.plane plane, rfl⟩
  | kernel k =>
    obtain ⟨kernel, rfl⟩ := Kernel.exists_buffer_eq h
    exact ⟨.kernel kernel, rfl⟩
  | engine e =>
    obtain ⟨engine, rfl⟩ := Engine.exists_buffer_eq h
    exact ⟨.engine engine, rfl⟩

private theorem exists_map_buffer_eq {start : List HeldBuffer} (h : ∀ b ∈ start, HeldBuffer.WellFormed b) :
    ∃ held : List Held, held.map buffer = start := by
  induction start with
  | nil => exact ⟨[], rfl⟩
  | cons b start ih =>
    obtain ⟨first, rfl⟩ := exists_buffer_eq (h b List.mem_cons_self)
    obtain ⟨rest, rfl⟩ := ih fun c hc => h c (List.mem_cons_of_mem _ hc)
    exact ⟨first :: rest, rfl⟩

end Held

/-- Every place can be asked for in an image, and every place inside can be written to. -/
structure ImageBuffer.Accessible (i : ImageBuffer) : Prop where
  get : ∀ x y, ∃ found, (i.get? x y : Run (Flaw Empty) (Option Pixel)) = .ok found ∧
    (found.isSome = true ↔ i.extent.Contains x y)
  set : ∀ x y p, i.extent.Contains x y → ∃ next, i.set x y p = .ok next
  set_outside : ∀ x y p, ¬ i.extent.Contains x y → i.set x y p = .error (.error (.refused
    (.outOfBounds (y * i.extent.width + x) (i.extent.width * i.extent.height))))

/-- Every place can be asked for in a plane, every place inside can be written to, and the rows that can be
taken are those of the plane. -/
structure PlaneBuffer.Accessible (p : PlaneBuffer) : Prop where
  get : ∀ x y, ∃ found, (p.get? x y : Run (Flaw Empty) (Option Sample)) = .ok found ∧
    (found.isSome = true ↔ p.extent.Contains x y)
  set : ∀ x y s, p.extent.Contains x y → ∃ next, p.set x y s = .ok next
  set_outside : ∀ x y s, ¬ p.extent.Contains x y → p.set x y s = .error (.error (.refused
    (.outOfBounds (y * p.extent.width + x) (p.extent.width * p.extent.height))))
  row : ∀ y, (∃ row, (p.row y : Run (Flaw Empty) (Array Sample)) = .ok row ∧
    row.size = p.extent.width) ↔ y < p.extent.height

private theorem ImageBuffer.WellFormed.accessible {i : ImageBuffer} (h : i.WellFormed) : i.Accessible := by
  obtain ⟨image, rfl⟩ := Image.exists_buffer_eq h
  refine ⟨fun x y => ⟨_, image.get?_buffer x y, ?_⟩, fun x y p hin => ?_, fun x y p hout => ?_⟩
  · by_cases hin : image.extent.Contains x y
    · simp [Image.get?_eq_some_pixel hin, hin]
    · simp [Image.get?, hin]
  · rw [image.set_buffer, Image.set, dif_pos (by exact hin)]
    exact ⟨_, rfl⟩
  · rw [image.set_buffer, Image.set, dif_neg (by exact hout)]
    rfl

private theorem PlaneBuffer.WellFormed.accessible {p : PlaneBuffer} (h : p.WellFormed) : p.Accessible := by
  obtain ⟨plane, rfl⟩ := Plane.exists_buffer_eq h
  refine ⟨fun x y => ⟨_, plane.get?_buffer x y, ?_⟩, fun x y p hin => ?_, fun x y p hout => ?_,
    fun y => ⟨?_, fun hy => ⟨_, plane.row_buffer hy, plane.size_rowSamples y⟩⟩⟩
  · by_cases hin : plane.extent.Contains x y
    · simp [Plane.get?_eq_some_sample hin, hin]
    · simp [Plane.get?, hin]
  · rw [plane.set_buffer, Plane.set, if_pos (by exact hin)]
    exact ⟨_, rfl⟩
  · rw [plane.set_buffer, Plane.set, if_neg (by exact hout)]
    rfl
  · rintro ⟨row, hrow, -⟩
    exact Nat.lt_of_not_le fun hy => plane.row_buffer_of_le hy hrow

/-- A value that is laid out comes without a flaw other than an error of its own. -/
theorem Run.refused_of_laidOut_eq {ε α β : Type} {layout : α → β} {x : Run ε α} {flaw : Flaw ε}
    (h : x.laidOut layout = .error (.error flaw)) : ∃ e, flaw = .refused e := by
  rcases x with ⟨fault | e⟩ | a
  · cases h
  · cases h
    exact ⟨e, rfl⟩
  · cases h

namespace Session

/-- Whatever operations are carried out on well-formed buffers, refused ones included, all buffers are well
formed behind them: an image has an accepted extent and three samples for every pixel, a plane is not empty
and has a sample for every place, and a kernel has an odd number of taps, the place of the middle one and a
divisor that is not zero. What was there before keeps its kind and extent. Nothing but a fault of the
operations on values ends a session: no sample, slice or tap is outside its buffer, and no sum is divided
by zero. In a well-formed image or plane every place can be asked for, every place inside can be written to,
and every row above the bottom edge can be taken; and neither pass of a well-formed kernel has a flaw. The
sum that a new kernel divides by is that of a 64-bit word, for up to `2 ^ 32` taps. -/
theorem sessions_stay_wellFormed :
    (∀ (start : List HeldBuffer) (operations : List Operation),
      (∀ b ∈ start, HeldBuffer.WellFormed b) →
        (∃ held : List Held, held.map Held.buffer = start ∧ runBuffers operations start =
          Edit.laidOut (List.map Held.buffer) id (run operations held)) ∧
        (∀ flaw after, runBuffers operations start ≠ .error (.error flaw) after) ∧
        ∀ errors after, runBuffers operations start = .ok errors after →
          (∀ b ∈ after, HeldBuffer.WellFormed b) ∧
            start.map HeldBuffer.shape <+: after.map HeldBuffer.shape) ∧
    (∀ image : ImageBuffer, image.WellFormed → image.Accessible) ∧
    (∀ plane : PlaneBuffer, plane.WellFormed → plane.Accessible) ∧
    (∀ (source target : PlaneBuffer) (k : KernelBuffer), source.WellFormed → target.WellFormed →
      k.WellFormed →
        (∀ flaw, source.smoothRows k target = .error (.error flaw) → ∃ e, flaw = .refused e) ∧
        ∀ flaw : Flaw Empty, target.detailColumns k ≠ .error (.error flaw)) ∧
    ∀ taps : List Sample, taps.length ≤ 4294967296 →
      Kernel.addUp taps = .ok (KernelBuffer.total taps.toArray) := by
  refine ⟨fun start operations hstart => ?_, fun _ => ImageBuffer.WellFormed.accessible,
    fun _ => PlaneBuffer.WellFormed.accessible, fun source target k hsource htarget hk => ?_,
    fun taps hlength => (Kernel.addUp_eq hlength).trans
      (congrArg Except.ok (Kernel.total_toArray taps).symm)⟩
  · obtain ⟨held, rfl⟩ := Held.exists_map_buffer_eq hstart
    have hrealizes := run_realizes operations held
    refine ⟨⟨held, rfl, hrealizes⟩, fun flaw after hflaw => ?_, fun errors after hafter => ?_⟩
    · rw [hrealizes] at hflaw
      rcases hrun : run operations held with ⟨errors, s⟩ | ⟨fault | e, s⟩
      · rw [hrun] at hflaw
        cases hflaw
      · rw [hrun] at hflaw
        cases hflaw
      · exact e.elim
    · rw [hrealizes] at hafter
      cases hrun : run operations held with
      | error stop s =>
        rw [hrun] at hafter
        cases hafter
      | ok answers s =>
        rw [hrun] at hafter
        cases hafter
        refine ⟨fun b hb => ?_, ?_⟩
        · obtain ⟨a, -, rfl⟩ := List.mem_map.1 hb
          exact a.buffer_wellFormed
        · rw [List.map_map, List.map_map]
          simpa only [Function.comp_def, Held.shape_buffer] using run_grows hrun
  · obtain ⟨p, rfl⟩ := Plane.exists_buffer_eq hsource
    obtain ⟨q, rfl⟩ := Plane.exists_buffer_eq htarget
    obtain ⟨kernel, rfl⟩ := Kernel.exists_buffer_eq hk
    refine ⟨fun flaw hflaw => ?_, fun flaw hflaw => ?_⟩
    · rw [Plane.smoothRows_buffer] at hflaw
      exact Run.refused_of_laidOut_eq hflaw
    · rw [Plane.detailColumns_buffer] at hflaw
      obtain ⟨e, -⟩ := Run.refused_of_laidOut_eq hflaw
      exact e.elim

/-- An image of one column. -/
def column : ImageBuffer := ⟨⟨1, 3⟩, .rgb, #[200, 100, 50, 90, 60, 30, 7, 7, 7]⟩

/-- A plane of the same extent. -/
def beside : PlaneBuffer := ⟨⟨1, 3⟩, #[4, 5, -6]⟩

/-- A kernel that fits in once. -/
def narrowKernel : KernelBuffer := ⟨#[1, 2, 1], 1, 4⟩

/-- Operations on the three, of which the first and the last are refused. -/
def tour : List Operation :=
  [.setPixel 0 1 0 (.gray 5), .setPixel 0 0 2 ⟨255, 0, 5⟩, .toHsv 0, .copyChannel 0 .third,
    .smoothRows 3 2 1, .detailColumns 1 2, .highpass 2, .editRow 1 1 fun _ s => s + 1, .unsharp 0 2,
    .toRgb 0, .setChannel 0 .first 1, .enhance 0, .highpass 0]

theorem sessions_stay_wellFormed_tour :
    (column.WellFormed ∧ beside.WellFormed ∧ narrowKernel.WellFormed) ∧
    (∃ errors after,
      runBuffers tour [.image column, .plane beside, .kernel narrowKernel] = .ok errors after ∧
        (∀ b ∈ after, HeldBuffer.WellFormed b) ∧
          [.image ⟨1, 3⟩, .plane ⟨1, 3⟩, .kernel ()] <+: after.map HeldBuffer.shape) ∧
    (∃ next, column.set 0 2 ⟨1, 2, 3⟩ = .ok next) ∧
    (beside.get? 4294967295 2 : Run (Flaw Empty) (Option Sample)) = .ok none ∧
    ∀ flaw : Flaw Empty, beside.detailColumns narrowKernel ≠ .error (.error flaw) := by
  obtain ⟨hruns, himages, hplanes, hpasses, -⟩ := sessions_stay_wellFormed
  have hcolumn : column.WellFormed := ⟨Extent.check_eq_ok_iff.2 (by decide), rfl⟩
  have hbeside : beside.WellFormed := ⟨by decide, rfl⟩
  have hkernel : narrowKernel.WellFormed := ⟨rfl, rfl, by decide⟩
  refine ⟨⟨hcolumn, hbeside, hkernel⟩, ?_, (himages _ hcolumn).set 0 2 _ (by decide), ?_,
    (hpasses _ _ _ hbeside hbeside hkernel).2⟩
  · have hstart : ∀ b ∈ [.image column, .plane beside, .kernel narrowKernel],
        HeldBuffer.WellFormed b := by
      simp only [List.forall_mem_cons, List.not_mem_nil, false_imp_iff, implies_true, and_true]
      exact ⟨hcolumn, hbeside, hkernel⟩
    have hends : (runBuffers tour).ends [.image column, .plane beside, .kernel narrowKernel] = true := by
      decide +kernel
    obtain ⟨errors, after, hrun⟩ := Edit.exists_of_ends hends
    obtain ⟨hwell, hshape⟩ := (hruns _ tour hstart).2.2 errors after hrun
    exact ⟨errors, after, hrun, hwell, hshape⟩
  · obtain ⟨found, hfound, hinside⟩ := (hplanes _ hbeside).get 4294967295 2
    have hout : ¬ beside.extent.Contains 4294967295 2 := by decide
    rw [hfound]
    simpa [hout] using hinside

end Session

end Acutance
