import Acutance.Proofs.Enhance.Stages
import Acutance.Proofs.Buffer.Plane

namespace Acutance

namespace Edit

variable {σ τ ε δ α β γ : Type}

/-- The state that an edit leaves. -/
def final (act : Edit σ ε α) (s : σ) : σ :=
  match act s with
  | .ok _ s' => s'
  | .error _ s' => s'

theorem final_bind (act : Edit σ ε α) (next : α → Edit σ ε β) (s : σ) : (act >>= next).final s =
    match act s with
    | .ok a t => (next a).final t
    | .error _ t => t := by
  change final (EStateM.bind act next) s = _
  unfold final EStateM.bind
  cases act s <;> rfl

theorem final_restate (act : Edit σ ε α) (f : ε → δ) (s : σ) : (act.restate f).final s = act.final s := by
  unfold final Edit.restate
  cases act s <;> rfl

theorem final_on (part : σ → τ) (put : τ → σ → σ) (act : Edit τ ε α) (s : σ) :
    (act.on part put).final s = put (act.final (part s)) s := by
  unfold final Edit.on
  cases act (part s) <;> rfl

theorem final_lending (aid : τ) (act : Edit (σ × τ) ε α) (s : σ) :
    (act.lending aid).final s = (act.final (s, aid)).1 := by
  unfold final Edit.lending
  cases act (s, aid) <;> rfl

/-- An edit keeps what `shape` tells of the state, however it ends. -/
def Keeps (shape : σ → γ) (act : Edit σ ε α) : Prop := ∀ s, shape (act.final s) = shape s

namespace Keeps

variable {shape : σ → γ}

theorem get : Keeps shape (MonadState.get : Edit σ ε σ) := fun _ => rfl

theorem lift (x : Run ε α) : Keeps shape (Edit.lift x : Edit σ ε α) := by
  intro s
  cases x <;> rfl

theorem update {f : σ → Run ε σ} (h : ∀ s s', f s = .ok s' → shape s' = shape s) :
    Keeps shape (Edit.update f) := by
  intro s
  unfold final Edit.update
  cases hf : f s with
  | ok s' => exact h s s' hf
  | error stop => rfl

theorem bind {act : Edit σ ε α} {next : α → Edit σ ε β} (h : Keeps shape act)
    (hnext : ∀ a, Keeps shape (next a)) : Keeps shape (act >>= next) := by
  intro s
  have hs := h s
  rw [final_bind]
  unfold final at hs
  generalize act s = r at hs ⊢
  cases r with
  | ok a t => exact (hnext a t).trans hs
  | error stop t => exact hs

theorem restate {act : Edit σ ε α} (h : Keeps shape act) (f : ε → δ) :
    Keeps shape (act.restate f) := fun s => by
  rw [final_restate, h s]

theorem on {part : σ → τ} {put : τ → σ → σ} {act : Edit τ ε α} {shape' : τ → β} (h : Keeps shape' act)
    (hput : ∀ t s, shape' t = shape' (part s) → shape (put t s) = shape s) :
    Keeps shape (act.on part put) := fun s => by
  rw [final_on]
  exact hput _ _ (h (part s))

theorem lending {aid : τ} {act : Edit (σ × τ) ε α} (h : Keeps (fun s => shape s.1) act) :
    Keeps shape (act.lending aid) := fun s => by
  rw [final_lending]
  exact h (s, aid)

theorem forM {act : β → Edit σ ε Unit} (h : ∀ b, Keeps shape (act b)) (items : List β) :
    Keeps shape (items.forM act) := by
  induction items with
  | nil => exact fun _ => rfl
  | cons b items ih => exact (h b).bind fun _ => ih

end Keeps

end Edit

open Edit (Keeps)

namespace Plane

theorem extent_of_set {p q : Plane} {x y : Nat} {s : Sample} (h : p.set x y s = .ok q) :
    q.extent = p.extent := by
  unfold set at h
  split at h
  · obtain rfl := Except.ok.inj h
    exact p.extent_put x y s
  · cases h

theorem extent_of_editRow {p q : Plane} {y : Nat} {f : Nat → Sample → Sample}
    (h : p.editRow y f = .ok q) : q.extent = p.extent := by
  unfold editRow at h
  split at h
  · next hy =>
    obtain rfl := Except.ok.inj h
    exact (p.foldl_put_row hy f (Nat.le_refl _)).1
  · cases h

theorem extent_of_smoothRows {source p q : Plane} {k : Kernel} (h : source.smoothRows k p = .ok q) :
    q.extent = p.extent := by
  obtain ⟨htarget, hextent, -⟩ := smoothRows_eq_ok_iff.1 h
  rw [hextent, htarget]

end Plane

namespace Image

theorem extent_of_recode {a b : Image} {source target : ColorSpace} {f : Pixel → Checked Pixel}
    (h : a.recode source target f = .ok b) : b.extent = a.extent :=
  (recode_eq_ok_iff.1 h).2.1

theorem extent_of_setChannel {a b : Image} {c : Channel} {plane : Plane}
    (h : a.setChannel c plane = .ok b) : b.extent = a.extent :=
  (setChannel_eq_ok_iff.1 h).2.1

theorem keeps_levels : Keeps extent (Edit.update levels) :=
  .update fun _ _ h => extent_of_recode (Run.restate_eq_ok_iff.1 h)

theorem keeps_toHsv : Keeps extent (Edit.update toHsv) :=
  .update fun _ _ h => extent_of_recode (Run.restate_eq_ok_iff.1 h)

theorem keeps_toRgb : Keeps extent (Edit.update toRgb) :=
  .update fun _ _ h => extent_of_recode (Run.restate_eq_ok_iff.1 h)

end Image

theorem Engine.keeps_build (source : Plane) : Keeps (fun e : Engine => e.mask.extent) (build source) := by
  refine .bind (.update fun engine next h => ?_) fun _ => .update fun engine next h => ?_
  · obtain ⟨mask, hmask, hnext⟩ := bind_eq_ok_iff.1 h
    obtain rfl := Except.ok.inj hnext
    exact Plane.extent_of_smoothRows hmask
  · obtain ⟨mask, hmask, hnext⟩ := bind_eq_ok_iff.1 h
    obtain rfl := Except.ok.inj hnext
    exact (Plane.detailColumns_eq_ok_iff.1 (Run.ofChecked_eq_ok_iff.1 hmask)).1

theorem keeps_unsharpChannel (c : Channel) :
    Keeps (fun s : Image × Engine => (s.1.extent, s.2.mask.extent)) (unsharpChannel c) := by
  refine .bind .get fun (image, _) => .bind (.lift _) fun _ => ?_
  refine .bind (.on (Engine.keeps_build _) fun engine s h => ?_) fun _ => ?_
  · exact congrArg (Prod.mk s.1.extent) h
  refine .bind .get fun (_, engine) => .bind (.lift _) fun sharpened => ?_
  refine .update fun s next h => ?_
  obtain ⟨image, himage, hnext⟩ := bind_eq_ok_iff.1 h
  obtain rfl := Except.ok.inj hnext
  exact congrArg (Prod.mk · s.2.mask.extent)
    (Image.extent_of_setChannel (Run.ofExcept_eq_ok_iff.1 (Run.restate_eq_ok_iff.1 himage)))

theorem keeps_unsharp (k : Kernel) : Keeps Image.extent (unsharp k) :=
  .bind .get fun _ => .bind (.lift _) fun _ => .bind (.lift _) fun _ =>
    .lending (.forM (fun c s => (Prod.mk.inj (keeps_unsharpChannel c s)).1) _)

theorem keeps_enhance : Keeps Image.extent enhance :=
  .bind (Image.keeps_levels.restate _) fun _ => .bind (Image.keeps_toHsv.restate _) fun _ =>
    .bind ((keeps_unsharp .gaussian).restate _) fun _ => Image.keeps_toRgb.restate _

end Acutance
