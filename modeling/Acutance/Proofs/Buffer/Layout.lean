import Acutance.Proofs.Buffer
import Acutance.Proofs.Edit.Outcome

namespace Acutance

variable {ε δ α α' β β' : Type}

/-- Restates the error that an operation answers with. -/
def Flaw.map (f : ε → δ) : Flaw ε → Flaw δ
  | outside first last size => outside first last size
  | countOverflow count => countOverflow count
  | zeroDivisor => zeroDivisor
  | refused e => refused (f e)

namespace Run

/-- What a computation gives, laid out in a buffer. -/
def laidOut (layout : α → β) (x : Run ε α) : Run (Flaw ε) β := (guarded x).map layout

@[simp] theorem laidOut_ok (layout : α → β) (a : α) :
    laidOut layout (.ok a : Run ε α) = .ok (layout a) := rfl

theorem laidOut_bind (layout : α → β) {layout' : α' → β'} {x : Run ε α} {f : α → Run ε α'}
    {x' : Run (Flaw ε) β} {f' : β → Run (Flaw ε) β'} (hx : x' = x.laidOut layout)
    (hf : ∀ a, x = .ok a → f' (layout a) = (f a).laidOut layout') :
    x' >>= f' = (x >>= f).laidOut layout' := by
  subst hx
  cases x with
  | error stop => rfl
  | ok a => exact hf a rfl

theorem laidOut_restate (layout : α → β) (f : ε → δ) (x : Run ε α) :
    (x.restate f).laidOut layout = (x.laidOut layout).restate (Flaw.map f) := by
  rcases x with ⟨fault | e⟩ | a <;> rfl

theorem laidOut_ofChecked (layout : α → β) (x : Checked α) :
    laidOut layout (ofChecked x : Run ε α) = ofChecked (x.map layout) := by
  cases x <;> rfl

end Run

namespace Edit

variable {σ σ' τ τ' : Type}

/-- How an edit ends, with its value and its state laid out in buffers. -/
def laidOut (layout : σ → τ) (value : α → β) :
    EStateM.Result (Stop ε) σ α → EStateM.Result (Stop (Flaw ε)) τ β
  | .ok a s => .ok (value a) (layout s)
  | .error stop s => .error (stop.map .refused) (layout s)

/-- An edit of buffers that goes as an edit of the values that are laid out in them. It ends with the layout
of the same value, with the same error or with the same fault, and never for a flaw of its own. -/
def Realizes (layout : σ → τ) (value : α → β) (act' : Edit τ (Flaw ε) β) (act : Edit σ ε α) : Prop :=
  ∀ s, act' (layout s) = laidOut layout value (act s)

namespace Realizes

variable {layout : σ → τ} {value : α → β} {value' : α' → β'}

theorem pure (a : α) : Realizes layout value (Pure.pure (value a) : Edit τ (Flaw ε) β) (Pure.pure a) :=
  fun _ => rfl

theorem get : Realizes layout layout (MonadState.get : Edit τ (Flaw ε) τ) (MonadState.get : Edit σ ε σ) :=
  fun _ => rfl

theorem bind {act : Edit σ ε α} {act' : Edit τ (Flaw ε) β} {next : α → Edit σ ε α'}
    {next' : β → Edit τ (Flaw ε) β'} (h : Realizes layout value act' act)
    (hnext : ∀ a, Realizes layout value' (next' (value a)) (next a)) :
    Realizes layout value' (act' >>= next') (act >>= next) := by
  intro s
  change EStateM.bind act' next' (layout s) = laidOut layout value' (EStateM.bind act next s)
  unfold EStateM.bind
  rw [h s]
  cases act s with
  | ok a t => exact hnext a t
  | error stop t => rfl

theorem lift {x : Run ε α} {x' : Run (Flaw ε) β} (h : x' = x.laidOut value) :
    Realizes layout value (Edit.lift x') (Edit.lift x) := by
  intro s
  subst h
  cases x <;> rfl

theorem update {f : σ → Run ε σ} {f' : τ → Run (Flaw ε) τ}
    (h : ∀ s, f' (layout s) = (f s).laidOut layout) :
    Realizes layout id (Edit.update f') (Edit.update f) := by
  intro s
  unfold Edit.update
  rw [h s]
  cases f s <;> rfl

theorem modifying {f : σ → σ} {f' : τ → τ} (h : ∀ s, f' (layout s) = layout (f s)) :
    Realizes layout id (modify f' : Edit τ (Flaw ε) Unit) (modify f : Edit σ ε Unit) := by
  intro s
  exact congrArg (EStateM.Result.ok ()) (h s)

theorem restate {act : Edit σ ε α} {act' : Edit τ (Flaw ε) β} (h : Realizes layout value act' act)
    (f : ε → δ) : Realizes layout value (act'.restate (Flaw.map f)) (act.restate f) := by
  intro s
  unfold Edit.restate
  rw [h s]
  rcases act s with ⟨a, t⟩ | ⟨fault | e, t⟩ <;> rfl

/-- A part of the state is realized by the same part of the buffers. -/
theorem on {part : σ → σ'} {put : σ' → σ → σ} {part' : τ → τ'} {put' : τ' → τ → τ} {layout' : σ' → τ'}
    {act : Edit σ' ε α} {act' : Edit τ' (Flaw ε) β} (h : Realizes layout' value act' act)
    (hpart : ∀ s, part' (layout s) = layout' (part s))
    (hput : ∀ t s, put' (layout' t) (layout s) = layout (put t s)) :
    Realizes layout value (act'.on part' put') (act.on part put) := by
  intro s
  unfold Edit.on
  rw [hpart, h]
  rcases act (part s) with ⟨a, t⟩ | ⟨stop, t⟩ <;> simp only [Edit.laidOut, hput]

theorem lending {layout' : σ' → τ'} {aid : σ'} {act : Edit (σ × σ') ε α}
    {act' : Edit (τ × τ') (Flaw ε) β} (h : Realizes (Prod.map layout layout') value act' act) :
    Realizes layout value (act'.lending (layout' aid)) (act.lending aid) := by
  intro s
  have hs := h (s, aid)
  unfold Edit.lending
  rw [Prod.map_apply] at hs
  rw [hs]
  rcases act (s, aid) with ⟨a, t⟩ | ⟨stop, t⟩ <;> rfl

theorem forM {γ : Type} {act : γ → Edit σ ε Unit} {act' : γ → Edit τ (Flaw ε) Unit}
    (h : ∀ c, Realizes layout id (act' c) (act c)) (items : List γ) :
    Realizes layout id (items.forM act') (items.forM act) := by
  induction items with
  | nil => exact pure ()
  | cons c items ih => exact (h c).bind fun _ => ih

theorem mapM {γ : Type} {act : γ → Edit σ ε α} {act' : γ → Edit τ (Flaw ε) α}
    (h : ∀ c, Realizes layout id (act' c) (act c)) (items : List γ) :
    Realizes layout id (items.mapM act') (items.mapM act) := by
  induction items with
  | nil => exact pure []
  | cons c items ih =>
    rw [List.mapM_cons, List.mapM_cons]
    exact (h c).bind fun a => ih.bind fun rest => pure (a :: rest)

end Realizes

end Edit

end Acutance
