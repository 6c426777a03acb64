import Acutance.Proofs.Edit

namespace Acutance

namespace Run

variable {ε δ α β : Type}

theorem ofChecked_ne_error {x : Checked α} {e : ε} :
    (ofChecked x : Run ε α) ≠ .error (.error e) := by
  cases x <;> simp

theorem bind_pure_ne_error {x : Run ε α} (h : ∀ e, x ≠ .error (.error e)) (g : α → β) (e : ε) :
    (x >>= fun a => pure (g a)) ≠ .error (.error e) := by
  rcases x with ⟨fault | d⟩ | a
  · simp [bind, Except.bind]
  · exact absurd rfl (h d)
  · simp [bind, Except.bind, pure, Except.pure]

/-- The check that ends in `refusal`, if there is one. -/
def refuse : Option ε → Run ε Unit
  | some e => .error (.error e)
  | none => .ok ()

theorem restate_refuse (f : ε → δ) (refusal : Option ε) :
    (refuse refusal).restate f = refuse (refusal.map f) := by
  cases refusal <;> rfl

end Run

namespace Edit

variable {σ τ ε δ α β : Type}

/-- What happens to an edit at a state where `refusal` is the error that it ends in, if any. A refused
edit leaves the state as it was. One that is not refused ends in no error, but may still fault. -/
def RefusedAt (act : Edit σ ε α) (s : σ) : Option ε → Prop
  | some e => act s = .error (.error e) s
  | none => ∀ e s', act s ≠ .error (.error e) s'

/-- An edit is refused at every state as `refusal` says of that state. -/
def Refuses (act : Edit σ ε α) (refusal : σ → Option ε) : Prop :=
  ∀ s, act.RefusedAt s (refusal s)

theorem Refuses.eq_error_iff {act : Edit σ ε α} {refusal : σ → Option ε} (h : act.Refuses refusal)
    {s s' : σ} {e : ε} : act s = .error (.error e) s' ↔ refusal s = some e ∧ s' = s := by
  have hs := h s
  cases hrefusal : refusal s with
  | none =>
    rw [hrefusal] at hs
    simp [hs e s']
  | some d =>
    rw [hrefusal] at hs
    rw [hs]
    simp [eq_comm]

theorem Refuses.refusedAt_none {act : Edit σ ε α} {refusal : σ → Option ε} (h : act.Refuses refusal)
    {s : σ} (hrefusal : refusal s = none) : act.RefusedAt s none :=
  hrefusal ▸ h s

theorem Refuses.eq_none_of_eq_ok {act : Edit σ ε α} {refusal : σ → Option ε} (h : act.Refuses refusal)
    {s t : σ} {a : α} (hact : act s = .ok a t) : refusal s = none := by
  have hs := h s
  cases hrefusal : refusal s with
  | none => rfl
  | some e =>
    rw [hrefusal, RefusedAt, hact] at hs
    cases hs

theorem bind_eq_error_iff {act : Edit σ ε α} {next : α → Edit σ ε β} {s s' : σ} {stop : Stop ε} :
    (act >>= next) s = .error stop s' ↔
      act s = .error stop s' ∨ ∃ a t, act s = .ok a t ∧ next a t = .error stop s' := by
  change EStateM.bind act next s = .error stop s' ↔ _
  unfold EStateM.bind
  cases act s <;> simp [and_assoc]

/-- A composed edit is refused as its first part is when the rest is never refused behind it. -/
theorem RefusedAt.bind {act : Edit σ ε α} {next : α → Edit σ ε β} {s : σ} {refusal : Option ε}
    (h : act.RefusedAt s refusal)
    (hnext : ∀ a t, act s = .ok a t → (next a).RefusedAt t none) :
    (act >>= next).RefusedAt s refusal := by
  cases refusal with
  | some e => exact bind_eq_error_iff.2 (.inl h)
  | none =>
    intro e s' hbind
    rcases bind_eq_error_iff.1 hbind with hact | ⟨a, t, hact, hrest⟩
    · exact h e s' hact
    · exact hnext a t hact e s' hrest

theorem RefusedAt.get_bind {next : σ → Edit σ ε α} {s : σ} {refusal : Option ε}
    (h : (next s).RefusedAt s refusal) : (get >>= next).RefusedAt s refusal := by
  cases refusal <;> exact h

/-- A check comes before the rest, which starts from the same state. -/
theorem RefusedAt.refuse_bind {rest : Edit σ ε α} {s : σ} {first later : Option ε}
    (h : first = none → rest.RefusedAt s later) :
    (lift (Run.refuse first) >>= fun _ => rest).RefusedAt s (first.or later) := by
  cases first with
  | some e => rfl
  | none =>
    rw [Option.none_or]
    cases later <;> exact h rfl

theorem RefusedAt.refuse_bind_none {rest : Edit σ ε α} {s : σ} {refusal : Option ε}
    (h : refusal = none → rest.RefusedAt s none) :
    (lift (Run.refuse refusal) >>= fun _ => rest).RefusedAt s refusal := by
  have hbind := RefusedAt.refuse_bind h
  rwa [Option.or_none] at hbind

theorem RefusedAt.restate {act : Edit σ ε α} {s : σ} {refusal : Option ε}
    (h : act.RefusedAt s refusal) (f : ε → δ) : (act.restate f).RefusedAt s (refusal.map f) := by
  cases refusal with
  | some e =>
    change act s = _ at h
    simp [RefusedAt, Edit.restate, h, Stop.map]
  | none =>
    intro d s'
    unfold Edit.restate
    rcases hact : act s with ⟨a, t⟩ | ⟨fault | e, t⟩
    · simp
    · simp [Stop.map]
    · exact absurd hact (h e t)

theorem Refuses.restate {act : Edit σ ε α} {refusal : σ → Option ε} (h : act.Refuses refusal)
    (f : ε → δ) : (act.restate f).Refuses fun s => (refusal s).map f :=
  fun s => (h s).restate f

/-- A part of the state is put back as it was found when the edit of it is refused. -/
theorem RefusedAt.on {part : σ → τ} {put : τ → σ → σ} {act : Edit τ ε α} {s : σ}
    {refusal : Option ε} (h : act.RefusedAt (part s) refusal) (hput : put (part s) s = s) :
    (act.on part put).RefusedAt s refusal := by
  cases refusal with
  | some e =>
    change act (part s) = _ at h
    simp [RefusedAt, Edit.on, h, hput]
  | none =>
    intro e s'
    unfold Edit.on
    cases hact : act (part s) with
    | ok a t => simp
    | error stop t =>
      intro hout
      cases hout
      exact h e t hact

/-- A replacement whose error is restated is the replacement, restated. -/
theorem update_restate (f : σ → Run ε σ) (g : ε → δ) :
    (update fun s => (f s).restate g) = (update f).restate g := by
  funext s
  simp only [update, Edit.restate]
  cases f s <;> rfl

theorem Refuses.update_restate {f : σ → Run ε σ} {refusal : σ → Option ε}
    (h : (update f).Refuses refusal) (g : ε → δ) :
    (update fun s => (f s).restate g).Refuses fun s => (refusal s).map g :=
  Edit.update_restate f g ▸ h.restate g

theorem lift_refusedAt {x : Run ε α} (h : ∀ e, x ≠ .error (.error e)) {s : σ} :
    (lift x : Edit σ ε α).RefusedAt s none := by
  intro e s'
  unfold lift
  rcases x with ⟨fault | d⟩ | a
  · simp
  · exact absurd rfl (h d)
  · simp

theorem update_refusedAt {f : σ → Run ε σ} {s : σ} (h : ∀ e, f s ≠ .error (.error e)) :
    (update f).RefusedAt s none := by
  intro e s'
  unfold update
  cases hstop : f s with
  | ok t => simp
  | error stop =>
    intro hout
    cases hout
    exact h e hstop

/-- A replacement behind a check takes place on the state that was checked. -/
theorem update_check (check : σ → Run ε Unit) (f : σ → Run ε σ) :
    (update fun s => check s >>= fun _ => f s) =
      get >>= fun s => lift (check s) >>= fun _ => update f := by
  funext s
  change update _ s = EStateM.bind (lift (check s)) (fun _ => update f) s
  unfold update lift EStateM.bind
  cases hcheck : check s <;> simp [hcheck, bind, Except.bind]

theorem update_refuses (refusal : σ → Option ε) {f : σ → Run ε σ}
    (h : ∀ s e, f s ≠ .error (.error e)) :
    (update fun s => Run.refuse (refusal s) >>= fun _ => f s).Refuses refusal := by
  intro s
  rw [update_check]
  exact .get_bind (.refuse_bind_none fun _ => update_refusedAt (h s))

/-- A lent aid is dropped. -/
theorem RefusedAt.lending {aid : τ} {act : Edit (σ × τ) ε α} {s : σ}
    (h : act.RefusedAt (s, aid) none) : (act.lending aid).RefusedAt s none := by
  intro e s'
  unfold Edit.lending
  cases hact : act (s, aid) with
  | ok a t => simp
  | error stop t =>
    intro hout
    cases hout
    exact h e t hact

/-- Two outcomes are the same up to the fault, if there is one, and the state that it leaves. -/
inductive SameOutcome : EStateM.Result (Stop ε) σ α → EStateM.Result (Stop ε) σ α → Prop where
  | ok (a : α) (s : σ) : SameOutcome (.ok a s) (.ok a s)
  | error (e : ε) (s : σ) : SameOutcome (.error (.error e) s) (.error (.error e) s)
  | fault (f g : Fault) (s t : σ) : SameOutcome (.error (.fault f) s) (.error (.fault g) t)

/-- Two edits have the same outcome at every state, up to what a fault leaves. -/
def Matches (act act' : Edit σ ε α) : Prop := ∀ s, SameOutcome (act s) (act' s)

/-- Edits that are not refused have the same outcome when they have the same values. -/
theorem sameOutcome_of_eq_ok_iff {act act' : Edit σ ε α} {s : σ} (hact : act.RefusedAt s none)
    (hact' : act'.RefusedAt s none) (h : ∀ a t, act s = .ok a t ↔ act' s = .ok a t) :
    SameOutcome (act s) (act' s) := by
  rcases hs : act s with ⟨a, t⟩ | ⟨fault | e, t⟩
  · rw [(h a t).1 hs]
    exact .ok a t
  · rcases hs' : act' s with ⟨a, t'⟩ | ⟨fault' | e, t'⟩
    · rw [(h a t').2 hs'] at hs
      cases hs
    · exact .fault fault fault' t t'
    · exact absurd hs' (hact' e t')
  · exact absurd hs (hact e t)

namespace Matches

theorem refl (act : Edit σ ε α) : act.Matches act := by
  intro s
  rcases act s with ⟨a, t⟩ | ⟨fault | e, t⟩ <;> constructor

theorem eq_ok_iff {act act' : Edit σ ε α} (h : act.Matches act') {s t : σ} {a : α} :
    act s = .ok a t ↔ act' s = .ok a t := by
  have hs := h s
  generalize act s = r, act' s = r' at hs ⊢
  cases hs <;> simp

theorem bind {act act' : Edit σ ε α} {next next' : α → Edit σ ε β} (h : act.Matches act')
    (hnext : ∀ a, (next a).Matches (next' a)) : (act >>= next).Matches (act' >>= next') := by
  intro s
  change SameOutcome (EStateM.bind act next s) (EStateM.bind act' next' s)
  have hs := h s
  unfold EStateM.bind
  generalize act s = r, act' s = r' at hs ⊢
  cases hs with
  | ok a t => exact hnext a t
  | error e t => exact .error e t
  | fault f g t t' => exact .fault f g t t'

theorem restate {act act' : Edit σ ε α} (h : act.Matches act') (f : ε → δ) :
    (act.restate f).Matches (act'.restate f) := by
  intro s
  have hs := h s
  unfold Edit.restate
  generalize act s = r, act' s = r' at hs ⊢
  cases hs <;> constructor

theorem on {part : σ → τ} {put : τ → σ → σ} {act act' : Edit τ ε α} (h : act.Matches act') :
    (act.on part put).Matches (act'.on part put) := by
  intro s
  have hs := h (part s)
  unfold Edit.on
  generalize act (part s) = r, act' (part s) = r' at hs ⊢
  cases hs <;> constructor

theorem lending {aid : τ} {act act' : Edit (σ × τ) ε α} (h : act.Matches act') :
    (act.lending aid).Matches (act'.lending aid) := by
  intro s
  have hs := h (s, aid)
  unfold Edit.lending
  generalize act (s, aid) = r, act' (s, aid) = r' at hs ⊢
  cases hs <;> constructor

theorem lift_result {act act' : Edit τ ε Unit} (h : act.Matches act') (t : τ) :
    (lift (act.result t) : Edit σ ε τ).Matches (lift (act'.result t)) := by
  intro s
  have ht := h t
  unfold Edit.result lift
  generalize act t = r, act' t = r' at ht ⊢
  cases ht <;> constructor

theorem forM {act act' : β → Edit σ ε Unit} (h : ∀ b, (act b).Matches (act' b)) (items : List β) :
    (items.forM act).Matches (items.forM act') := by
  induction items with
  | nil => exact refl _
  | cons b items ih => exact (h b).bind fun _ => ih

theorem update_restate {act : Edit σ ε Unit} {f : σ → Run ε σ} (h : act.Matches (update f))
    (g : ε → δ) : (act.restate g).Matches (update fun s => (f s).restate g) :=
  Edit.update_restate f g ▸ h.restate g

/-- The checks of a replacement may come before its first step. -/
theorem check {check : σ → Run ε Unit} {act : Edit σ ε Unit} {f : σ → Run ε σ}
    (h : act.Matches (update f)) : (get >>= fun s => lift (check s) >>= fun _ => act).Matches
      (update fun s => check s >>= fun _ => f s) := by
  rw [update_check]
  exact (refl _).bind fun _ => (refl _).bind fun _ => h

theorem refuses {act act' : Edit σ ε α} {refusal : σ → Option ε} (h : act.Matches act')
    (hact' : act'.Refuses refusal) : act.Refuses refusal := by
  intro s
  have hs := h s
  have hrefused := hact' s
  cases hrefusal : refusal s with
  | some e =>
    rw [hrefusal, RefusedAt] at hrefused
    rw [hrefused] at hs
    rw [RefusedAt]
    generalize act s = r at hs ⊢
    cases hs
    rfl
  | none =>
    rw [hrefusal] at hrefused
    intro e t hact
    rw [hact] at hs
    generalize hact' : act' s = r at hs
    cases hs
    exact hrefused e t hact'

end Matches

/-- A replacement in two steps. -/
theorem update_map (f : σ → Run ε σ) (g : σ → σ) :
    (update fun s => f s >>= fun t => pure (g t)) = update f >>= fun _ => modify g := by
  funext s
  change update _ s = EStateM.bind (update f) (fun _ => modify g) s
  simp only [update, EStateM.bind]
  cases f s <;> rfl

/-- A replacement of one part. -/
theorem update_part (part : σ → τ) (put : τ → σ → σ) (hput : ∀ s, put (part s) s = s)
    (f : σ → τ → Run ε τ) :
    (update fun s => f s (part s) >>= fun t => pure (put t s)) =
      get >>= fun s => Edit.on part put (update (f s)) := by
  funext s
  change update _ s = Edit.on part put (update (f s)) s
  simp only [Edit.on, update]
  cases f s (part s) with
  | ok t => rfl
  | error stop => simp [hput, bind, Except.bind]

theorem result_update (f : σ → Run ε σ) (s : σ) : (update f).result s = f s := by
  simp only [Edit.result, update]
  cases f s <;> rfl

theorem forM_update_eq_ok_iff {f : σ → β → Checked σ} {items : List β} {s t : σ} {u : Unit} :
    (items.forM fun b => update fun s => Run.ofChecked (f s b) : Edit σ ε Unit) s = .ok u t ↔
      items.foldlM f s = .ok t := by
  induction items generalizing s with
  | nil =>
    rw [List.foldlM_nil]
    exact pure_eq_ok_iff.trans ⟨fun h => by rw [h.2]; rfl, fun h => ⟨rfl, (Except.ok.inj h).symm⟩⟩
  | cons b items ih =>
    rw [List.foldlM_cons, Acutance.bind_eq_ok_iff]
    refine Edit.bind_eq_ok_iff.trans ?_
    simp only [update_eq_ok_iff, Run.ofChecked_eq_ok_iff]
    constructor
    · rintro ⟨_, next, hfirst, hrest⟩
      exact ⟨next, hfirst, ih.1 hrest⟩
    · rintro ⟨next, hfirst, hrest⟩
      exact ⟨u, next, hfirst, ih.2 hrest⟩

theorem RefusedAt.forM {act : β → Edit σ ε Unit} (h : ∀ b s, (act b).RefusedAt s none)
    (items : List β) (s : σ) : (items.forM act).RefusedAt s none := by
  induction items generalizing s with
  | nil => exact fun _ _ hend => by cases hend
  | cons b items ih => exact .bind (h b s) fun _ t _ => ih t

end Edit

end Acutance
