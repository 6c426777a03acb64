import Acutance.Edit

namespace Acutance

theorem mapError_eq_ok_iff {ε δ α : Type} {f : ε → δ} {x : Except ε α} {a : α} :
    x.mapError f = .ok a ↔ x = .ok a := by
  cases x with
  | error e => exact ⟨nofun, nofun⟩
  | ok b =>
    change (.ok b : Except δ α) = .ok a ↔ _
    simp

theorem mapError_eq_error_iff {ε δ α : Type} {f : ε → δ} {x : Except ε α} {d : δ} :
    x.mapError f = .error d ↔ ∃ e, x = .error e ∧ f e = d := by
  cases x with
  | error e =>
    change (.error (f e) : Except δ α) = .error d ↔ _
    simp
  | ok a => exact ⟨nofun, nofun⟩

/-- A computation that goes on has an error when one of its parts has. -/
theorem bind_eq_error_iff {ε α β : Type} {x : Except ε α} {f : α → Except ε β} {e : ε} :
    (x >>= f) = .error e ↔ x = .error e ∨ ∃ a, x = .ok a ∧ f a = .error e := by
  cases x <;> simp [bind, Except.bind]

/-- A computation that is refused under a condition goes on when the condition does not hold. -/
theorem ite_error_eq_ok_iff {ε α : Type} {refused : Bool} {e : ε} {x : Except ε α} {a : α} :
    (if refused = true then .error e else x) = .ok a ↔ refused = false ∧ x = .ok a := by
  cases refused <;> simp

namespace Run

variable {ε δ α : Type}

@[simp] theorem ofChecked_eq_ok_iff {x : Checked α} {a : α} :
    (ofChecked x : Run ε α) = .ok a ↔ x = .ok a := by
  cases x <;> simp

@[simp] theorem ofExcept_eq_ok_iff {x : Except ε α} {a : α} :
    (ofExcept x : Run ε α) = .ok a ↔ x = .ok a := by
  cases x <;> simp

@[simp] theorem restate_eq_ok_iff {f : ε → δ} {x : Run ε α} {a : α} :
    restate f x = .ok a ↔ x = .ok a := by
  cases x <;> simp

end Run

namespace Edit

variable {σ τ ε δ α β : Type}

theorem bind_eq_ok_iff {act : Edit σ ε α} {next : α → Edit σ ε β} {s s' : σ} {b : β} :
    (act >>= next) s = .ok b s' ↔ ∃ a t, act s = .ok a t ∧ next a t = .ok b s' := by
  change EStateM.bind act next s = .ok b s' ↔ _
  unfold EStateM.bind
  cases act s <;> simp [and_assoc]

/-- What follows an edit that ends with a value goes on from there. -/
theorem bind_of_eq_ok {act : Edit σ ε α} {next : α → Edit σ ε β} {s t : σ} {a : α}
    (h : act s = .ok a t) : (act >>= next) s = next a t := by
  change EStateM.bind act next s = next a t
  rw [EStateM.bind, h]

theorem pure_eq_ok_iff {s s' : σ} {a b : α} :
    (pure a : Edit σ ε α) s = .ok b s' ↔ b = a ∧ s' = s := by
  change EStateM.Result.ok a s = .ok b s' ↔ _
  simp [eq_comm]

theorem mapM_cons_eq_ok_iff {act : β → Edit σ ε α} {b : β} {items : List β} {s s' : σ}
    {outcomes : List α} : (b :: items).mapM act s = .ok outcomes s' ↔ ∃ a rest t,
      outcomes = a :: rest ∧ act b s = .ok a t ∧ items.mapM act t = .ok rest s' := by
  rw [List.mapM_cons]
  simp only [bind_eq_ok_iff, pure_eq_ok_iff]
  constructor
  · rintro ⟨a, t, hfirst, rest, _, hrest, rfl, rfl⟩
    exact ⟨a, rest, t, rfl, hfirst, hrest⟩
  · rintro ⟨a, rest, t, rfl, hfirst, hrest⟩
    exact ⟨a, t, hfirst, rest, s', hrest, rfl, rfl⟩

theorem mapM_append_eq_ok_iff {act : β → Edit σ ε α} {first second : List β} {s s' : σ}
    {outcomes : List α} : (first ++ second).mapM act s = .ok outcomes s' ↔ ∃ before behind t,
      outcomes = before ++ behind ∧ first.mapM act s = .ok before t ∧
        second.mapM act t = .ok behind s' := by
  rw [List.mapM_append]
  simp only [bind_eq_ok_iff, pure_eq_ok_iff]
  constructor
  · rintro ⟨before, t, hfirst, behind, _, hsecond, rfl, rfl⟩
    exact ⟨before, behind, t, rfl, hfirst, hsecond⟩
  · rintro ⟨before, behind, t, rfl, hfirst, hsecond⟩
    exact ⟨before, t, hfirst, behind, s', hsecond, rfl, rfl⟩

/-- Sequences of edits have the same values when each edit has. -/
theorem mapM_eq_ok_congr {act act' : β → Edit σ ε α}
    (h : ∀ b s a t, act b s = .ok a t ↔ act' b s = .ok a t) {items : List β} {s s' : σ}
    {outcomes : List α} :
    items.mapM act s = .ok outcomes s' ↔ items.mapM act' s = .ok outcomes s' := by
  induction items generalizing s outcomes with
  | nil => rfl
  | cons b items ih => simp only [mapM_cons_eq_ok_iff, h, ih]

theorem get_eq_ok_iff {s s' t : σ} : (get : Edit σ ε σ) s = .ok t s' ↔ t = s ∧ s' = s := by
  change EStateM.Result.ok s s = .ok t s' ↔ _
  simp [eq_comm]

theorem lift_eq_ok_iff {x : Run ε α} {s s' : σ} {a : α} :
    (lift x : Edit σ ε α) s = .ok a s' ↔ x = .ok a ∧ s' = s := by
  cases x <;> simp [lift, eq_comm]

theorem update_eq_ok_iff {f : σ → Run ε σ} {s s' : σ} {u : Unit} :
    (update f : Edit σ ε Unit) s = .ok u s' ↔ f s = .ok s' := by
  unfold update
  cases f s <;> simp

theorem restate_eq_ok_iff {f : ε → δ} {act : Edit σ ε α} {s s' : σ} {a : α} :
    restate f act s = .ok a s' ↔ act s = .ok a s' := by
  unfold restate
  cases act s <;> simp

theorem restate_restate {γ : Type} (f : ε → δ) (g : δ → γ) (act : Edit σ ε α) :
    restate g (restate f act) = restate (fun e => g (f e)) act := by
  funext s
  unfold restate
  cases act s with
  | ok a t => rfl
  | error stop t => cases stop <;> rfl

theorem restate_bind (f : ε → δ) (act : Edit σ ε α) (next : α → Edit σ ε β) :
    restate f (act >>= next) = restate f act >>= fun a => restate f (next a) := by
  funext s
  change restate f (EStateM.bind act next) s =
    EStateM.bind (restate f act) (fun a => restate f (next a)) s
  unfold restate EStateM.bind
  cases hact : act s <;> simp only [hact]

theorem restate_forM (f : ε → δ) (act : β → Edit σ ε Unit) (items : List β) :
    restate f (items.forM act) = items.forM fun b => restate f (act b) := by
  induction items with
  | nil => rfl
  | cons b items ih =>
    change restate f (act b >>= fun _ => items.forM act) = _
    rw [restate_bind, ih]
    rfl

theorem on_eq_ok_iff {part : σ → τ} {put : τ → σ → σ} {act : Edit τ ε α} {s s' : σ} {a : α} :
    on part put act s = .ok a s' ↔ ∃ t, act (part s) = .ok a t ∧ s' = put t s := by
  unfold on
  cases act (part s) with
  | error stop t => simp
  | ok b t =>
    constructor
    · intro h
      obtain ⟨rfl, rfl⟩ := EStateM.Result.ok.inj h
      exact ⟨t, rfl, rfl⟩
    · rintro ⟨_, h, rfl⟩
      obtain ⟨rfl, rfl⟩ := EStateM.Result.ok.inj h
      rfl

theorem lending_eq_ok_iff {aid : τ} {act : Edit (σ × τ) ε α} {s s' : σ} {a : α} :
    lending aid act s = .ok a s' ↔ ∃ t, act (s, aid) = .ok a (s', t) := by
  unfold lending
  cases act (s, aid) with
  | error stop t => simp
  | ok b t =>
    constructor
    · intro h
      obtain ⟨rfl, rfl⟩ := EStateM.Result.ok.inj h
      exact ⟨t.2, rfl⟩
    · rintro ⟨_, h⟩
      obtain ⟨rfl, rfl⟩ := EStateM.Result.ok.inj h
      rfl

theorem exists_of_result {act : Edit σ ε Unit} {s : σ} (h : (result act s).toBool = true) :
    ∃ s', act s = .ok () s' := by
  unfold result at h
  cases hact : act s with
  | ok u s' => exact ⟨s', rfl⟩
  | error stop s' =>
    rw [hact] at h
    cases h

/-- Whether an edit ends with a value. -/
def ends (act : Edit σ ε α) (s : σ) : Bool :=
  match act s with
  | .ok _ _ => true
  | .error _ _ => false

theorem exists_of_ends {act : Edit σ ε α} {s : σ} (h : act.ends s = true) :
    ∃ a s', act s = .ok a s' := by
  unfold ends at h
  split at h
  · exact ⟨_, _, ‹_›⟩
  · cases h

end Edit

end Acutance
