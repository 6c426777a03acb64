import Acutance.Proofs.Buffer.Layout

namespace Acutance

/-- A kind of things among all of them. -/
structure Slot (α β : Type) where
  wrap : β → α
  pick : α → Option β

namespace Slot

/-- All things alike. -/
def all (α : Type) : Slot α α := ⟨id, some⟩

variable {α α' β β' γ γ' ε : Type}

/-- What is held at a place. -/
def find (slot : Slot α β) (missing : Nat → ε) (place : Nat) : Edit (List α) ε β := fun held =>
  match held[place]?.bind slot.pick with
  | some b => .ok b held
  | none => .error (.error (missing place)) held

/-- Puts something behind all that is held. -/
def add (slot : Slot α β) (x : Run ε β) : Edit (List α) ε Unit := do
  let b ← Edit.lift x
  modify fun held => held ++ [slot.wrap b]

/-- Edits what is held at a place. -/
def edit (slot : Slot α β) (missing : Nat → ε) (place : Nat) (act : Edit β ε Unit) :
    Edit (List α) ε Unit := do
  let b ← slot.find missing place
  Edit.on (fun _ => b) (fun b held => held.set place (slot.wrap b)) act

/-- Edits what is held at two places. -/
def editBoth (slot : Slot α β) (slot' : Slot α γ) (missing : Nat → ε) (place place' : Nat)
    (act : Edit (β × γ) ε Unit) : Edit (List α) ε Unit := do
  let b ← slot.find missing place
  let c ← slot'.find missing place'
  Edit.on (fun _ => (b, c))
    (fun (b, c) held => (held.set place (slot.wrap b)).set place' (slot'.wrap c)) act

/-- A kind of buffers that holds the layout of a kind of values. -/
structure LaysOut (layout : α → α') (value : β → β') (slot' : Slot α' β') (slot : Slot α β) : Prop where
  wrap_eq : ∀ b, slot'.wrap (value b) = layout (slot.wrap b)
  pick_eq : ∀ a, slot'.pick (layout a) = (slot.pick a).map value

namespace LaysOut

open Edit (Realizes)

variable {layout : α → α'} {value : β → β'} {slot' : Slot α' β'} {slot : Slot α β}

theorem find (h : LaysOut layout value slot' slot) (missing : Nat → ε) (place : Nat) :
    Realizes (List.map layout) value (slot'.find (fun n => .refused (missing n)) place)
      (slot.find missing place) := by
  intro held
  have hpick : (held.map layout)[place]?.bind slot'.pick = (held[place]?.bind slot.pick).map value := by
    rw [List.getElem?_map]
    cases held[place]? with
    | none => rfl
    | some a => exact h.pick_eq a
  unfold Slot.find
  rw [hpick]
  cases held[place]?.bind slot.pick <;> rfl

theorem add (h : LaysOut layout value slot' slot) {x : Run ε β} {x' : Run (Flaw ε) β'}
    (hx : x' = x.laidOut value) : Realizes (List.map layout) id (slot'.add x') (slot.add x) :=
  .bind (.lift hx) fun b => .modifying fun held => by
    rw [List.map_append, List.map_singleton, h.wrap_eq]

theorem edit (h : LaysOut layout value slot' slot) {act : Edit β ε Unit} {act' : Edit β' (Flaw ε) Unit}
    (hact : Realizes value id act' act) (missing : Nat → ε) (place : Nat) :
    Realizes (List.map layout) id (slot'.edit (fun n => .refused (missing n)) place act')
      (slot.edit missing place act) :=
  .bind (h.find missing place) fun _ => .on hact (fun _ => rfl) fun b held => by
    rw [List.map_set, h.wrap_eq]

theorem editBoth {value' : γ → γ'} {second' : Slot α' γ'} {second : Slot α γ}
    (h : LaysOut layout value slot' slot) (hsecond : LaysOut layout value' second' second)
    {act : Edit (β × γ) ε Unit} {act' : Edit (β' × γ') (Flaw ε) Unit}
    (hact : Realizes (Prod.map value value') id act' act) (missing : Nat → ε) (place place' : Nat) :
    Realizes (List.map layout) id
      (slot'.editBoth second' (fun n => .refused (missing n)) place place' act')
      (slot.editBoth second missing place place' act) :=
  .bind (h.find missing place) fun _ => .bind (hsecond.find missing place') fun _ =>
    .on hact (fun _ => rfl) fun (b, c) held => by
      rw [List.map_set, List.map_set]
      dsimp only [Prod.map_apply]
      rw [h.wrap_eq, hsecond.wrap_eq]

end LaysOut

end Slot

namespace Edit

variable {σ τ ε : Type}

/-- Goes on behind an edit that is refused. Gives the error, if there was one. -/
def answer (act : Edit σ ε Unit) : Edit σ Empty (Option ε) := fun s =>
  match act s with
  | .ok _ s' => .ok none s'
  | .error (.error e) s' => .ok (some e) s'
  | .error (.fault f) s' => .error (.fault f) s'

theorem answer_eq_ok_iff {act : Edit σ ε Unit} {s s' : σ} {answer : Option ε} :
    act.answer s = .ok answer s' ↔ answer = none ∧ act s = .ok () s' ∨
      ∃ e, answer = some e ∧ act s = .error (.error e) s' := by
  unfold Edit.answer
  rcases act s with ⟨_, t⟩ | ⟨fault | e, t⟩
  · simp [eq_comm]
  · simp
  · constructor
    · intro h
      cases h
      exact .inr ⟨e, rfl, rfl⟩
    · rintro (⟨-, h⟩ | ⟨_, rfl, h⟩)
      · cases h
      · cases h
        rfl

/-- Edits that cannot be told apart are answered alike. -/
theorem Matches.answer_eq_ok_iff {act act' : Edit σ ε Unit} (h : act.Matches act') {s s' : σ}
    {answer : Option ε} : act.answer s = .ok answer s' ↔ act'.answer s = .ok answer s' := by
  have hs := h s
  unfold Edit.answer
  generalize act s = r, act' s = r' at hs ⊢
  cases hs <;> simp

/-- Goes on behind an edit of buffers that is refused, but behind no other flaw. -/
def answerGuarded (act : Edit τ (Flaw ε) Unit) : Edit τ (Flaw Empty) (Option ε) := fun s =>
  match act s with
  | .ok _ s' => .ok none s'
  | .error (.error (.refused e)) s' => .ok (some e) s'
  | .error (.error (.outside first last size)) s' => .error (.error (.outside first last size)) s'
  | .error (.error (.countOverflow count)) s' => .error (.error (.countOverflow count)) s'
  | .error (.error .zeroDivisor) s' => .error (.error .zeroDivisor) s'
  | .error (.fault f) s' => .error (.fault f) s'

theorem Realizes.answer {layout : σ → τ} {act : Edit σ ε Unit} {act' : Edit τ (Flaw ε) Unit}
    (h : Realizes layout id act' act) : Realizes layout id act'.answerGuarded act.answer := by
  intro s
  unfold answerGuarded Edit.answer
  rw [h s]
  rcases act s with ⟨u, t⟩ | ⟨fault | e, t⟩ <;> rfl

end Edit

end Acutance
