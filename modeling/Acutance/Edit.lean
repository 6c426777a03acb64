import Acutance.Fault

namespace Acutance

/-- A computation on a value in place. When it stops early, the owner of the value is left with
whatever had been made of it by then. -/
abbrev Edit (σ ε α : Type) := EStateM (Stop ε) σ α

namespace Edit

variable {σ τ ε δ α : Type}

/-- A computation that does not touch the value. -/
def lift (x : Run ε α) : Edit σ ε α := fun s =>
  match x with
  | .ok a => .ok a s
  | .error stop => .error stop s

/-- Replaces the value by what `f` makes of it. The value stays when `f` stops early. -/
def update (f : σ → Run ε σ) : Edit σ ε Unit := fun s =>
  match f s with
  | .ok s' => .ok () s'
  | .error stop => .error stop s

/-- Restates the error of an edit. -/
def restate (f : ε → δ) (act : Edit σ ε α) : Edit σ δ α := fun s =>
  match act s with
  | .ok a s' => .ok a s'
  | .error stop s' => .error (stop.map f) s'

/-- Works on one part of a value and puts that part back, also after an early stop. -/
def on (part : σ → τ) (put : τ → σ → σ) (act : Edit τ ε α) : Edit σ ε α := fun s =>
  match act (part s) with
  | .ok a t => .ok a (put t s)
  | .error stop t => .error stop (put t s)

/-- Lends `aid` to an edit, and drops it in the end. -/
def lending (aid : τ) (act : Edit (σ × τ) ε α) : Edit σ ε α := fun s =>
  match act (s, aid) with
  | .ok a (s', _) => .ok a s'
  | .error stop (s', _) => .error stop s'

/-- The edited value, or the reason why the edit stopped early. -/
def result (act : Edit σ ε Unit) (s : σ) : Run ε σ :=
  match act s with
  | .ok _ s' => .ok s'
  | .error stop _ => .error stop

end Edit

end Acutance
