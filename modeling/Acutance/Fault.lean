namespace Acutance

/-- The rule of arithmetic or indexing that a computation broke when it cannot go on. -/
inductive Fault where
  | addOverflow
  | subOverflow
  | mulOverflow
  | divOverflow
  | remOverflow
  | divByZero
  | remByZero
  /-- The oldest row had to leave a window that held none. -/
  | emptyWindow
  /-- A row at or below the bottom edge was asked for. -/
  | rowOutOfRange
  /-- More samples were asked for than memory can address. -/
  | capacityOverflow
  deriving DecidableEq, Repr

/-- The text of an arithmetic fault. The other faults have no text of their own. -/
def Fault.message? : Fault → Option String
  | .addOverflow => some "attempt to add with overflow"
  | .subOverflow => some "attempt to subtract with overflow"
  | .mulOverflow => some "attempt to multiply with overflow"
  | .divOverflow => some "attempt to divide with overflow"
  | .remOverflow => some "attempt to calculate the remainder with overflow"
  | .divByZero => some "attempt to divide by zero"
  | .remByZero => some "attempt to calculate the remainder with a divisor of zero"
  | .emptyWindow | .rowOutOfRange | .capacityOverflow => none

/-- A computation that can only end early by a fault. -/
abbrev Checked := Except Fault

/-- A computation that goes on has a value when both of its parts have. -/
theorem bind_eq_ok_iff {ε α β : Type} {x : Except ε α} {f : α → Except ε β} {b : β} :
    (x >>= f) = .ok b ↔ ∃ a, x = .ok a ∧ f a = .ok b := by
  cases x <;> simp [bind, Except.bind]

/-- Why a computation stopped before it had a value. Nothing can go on from a fault; an error is an
answer that the caller can act on. -/
inductive Stop (ε : Type) where
  | fault (fault : Fault)
  | error (error : ε)
  deriving DecidableEq, Repr

/-- Restates the error, and leaves a fault as it is. -/
def Stop.map {ε δ : Type} (restate : ε → δ) : Stop ε → Stop δ
  | fault f => fault f
  | error e => error (restate e)

/-- A computation that can end early by a fault or by an error. -/
abbrev Run (ε : Type) := Except (Stop ε)

namespace Run

variable {ε δ α : Type}

/-- A computation without errors of its own. -/
def ofChecked (x : Checked α) : Run ε α := x.mapError .fault

/-- A computation without faults of its own. -/
def ofExcept (x : Except ε α) : Run ε α := x.mapError .error

/-- Restates the error of a computation. -/
def restate (f : ε → δ) (x : Run ε α) : Run δ α := x.mapError (Stop.map f)

@[simp] theorem ofChecked_ok (a : α) : (ofChecked (.ok a) : Run ε α) = .ok a := rfl

@[simp] theorem ofChecked_error (f : Fault) :
    (ofChecked (.error f) : Run ε α) = .error (.fault f) := rfl

@[simp] theorem ofExcept_ok (a : α) : (ofExcept (.ok a) : Run ε α) = .ok a := rfl

@[simp] theorem ofExcept_error (e : ε) : (ofExcept (.error e) : Run ε α) = .error (.error e) := rfl

@[simp] theorem restate_ok (f : ε → δ) (a : α) : restate f (.ok a) = .ok a := rfl

@[simp] theorem restate_error (f : ε → δ) (s : Stop ε) :
    (restate f (.error s) : Run δ α) = .error (s.map f) := rfl

end Run

end Acutance
