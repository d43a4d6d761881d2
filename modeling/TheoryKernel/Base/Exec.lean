import Mathlib.Algebra.Group.Nat.Defs
import Mathlib.Tactic.Common

/-! Results of kernel calls that may stop the machine instead of returning. -/

namespace TheoryKernel

/-- The bytes of a file, a packet or a string. -/
abbrev Bytes : Type := List (BitVec 8)

/-- The ways in which a call can fail to return to its caller. -/
inductive Fault where
  /-- An index lies outside the array or slice it selects from. -/
  | indexOutOfBounds
  /-- A slice range is reversed or reaches past the end of its slice. -/
  | sliceOutOfRange
  /-- A slice copy has a source and a destination of different lengths. -/
  | lengthMismatch
  /-- An unchecked access reaches outside the object it is meant for. -/
  | wildAccess
  /-- An explicit assertion does not hold. -/
  | assertionFailed
  /-- A spin lock is taken again by the code that already holds it. -/
  | selfDeadlock
  /-- A loop has used up the budget that stands for running forever. -/
  | diverged
  deriving DecidableEq, Repr

/-- The outcome of a call: its value, or the fault that stopped it. -/
abbrev Exec (α : Type) : Type := Except Fault α

namespace Exec

variable {α β : Type}

/-- A sequence returns exactly when its first part does and the rest returns from there. -/
theorem bind_eq_ok {first : Exec α} {rest : α → Exec β} {result : β} :
    (first >>= rest) = .ok result ↔ ∃ value, first = .ok value ∧ rest value = .ok result := by
  -- A faulting first part is the outcome of the whole sequence.
  cases first with
  | error fault | ok value => simp [Bind.bind, Except.bind]

/-- A sequence whose first part returned continues with that value. -/
@[simp] theorem ok_bind (value : α) (rest : α → Exec β) :
    ((Except.ok value : Exec α) >>= rest) = rest value := rfl

/-- A sequence continues with the value that its first part returns. -/
theorem bind_of_ok {first : Exec α} {rest : α → Exec β} {value : α} (run : first = .ok value) :
    (first >>= rest) = rest value := by
  rw [run, ok_bind]

/-- A fault ends the sequence it occurs in. -/
@[simp] theorem error_bind (fault : Fault) (rest : α → Exec β) :
    ((Except.error fault : Exec α) >>= rest) = .error fault := rfl

/-- Returning a value is the successful outcome. -/
@[simp] theorem pure_eq (value : α) : (pure value : Exec α) = .ok value := rfl

/-- The value of a call has a property, if the call returns. -/
def Ensures (post : α → Prop) (outcome : Exec α) : Prop :=
  ∀ value, outcome = .ok value → post value

namespace Ensures

variable {post : α → Prop} {mid : β → Prop}

/-- A value that is returned has the property. -/
theorem ok {value : α} (holds : post value) : Ensures post (.ok value) := by
  rintro _ ⟨⟩
  exact holds

/-- A fault returns no value. -/
theorem error {fault : Fault} : Ensures post (.error fault) := nofun

/-- A sequence goes on from a value with the property of its first part. -/
theorem bind {first : Exec β} {rest : β → Exec α} (before : Ensures mid first)
    (behind : ∀ value, mid value → Ensures post (rest value)) : Ensures post (first >>= rest) := by
  intro value run
  obtain ⟨between, ran, run⟩ := bind_eq_ok.mp run
  exact behind between (before between ran) value run

end Ensures

/-- The result of an access to an array, which is missing if an index was outside of it. -/
def indexed {α : Type} : Option α → Exec α
  | some value => .ok value
  | none => .error .indexOutOfBounds

/-- The fault that stopped a call, if it was stopped. -/
def fault? {α : Type} : Exec α → Option Fault
  | .ok _ => none
  | .error fault => some fault

/-- A call is stopped by a fault exactly when that fault is its outcome. -/
theorem fault?_eq_some {outcome : Exec α} {fault : Fault} :
    outcome.fault? = some fault ↔ outcome = .error fault := by
  cases outcome <;> simp [fault?]

/-- A call returns exactly when no fault stops it. -/
theorem fault?_eq_none {outcome : Exec α} :
    outcome.fault? = none ↔ ∃ value, outcome = .ok value := by
  cases outcome <;> simp [fault?]

end Exec

/-- The ways in which a call can end without a value: a fault, or an error for its caller. -/
inductive Failure (ε : Type) where
  | fault (fault : Fault)
  | error (error : ε)
  deriving DecidableEq, Repr

/-- The outcome of a call that may also return an error to its caller. -/
abbrev Fallible (ε α : Type) : Type := Except (Failure ε) α

namespace Fallible

variable {ε α β : Type}

/-- Stopping with a fault. -/
def fault (fault : Fault) : Fallible ε α := .error (.fault fault)

/-- Returning an error to the caller. -/
def fail (error : ε) : Fallible ε α := .error (.error error)

variable {first : Fallible ε α} {rest : α → Fallible ε β}

/-- A sequence returns exactly when its first part does and the rest returns from there. -/
theorem bind_eq_ok {result : β} :
    (first >>= rest) = .ok result ↔ ∃ value, first = .ok value ∧ rest value = .ok result := by
  cases first with
  | error failure | ok value => simp [Bind.bind, Except.bind]

/-- A sequence whose first part returned continues with that value. -/
@[simp] theorem ok_bind (value : α) (rest : α → Fallible ε β) :
    ((Except.ok value : Fallible ε α) >>= rest) = rest value := rfl

/-- A failure ends the sequence it occurs in. -/
@[simp] theorem error_bind (failure : Failure ε) (rest : α → Fallible ε β) :
    ((Except.error failure : Fallible ε α) >>= rest) = .error failure := rfl

/-- Whether a call returns to its caller, with a value or with an error. -/
def Returns (outcome : Fallible ε α) : Prop := ∀ fault, outcome ≠ .error (.fault fault)

/-- A value is returned to the caller. -/
@[simp] theorem returns_ok (value : α) : Returns (.ok value : Fallible ε α) := by
  nofun

/-- An error is returned to the caller. -/
@[simp] theorem returns_fail (error : ε) : Returns (Fallible.fail error : Fallible ε α) := by
  nofun

/-- A fault is not returned to the caller. -/
@[simp] theorem not_returns_fault (stopped : Fault) :
    ¬ Returns (Fallible.fault stopped : Fallible ε α) := fun returns => returns stopped rfl

/-- A sequence returns if its first part does and whatever comes after it does. -/
theorem returns_bind_iff :
    Returns (first >>= rest) ↔ Returns first ∧ ∀ value, first = .ok value → Returns (rest value) := by
  cases first with
  | ok value => simp
  | error failure =>
    rw [error_bind]
    constructor
    · intro returns
      refine ⟨?_, fun value impossible => ?_⟩
      · intro fault same
        cases same
        exact returns fault rfl
      · cases impossible
    · intro returns fault same
      cases same
      exact returns.1 fault rfl

end Fallible

end TheoryKernel
