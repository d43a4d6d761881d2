import Mathlib.Tactic.Common

/-! Sequences of operations that may fail, and properties that last through them. -/

namespace Runs

variable {σ ο ε : Type} (step : σ → ο → Except ε σ) (check : σ → ο → Bool)

/-- Operations applied one after another, until one of them fails. -/
def run (state : σ) (ops : List ο) : Except ε σ := ops.foldlM step state

/-- Whether every operation of a sequence passes a check in the state where it is applied. -/
def everyStep : σ → List ο → Bool
  | _, [] => true
  | state, op :: ops =>
    check state op &&
      match step state op with
      | .ok next => everyStep next ops
      | .error _ => true

variable {step check} {state final : σ} {ops : List ο}

@[simp] theorem run_nil : run step state [] = .ok state := rfl

/-- A run starts with its first operation and goes on from where that one ends. -/
theorem run_cons {op : ο} {next : σ} (first : step state op = .ok next) :
    run step state (op :: ops) = run step next ops := by
  rw [run, List.foldlM_cons, first]
  rfl

private theorem everyStep_cons {op : ο} {next : σ} (first : step state op = .ok next) :
    everyStep step check state (op :: ops) = true ↔
      check state op = true ∧ everyStep step check next ops = true := by
  rw [everyStep, first, Bool.and_eq_true]

/-- Operations that pass a check in every state pass it one after another. -/
theorem everyStep_of_forall {valid : ο → Bool} (all : ∀ op ∈ ops, valid op = true) :
    everyStep step (fun _ op => valid op) state ops = true := by
  induction ops generalizing state with
  | nil => rfl
  | cons op ops ih =>
    rw [everyStep, all op List.mem_cons_self, Bool.true_and]
    split
    · exact ih fun other member => all other (List.mem_cons_of_mem op member)
    · rfl

/-- A property that every checked operation keeps holds at the end of every run that returns. -/
theorem holds_of_run (holds : σ → Prop)
    (keep : ∀ state op next, holds state → check state op = true → step state op = .ok next →
      holds next)
    (start : holds state) (checked : everyStep step check state ops = true)
    (returned : run step state ops = .ok final) : holds final := by
  -- One operation is taken off the front, and the property moves to the state behind it.
  induction ops generalizing state with
  | nil =>
    cases returned
    exact start
  | cons op ops ih =>
    cases first : step state op with
    | error fault =>
      rw [run, List.foldlM_cons, first] at returned
      cases returned
    | ok next =>
      rw [everyStep_cons first] at checked
      rw [run_cons first] at returned
      exact ih (keep state op next start checked.1 first) checked.2 returned

/-- If every checked operation returns and keeps a property, then every run returns with it. -/
theorem run_returns (holds : σ → Prop)
    (advance : ∀ state op, holds state → check state op = true →
      ∃ next, step state op = .ok next ∧ holds next)
    (start : holds state) (checked : everyStep step check state ops = true) :
    ∃ final, run step state ops = .ok final ∧ holds final := by
  induction ops generalizing state with
  | nil => exact ⟨state, rfl, start⟩
  | cons op ops ih =>
    -- The check of the first operation comes before anything about its outcome.
    have allowed : check state op = true := by
      rw [everyStep, Bool.and_eq_true] at checked
      exact checked.1
    obtain ⟨next, first, kept⟩ := advance state op start allowed
    rw [everyStep_cons first] at checked
    rw [run_cons first]
    exact ih kept checked.2

/-- Whether a result is there and passes a test. -/
def passes (test : σ → Prop) [DecidablePred test] : Except ε σ → Bool
  | .ok final => test final
  | .error _ => false

/-- A result that passes a test is there. -/
theorem exists_of_passes {test : σ → Prop} [DecidablePred test] {result : Except ε σ}
    (passed : passes test result = true) : ∃ final, result = .ok final ∧ test final := by
  cases result with
  | ok final => exact ⟨final, rfl, of_decide_eq_true passed⟩
  | error fault => cases passed

end Runs
