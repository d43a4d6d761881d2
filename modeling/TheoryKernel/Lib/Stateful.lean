import Mathlib.Tactic.Common

/-! Programs that change a state and may fail, with rules of pre- and postconditions. -/

/-- A program that may fail, and that leaves a state behind in both cases. -/
abbrev Stateful (σ ε α : Type) : Type := ExceptT ε (StateM σ) α

namespace Stateful

variable {σ ε α β : Type}

/-- The outcome of a program and the state it leaves behind. -/
def exec (program : Stateful σ ε α) (state : σ) : Except ε α × σ := program.run.run state

/-- The outcome of a computation that does not touch the state. -/
def ofExcept (outcome : Except ε α) : Stateful σ ε α := fun state => (outcome, state)

/-- A program that computes its outcome and the new state. -/
def lift (step : σ → Except ε α × σ) : Stateful σ ε α := step

/-- A program that reports another failure than the one it meets. -/
def liftAs {δ : Type} (error : ε) (step : σ → Except δ α × σ) : Stateful σ ε α := fun state =>
  match step state with
  | (.ok value, next) => (.ok value, next)
  | (.error _, next) => (.error error, next)

@[simp] theorem exec_lift (step : σ → Except ε α × σ) (state : σ) :
    (lift step).exec state = step state := rfl

@[simp] theorem exec_pure (value : α) (state : σ) :
    (pure value : Stateful σ ε α).exec state = (.ok value, state) := rfl

/-- A sequence goes on from where its first part ends, unless that fails. -/
theorem exec_bind (first : Stateful σ ε α) (rest : α → Stateful σ ε β) (state : σ) :
    (first >>= rest).exec state =
      match first.exec state with
      | (.ok value, next) => (rest value).exec next
      | (.error error, next) => (.error error, next) := by
  change (ExceptT.bind first rest) state = _
  unfold ExceptT.bind ExceptT.mk
  change (match first state with
    | (outcome, next) => ExceptT.bindCont rest outcome next) = _
  change _ = match first state with
    | (.ok value, next) => (rest value) next
    | (.error error, next) => (.error error, next)
  rcases first state with ⟨outcome, next⟩
  cases outcome with
  | ok value => rfl
  | error error => rfl

variable {inv : σ → Prop} {first : Stateful σ ε α} {value : α} {outcome : Except ε α}

/-- A sequence goes on from the value of its first part. -/
theorem exec_bind_ok {rest : α → Stateful σ ε β} {state next : σ}
    (run : first.exec state = (.ok value, next)) :
    (first >>= rest).exec state = (rest value).exec next := by
  rw [exec_bind, run]

/-- A sequence ends with a failure of its first part. -/
theorem exec_bind_error {rest : α → Stateful σ ε β} {state next : σ} {error : ε}
    (run : first.exec state = (.error error, next)) :
    (first >>= rest).exec state = (.error error, next) := by
  rw [exec_bind, run]

/-- A sequence fails as its first part does. -/
theorem exec_bind_failed {rest : α → Stateful σ ε β} {state : σ} {error : ε}
    (failed : (first.exec state).1 = .error error) :
    ((first >>= rest).exec state).1 = .error error := by
  rcases run : first.exec state with ⟨outcome, next⟩
  rw [run] at failed
  cases failed
  rw [exec_bind_error run]

/--
A program that starts with a property ends with another one.

One property is for the state that a value comes with, and one for the state that a failure leaves.
-/
def Triple (pre : σ → Prop) (program : Stateful σ ε α) (post : α → σ → Prop)
    (failed : ε → σ → Prop) : Prop :=
  ∀ state, pre state → match program.exec state with
    | (.ok value, next) => post value next
    | (.error error, next) => failed error next

variable {pre pre' : σ → Prop} {mid post post' : α → σ → Prop} {last : β → σ → Prop}
  {failed : ε → σ → Prop} {program : Stateful σ ε α}

/-- A triple applies to a run that returned. -/
theorem Triple.ok (triple : Triple pre program post failed) {state next : σ} (start : pre state)
    (run : program.exec state = (.ok value, next)) : post value next := by
  have result := triple state start
  rw [run] at result
  exact result

/-- A triple applies to a run that failed. -/
theorem Triple.error (triple : Triple pre program post failed) {state next : σ} {error : ε}
    (start : pre state) (run : program.exec state = (.error error, next)) : failed error next := by
  have result := triple state start
  rw [run] at result
  exact result

/-- Less may be required of the result, and more may be known at the start. -/
theorem Triple.weaken (triple : Triple pre program post failed)
    (stronger : ∀ state, pre' state → pre state)
    (weaker : ∀ value state, post value state → post' value state) :
    Triple pre' program post' failed := by
  intro state start
  have result := triple state (stronger state start)
  rcases run : program.exec state with ⟨outcome, next⟩
  rw [run] at result
  cases outcome with
  | ok value => exact weaker value next result
  | error error => exact result

/-- A value that is returned at once. -/
theorem Triple.pure (holds : ∀ state, pre state → post value state) :
    Triple pre (pure value : Stateful σ ε α) post failed := holds

/-- A value that is returned at once keeps what holds. -/
theorem Triple.skip : Triple pre (Pure.pure value : Stateful σ ε α) (fun _ => pre) failed :=
  Triple.pure fun _ holds => holds

/-- A computation that does not touch the state. -/
theorem Triple.ofExcept
    (ok : ∀ value, outcome = .ok value → ∀ state, pre state → post value state)
    (error : ∀ error, outcome = .error error → ∀ state, pre state → failed error state) :
    Triple pre (ofExcept outcome) post failed := by
  intro state start
  cases outcome with
  | ok value => exact ok value rfl state start
  | error failure => exact error failure rfl state start

/-- A sequence. -/
theorem Triple.bind {rest : α → Stateful σ ε β} (first : Triple pre program mid failed)
    (second : ∀ value, Triple (mid value) (rest value) last failed) :
    Triple pre (program >>= rest) last failed := by
  intro state start
  have result := first state start
  rw [exec_bind]
  rcases run : program.exec state with ⟨outcome, next⟩
  rw [run] at result
  cases outcome with
  | ok value => exact second value next result
  | error error => exact result

/-- A sequence whose first part keeps the property it starts with. -/
theorem Triple.seq {rest : α → Stateful σ ε β} (first : Triple pre program (fun _ => pre) failed)
    (second : ∀ value, Triple pre (rest value) last failed) :
    Triple pre (program >>= rest) last failed := first.bind second

/-- A program keeps a property of the state, also if it fails. -/
abbrev Keeps (inv : σ → Prop) (program : Stateful σ ε α) : Prop :=
  Triple inv program (fun _ => inv) (fun _ => inv)

/-- The state that a program leaves behind has the property that the program keeps. -/
theorem Keeps.state {state : σ} (keeps : Keeps inv program) (holds : inv state) :
    inv (program.exec state).2 := by
  have result := keeps state holds
  rcases run : program.exec state with ⟨outcome, next⟩
  rw [run] at result
  cases outcome with
  | ok value | error failure => exact result

/-- A program that is run for each item of a list. -/
def forEach {ι : Type} (body : ι → Stateful σ ε Unit) : List ι → Stateful σ ε Unit
  | [] => Pure.pure ()
  | item :: rest => do
    body item
    forEach body rest

/-- A loop keeps what each of its rounds keeps. -/
theorem Triple.forEach {ι : Type} {body : ι → Stateful σ ε Unit} {items : List ι}
    (round : ∀ item ∈ items, Triple pre (body item) (fun _ => pre) failed) :
    Triple pre (forEach body items) (fun _ => pre) failed := by
  induction items with
  | nil => exact .pure fun _ holds => holds
  | cons item rest ih =>
    apply Triple.bind (round item List.mem_cons_self)
    intro _
    exact ih fun other member => round other (List.mem_cons_of_mem item member)

/-- A program has one outcome in all states with a property, and it keeps the property. -/
def Gives (inv : σ → Prop) (program : Stateful σ ε α) (outcome : Except ε α) : Prop :=
  ∀ state, inv state → ∃ next, program.exec state = (outcome, next) ∧ inv next

/-- A program has one outcome in all states with a property, and its value has a property too. -/
structure GivesThat (inv : σ → Prop) (holds : α → Prop) (program : Stateful σ ε α)
    (outcome : Except ε α) : Prop where
  gives : Gives inv program outcome
  value : ∀ value, outcome = .ok value → holds value

variable {holds : α → Prop} {after : β → Prop}

/-- A computation that does not touch the state has its own outcome. -/
theorem GivesThat.ofExcept (known : ∀ value, outcome = .ok value → holds value) :
    GivesThat inv holds (Stateful.ofExcept outcome) outcome :=
  ⟨fun state start => ⟨state, rfl, start⟩, known⟩

/-- A value is returned in all states. -/
theorem GivesThat.pure (known : holds value) :
    GivesThat inv holds (Pure.pure value : Stateful σ ε α) (.ok value) :=
  GivesThat.ofExcept fun _ same => Except.ok.inj same ▸ known

/-- A sequence has the outcome of its parts, one after the other. -/
theorem GivesThat.bind {rest : α → Stateful σ ε β} {outcomes : α → Except ε β}
    (first : GivesThat inv holds program outcome)
    (second : ∀ value, holds value → GivesThat inv after (rest value) (outcomes value)) :
    GivesThat inv after (program >>= rest) (outcome >>= outcomes) := by
  cases outcome with
  | ok value =>
    have next := second value (first.value value rfl)
    refine ⟨fun state start => ?_, next.value⟩
    obtain ⟨middle, run, kept⟩ := first.gives state start
    rw [exec_bind_ok run]
    exact next.gives middle kept
  | error failure =>
    refine ⟨fun state start => ?_, nofun⟩
    obtain ⟨middle, run, kept⟩ := first.gives state start
    exact ⟨middle, exec_bind_error run, kept⟩

end Stateful
