import Mathlib.Tactic.Common

/-! Code that takes locks for parts of its run, and the locks it may not hold already. -/

namespace Locking

variable {ι σ ε α β : Type}

/-- The locks that a call chain holds, unless locks can be taken any number of times. -/
inductive Held (ι : Type) where
  | reentrant
  | exclusive (locks : List ι)

/-- The locks that are held after one more is taken, if it can be. -/
def Held.take [DecidableEq ι] (lock : ι) : Held ι → Option (Held ι)
  | .reentrant => some .reentrant
  | .exclusive locks => if lock ∈ locks then none else some (.exclusive (lock :: locks))

/-- The ways in which code ends without a result. -/
inductive Stop (ε : Type) where
  /-- A lock is taken by the call chain that already holds it. -/
  | deadlock
  | fault (fault : ε)
  deriving DecidableEq

/-- Code with a shared state, run by a call chain that holds some locks. -/
def Code (ι σ ε α : Type) : Type := Held ι → σ → Except (Stop ε) (α × σ)

namespace Code

/-- Code runs in sequence until it stops. -/
instance : Monad (Code ι σ ε) where
  pure value := fun _ state => .ok (value, state)
  bind first rest := fun held state =>
    match first held state with
    | .ok (value, next) => rest value held next
    | .error stop => .error stop

/-- Reading a part of the state. -/
def read (part : σ → α) : Code ι σ ε α := fun _ state => .ok (part state, state)

/-- Changing the state. -/
def modify (change : σ → σ) : Code ι σ ε Unit := fun _ state => .ok ((), change state)

/-- Stopping with a fault. -/
def fault (fault : ε) : Code ι σ ε α := fun _ _ => .error (.fault fault)

/-- The locks that are held here. -/
def locks : Code ι σ ε (List ι) := fun held state =>
  match held with
  | .reentrant => .ok ([], state)
  | .exclusive locks => .ok (locks, state)

/-- Taking a lock for a part of the code, and giving it back behind that part. -/
def withLock [DecidableEq ι] (lock : ι) (body : Code ι σ ε α) : Code ι σ ε α :=
  fun held state =>
    match held.take lock with
    | some inner => body inner state
    | none => .error .deadlock

variable {held : Held ι} {state next : σ} {first : Code ι σ ε α} {rest : α → Code ι σ ε β}
  {body : Code ι σ ε α} {value : α}

@[simp] theorem pure_run (value : α) :
    (pure value : Code ι σ ε α) held state = .ok (value, state) := rfl

@[simp] theorem read_run (part : σ → α) :
    (read part : Code ι σ ε α) held state = .ok (part state, state) := rfl

@[simp] theorem modify_run (change : σ → σ) :
    (modify change : Code ι σ ε Unit) held state = .ok ((), change state) := rfl

/-- A sequence goes on from where its first part ends, unless that stops. -/
theorem bind_run : (first >>= rest) held state =
    match first held state with
    | .ok (value, next) => rest value held next
    | .error stop => .error stop := rfl

/-- A sequence goes on from the value of its first part. -/
theorem bind_ok (run : first held state = .ok (value, next)) :
    (first >>= rest) held state = rest value held next := by
  rw [bind_run, run]

/-- A sequence stops with its first part. -/
theorem bind_error {stop : Stop ε} (run : first held state = .error stop) :
    (first >>= rest) held state = .error stop := by
  rw [bind_run, run]

/-- A sequence that returns has a first part that returns. -/
theorem bind_returned {result : β} {final : σ}
    (run : (first >>= rest) held state = .ok (result, final)) :
    ∃ value next, first held state = .ok (value, next) ∧
      rest value held next = .ok (result, final) := by
  rw [bind_run] at run
  cases start : first held state with
  | ok outcome =>
    rw [start] at run
    exact ⟨outcome.1, outcome.2, rfl, run⟩
  | error stop =>
    rw [start] at run
    cases run

@[simp] theorem read_bind (part : σ → α) :
    (read part >>= rest) held state = rest (part state) held state := rfl

@[simp] theorem modify_bind {rest : Unit → Code ι σ ε β} (change : σ → σ) :
    (modify change >>= rest) held state = rest () held (change state) := rfl

@[simp] theorem pure_bind_run (value : α) :
    (pure value >>= rest) held state = rest value held state := rfl

/-- A value that is wrapped comes from the code that computes it. -/
theorem map_run {wrap : α → β} : (wrap <$> body) held state =
    match body held state with
    | .ok (value, next) => .ok (wrap value, next)
    | .error stop => .error stop := rfl

section Locks

variable [DecidableEq ι] {lock : ι} {locks : List ι}

/-- The part of the code behind a lock runs if the lock can be taken. -/
theorem withLock_run {inner : Held ι} (taken : held.take lock = some inner) :
    withLock lock body held state = body inner state := by
  rw [withLock, taken]

/-- A lock that is held cannot be taken again. -/
theorem withLock_held (isHeld : lock ∈ locks) :
    withLock lock body (.exclusive locks) state = .error .deadlock := by
  rw [withLock, Held.take, if_pos isHeld]

/-- A lock that is not held is held by the part of the code that asks for it. -/
theorem withLock_free (isFree : lock ∉ locks) :
    withLock lock body (.exclusive locks) state = body (.exclusive (lock :: locks)) state :=
  withLock_run (if_neg isFree)

end Locks

/-- Whether code ends in a deadlock with itself. -/
def Deadlocks (body : Code ι σ ε α) (held : Held ι) (state : σ) : Prop :=
  body held state = .error .deadlock

@[simp] theorem not_deadlocks_pure : ¬ (pure value : Code ι σ ε α).Deadlocks held state := nofun

@[simp] theorem not_deadlocks_fault {stop : ε} :
    ¬ (fault stop : Code ι σ ε α).Deadlocks held state := nofun

/-- A sequence deadlocks in its first part or in the rest. -/
theorem deadlocks_bind : (first >>= rest).Deadlocks held state ↔
    first.Deadlocks held state ∨
      ∃ value next, first held state = .ok (value, next) ∧
        (rest value).Deadlocks held next := by
  unfold Deadlocks
  rw [bind_run]
  cases first held state with
  | ok result =>
    obtain ⟨value, next⟩ := result
    simp
  | error stop => simp

/-- A sequence deadlocks in its first part if the rest does not deadlock. -/
theorem deadlocks_bind_left (quiet : ∀ value next, ¬ (rest value).Deadlocks held next) :
    (first >>= rest).Deadlocks held state ↔ first.Deadlocks held state := by
  refine deadlocks_bind.trans (or_iff_left ?_)
  rintro ⟨value, next, -, late⟩
  exact quiet value next late

@[simp] theorem deadlocks_read_bind (part : σ → α) :
    (read part >>= rest).Deadlocks held state ↔ (rest (part state)).Deadlocks held state := Iff.rfl

section Choice

variable {condition : Prop} [Decidable condition] {other : Code ι σ ε α}

/-- A choice deadlocks with its first branch if the second one does not deadlock. -/
theorem deadlocks_ite_left (quiet : ¬ other.Deadlocks held state) :
    (if condition then body else other).Deadlocks held state ↔
      condition ∧ body.Deadlocks held state := by
  by_cases holds : condition
  · rw [if_pos holds, and_iff_right holds]
  · rw [if_neg holds]
    exact iff_of_false quiet fun both => holds both.1

/-- A choice deadlocks with its second branch if the first one does not deadlock. -/
theorem deadlocks_ite_right (quiet : ¬ body.Deadlocks held state) :
    (if condition then body else other).Deadlocks held state ↔
      ¬ condition ∧ other.Deadlocks held state := by
  rw [← ite_not]
  exact deadlocks_ite_left quiet

end Choice

/-- A wrapped value deadlocks with the code that computes it. -/
theorem deadlocks_map {wrap : α → β} :
    (wrap <$> body).Deadlocks held state ↔ body.Deadlocks held state := by
  unfold Deadlocks
  rw [map_run]
  cases body held state with
  | ok result => simp
  | error stop => simp

/--
Code that takes no lock except some, in an order in which it does not take one twice.

Such code does not deadlock in a call chain that holds none of these locks.
-/
def Within (allowed : List ι) (body : Code ι σ ε α) : Prop :=
  ∀ locks state, (∀ lock ∈ allowed, lock ∉ locks) → ¬ body.Deadlocks (.exclusive locks) state

namespace Within

variable {allowed more : List ι}

/-- Code is safe in a call chain that holds no lock. -/
theorem safe (within : Within allowed body) : ¬ body.Deadlocks (.exclusive []) state :=
  within [] state nofun

/-- More locks may be allowed. -/
theorem mono (within : Within allowed body) (subset : ∀ lock ∈ allowed, lock ∈ more) :
    Within more body :=
  fun locks state clear => within locks state fun lock member => clear lock (subset lock member)

theorem pure {value : α} : Within allowed (Pure.pure value : Code ι σ ε α) :=
  nofun

theorem read {part : σ → α} : Within allowed (read part : Code ι σ ε α) :=
  nofun

theorem modify {change : σ → σ} : Within allowed (modify change : Code ι σ ε Unit) :=
  nofun

theorem locks : Within allowed (locks : Code ι σ ε (List ι)) :=
  nofun

theorem fault {stop : ε} : Within allowed (fault stop : Code ι σ ε α) :=
  nofun

/-- A sequence takes the locks of its parts. -/
theorem bind (within : Within allowed first) (further : ∀ value, Within allowed (rest value)) :
    Within allowed (first >>= rest) := by
  intro locks state clear stuck
  rcases deadlocks_bind.mp stuck with early | ⟨value, next, -, late⟩
  · exact within locks state clear early
  · exact further value locks next clear late

/-- A wrapped value takes the locks of the code that computes it. -/
theorem map {wrap : α → β} (within : Within allowed body) : Within allowed (wrap <$> body) :=
  within.bind fun _ => pure

/-- A lock that the body does not take itself may be taken around it. -/
theorem withLock [DecidableEq ι] {lock : ι} (within : Within allowed body)
    (fresh : lock ∉ allowed) : Within (lock :: allowed) (withLock lock body) := by
  intro locks state clear stuck
  unfold Deadlocks at stuck
  rw [withLock_free (clear lock List.mem_cons_self)] at stuck
  refine within (lock :: locks) state ?_ stuck
  intro other member
  rw [List.mem_cons, not_or]
  refine ⟨?_, clear other (List.mem_cons_of_mem lock member)⟩
  rintro rfl
  exact fresh member

end Within

end Code

end Locking
