import TheoryKernel.Ipc.Wait

/-! The table of user addresses that threads wait at. -/

namespace TheoryKernel.Ipc

open Function

/-- The number of addresses that the table can hold. -/
def maxFutex : Nat := 128

/-- An address, and the threads that wait at it. -/
structure FutexEntry where
  addr : Nat
  waiters : WaitQueue

/-- The slots of the table. -/
abbrev FutexTable : Type := Nat → Option FutexEntry

namespace FutexTable

/-- Whether a slot is for an address. -/
def isAt (table : FutexTable) (addr slot : Nat) : Bool :=
  match table slot with
  | some entry => entry.addr == addr
  | none => false

/-- The slot of an address, a new one if there is none, or the first one if no slot is left. -/
def findOrCreate (table : FutexTable) (addr : Nat) : Nat × FutexTable :=
  match (List.range maxFutex).find? (table.isAt addr) with
  | some slot => (slot, table)
  | none =>
    match (List.range maxFutex).find? fun slot => (table slot).isNone with
    | some slot => (slot, update table slot (some ⟨addr, .new⟩))
    | none => (0, table)

/-- Waking threads at an address, with their number and the threads themselves. -/
def futexWake (table : FutexTable) (addr count : Nat) : Nat × List Nat × FutexTable :=
  match (List.range maxFutex).find? (table.isAt addr) with
  | none => (0, [], table)
  | some slot =>
    match table slot with
    | none => (0, [], table)
    | some entry =>
      let (woken, waiters) := entry.waiters.popMany count
      (woken.length, woken, update table slot (some { entry with waiters }))

variable {table : FutexTable} {addr slot : Nat}

/-- A slot is for an address if it has an entry with it. -/
theorem isAt_iff :
    table.isAt addr slot = true ↔ ∃ entry, table slot = some entry ∧ entry.addr = addr := by
  unfold isAt
  cases table slot with
  | none => simp
  | some entry => simp

variable {entry : FutexEntry} {other : Nat}

/-- A slot with another entry is for the address of that entry. -/
theorem isAt_update :
    isAt (update table slot (some entry)) addr slot = true ↔ entry.addr = addr := by
  rw [isAt_iff, update_self]
  simp

/-- Another slot is for the address that it was for. -/
theorem isAt_update_of_ne {entry : Option FutexEntry} (differ : other ≠ slot) :
    isAt (update table slot entry) addr other = table.isAt addr other := by
  rw [isAt, update_of_ne differ, isAt]

/-- An entry with other waiters is for the same address. -/
theorem isAt_waiters {waiters : WaitQueue} (found : table slot = some entry) :
    isAt (update table slot (some { entry with waiters })) addr other =
      table.isAt addr other := by
  by_cases same : other = slot
  · subst same
    rw [Bool.eq_iff_iff, isAt_update, isAt_iff]
    simp [found]
  · exact isAt_update_of_ne same

/-- No address has two slots. -/
def Apart (table : FutexTable) : Prop :=
  ∀ addr first second, first < maxFutex → second < maxFutex →
    table.isAt addr first = true → table.isAt addr second = true → first = second

/-- A new slot is for an address that had none. -/
theorem Apart.add (apart : table.Apart)
    (unknown : ∀ other < maxFutex, table.isAt addr other = false) :
    Apart (update table slot (some ⟨addr, .new⟩)) := by
  intro place first second firstInside secondInside here there
  by_cases isFirst : first = slot
  · by_cases isSecond : second = slot
    · rw [isFirst, isSecond]
    · subst isFirst
      rw [isAt_update] at here
      rw [isAt_update_of_ne isSecond, ← here, unknown second secondInside] at there
      cases there
  · rw [isAt_update_of_ne isFirst] at here
    by_cases isSecond : second = slot
    · subst isSecond
      rw [isAt_update] at there
      rw [← there, unknown first firstInside] at here
      cases here
    · rw [isAt_update_of_ne isSecond] at there
      exact apart place first second firstInside secondInside here there

/-- An entry with other waiters is for the address that it was for. -/
theorem Apart.waiters (apart : table.Apart) {waiters : WaitQueue}
    (found : table slot = some entry) :
    Apart (update table slot (some { entry with waiters })) := by
  intro addr first second
  rw [isAt_waiters found, isAt_waiters found]
  exact apart addr first second

/--
What the search for the slot of an address can find.

There is a slot for it already, or a free slot becomes one, or the first slot has to do.
-/
theorem findOrCreate_cases (table : FutexTable) (addr : Nat) :
    (∃ slot < maxFutex, table.isAt addr slot = true ∧ table.findOrCreate addr = (slot, table)) ∨
    (∃ slot < maxFutex, table slot = none ∧ (∀ other < maxFutex, table.isAt addr other = false) ∧
      table.findOrCreate addr = (slot, update table slot (some ⟨addr, .new⟩))) ∨
    ((∀ slot < maxFutex, table.isAt addr slot = false ∧ table slot ≠ none) ∧
      table.findOrCreate addr = (0, table)) := by
  unfold findOrCreate
  cases known : (List.range maxFutex).find? (table.isAt addr) with
  | some slot =>
    exact .inl ⟨slot, List.mem_range.mp (List.mem_of_find?_eq_some known),
      List.find?_some known, rfl⟩
  | none =>
    have unknown : ∀ other < maxFutex, table.isAt addr other = false := by
      intro other inside
      exact eq_false_of_ne_true (List.find?_eq_none.mp known other (List.mem_range.mpr inside))
    cases free : (List.range maxFutex).find? fun slot => (table slot).isNone with
    | some slot =>
      have empty := List.find?_some free
      exact .inr (.inl ⟨slot, List.mem_range.mp (List.mem_of_find?_eq_some free),
        Option.isNone_iff_eq_none.mp empty, unknown, rfl⟩)
    | none =>
      refine .inr (.inr ⟨fun slot inside => ⟨unknown slot inside, fun empty => ?_⟩, rfl⟩)
      exact List.find?_eq_none.mp free slot (List.mem_range.mpr inside)
        (Option.isNone_iff_eq_none.mpr empty)

/-- The slot of an address is one of the table, and it is not empty. -/
theorem findOrCreate_slot (table : FutexTable) (addr : Nat) :
    (table.findOrCreate addr).1 < maxFutex ∧
      ∃ entry, (table.findOrCreate addr).2 (table.findOrCreate addr).1 = some entry := by
  rcases findOrCreate_cases table addr with
    ⟨slot, inside, known, same⟩ | ⟨slot, inside, -, -, same⟩ | ⟨full, same⟩
  · obtain ⟨entry, here, -⟩ := isAt_iff.mp known
    rw [same]
    exact ⟨inside, entry, here⟩
  · rw [same]
    exact ⟨inside, _, update_self ..⟩
  · -- No slot is empty, so neither is the first one.
    rw [same]
    have first : 0 < maxFutex := by decide
    exact ⟨first, Option.ne_none_iff_exists'.mp (full 0 first).2⟩

/--
What a wake-up can find.

There is no slot for the address, or threads are taken from the queue of the slot for it.
-/
theorem futexWake_cases (table : FutexTable) (addr count : Nat) :
    ((∀ slot < maxFutex, table.isAt addr slot = false) ∧
      table.futexWake addr count = (0, [], table)) ∨
    ∃ slot entry, slot < maxFutex ∧ table slot = some entry ∧ entry.addr = addr ∧
      table.futexWake addr count = ((entry.waiters.popMany count).1.length,
        (entry.waiters.popMany count).1, update table slot
          (some { entry with waiters := (entry.waiters.popMany count).2 })) := by
  unfold futexWake
  cases known : (List.range maxFutex).find? (table.isAt addr) with
  | none =>
    refine .inl ⟨fun slot inside => eq_false_of_ne_true ?_, rfl⟩
    exact List.find?_eq_none.mp known slot (List.mem_range.mpr inside)
  | some slot =>
    obtain ⟨entry, found, named⟩ := isAt_iff.mp (List.find?_some known)
    refine .inr
      ⟨slot, entry, List.mem_range.mp (List.mem_of_find?_eq_some known), found, named, ?_⟩
    dsimp only
    rw [found]

end FutexTable

end TheoryKernel.Ipc
