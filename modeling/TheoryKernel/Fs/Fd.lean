import Mathlib.Algebra.Order.BigOperators.Group.Finset
import TheoryKernel.Fs.Inode
import TheoryKernel.Lib.Slots

/-! The table of open files that each process has. -/

namespace TheoryKernel.Fs

/-- The number of descriptors of a process. -/
def maxFds : Nat := 256

/-- The flag of a descriptor that is closed when another program is started. -/
def fdCloexec : BitVec 8 := 1

/-- What a descriptor stands for. -/
inductive FdEntry where
  | consoleIn
  | consoleOut
  | consoleErr
  | pipeRead (id : Nat)
  | pipeWrite (id : Nat)
  | vfs (file : OpenFile)
  | socket (id : Nat)
  | unixSocket (id : Nat)
  | anon
  deriving DecidableEq, Repr

namespace FdEntry

/-- Whether a descriptor stands for an end of a pipe. -/
def isPipe : FdEntry → Bool
  | .pipeRead _ | .pipeWrite _ => true
  | _ => false

/-- How often a slot stands for something: once or not at all. -/
def weight (entry : FdEntry) (slot : Option FdEntry) : Nat := if slot = some entry then 1 else 0

end FdEntry

/-- The descriptors of a process, each with its flags. -/
structure FdTable where
  entries : Nat → Option FdEntry
  fdFlags : Nat → BitVec 8

namespace FdTable

/-- A table without descriptors. -/
def new : FdTable := ⟨fun _ => none, fun _ => 0⟩

/-- A table with another entry at a descriptor. -/
def setEntry (table : FdTable) (fd : Nat) (entry : Option FdEntry) : FdTable :=
  { table with entries := Function.update table.entries fd entry }

/-- The three descriptors that every program starts with. -/
def initStdio (table : FdTable) : FdTable :=
  ((table.setEntry 0 (some .consoleIn)).setEntry 1 (some .consoleOut)).setEntry 2 (some .consoleErr)

/-- An entry at the first free descriptor. -/
def alloc (table : FdTable) (entry : FdEntry) : Option (Nat × FdTable) :=
  match (List.range maxFds).find? fun fd => (table.entries fd).isNone with
  | some fd => some (fd, table.setEntry fd (some entry))
  | none => none

/-- The entry of a descriptor. -/
def get (table : FdTable) (fd : Nat) : Option FdEntry :=
  if fd < maxFds then table.entries fd else none

/-- Closing a descriptor other than the first three, with whether there was one. -/
def close (table : FdTable) (fd : Nat) : Bool × FdTable :=
  if fd < 3 then (false, table)
  else
    match table.get fd with
    | some _ => (true, table.setEntry fd none)
    | none => (false, table)

/-- The entry of a descriptor at another one as well, whatever was there before. -/
def dup2 (table : FdTable) (oldfd newfd : Nat) : Option FdTable :=
  match table.get oldfd with
  | none => none
  | some entry =>
    if maxFds ≤ newfd then none
    else
      some { table.setEntry newfd (some entry) with
        fdFlags := Function.update table.fdFlags newfd (table.fdFlags oldfd) }

/-- Closing all descriptors that are marked for it, except the first three. -/
def closeOnExec (table : FdTable) : FdTable where
  entries := fun fd =>
    if 3 ≤ fd ∧ fd < maxFds ∧ table.fdFlags fd &&& fdCloexec ≠ 0 then none else table.entries fd
  fdFlags := fun fd =>
    if 3 ≤ fd ∧ fd < maxFds ∧ table.fdFlags fd &&& fdCloexec ≠ 0 then 0 else table.fdFlags fd

/-- Other flags for a descriptor that is open. -/
def setFdFlags (table : FdTable) (fd : Nat) (flags : BitVec 8) : Option FdTable :=
  if maxFds ≤ fd ∨ (table.entries fd).isNone then none
  else some { table with fdFlags := Function.update table.fdFlags fd flags }

/-- The number of descriptors that stand for something. -/
def count (table : FdTable) (entry : FdEntry) : Nat :=
  ∑ fd ∈ Finset.range maxFds, entry.weight (table.entries fd)

variable {table next : FdTable} {entry : FdEntry} {fd : Nat}

/-- Writing a slot changes how often the table stands for something. -/
theorem count_setEntry (table : FdTable) (inside : fd < maxFds) (slot : Option FdEntry)
    (entry : FdEntry) :
    (table.setEntry fd slot).count entry + entry.weight (table.entries fd) =
      table.count entry + entry.weight slot :=
  Slots.sum_update entry.weight table.entries inside slot

/-- Tables that have something at the same descriptors count it alike. -/
theorem count_congr
    (same : ∀ fd < maxFds, next.entries fd = some entry ↔ table.entries fd = some entry) :
    next.count entry = table.count entry := by
  apply Finset.sum_congr rfl
  intro fd member
  simp only [FdEntry.weight, same fd (Finset.mem_range.mp member)]

/-- Nothing is counted that has no descriptor. -/
theorem count_eq_zero : table.count entry = 0 ↔ ∀ fd < maxFds, table.entries fd ≠ some entry := by
  simp only [count, Finset.sum_eq_zero_iff, Finset.mem_range, FdEntry.weight, ite_eq_right_iff,
    Nat.one_ne_zero, imp_false, ne_eq]

/-- No more is counted than there are descriptors. -/
theorem count_le : table.count entry ≤ maxFds := by
  have bounded : ∀ fd ∈ Finset.range maxFds, entry.weight (table.entries fd) ≤ 1 := by
    intro fd _
    unfold FdEntry.weight
    split <;> omega
  have total := Finset.sum_le_sum bounded
  rwa [← Finset.card_eq_sum_ones, Finset.card_range] at total

/-- A descriptor that has an entry is inside the table. -/
theorem get_some (found : table.get fd = some entry) :
    fd < maxFds ∧ table.entries fd = some entry := by
  unfold get at found
  split at found
  · rename_i inside
    exact ⟨inside, found⟩
  · cases found

/-- A new descriptor was free before. -/
theorem alloc_some (served : table.alloc entry = some (fd, next)) :
    fd < maxFds ∧ table.entries fd = none ∧ next = table.setEntry fd (some entry) := by
  unfold alloc at served
  split at served
  · rename_i found searched
    cases served
    have free := List.find?_some searched
    have inside := List.mem_range.mp (List.mem_of_find?_eq_some searched)
    exact ⟨inside, Option.isNone_iff_eq_none.mp free, rfl⟩
  · cases served

/-- A new descriptor is counted once. -/
theorem count_alloc (served : table.alloc entry = some (fd, next)) (other : FdEntry) :
    next.count other = table.count other + other.weight (some entry) := by
  obtain ⟨inside, free, rfl⟩ := alloc_some served
  have total := count_setEntry table inside (some entry) other
  have absent : other.weight none = 0 := rfl
  rw [free, absent] at total
  omega

end FdTable

end TheoryKernel.Fs
