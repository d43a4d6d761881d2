import Mathlib.Data.List.Nodup
import TheoryKernel.Lib.Runs
import TheoryKernel.Syscall.Tables

/-! Threads that wait at user addresses and wake each other, one section of a call at a time. -/

namespace TheoryKernel.Syscall

open Function List
open Ipc (FutexTable FutexEntry WaitQueue maxFutex waitCapacity)
open Proc (maxThreads)

/-- Where a thread is in its wait. -/
inductive WaitStage where
  -- The slot is known, and the word is read next.
  | found
  -- The word has the expected value, and the thread goes to sleep next.
  | ready
  | asleep
  -- The thread is awake again, and the word is read next.
  | woken
  deriving DecidableEq

/-- A wait: where it is, its address, the value that is expected there, and its slot. -/
structure Wait where
  stage : WaitStage
  addr : Nat
  expected : BitVec 32
  slot : Nat
  deriving DecidableEq

/-- The table of addresses with its lock, the words of user space, and the wait of each thread. -/
structure FutexSystem where
  table : FutexTable
  -- Whether a thread that sleeps keeps the lock.
  locked : Bool
  words : Nat → BitVec 32
  waits : Nat → Option Wait

/-- What threads do: the sections of a wait, a wake-up, and a change of a word. -/
inductive FutexOp where
  | wait (tid addr : Nat) (expected : BitVec 32)
  | recheck (tid : Nat)
  | sleep (tid : Nat)
  | resume (tid : Nat)
  | wake (addr count : Nat)
  | store (addr : Nat) (value : BitVec 32)

/-- Whether an operation takes the lock of the table. -/
def FutexOp.locks : FutexOp → Bool
  | .wait .. | .sleep _ | .wake .. => true
  | _ => false

namespace FutexSystem

variable {system : FutexSystem} {op : FutexOp} {tid addr slot other : Nat}

/-- No thread waits, and no slot is in use. -/
def new (words : Nat → BitVec 32) : FutexSystem := ⟨fun _ => none, false, words, fun _ => none⟩

/-- A thread whose wait goes on elsewhere, or is over. -/
def goto (system : FutexSystem) (tid : Nat) (wait : Option Wait) : FutexSystem :=
  { system with waits := update system.waits tid wait }

/-- A wake-up reaches a thread that sleeps. -/
def wakeThread (system : FutexSystem) (tid : Nat) : FutexSystem :=
  match system.waits tid with
  | some wait => if wait.stage = .asleep then system.goto tid (some { wait with stage := .woken })
    else system
  | none => system

/-- The first section of a wait, up to the search for a slot. -/
def startWait (system : FutexSystem) (tid addr : Nat) (expected : BitVec 32) : FutexSystem :=
  if accessOk addr 4 = false then system
  else if system.words addr ≠ expected then system
  else
    let (slot, table) := system.table.findOrCreate addr
    { system with table }.goto tid (some ⟨.found, addr, expected, slot⟩)

/-- Going to sleep at the slot, whose entry must be there, and keeping the lock. -/
def goToSleep (system : FutexSystem) (tid : Nat) (wait : Wait) : Exec FutexSystem :=
  match system.table wait.slot with
  | none => .error .assertionFailed
  | some entry =>
    let table := update system.table wait.slot
      (some { entry with waiters := (entry.waiters.push tid).2 })
    .ok ({ system with table, locked := true }.goto tid (some { wait with stage := .asleep }))

/-- What the operations do; one that its thread is not about to take changes nothing. -/
def act (system : FutexSystem) : FutexOp → Exec FutexSystem
  | .wait tid addr expected =>
    if system.waits tid = none ∧ tid < maxThreads then .ok (system.startWait tid addr expected)
    else .ok system
  | .recheck tid =>
    match system.waits tid with
    | some ⟨.found, addr, expected, slot⟩ =>
      if system.words addr ≠ expected then .ok (system.goto tid none)
      else .ok (system.goto tid (some ⟨.ready, addr, expected, slot⟩))
    | _ => .ok system
  | .sleep tid =>
    match system.waits tid with
    | some ⟨.ready, addr, expected, slot⟩ => system.goToSleep tid ⟨.ready, addr, expected, slot⟩
    | _ => .ok system
  | .resume tid =>
    match system.waits tid with
    | some ⟨.woken, addr, expected, slot⟩ =>
      if system.words addr ≠ expected then .ok ({ system with locked := false }.goto tid none)
      else .ok ({ system with locked := false }.goto tid (some ⟨.found, addr, expected, slot⟩))
    | _ => .ok system
  | .wake addr count =>
    let (_, woken, table) := system.table.futexWake addr count
    .ok (woken.foldl wakeThread { system with table })
  | .store addr value => .ok { system with words := update system.words addr value }

/--
The operations, which spin if they need the lock and a thread keeps it.

A thread that goes to sleep keeps the lock of the table until it goes on.
-/
def step (system : FutexSystem) (op : FutexOp) : Exec FutexSystem :=
  if op.locks && system.locked then .ok system else system.act op

/-- Whether a thread sleeps at an address. -/
def sleepsAt (system : FutexSystem) (addr tid : Nat) : Bool :=
  (system.waits tid).any fun wait => wait.stage = .asleep && wait.addr == addr

/-- The threads that wait at an address. -/
def waiting (system : FutexSystem) (addr : Nat) : List Nat :=
  (List.range maxThreads).filter (system.sleepsAt addr)

/--
What is expected of a wake-up, which has to get the lock.

It returns the number of threads that it wakes, which are different threads at its address, and as
many as were asked for unless fewer wait there.
-/
def Exact (system : FutexSystem) (addr count : Nat) : Prop :=
  let (returned, woken, _) := system.table.futexWake addr count
  system.locked = false ∧ returned = min count (system.waiting addr).length ∧
    woken.length = returned ∧ woken.Nodup ∧ (∀ tid ∈ woken, tid ∈ system.waiting addr) ∧
    ∃ next, system.step (.wake addr count) = .ok next ∧
      ∀ tid, system.sleepsAt addr tid = true → (next.sleepsAt addr tid = false ↔ tid ∈ woken)

/-- A wait finds a slot for its address. -/
def careful (system : FutexSystem) : FutexOp → Bool
  | .wait _ addr _ => (List.range maxFutex).any fun slot =>
      system.table.isAt addr slot || (system.table slot).isNone
  | _ => true

/-- Whether a thread sleeps in the queue of a slot. -/
def Rests (system : FutexSystem) (slot tid : Nat) : Prop :=
  ∃ wait, system.waits tid = some wait ∧ wait.stage = .asleep ∧ wait.slot = slot

/-- The queue of every slot lists the threads that sleep there, each of them once. -/
def Queued (system : FutexSystem) : Prop :=
  ∀ slot entry, slot < maxFutex → system.table slot = some entry →
    entry.waiters.list.Nodup ∧ ∀ tid, tid ∈ entry.waiters.list ↔ system.Rests slot tid

/--
The slots are for different addresses, every wait has the slot of its address, and the queues
list the threads that sleep.
-/
structure Orderly (system : FutexSystem) : Prop where
  apart : system.table.Apart
  placed : ∀ tid wait, system.waits tid = some wait →
    tid < maxThreads ∧ wait.slot < maxFutex ∧ system.table.isAt wait.addr wait.slot = true
  queued : system.Queued

/--
What every run keeps.

The slot of each wait is in use, nobody has been woken, and a thread that sleeps keeps the lock.
-/
structure Kept (system : FutexSystem) : Prop where
  apart : system.table.Apart
  placed : ∀ tid wait, system.waits tid = some wait →
    tid < maxThreads ∧ wait.slot < maxFutex ∧ (system.table wait.slot).isSome
  unwoken : ∀ tid wait, system.waits tid = some wait → wait.stage ≠ .woken
  locked : system.locked = true ↔ ∃ slot tid, system.Rests slot tid
  queued : system.Queued

/-- Every wait has the slot of its address. -/
def Named (system : FutexSystem) : Prop :=
  ∀ tid wait, system.waits tid = some wait → system.table.isAt wait.addr wait.slot = true

/-- What holds behind an operation, with the slots of the waits if it is a careful one. -/
def Follows (system : FutexSystem) (op : FutexOp) (next : FutexSystem) : Prop :=
  next.Kept ∧ (system.careful op = true → system.Named → next.Named)

theorem sleepsAt_iff : system.sleepsAt addr tid = true ↔
    ∃ wait, system.waits tid = some wait ∧ wait.stage = .asleep ∧ wait.addr = addr := by
  unfold sleepsAt
  cases system.waits tid with
  | none => simp
  | some wait => simp

theorem kept_new (words : Nat → BitVec 32) : (new words).Kept where
  apart := nofun
  placed := nofun
  unwoken := nofun
  locked := iff_of_false nofun nofun
  queued := nofun

theorem Named.goto {after : Option Wait} (named : system.Named)
    (here : ∀ later, after = some later → system.table.isAt later.addr later.slot = true) :
    (system.goto tid after).Named := by
  intro other wait waits
  rcases Slots.of_update waits with ⟨rfl, now⟩ | ⟨-, before⟩
  · exact here wait now
  · exact named other wait before

theorem Named.waiters {entry : FutexEntry} {waiters : WaitQueue} (named : system.Named)
    (found : system.table slot = some entry) :
    Named { system with table := update system.table slot (some { entry with waiters }) } :=
  fun tid wait waits => (FutexTable.isAt_waiters found).trans (named tid wait waits)

theorem rests_goto {after : Option Wait}
    (awake : ∀ wait, system.waits tid = some wait → wait.stage ≠ .asleep)
    (stays : ∀ later, after = some later → later.stage ≠ .asleep) :
    (system.goto tid after).Rests slot other ↔ system.Rests slot other := by
  unfold Rests goto
  by_cases same : other = tid
  · -- Neither the old wait of the thread nor the new one is asleep.
    subst same
    simp only [update_self]
    constructor
    · rintro ⟨later, now, asleep, -⟩
      exact absurd asleep (stays later now)
    · rintro ⟨wait, waits, asleep, -⟩
      exact absurd asleep (awake wait waits)
  · simp only [update_of_ne same]

theorem rests_sleep {wait : Wait} (nobody : ∀ slot tid, ¬ system.Rests slot tid) :
    (system.goto tid (some { wait with stage := .asleep })).Rests slot other ↔
      other = tid ∧ wait.slot = slot := by
  constructor
  · rintro ⟨later, now, asleep, rfl⟩
    rcases Slots.of_update now with ⟨rfl, ⟨⟩⟩ | ⟨-, before⟩
    · exact ⟨rfl, rfl⟩
    · exact absurd ⟨later, before, asleep, rfl⟩ (nobody later.slot other)
  · rintro ⟨rfl, rfl⟩
    exact ⟨_, update_self .., rfl, rfl⟩

/-- A slot that is in use stays so when one is written. -/
theorem isSome_update {table : FutexTable} {entry : FutexEntry} (place : Nat)
    (used : (table place).isSome) : (update table slot (some entry) place).isSome := by
  rw [update_apply]
  split
  · rfl
  · exact used

namespace Kept

variable {wait : Wait} {entry : FutexEntry} {table : FutexTable}

variable (kept : system.Kept)

include kept

/-- Nobody sleeps while the lock is free. -/
theorem nobody (free : system.locked = false) : ¬ system.Rests slot tid := by
  intro rests
  rw [kept.locked.mpr ⟨slot, tid, rests⟩] at free
  cases free

/-- So nobody is queued then. -/
theorem empty (free : system.locked = false) (inside : slot < maxFutex)
    (found : system.table slot = some entry) : entry.waiters.list = [] :=
  eq_nil_iff_forall_not_mem.mpr fun tid member =>
    kept.nobody free (((kept.queued slot entry inside found).2 tid).mp member)

/-- A thread that is not asleep goes on with its wait, or ends it. -/
theorem goto {after : Option Wait}
    (awake : ∀ wait, system.waits tid = some wait → wait.stage ≠ .asleep)
    (stays : ∀ later, after = some later → later.stage ≠ .asleep ∧ later.stage ≠ .woken ∧
      tid < maxThreads ∧ later.slot < maxFutex ∧ (system.table later.slot).isSome) :
    (system.goto tid after).Kept := by
  have rests : ∀ slot other, (system.goto tid after).Rests slot other ↔
      system.Rests slot other :=
    fun slot other => rests_goto awake fun later now => (stays later now).1
  refine ⟨kept.apart, ?_, ?_, ?_, ?_⟩
  · intro other wait waits
    rcases Slots.of_update waits with ⟨rfl, now⟩ | ⟨-, before⟩
    · exact (stays wait now).2.2
    · exact kept.placed other wait before
  · intro other wait waits
    rcases Slots.of_update waits with ⟨rfl, now⟩ | ⟨-, before⟩
    · exact (stays wait now).2.1
    · exact kept.unwoken other wait before
  · simp only [rests]
    exact kept.locked
  · unfold Queued
    simp only [rests]
    exact kept.queued

/-- With another table the queues must be empty, since nobody sleeps. -/
theorem retable (free : system.locked = false) (apart : table.Apart)
    (used : ∀ slot, (system.table slot).isSome → (table slot).isSome)
    (empty : ∀ slot entry, slot < maxFutex → table slot = some entry → entry.waiters.list = []) :
    { system with table }.Kept where
  apart := apart
  placed := by
    intro tid wait waits
    obtain ⟨small, inside, here⟩ := kept.placed tid wait waits
    exact ⟨small, inside, used _ here⟩
  unwoken := kept.unwoken
  locked := kept.locked
  queued := by
    intro slot entry inside found
    rw [empty slot entry inside found]
    exact ⟨nodup_nil, fun tid => iff_of_false not_mem_nil (kept.nobody free)⟩

theorem findOrCreate (free : system.locked = false) (tid : Nat) (expected : BitVec 32) :
    { system with table := (system.table.findOrCreate addr).2 }.Kept ∧
      (system.careful (.wait tid addr expected) = true → system.Named →
        { system with table := (system.table.findOrCreate addr).2 }.Named ∧
        (system.table.findOrCreate addr).2.isAt addr (system.table.findOrCreate addr).1 = true) := by
  rcases FutexTable.findOrCreate_cases system.table addr with
    ⟨slot, -, known, same⟩ | ⟨slot, -, unused, unknown, same⟩ | ⟨full, same⟩
  · rw [same]
    exact ⟨kept, fun _ named => ⟨named, known⟩⟩
  · rw [same]
    refine ⟨kept.retable free (kept.apart.add unknown) isSome_update ?_, fun _ named => ⟨?_, ?_⟩⟩
    · intro place entry inside found
      rcases Slots.of_update found with ⟨-, ⟨⟩⟩ | ⟨-, found⟩
      · rfl
      · exact kept.empty free inside found
    · -- A slot that is in use is another one.
      intro tid wait waits
      have here := named tid wait waits
      refine (FutexTable.isAt_update_of_ne ?_).trans here
      intro isSlot
      obtain ⟨entry, found, -⟩ := FutexTable.isAt_iff.mp here
      rw [isSlot, unused] at found
      cases found
    · exact FutexTable.isAt_update.mpr rfl
  · -- The condition rules out that neither the address nor a free slot is in the table.
    rw [same]
    refine ⟨kept, fun room _ => ?_⟩
    obtain ⟨slot, member, has⟩ := any_eq_true.mp room
    obtain ⟨unknown, taken⟩ := full slot (mem_range.mp member)
    rw [unknown, Bool.false_or, Option.isNone_iff_eq_none] at has
    exact absurd has taken

theorem startWait {expected : BitVec 32} (free : system.locked = false)
    (idle : system.waits tid = none) (small : tid < maxThreads) :
    system.Follows (.wait tid addr expected) (system.startWait tid addr expected) := by
  unfold FutexSystem.startWait
  split
  · exact ⟨kept, fun _ named => named⟩
  · split
    · exact ⟨kept, fun _ named => named⟩
    · obtain ⟨tabled, named⟩ := kept.findOrCreate free tid expected
      obtain ⟨inside, entry, here⟩ := FutexTable.findOrCreate_slot system.table addr
      refine ⟨tabled.goto ?_ ?_, fun careful names => ?_⟩
      · intro wait waits
        cases idle.symm.trans waits
      · rintro later ⟨⟩
        exact ⟨nofun, nofun, small, inside, Option.isSome_iff_exists.mpr ⟨entry, here⟩⟩
      · refine (named careful names).1.goto ?_
        rintro later ⟨⟩
        exact (named careful names).2

theorem goToSleep (free : system.locked = false) (waits : system.waits tid = some wait) :
    ∃ next, system.goToSleep tid wait = .ok next ∧ system.Follows (.sleep tid) next := by
  obtain ⟨small, inside, used⟩ := kept.placed tid wait waits
  obtain ⟨entry, found⟩ := Option.isSome_iff_exists.mp used
  have nobody : ∀ slot tid, ¬ system.Rests slot tid := fun _ _ => kept.nobody free
  unfold FutexSystem.goToSleep
  rw [found]
  refine ⟨_, rfl, ⟨kept.apart.waiters found, ?_, ?_, ?_, ?_⟩, fun _ named => ?_⟩
  · intro other later waits'
    rcases Slots.of_update waits' with ⟨rfl, ⟨⟩⟩ | ⟨-, before⟩
    · exact ⟨small, inside, isSome_update _ used⟩
    · obtain ⟨small, inside, used⟩ := kept.placed other later before
      exact ⟨small, inside, isSome_update _ used⟩
  · intro other later waits'
    rcases Slots.of_update waits' with ⟨rfl, ⟨⟩⟩ | ⟨-, before⟩
    · nofun
    · exact kept.unwoken other later before
  · exact iff_of_true rfl ⟨wait.slot, tid, (rests_sleep nobody).mpr ⟨rfl, rfl⟩⟩
  · -- The thread is the only one that sleeps, and all the queues were empty.
    intro slot entry' bound found'
    rcases Slots.of_update found' with ⟨rfl, ⟨⟩⟩ | ⟨elsewhere, found'⟩
    · have nothing := kept.empty free inside found
      have room : entry.waiters.len < waitCapacity := by
        have length := congrArg List.length nothing
        rw [WaitQueue.list, length_map, length_range] at length
        rw [length]
        decide
      dsimp only
      rw [WaitQueue.list_push room, nothing, nil_append]
      refine ⟨nodup_singleton tid, fun other => Iff.trans ?_ (rests_sleep nobody).symm⟩
      rw [mem_singleton, and_iff_left rfl]
    · rw [kept.empty free bound found']
      refine ⟨nodup_nil, fun other => Iff.trans ?_ (rests_sleep nobody).symm⟩
      exact iff_of_false not_mem_nil fun both => elsewhere both.2.symm
  · refine .goto (named.waiters found) ?_
    rintro later ⟨⟩
    exact named.waiters found tid wait waits

/-- While nobody sleeps, a wake-up finds nobody. -/
theorem futexWake (free : system.locked = false) (addr count : Nat) :
    ∃ table, system.table.futexWake addr count = (0, [], table) ∧
      system.Follows (.wake addr count) { system with table } := by
  rcases FutexTable.futexWake_cases system.table addr count with
    ⟨-, outcome⟩ | ⟨slot, entry, inside, found, -, outcome⟩
  · exact ⟨system.table, outcome, kept, fun _ named => named⟩
  · obtain ⟨split, -⟩ := WaitQueue.list_popMany count entry.waiters
    rw [kept.empty free inside found, eq_comm, append_eq_nil_iff,
      reverse_eq_nil_iff] at split
    rw [outcome, split.2]
    refine ⟨_, rfl, kept.retable free (kept.apart.waiters found) isSome_update ?_,
      fun _ named => named.waiters found⟩
    intro place other bound found'
    rcases Slots.of_update found' with ⟨-, ⟨⟩⟩ | ⟨-, found'⟩
    · exact split.1
    · exact kept.empty free bound found'

theorem recheck {expected : BitVec 32}
    (waits : system.waits tid = some ⟨.found, addr, expected, slot⟩) :
    system.Follows (.recheck tid) (system.goto tid none) ∧
      system.Follows (.recheck tid) (system.goto tid (some ⟨.ready, addr, expected, slot⟩)) := by
  have awake : ∀ wait, system.waits tid = some wait → wait.stage ≠ .asleep := by
    intro wait waits'
    cases waits.symm.trans waits'
    nofun
  refine ⟨⟨kept.goto awake nofun, fun _ named => named.goto nofun⟩, kept.goto awake ?_, ?_⟩
  · have placed := kept.placed tid _ waits
    rintro later ⟨⟩
    exact ⟨nofun, nofun, placed⟩
  · intro _ named
    refine named.goto ?_
    rintro later ⟨⟩
    exact named tid ⟨.found, addr, expected, slot⟩ waits

theorem step : ∃ next, system.step op = .ok next ∧ system.Follows op next := by
  have stays : system.Follows op system := ⟨kept, fun _ named => named⟩
  unfold FutexSystem.step
  split
  · exact ⟨system, rfl, stays⟩
  · rename_i enters
    cases op with
    | wait tid addr expected =>
      rw [act]
      split
      · rename_i enabled
        have free : system.locked = false := by simpa [FutexOp.locks] using enters
        exact ⟨_, rfl, kept.startWait free enabled.1 enabled.2⟩
      · exact ⟨_, rfl, stays⟩
    | recheck tid =>
      rw [act]
      split
      · rename_i addr expected slot waits
        split
        · exact ⟨_, rfl, (kept.recheck waits).1⟩
        · exact ⟨_, rfl, (kept.recheck waits).2⟩
      · exact ⟨_, rfl, stays⟩
    | sleep tid =>
      rw [act]
      split
      · rename_i waits
        have free : system.locked = false := by simpa [FutexOp.locks] using enters
        exact kept.goToSleep free waits
      · exact ⟨_, rfl, stays⟩
    | resume tid =>
      rw [act]
      split
      · rename_i waits
        exact absurd rfl (kept.unwoken tid _ waits)
      · exact ⟨_, rfl, stays⟩
    | wake addr count =>
      have free : system.locked = false := by simpa [FutexOp.locks] using enters
      obtain ⟨table, outcome, follows⟩ := kept.futexWake free addr count
      rw [act, outcome]
      exact ⟨_, rfl, follows⟩
    | store addr value => exact ⟨_, rfl, { kept with }, fun _ named => named⟩

theorem exact_iff (addr count : Nat) :
    system.Exact addr count ↔ ∀ other tid, system.sleepsAt other tid = false := by
  have free_iff : system.locked = false ↔ ∀ other tid, system.sleepsAt other tid = false := by
    simp only [← Bool.not_eq_true, kept.locked, sleepsAt_iff]
    constructor
    · rintro awake other tid ⟨wait, waits, asleep, -⟩
      exact awake ⟨wait.slot, tid, wait, waits, asleep, rfl⟩
    · rintro awake ⟨slot, tid, wait, waits, asleep, -⟩
      exact awake wait.addr tid ⟨wait, waits, asleep, rfl⟩
  rw [← free_iff]
  refine ⟨fun isExact => isExact.1, fun free => ?_⟩
  have awake := free_iff.mp free addr
  have nobody : system.waiting addr = [] :=
    filter_eq_nil_iff.mpr fun tid _ => by simp [awake tid]
  obtain ⟨table, outcome, -⟩ := kept.futexWake free addr count
  have ran : system.step (.wake addr count) = .ok { system with table } := by
    rw [FutexSystem.step, if_neg (by rw [free, Bool.and_false]; exact Bool.false_ne_true), act,
      outcome]
    rfl
  rw [Exact, outcome, nobody]
  refine ⟨free, (Nat.min_zero count).symm, rfl, nodup_nil, nofun, _, ran, ?_⟩
  intro tid sleeps
  rw [awake tid] at sleeps
  cases sleeps

end Kept

/--
On every run in which the waits find slots for their addresses, no step stops the kernel.

Each address has one slot then, which lists the threads that sleep there once.
-/
theorem careful_run_orderly (words : Nat → BitVec 32) (ops : List FutexOp)
    (checked : Runs.everyStep step careful (new words) ops = true) :
    ∃ system, Runs.run step (new words) ops = .ok system ∧ system.Orderly := by
  have steps : ∀ (system : FutexSystem) op, system.Kept ∧ system.Named →
      system.careful op = true → ∃ next, system.step op = .ok next ∧ next.Kept ∧ next.Named := by
    rintro system op ⟨kept, named⟩ careful
    obtain ⟨next, moved, follows⟩ := kept.step
    exact ⟨next, moved, follows.1, follows.2 careful named⟩
  obtain ⟨system, run, kept, named⟩ :=
    Runs.run_returns _ steps ⟨kept_new words, nofun⟩ checked
  refine ⟨system, run, kept.apart, fun tid wait waits => ?_, kept.queued⟩
  obtain ⟨small, inside, -⟩ := kept.placed tid wait waits
  exact ⟨small, inside, named tid wait waits⟩

/-- Two threads that wait for a change of a word, and a wake-up behind the change. -/
def handshake : List FutexOp :=
  [.wait 1 65536 0, .wait 2 65536 0, .recheck 1, .sleep 1, .recheck 2, .sleep 2, .store 65536 1,
    .wake 65536 1, .resume 1]

/-- The table is in order behind a handshake. -/
theorem handshake_orderly :
    ∃ system, Runs.run step (new fun _ => 0) handshake = .ok system ∧ system.Orderly :=
  careful_run_orderly (fun _ => 0) handshake (by decide)

/--
Wake-ups are exact as long as no thread sleeps, and only so.

A thread that sleeps keeps the lock that a wake-up needs. So no wake-up ever wakes a thread.
-/
theorem wakes_exactly (words : Nat → BitVec 32) (ops : List FutexOp) :
    ∃ system, Runs.run step (new words) ops = .ok system ∧
      (∀ tid wait, system.waits tid = some wait → wait.stage ≠ .woken) ∧
      ∀ addr count, system.Exact addr count ↔ ∀ other tid, system.sleepsAt other tid = false := by
  have all : ∀ op ∈ ops, (fun _ : FutexOp => true) op = true := fun _ _ => rfl
  have anything : Runs.everyStep step (fun _ _ => true) (new words) ops = true :=
    Runs.everyStep_of_forall all
  have steps : ∀ (system : FutexSystem) op, system.Kept → true = true →
      ∃ next, system.step op = .ok next ∧ next.Kept := by
    intro system op kept _
    obtain ⟨next, moved, follows⟩ := kept.step
    exact ⟨next, moved, follows.1⟩
  obtain ⟨system, run, kept⟩ := Runs.run_returns Kept steps (kept_new words) anything
  exact ⟨system, run, kept.unwoken, kept.exact_iff⟩

/-- A thread that waits for a change of a word, which then happens. -/
def overslept : List FutexOp := [.wait 1 65536 0, .recheck 1, .sleep 1, .store 65536 1]

/-- The thread sleeps, and a wake-up does not reach it. -/
theorem overslept_not_woken :
    ∃ system, Runs.run step (new fun _ => 0) overslept = .ok system ∧
      system.sleepsAt 65536 1 = true ∧ ¬ system.Exact 65536 1 := by
  refine ⟨_, rfl, rfl, fun isExact => ?_⟩
  cases isExact.1

end FutexSystem

end TheoryKernel.Syscall
