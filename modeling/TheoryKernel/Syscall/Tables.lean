import TheoryKernel.Fs.Fd
import TheoryKernel.Ipc.Futex
import TheoryKernel.Ipc.Unix
import TheoryKernel.Lib.Locking
import TheoryKernel.Mm.Layout
import TheoryKernel.Proc.Pcb

/-! The global tables, the spin locks around them, and how calls go to sleep. -/

namespace TheoryKernel.Syscall

open Fs (FdEntry FdTable)
open Ipc (FutexTable PipeInner UnixSocket WaitQueue)
open Proc (maxProcesses maxThreads)

/-- The numbers of errors that a call returns. -/
inductive Errno where
  | eperm
  | esrch
  | ebadf
  | echild
  | efault
  | enospc
  | einval
  | emfile
  | eagain
  | enomem
  | epipe
  | eopnotsupp
  | enotconn
  | other (code : Nat)
  deriving DecidableEq, Repr

/-- The number of pipes. -/
def maxPipes : Nat := 64

/-- The number of sockets of the Unix domain. -/
def maxUnix : Nat := 64

/-- The spin locks around the tables. -/
inductive Lock where
  | threads
  | processes
  | nextPipe
  | pipes
  | sockets
  | futexes
  deriving DecidableEq, Repr

/-- A process with its descriptors and the root of its page table. -/
structure Process where
  pcb : Proc.Process
  fds : FdTable
  cr3 : Option Nat

/-- What the devices behind the descriptors do with the next request, if they return at all. -/
structure Devices where
  read : FdEntry → Nat → Option (Except Errno Nat)
  write : FdEntry → Nat → Option (Except Errno Nat)

/-- The tables of the kernel, as the current thread finds them. -/
structure Tables where
  tid : Nat
  threads : Nat → Option Nat
  processes : Nat → Option Process
  pipes : Nat → Option PipeInner
  nextPipe : BitVec 32
  sockets : Nat → Option UnixSocket
  futexes : FutexTable
  userWord : Nat → BitVec 32
  kpti : Bool
  kernelCr3 : Nat
  devices : Devices

/-- Tables that others have changed, except for those around which the current thread holds a lock. -/
def Tables.guarded (held : List Lock) (tables others : Tables) : Tables :=
  { others with
    tid := tables.tid
    threads := if .threads ∈ held then tables.threads else others.threads
    processes := if .processes ∈ held then tables.processes else others.processes
    nextPipe := if .nextPipe ∈ held then tables.nextPipe else others.nextPipe
    pipes := if .pipes ∈ held then tables.pipes else others.pipes
    sockets := if .sockets ∈ held then tables.sockets else others.sockets
    futexes := if .futexes ∈ held then tables.futexes else others.futexes }

/-- The item in a slot of a table, if the slot is one of the table. -/
def lookUp {β : Type} (size : Nat) (table : Nat → Option β) (id : Nat) : Option β :=
  if id < size then table id else none

/--
The tables, what the other threads do to them while the current one sleeps, and a record.

The record has the locks that were held whenever the thread went to sleep.
-/
structure World where
  tables : Tables
  wakeUps : List (Tables → Tables)
  sleeps : List (List Lock)

/-- Code of a system call. -/
abbrev Code (α : Type) : Type := Locking.Code Lock World Fault α

open Locking.Code

/-- The result of a computation that may stop the machine. -/
def ofExec {α : Type} : Exec α → Code α
  | .ok value => pure value
  | .error stop => fault stop

/-- A part of the tables. -/
def look {α : Type} (part : Tables → α) : Code α := read fun world => part world.tables

/-- A change of the tables. -/
def change (update : Tables → Tables) : Code Unit :=
  modify fun world => { world with tables := update world.tables }

/-- Code for the slot of a table whose index is not checked. -/
def withSlot {α β : Type} (lock : Lock) (size : Nat) (table : Tables → Nat → Option β) (id : Nat)
    (body : β → Code α) : Code (Option α) :=
  withLock lock do
    if size ≤ id then fault .indexOutOfBounds
    else
      match ← look fun tables => table tables id with
      | none => pure none
      | some item => some <$> body item

/-- Code for a pipe, if it is there. -/
def withPipe {α : Type} (id : Nat) (body : PipeInner → Code α) : Code (Option α) :=
  withSlot .pipes maxPipes (·.pipes) id body

/-- Code for a socket, if it is there. -/
def withSock {α : Type} (id : Nat) (body : UnixSocket → Code α) : Code (Option α) :=
  withSlot .sockets maxUnix (·.sockets) id body

/-- Code for a slot of a table whose index is checked first. -/
def withEntry {α β : Type} (lock : Lock) (size : Nat) (table : Tables → Nat → Option β) (id : Nat)
    (body : β → Code α) : Code (Option α) :=
  if size ≤ id then pure none else withSlot lock size table id body

/-- Code for a process, if it is there. -/
def withProcess {α : Type} (pid : Nat) (body : Process → Code α) : Code (Option α) :=
  withEntry .processes maxProcesses (·.processes) pid body

/-- Code for the process number of a thread, if it is there. -/
def withThread {α : Type} (tid : Nat) (body : Nat → Code α) : Code (Option α) :=
  withEntry .threads maxThreads (·.threads) tid body

/-- A pipe with other contents. -/
def setPipe (id : Nat) (pipe : PipeInner) : Code Unit :=
  change fun tables => { tables with pipes := Function.update tables.pipes id (some pipe) }

/-- A socket with other contents. -/
def setSock (id : Nat) (socket : UnixSocket) : Code Unit :=
  change fun tables => { tables with sockets := Function.update tables.sockets id (some socket) }

/-- A process with other contents. -/
def setProcess (pid : Nat) (process : Process) : Code Unit :=
  change fun tables =>
    { tables with processes := Function.update tables.processes pid (some process) }

/-- Going to sleep, with whether the thread is ever woken. -/
def blockCurrent : Code Bool := do
  let held ← locks
  modify fun world => { world with sleeps := world.sleeps ++ [held] }
  match ← read (·.wakeUps) with
  | [] => pure false
  | others :: later =>
    modify fun world =>
      { world with tables := world.tables.guarded held (others world.tables), wakeUps := later }
    pure true

/-- Going to sleep behind the threads that already wait in a queue. -/
def blockOn (queue : WaitQueue) (store : WaitQueue → Code Unit) : Code Bool := do
  let tid ← look (·.tid)
  store (queue.push tid).2
  blockCurrent

/-- Whether a range of addresses lies in user space. -/
def accessOk (addr len : Nat) : Bool :=
  if len = 0 then addr == 0 || Mm.isUserAddress addr
  else if addr = 0 ∨ addr < Mm.userAddrMin then false
  else if Mm.isUserAddress addr = false then false
  else if 2 ^ 64 ≤ addr + (len - 1) then false
  else Mm.isUserAddress (addr + (len - 1)) && decide (addr + (len - 1) ≤ Mm.userAddrMax)

/-- Bytes may be accessed exactly if the first and the last one lie in user space. -/
theorem accessOk_iff {addr len : Nat} (nonempty : len ≠ 0) :
    accessOk addr len = true ↔ Mm.userAddrMin ≤ addr ∧ addr + (len - 1) ≤ Mm.userAddrMax := by
  simp only [accessOk, Mm.isUserAddress, Mm.userAddrMin, Mm.userAddrMax, if_neg nonempty]
  grind

/-- The process of the current thread, with its number. -/
def Tables.currentProcess (tables : Tables) : Option (Nat × Process) :=
  (lookUp maxThreads tables.threads tables.tid).bind fun pid =>
    (lookUp maxProcesses tables.processes pid).map fun process => (pid, process)

/-- The root of the page table of the current process. -/
def currentUserCr3 : Code Nat := do
  let pid ← withThread (← look (·.tid)) pure
  let kernel ← look (·.kernelCr3)
  if pid.getD Proc.kernelPid = Proc.kernelPid then pure kernel
  else
    let found ← withProcess (pid.getD Proc.kernelPid) fun process => pure (process.cr3.getD kernel)
    pure (found.getD kernel)

/-- Code that runs with the page table of the current process. -/
def withUserAs {α : Type} (body : Code α) : Code α := do
  if ← look (·.kpti) then
    let _ ← currentUserCr3
    body
  else body

/-- Copying a number of bytes to or from user space. -/
def copyUser (addr len : Nat) : Code (Except Errno Unit) :=
  if accessOk addr len then withUserAs (pure (.ok ())) else pure (.error .efault)

/-- Reading a word from user space, which fails outside of it. -/
def readUserU32 (addr : Nat) : Code (Option (BitVec 32)) :=
  if accessOk addr 4 then withUserAs (look fun tables => some (tables.userWord addr))
  else pure none

variable {α β : Type} {held : Locking.Held Lock} {world after : World}

variable {size id : Nat} {lock : Lock} {table : Tables → Nat → Option β} {body : β → Code α}
  {inner : Locking.Held Lock} {item : β}

/-- An item is found in a slot of the table that has it. -/
theorem lookUp_some {table : Nat → Option β} :
    lookUp size table id = some item ↔ id < size ∧ table id = some item :=
  Option.ite_none_right_eq_some

section

variable (taken : held.take lock = some inner)

include taken

/-- Code for a slot runs with the lock of the table, if there is an item. -/
theorem withSlot_run (inside : id < size) (found : table world.tables id = some item) :
    withSlot lock size table id body held world = (some <$> body item) inner world := by
  rw [withSlot, withLock_run taken, if_neg (Nat.not_le_of_lt inside), look, read_bind, found]

/-- Code for a slot with a checked index runs with the lock of the table, if there is an item. -/
theorem withEntry_run (inside : id < size) (found : table world.tables id = some item) :
    withEntry lock size table id body held world = (some <$> body item) inner world := by
  rw [withEntry, if_neg (Nat.not_le_of_lt inside), withSlot_run taken inside found]

/-- Code for a slot with a checked index does nothing if there is no item. -/
theorem withEntry_none (missing : lookUp size (table world.tables) id = none) :
    withEntry lock size table id body held world = .ok (none, world) := by
  unfold withEntry
  split
  · rfl
  · rename_i inside
    rw [lookUp, if_pos (Nat.lt_of_not_le inside)] at missing
    rw [withSlot, withLock_run taken, if_neg inside, look, read_bind, missing]
    rfl

/-- What is looked up in a table is there already, and nothing changes. -/
theorem lookUp_run {part : β → α} :
    withEntry lock size table id (fun item => pure (part item)) held world =
      .ok ((lookUp size (table world.tables) id).map part, world) := by
  cases found : lookUp size (table world.tables) id with
  | none => exact withEntry_none taken found
  | some item =>
    obtain ⟨inside, here⟩ := lookUp_some.mp found
    exact withEntry_run taken inside here

end

theorem currentUserCr3_run (world : World) :
    ∃ root, currentUserCr3 (.exclusive []) world = .ok (root, world) := by
  unfold currentUserCr3 withThread
  rw [look, read_bind, bind_ok (lookUp_run rfl), look, read_bind]
  generalize (Option.map _ _).getD Proc.kernelPid = pid
  by_cases kernel : pid = Proc.kernelPid
  · rw [if_pos kernel]
    exact ⟨_, rfl⟩
  · rw [if_neg kernel, withProcess, bind_ok (lookUp_run rfl)]
    exact ⟨_, rfl⟩

/-- A word of user space is read in any state. -/
theorem readUserU32_run {addr : Nat} : readUserU32 addr (.exclusive []) world =
    .ok (if accessOk addr 4 then some (world.tables.userWord addr) else none, world) := by
  unfold readUserU32
  split
  · obtain ⟨root, run⟩ := currentUserCr3_run world
    rw [withUserAs, look, read_bind]
    split
    · rw [bind_ok run]
      rfl
    · rfl
  · rfl

/-- Code for a slot that returns has found no item, or has run for the item it found. -/
theorem withSlot_ok {result : Option α}
    (run : withSlot lock size table id body held world = .ok (result, after)) :
    (result = none ∧ after = world) ∨ ∃ item value inner, held.take lock = some inner ∧
      id < size ∧ table world.tables id = some item ∧ body item inner world = .ok (value, after) ∧
      result = some value := by
  unfold withSlot withLock at run
  split at run
  · rename_i inner taken
    split at run
    · cases run
    · rename_i inside
      rw [look, read_bind] at run
      cases found : table world.tables id with
      | none =>
        rw [found] at run
        cases run
        exact .inl ⟨rfl, rfl⟩
      | some item =>
        rw [found] at run
        simp only [map_run] at run
        cases body : body item inner world with
        | error stop =>
          rw [body] at run
          cases run
        | ok outcome =>
          rw [body] at run
          cases run
          exact .inr ⟨item, outcome.1, inner, taken, Nat.lt_of_not_le inside, rfl, body, rfl⟩
  · cases run

/-- A thread comes back from its sleep to tables that others have changed where they can. -/
theorem blockOn_ok {queue : WaitQueue} {update : WaitQueue → Tables → Tables} {locks : List Lock}
    {woken : Bool}
    (run : blockOn queue (fun queue => change (update queue)) (.exclusive locks) world =
      .ok (woken, after)) :
    after.tables = update (queue.push world.tables.tid).2 world.tables ∨
      ∃ others, after.tables =
        Tables.guarded locks (update (queue.push world.tables.tid).2 world.tables) others := by
  obtain ⟨tables, wakeUps, sleeps⟩ := world
  cases wakeUps with
  | nil =>
    cases run
    exact .inl rfl
  | cons others later =>
    cases run
    exact .inr ⟨_, rfl⟩

end TheoryKernel.Syscall
