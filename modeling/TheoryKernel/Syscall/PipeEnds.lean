import TheoryKernel.Lib.Runs
import TheoryKernel.Syscall.ProcessCalls

/-! The counts of the ends of pipes, and the descriptors that stand for these ends. -/

set_option maxRecDepth 8000

namespace TheoryKernel.Syscall

open Function Process Option Finset Slots
open Fs (FdEntry FdTable maxFds)
open Ipc (PipeInner pipeBuf)
open Proc (kernelPid maxProcesses)

/-- The command of `fcntl` that makes another descriptor. -/
def fDupfd : BitVec 64 := 0

/-- The command of `fcntl` that sets the flags of a descriptor. -/
def fSetfd : BitVec 64 := 2

/-- The two ends of a pipe. -/
inductive PipeEnd where
  | read
  | write
  deriving DecidableEq

namespace PipeEnd

/-- What a descriptor for an end of a pipe stands for. -/
def entry (side : PipeEnd) (id : Nat) : FdEntry :=
  match side with
  | .read => .pipeRead id
  | .write => .pipeWrite id

/-- The number of ends that a pipe counts. -/
def refs (side : PipeEnd) (pipe : PipeInner) : Nat :=
  match side with
  | .read => pipe.readRefs
  | .write => pipe.writeRefs

/-- A pipe with one more end. -/
def dup (side : PipeEnd) (pipe : PipeInner) : PipeInner :=
  match side with
  | .read => pipe.dupRead
  | .write => pipe.dupWrite

/-- A pipe with one end less. -/
def close (side : PipeEnd) (pipe : PipeInner) : PipeInner :=
  match side with
  | .read => pipe.closeRead
  | .write => pipe.closeWrite

variable {side other : PipeEnd} {pipe : PipeInner}

theorem refs_dup (small : side.refs pipe + 1 < 2 ^ 32) :
    other.refs (side.dup pipe) = other.refs pipe + if other = side then 1 else 0 := by
  cases other <;> cases side <;> simp_all [refs, dup, PipeInner.dupRead, PipeInner.dupWrite,
    Nat.mod_eq_of_lt]

theorem refs_close (positive : 0 < side.refs pipe) :
    other.refs (side.close pipe) + (if other = side then 1 else 0) = other.refs pipe := by
  cases other <;> cases side <;>
    simp [refs, close, PipeInner.closeRead, PipeInner.closeWrite] at positive ⊢ <;> omega

@[simp] theorem dup_ring : (side.dup pipe).ring = pipe.ring := by cases side <;> rfl
@[simp] theorem close_ring : (side.close pipe).ring = pipe.ring := by cases side <;> rfl

end PipeEnd

/-- Whether a process has not exited. -/
def Process.live (process : Process) : Bool :=
  process.pcb.state != .zombie && process.pcb.state != .dead

/-- The number of descriptors of a live process that stand for something. -/
def Process.holds (entry : FdEntry) : Option Process → Nat
  | none => 0
  | some process => if process.live then process.fds.count entry else 0

/-- The calls that make, copy and drop descriptors, and those that use pipes. -/
inductive PipeCall where
  | pipe2 (fds : Nat)
  | dup (fd : BitVec 64)
  | dup2 (oldfd newfd : BitVec 64)
  | fcntl (fd cmd arg : BitVec 64)
  | close (fd : BitVec 64)
  -- The root of the new page table is missing if the program cannot be loaded.
  | exec (image : Option Nat)
  -- The root of the copied page table is missing if there is no memory for it.
  | fork (space : Option Nat) (threadInserted : Bool)
  | exit (status : BitVec 64)
  | read (tid : Nat) (fd : BitVec 64) (room : Nat)
  | write (tid : Nat) (fd : BitVec 64) (data : Bytes)

/-- A process makes a call, or goes on with `pipe2` after the pipe was made. -/
inductive PipeOp where
  | call (pid : Nat) (call : PipeCall)
  | next (pid : Nat)

/-- The processes, the pipes, and the pipes for which a call has yet to make descriptors. -/
structure PipeSystem where
  processes : Nat → Option Process
  pipes : Nat → Option PipeInner
  nextPipe : BitVec 32
  nextPid : BitVec 32
  making : Nat → Option Nat

namespace PipeSystem

/-- The kernel and its first process, before any pipe is made. -/
def boot : PipeSystem where
  processes := fun pid =>
    if pid ≤ 1 then
      some ⟨{ Proc.Process.newUser pid kernelPid with state := .running, cred := .root },
        if pid = kernelPid then .new else FdTable.new.initStdio, none⟩
    else none
  pipes := fun _ => none
  nextPipe := 0
  nextPid := 2
  making := fun _ => none

/-- A process with other contents. -/
def put (system : PipeSystem) (pid : Nat) (process : Process) : PipeSystem :=
  { system with processes := update system.processes pid (some process) }

/-- Changing the record of a process, if there is one. -/
def withProcessMut (system : PipeSystem) (pid : Nat) (change : Proc.Process → Proc.Process) :
    PipeSystem :=
  { system with
    processes := update system.processes pid
      ((system.processes pid).map fun process => { process with pcb := change process.pcb }) }

/-- Changing a pipe, if there is one; the index is not checked. -/
def withPipe (system : PipeSystem) (id : Nat) (change : PipeInner → Exec PipeInner) :
    Exec PipeSystem :=
  if id < maxPipes then
    match system.pipes id with
    | none => .ok system
    | some pipe => do
      let changed ← change pipe
      .ok { system with pipes := update system.pipes id (some changed) }
  else .error .indexOutOfBounds

/-- Counting one more end. -/
def dupFdEntry (system : PipeSystem) : FdEntry → Exec PipeSystem
  | .pipeRead id => system.withPipe id fun pipe => .ok pipe.dupRead
  | .pipeWrite id => system.withPipe id fun pipe => .ok pipe.dupWrite
  | _ => .ok system

/-- Counting one end less. -/
def closeFdEntry (system : PipeSystem) : FdEntry → Exec PipeSystem
  | .pipeRead id => system.withPipe id fun pipe => .ok pipe.closeRead
  | .pipeWrite id => system.withPipe id fun pipe => .ok pipe.closeWrite
  | _ => .ok system

/-- A new pipe; its number is used up even if there is no room for it. -/
def createPipe (system : PipeSystem) (pid : Nat) : PipeSystem :=
  if maxPipes ≤ system.nextPipe.toNat then { system with nextPipe := system.nextPipe + 1 }
  else
    { system with
      nextPipe := system.nextPipe + 1
      pipes := update system.pipes system.nextPipe.toNat
        (some { PipeInner.new with readRefs := 1, writeRefs := 1 })
      making := update system.making pid (some system.nextPipe.toNat) }

/-- The second half of `pipe2`, which makes the descriptors. -/
def installPipe (system : PipeSystem) (pid id : Nat) : PipeSystem :=
  match system.processes pid with
  | none => system
  | some process =>
    match process.fds.alloc (.pipeRead id) with
    | none => system
    | some (_, reading) =>
      match reading.alloc (.pipeWrite id) with
      | none => system.put pid { process with fds := reading }
      | some (_, both) => system.put pid { process with fds := both }

/-- Another descriptor, which is counted before it is made. -/
def sysDup (system : PipeSystem) (pid : Nat) (process : Process) (fd : Nat) : Exec PipeSystem :=
  match process.fds.get fd with
  | none => .ok system
  | some entry => do
    let counted ← system.dupFdEntry entry
    match process.fds.alloc entry with
    | none => .ok counted
    | some (_, fds) => .ok (counted.put pid { process with fds })

/-- What `dup2` counts, before it knows whether the new descriptor can be made. -/
def countOld (system : PipeSystem) (process : Process) (oldfd newfd : BitVec 64) :
    Exec PipeSystem :=
  if oldfd ≠ newfd then
    match process.fds.get (asU32 oldfd) with
    | none => .ok system
    | some entry => system.dupFdEntry entry
  else .ok system

/-- A copy of a descriptor in the place of another one, which is not closed. -/
def sysDup2 (system : PipeSystem) (pid : Nat) (process : Process) (oldfd newfd : BitVec 64) :
    Exec PipeSystem := do
  let counted ← system.countOld process oldfd newfd
  match process.fds.dup2 (asU32 oldfd) (asU32 newfd) with
  | none => .ok counted
  | some fds => .ok (counted.put pid { process with fds })

/-- The table of descriptors after a command; the copy that it makes is not counted. -/
def fcntlTable (fds : FdTable) (fd cmd arg : BitVec 64) : Option FdTable :=
  if cmd = fDupfd then
    (fds.get (asU32 fd)).bind fun entry => (fds.alloc entry).map fun served => served.2
  else if cmd = fSetfd then fds.setFdFlags (asU32 fd) (arg.setWidth 8)
  else none

/-- A command for a descriptor. -/
def sysFcntl (system : PipeSystem) (pid : Nat) (process : Process) (fd cmd arg : BitVec 64) :
    PipeSystem :=
  match fcntlTable process.fds fd cmd arg with
  | none => system
  | some fds => system.put pid { process with fds }

/-- Closing a descriptor, which is counted even if it cannot be closed. -/
def sysClose (system : PipeSystem) (pid : Nat) (process : Process) (fd : Nat) : Exec PipeSystem :=
  match process.fds.get fd with
  | none => .ok system
  | some entry => do
    let counted ← system.closeFdEntry entry
    .ok (counted.put pid { process with fds := (process.fds.close fd).2 })

/-- Starting another program, if it can be loaded. -/
def kernelExec (system : PipeSystem) (pid : Nat) (process : Process) (image : Option Nat) :
    PipeSystem :=
  match image with
  | none => system
  | some root =>
    system.put pid
      { pcb := { process.pcb with state := .running, signals := .new }
        fds := process.fds.closeOnExec
        cr3 := some root }

/-- The record of a new process, whose descriptors are not those of its parent. -/
def newChild (pid child root : Nat) (process : Process) : Process where
  pcb := { Proc.Process.newUser child pid with
    state := .running
    cred := process.pcb.cred.fork
    signals := process.pcb.signals.forkState }
  fds := FdTable.new.initStdio
  cr3 := some root

/-- Making a new process, if there is memory for it and room in the tables. -/
def doFork (system : PipeSystem) (pid : Nat) (process : Process) (space : Option Nat)
    (threadInserted : Bool) : PipeSystem :=
  match space with
  | none => system
  | some root =>
    let child := system.nextPid.toNat
    let numbered := { system with nextPid := system.nextPid + 1 }
    if child < maxProcesses ∧ (system.processes child).isNone then
      let inserted := numbered.put child (newChild pid child root process)
      if threadInserted then inserted.withProcessMut pid fun pcb => (pcb.addChild child).2
      else inserted
    else numbered

/-- Exiting, which leaves the descriptors of the process as they are. -/
def sysExit (system : PipeSystem) (pid : Nat) (process : Process) (status : BitVec 64) :
    PipeSystem :=
  let marked := system.put pid
    { process with pcb := { process.pcb with state := .zombie, exitCode := status.setWidth 32 } }
  marked.withProcessMut process.pcb.parent fun pcb =>
    { pcb with childWait := wakeOne pcb.childWait }

/-- One attempt to take bytes from a pipe. -/
def takeBytes (tid room : Nat) (pipe : PipeInner) : Exec PipeInner :=
  if 0 < pipe.ring.len then do
    let (bytes, taken) ← pipe.readOnce room
    .ok (if 0 < bytes.length then { taken with writeWaiters := wakeOne taken.writeWaiters } else taken)
  else if pipe.writeRefs = 0 then .ok pipe
  else .ok { pipe with readWaiters := (pipe.readWaiters.push tid).2 }

/-- One attempt to give bytes to a pipe. -/
def giveBytes (tid : Nat) (data : Bytes) (pipe : PipeInner) : Exec PipeInner :=
  if pipe.readRefs = 0 then .ok pipe
  else do
    let (wrote, written) ← pipe.writeOnce data
    if 0 < wrote then .ok { written with readWaiters := wakeOne written.readWaiters }
    else if pipeBuf ≤ written.ring.len then
      .ok { written with writeWaiters := (written.writeWaiters.push tid).2 }
    else .ok written

/-- What a call of a process does. -/
def perform (system : PipeSystem) (pid : Nat) (process : Process) : PipeCall → Exec PipeSystem
  | .pipe2 fds => if accessOk fds 8 then .ok (system.createPipe pid) else .ok system
  | .dup fd => system.sysDup pid process (asU32 fd)
  | .dup2 oldfd newfd => system.sysDup2 pid process oldfd newfd
  | .fcntl fd cmd arg => .ok (system.sysFcntl pid process fd cmd arg)
  | .close fd => system.sysClose pid process (asU32 fd)
  | .exec image => .ok (system.kernelExec pid process image)
  | .fork space threadInserted => .ok (system.doFork pid process space threadInserted)
  | .exit status => .ok (system.sysExit pid process status)
  | .read tid fd room =>
    match process.fds.get (asU32 fd) with
    | some (.pipeRead id) => system.withPipe id (takeBytes tid room)
    | _ => .ok system
  | .write tid fd data =>
    match process.fds.get (asU32 fd) with
    | some (.pipeWrite id) => system.withPipe id (giveBytes tid data)
    | _ => .ok system

/-- A live process that is not in the middle of a call. -/
def caller (system : PipeSystem) (pid : Nat) : Option Process :=
  if pid < maxProcesses ∧ system.making pid = none then (system.processes pid).filter live
  else none

/-- What the operations do; nothing happens where there is no process or call to go on. -/
def step (system : PipeSystem) : PipeOp → Exec PipeSystem
  | .call pid call =>
    match system.caller pid with
    | none => .ok system
    | some process => system.perform pid process call
  | .next pid =>
    match system.making pid with
    | none => .ok system
    | some id =>
      .ok { system.installPipe pid id with making := update system.making pid none }

/-- The number of descriptors of live processes that stand for something. -/
def count (system : PipeSystem) (entry : FdEntry) : Nat :=
  ∑ pid ∈ Finset.range maxProcesses, holds entry (system.processes pid)

/-- The number of calls that have yet to make the descriptors of a pipe. -/
def pending (system : PipeSystem) (id : Nat) : Nat :=
  ∑ pid ∈ Finset.range maxProcesses, if system.making pid = some id then 1 else 0

/-- Some live process has a descriptor that stands for something. -/
def Refers (system : PipeSystem) (entry : FdEntry) : Prop :=
  ∃ pid < maxProcesses, ∃ process, system.processes pid = some process ∧ process.live = true ∧
    ∃ fd < maxFds, process.fds.entries fd = some entry

/--
The counts of every pipe are the numbers of descriptors that stand for its ends.

An empty pipe reports its end exactly if no descriptor for writing is left, and a write to a pipe is
refused exactly if no descriptor for reading is left. A pipe is left out while `pipe2` has yet to
make its descriptors.
-/
def Exact (system : PipeSystem) : Prop :=
  ∀ id pipe, system.pipes id = some pipe → (∀ pid, system.making pid ≠ some id) →
    pipe.readRefs = system.count (.pipeRead id) ∧
    pipe.writeRefs = system.count (.pipeWrite id) ∧
    (∀ room held world, pipe.ring.len = 0 →
      ((∃ after, tryPipeRead id room pipe held world = .ok (.ok [], after)) ↔
        ¬ system.Refers (.pipeWrite id))) ∧
    (∀ data held world,
      (∃ after, tryPipeWrite id data pipe held world = .ok (.error .epipe, after)) ↔
        ¬ system.Refers (.pipeRead id))

/-- Whether a table has no descriptor for an end of a pipe. -/
def pipeFree (fds : FdTable) : Bool :=
  (List.range maxFds).all fun fd => !(fds.entries fd).any FdEntry.isPipe

/-- Whether `exec` closes no descriptor for an end of a pipe. -/
def keepsPipes (fds : FdTable) : Bool :=
  (List.range maxFds).all fun fd =>
    !(fds.entries fd).any FdEntry.isPipe || fds.closeOnExec.entries fd == fds.entries fd

/-- Whether a number is not that of a pipe that is still in use. -/
def unused (system : PipeSystem) (id : Nat) : Bool :=
  system.count (.pipeRead id) == 0 && system.count (.pipeWrite id) == 0 && system.pending id == 0

/--
What a call of a process needs so that the counts stay exact.

Copies of pipe ends are made by `dup` and find room, or by `dup2` in a place that has no pipe end.
Pipe ends are dropped by `close` only, and not at the first three descriptors.
-/
def suits (system : PipeSystem) (process : Process) : PipeCall → Bool
  | .pipe2 _ => maxPipes ≤ system.nextPipe.toNat || system.unused system.nextPipe.toNat
  | .dup fd => (process.fds.get (asU32 fd)).all fun entry =>
      !entry.isPipe || (process.fds.alloc entry).isSome
  | .dup2 oldfd newfd => oldfd == newfd || (process.fds.get (asU32 oldfd)).all fun entry =>
      if asU32 newfd < maxFds then !(process.fds.entries (asU32 newfd)).any FdEntry.isPipe
      else !entry.isPipe
  | .fcntl fd cmd _ => cmd != fDupfd || (process.fds.get (asU32 fd)).all fun entry =>
      !entry.isPipe || (process.fds.alloc entry).isNone
  | .close fd => 3 ≤ asU32 fd || (process.fds.get (asU32 fd)).all fun entry => !entry.isPipe
  | .exec image => image.isNone || keepsPipes process.fds
  | .exit _ => pipeFree process.fds
  | .fork _ _ | .read _ _ _ | .write _ _ _ => true

/-- What an operation needs so that the counts stay exact. -/
def careful (system : PipeSystem) : PipeOp → Bool
  | .call pid call => (system.caller pid).all fun process => system.suits process call
  | .next pid => (system.making pid).all fun id => (system.processes pid).all fun process =>
      (process.fds.alloc (.pipeRead id)).any fun served => (served.2.alloc (.pipeWrite id)).isSome

variable {system next : PipeSystem} {pid id fd : Nat} {process after : Process} {entry : FdEntry}
  {side : PipeEnd} {pipe : PipeInner} {pipes pipes' : Nat → Option PipeInner} {fds : FdTable}

theorem end_of_isPipe (isEnd : entry.isPipe = true) : ∃ side id, entry = PipeEnd.entry side id := by
  cases entry with
  | pipeRead id => exact ⟨.read, id, rfl⟩
  | pipeWrite id => exact ⟨.write, id, rfl⟩
  | _ => cases isEnd

variable {slot : Option FdEntry} {loss gain : FdEntry → Nat}

theorem ne_entry (plain : slot.any FdEntry.isPipe = false) : slot ≠ some (side.entry id) := by
  rintro rfl
  cases side <;> cases plain

theorem weight_slot (plain : slot.any FdEntry.isPipe = false) : (side.entry id).weight slot = 0 :=
  if_neg (ne_entry plain)

theorem weight_plain (plain : entry.isPipe = false) : (side.entry id).weight (some entry) = 0 :=
  weight_slot (show (some entry).any FdEntry.isPipe = false from plain)

theorem weight_entry (side : PipeEnd) {other : PipeEnd} {number : Nat} :
    (other.entry number).weight (some (side.entry id)) =
      if other = side ∧ number = id then 1 else 0 := by
  cases other <;> cases side <;> simp [FdEntry.weight, PipeEnd.entry, eq_comm]

/-- The descriptors of a table stand for pipes with valid numbers only. -/
def Known (fds : FdTable) : Prop :=
  ∀ fd side id, fds.entries fd = some (PipeEnd.entry side id) → id < maxPipes

theorem Known.setEntry (known : Known fds)
    (valid : ∀ side id, slot = some (PipeEnd.entry side id) → id < maxPipes) :
    Known (fds.setEntry fd slot) :=
  (Function.forall_update_iff fds.entries fun _ (slot : Option FdEntry) =>
    ∀ side id, slot = some (PipeEnd.entry side id) → id < maxPipes).mpr
      ⟨valid, fun other _ => known other⟩

theorem Known.alloc (known : Known fds) {served : Nat × FdTable}
    (valid : ∀ side id, entry = PipeEnd.entry side id → id < maxPipes)
    (made : fds.alloc entry = some served) : Known served.2 := by
  obtain ⟨-, -, same⟩ := FdTable.alloc_some made
  rw [same]
  refine known.setEntry fun side id isPipe => ?_
  exact valid side id (Option.some.inj isPipe)

theorem initStdio_entries (fd : Nat) :
    (FdTable.new.initStdio.entries fd).any FdEntry.isPipe = false := by
  unfold FdTable.initStdio FdTable.setEntry FdTable.new
  simp only [update_apply]
  split
  · rfl
  · split
    · rfl
    · split <;> rfl

/--
The counts follow the descriptors.

What the ends of a pipe lose and gain in the tables, they lose and gain in the counts.
-/
def Follows (pipes pipes' : Nat → Option PipeInner) (loss gain : FdEntry → Nat) : Prop :=
  ∀ id pipe', pipes' id = some pipe' → ∃ pipe, pipes id = some pipe ∧
    (pipe.ring.Queues pipeBuf → pipe'.ring.Queues pipeBuf) ∧
    ∀ side, PipeEnd.refs side pipe' + loss (side.entry id) =
      PipeEnd.refs side pipe + gain (side.entry id)

theorem Follows.refl
    (same : ∀ side id, loss (PipeEnd.entry side id) = gain (PipeEnd.entry side id)) :
    Follows pipes pipes loss gain := by
  intro id pipe here
  refine ⟨pipe, here, fun queues => queues, fun side => ?_⟩
  rw [same side id]

theorem Follows.shift {loss' gain' : FdEntry → Nat} (follows : Follows pipes pipes' loss gain)
    (same : ∀ side id, loss' (PipeEnd.entry side id) + gain (PipeEnd.entry side id) =
      gain' (PipeEnd.entry side id) + loss (PipeEnd.entry side id)) :
    Follows pipes pipes' loss' gain' := by
  intro id pipe' here
  obtain ⟨pipe, there, rings, refs⟩ := follows id pipe' here
  refine ⟨pipe, there, rings, fun side => ?_⟩
  have balance := refs side
  have other := same side id
  omega

theorem withPipe_follows {change : PipeInner → Exec PipeInner} (inside : id < maxPipes)
    (changes : ∀ pipe, system.pipes id = some pipe → ∃ changed, change pipe = .ok changed ∧
      (pipe.ring.Queues pipeBuf → changed.ring.Queues pipeBuf) ∧ ∀ side,
        PipeEnd.refs side changed + loss (side.entry id) =
          PipeEnd.refs side pipe + gain (side.entry id))
    (others : ∀ side other, other ≠ id →
      loss (PipeEnd.entry side other) = gain (PipeEnd.entry side other)) :
    ∃ pipes, system.withPipe id change = .ok { system with pipes } ∧
      Follows system.pipes pipes loss gain := by
  unfold withPipe
  rw [if_pos inside]
  cases here : system.pipes id with
  | none =>
    refine ⟨system.pipes, rfl, ?_⟩
    intro other pipe there
    refine ⟨pipe, there, fun queues => queues, fun side => ?_⟩
    -- The pipe is another one, since there is none with the number.
    have apart : other ≠ id := by
      intro same
      rw [same, here] at there
      cases there
    rw [others side other apart]
  | some pipe =>
    obtain ⟨changed, run, rings, refs⟩ := changes pipe here
    refine ⟨update system.pipes id (some changed), ?_, ?_⟩
    · dsimp only
      rw [run]
      rfl
    · intro other pipe' there
      rcases of_update there with ⟨rfl, ⟨⟩⟩ | ⟨same, there⟩
      · exact ⟨pipe, here, rings, refs⟩
      · refine ⟨pipe', there, fun queues => queues, fun side => ?_⟩
        rw [others side other same]

theorem count_put (system : PipeSystem) (after : Process) (inside : pid < maxProcesses)
    (entry : FdEntry) :
    (system.put pid after).count entry + holds entry (system.processes pid) =
      system.count entry + holds entry (some after) :=
  sum_update (holds entry) system.processes inside (some after)

theorem pending_update (system : PipeSystem) (inside : pid < maxProcesses) (slot : Option Nat)
    (id : Nat) :
    { system with making := update system.making pid slot }.pending id +
        (if system.making pid = some id then 1 else 0) =
      system.pending id + if slot = some id then 1 else 0 :=
  sum_update (fun slot => if slot = some id then 1 else 0) system.making inside slot

theorem refs_congr {refs : Nat} (held made : PipeSystem)
    (counted : refs = held.count entry + made.pending id)
    (processes : next.processes = held.processes) (making : next.making = made.making) :
    refs = next.count entry + next.pending id := by
  rw [counted, count, count, pending, pending, processes, making]

theorem holds_le (slot : Option Process) : holds entry slot ≤ maxFds := by
  unfold holds
  split
  · exact Nat.zero_le _
  · split
    · exact FdTable.count_le
    · exact Nat.zero_le _

theorem count_lt : system.count entry + system.pending id + 1 < 2 ^ 32 := by
  have held : system.count entry ≤ ∑ _pid ∈ Finset.range maxProcesses, maxFds :=
    sum_le_sum fun pid _ => holds_le (system.processes pid)
  have made : system.pending id ≤ ∑ _pid ∈ Finset.range maxProcesses, 1 := by
    refine sum_le_sum fun pid _ => ?_
    split <;> omega
  rw [sum_const_nat fun _ _ => rfl, card_range] at held made
  simp only [maxProcesses, maxFds] at held made
  omega

theorem count_eq_zero : system.count entry = 0 ↔ ¬ system.Refers entry := by
  unfold count Refers
  rw [sum_eq_zero_iff]
  constructor
  · rintro zero ⟨pid, inside, process, here, live, fd, small, found⟩
    have held := zero pid (mem_range.mpr inside)
    rw [here, holds, if_pos live] at held
    exact FdTable.count_eq_zero.mp held fd small found
  · intro none pid member
    cases here : system.processes pid with
    | none => rfl
    | some process =>
      rw [holds]
      split
      · rename_i live
        refine FdTable.count_eq_zero.mpr fun fd small found => ?_
        exact none ⟨pid, mem_range.mp member, process, here, live, fd, small, found⟩
      · rfl

/--
The counts are the numbers of descriptors, with those that `pipe2` has yet to make.

Descriptors stand for pipes with valid numbers, and only live processes are in the middle of a call.
-/
structure Orderly (system : PipeSystem) : Prop where
  exact : ∀ side id pipe, system.pipes id = some pipe →
    PipeEnd.refs side pipe = system.count (side.entry id) + system.pending id
  rings : ∀ id pipe, system.pipes id = some pipe → pipe.ring.Queues pipeBuf
  inside : ∀ pid process, system.processes pid = some process → pid < maxProcesses
  known : ∀ pid process, system.processes pid = some process → Known process.fds
  making : ∀ pid id, system.making pid = some id → id < maxPipes ∧
    ∃ process, system.processes pid = some process ∧ process.live = true

theorem fdEntry_plain (plain : entry.isPipe = false) :
    system.dupFdEntry entry = .ok system ∧ system.closeFdEntry entry = .ok system := by
  cases entry with
  | pipeRead _ | pipeWrite _ => cases plain
  | _ => exact ⟨rfl, rfl⟩

theorem dupFdEntry_entry : system.dupFdEntry (side.entry id) =
    system.withPipe id fun pipe => .ok (side.dup pipe) := by
  cases side <;> rfl

theorem closeFdEntry_entry : system.closeFdEntry (side.entry id) =
    system.withPipe id fun pipe => .ok (side.close pipe) := by
  cases side <;> rfl

namespace Orderly

variable (orderly : system.Orderly)

include orderly

/-- One process changes, and the pipes follow what its descriptors lose and gain. -/
theorem change (inside : pid < maxProcesses)
    (follows : Follows system.pipes pipes
      (fun entry => holds entry (system.processes pid))
      fun entry => holds entry (some after))
    (known : Known after.fds) (lives : ∀ id, system.making pid = some id → after.live = true) :
    ({ system with pipes }.put pid after).Orderly where
  exact := by
    intro side id pipe' here
    obtain ⟨pipe, there, -, refs⟩ := follows id pipe' here
    have before := orderly.exact side id pipe there
    have balance := refs side
    have counted := count_put system after inside (side.entry id)
    change _ = (system.put pid after).count (side.entry id) + system.pending id
    dsimp only at balance
    omega
  rings := by
    intro id pipe' here
    obtain ⟨pipe, there, rings, -⟩ := follows id pipe' here
    exact rings (orderly.rings id pipe there)
  inside := forall_update inside orderly.inside
  known := forall_update known orderly.known
  making := by
    intro other id made
    obtain ⟨small, process, here, live⟩ := orderly.making other id made
    refine ⟨small, ?_⟩
    change ∃ process, update system.processes pid (some after) other = _ ∧ _
    by_cases same : other = pid
    · rw [same, update_self]
      rw [same] at made
      exact ⟨after, rfl, lives id made⟩
    · rw [update_of_ne same]
      exact ⟨process, here, live⟩

theorem put (inside : pid < maxProcesses)
    (same : ∀ side id, holds (PipeEnd.entry side id) (system.processes pid) =
      holds (PipeEnd.entry side id) (some after))
    (known : Known after.fds) (lives : ∀ id, system.making pid = some id → after.live = true) :
    (system.put pid after).Orderly :=
  orderly.change inside (Follows.refl same) known lives

theorem withProcessMut {change : Proc.Process → Proc.Process}
    (keeps : ∀ pcb, (change pcb).state = pcb.state) :
    (system.withProcessMut pid change).Orderly := by
  unfold PipeSystem.withProcessMut
  cases here : system.processes pid with
  | none =>
    rw [map_none, ← here, update_eq_self]
    exact orderly
  | some process =>
    have live : live { process with pcb := change process.pcb } = process.live := by
      simp only [live, keeps]
    refine orderly.put (orderly.inside pid process here) ?_ (orderly.known pid process here) ?_
    · intro side id
      simp only [here, holds, live]
    · intro id made
      obtain ⟨-, found, there, alive⟩ := orderly.making pid id made
      cases here.symm.trans there
      rw [live]
      exact alive

theorem le_count (here : system.processes pid = some process) (live : process.live = true)
    (entry : FdEntry) : process.fds.count entry ≤ system.count entry := by
  have member : pid ∈ Finset.range maxProcesses :=
    mem_range.mpr (orderly.inside pid process here)
  have part := single_le_sum
    (fun other _ => Nat.zero_le (holds entry (system.processes other))) member
  rwa [here, holds, if_pos live] at part

theorem dupFdEntry (valid : ∀ side id, entry = PipeEnd.entry side id → id < maxPipes) :
    ∃ pipes, system.dupFdEntry entry = .ok { system with pipes } ∧
      Follows system.pipes pipes (fun _ => 0) fun other => other.weight (some entry) := by
  cases shape : entry.isPipe with
  | false =>
    refine ⟨system.pipes, (fdEntry_plain shape).1, Follows.refl fun side id => ?_⟩
    exact (weight_plain shape).symm
  | true =>
    obtain ⟨kind, id, rfl⟩ := end_of_isPipe shape
    rw [dupFdEntry_entry]
    refine withPipe_follows (valid kind id rfl) ?_ fun side other apart => ?_
    · intro pipe here
      refine ⟨kind.dup pipe, rfl, fun queues => ?_, fun side => ?_⟩
      · rwa [PipeEnd.dup_ring]
      · -- The counts are small enough for one more.
        have small : kind.refs pipe + 1 < 2 ^ 32 := by
          rw [orderly.exact kind id pipe here]
          exact count_lt
        simp only [PipeEnd.refs_dup small, weight_entry, and_true, Nat.add_zero]
    · simp only [weight_entry, apart, and_false, if_false]

theorem closeFdEntry (here : system.processes pid = some process) (live : process.live = true)
    (found : process.fds.get fd = some entry) :
    ∃ pipes, system.closeFdEntry entry = .ok { system with pipes } ∧
      Follows system.pipes pipes (fun other => other.weight (some entry)) fun _ => 0 := by
  cases shape : entry.isPipe with
  | false =>
    refine ⟨system.pipes, (fdEntry_plain shape).2, .refl fun side id => ?_⟩
    exact weight_plain shape
  | true =>
    obtain ⟨kind, id, rfl⟩ := end_of_isPipe shape
    obtain ⟨small, entered⟩ := FdTable.get_some found
    rw [closeFdEntry_entry]
    refine withPipe_follows (orderly.known pid process here fd kind id entered) ?_
      fun side other apart => ?_
    · intro pipe there
      refine ⟨kind.close pipe, rfl, fun queues => ?_, fun side => ?_⟩
      · rwa [PipeEnd.close_ring]
      · -- The descriptor itself is counted.
        have positive : 0 < kind.refs pipe := by
          rw [orderly.exact kind id pipe there]
          have some : process.fds.count (kind.entry id) ≠ 0 :=
            fun zero => FdTable.count_eq_zero.mp zero fd small entered
          have part := orderly.le_count here live (kind.entry id)
          omega
        simp only [weight_entry, and_true]
        exact PipeEnd.refs_close positive
    · simp only [weight_entry, apart, and_false, if_false]

end Orderly

/-- A live process of the table that is not in the middle of a call. -/
structure Calls (system : PipeSystem) (pid : Nat) (process : Process) : Prop where
  small : pid < maxProcesses
  idle : system.making pid = none
  here : system.processes pid = some process
  live : process.live = true

namespace Orderly

variable (orderly : system.Orderly)

include orderly

variable (calls : system.Calls pid process)

include calls

theorem setFds (follows : Follows system.pipes pipes process.fds.count fds.count)
    (known : Known fds) : ({ system with pipes }.put pid { process with fds }).Orderly := by
  refine orderly.change calls.small ?_ known ?_
  · refine follows.shift fun side id => ?_
    have live : live { process with fds } = true := calls.live
    simp only [calls.here, holds, calls.live, live, if_true]
    exact Nat.add_comm _ _
  · intro id made
    rw [calls.idle] at made
    cases made

theorem valid (found : process.fds.get fd = some entry) (side : PipeEnd) (id : Nat)
    (isEnd : entry = side.entry id) : id < maxPipes := by
  rw [isEnd] at found
  exact orderly.known pid process calls.here fd side id (FdTable.get_some found).2

theorem sysDup
    (room : ∀ entry, process.fds.get fd = some entry → entry.isPipe = true →
      process.fds.alloc entry ≠ none) :
    ∃ next, system.sysDup pid process fd = .ok next ∧ next.Orderly := by
  unfold PipeSystem.sysDup
  cases found : process.fds.get fd with
  | none => exact ⟨system, rfl, orderly⟩
  | some entry =>
    have valid := orderly.valid calls found
    cases made : process.fds.alloc entry with
    | none =>
      -- Only a copy that is not counted may fail.
      have plain : entry.isPipe = false := by
        by_contra isEnd
        exact room entry found (eq_true_of_ne_false isEnd) made
      refine ⟨system, ?_, orderly⟩
      dsimp only
      rw [(fdEntry_plain plain).1, Exec.ok_bind, made]
    | some served =>
      obtain ⟨pipes, run, follows⟩ := orderly.dupFdEntry valid
      refine ⟨{ system with pipes }.put pid { process with fds := served.2 }, ?_, ?_⟩
      · dsimp only
        rw [run, Exec.ok_bind, made]
      · refine orderly.setFds calls (follows.shift fun side id => ?_) ?_
        · rw [FdTable.count_alloc made, Nat.add_zero]
        · exact .alloc (orderly.known pid process calls.here) valid made

theorem sysDup2 {oldfd newfd : BitVec 64}
    (suits : oldfd = newfd ∨ ∀ entry, process.fds.get (asU32 oldfd) = some entry →
      if asU32 newfd < maxFds
        then (process.fds.entries (asU32 newfd)).any FdEntry.isPipe = false
        else entry.isPipe = false) :
    ∃ next, system.sysDup2 pid process oldfd newfd = .ok next ∧ next.Orderly := by
  unfold PipeSystem.sysDup2 countOld FdTable.dup2
  cases found : process.fds.get (asU32 oldfd) with
  | none =>
    refine ⟨system, ?_, orderly⟩
    split <;> rfl
  | some entry =>
    have valid := orderly.valid calls found
    have known := orderly.known pid process calls.here
    obtain ⟨inside, entered⟩ := FdTable.get_some found
    have slot : ∀ side id, some entry = some (PipeEnd.entry side id) → id < maxPipes :=
      fun side id isEnd => valid side id (Option.some.inj isEnd)
    by_cases same : oldfd = newfd
    · -- The descriptor is replaced by itself, and nothing is counted.
      subst same
      dsimp only
      rw [if_neg (fun differ => differ rfl), if_neg (Nat.not_le_of_lt inside)]
      refine ⟨_, rfl, orderly.setFds calls (Follows.refl fun side id => ?_) (known.setEntry slot)⟩
      refine (FdTable.count_congr fun fd _ => ?_).symm
      change update process.fds.entries (asU32 oldfd) (some entry) fd = _ ↔ _
      rw [← entered, update_eq_self]
    · have suits := suits.resolve_left same entry found
      dsimp only
      rw [if_pos same]
      by_cases small : asU32 newfd < maxFds
      · -- What is replaced is no end of a pipe, so the counts only grow.
        rw [if_pos small] at suits
        rw [if_neg (Nat.not_le_of_lt small)]
        obtain ⟨pipes, run, follows⟩ := orderly.dupFdEntry valid
        rw [run]
        refine ⟨_, rfl, orderly.setFds calls (follows.shift fun side id => ?_) (known.setEntry slot)⟩
        have counted := FdTable.count_setEntry process.fds small (some entry) (side.entry id)
        rw [weight_slot suits] at counted
        exact counted.symm
      · -- The number is refused only after the entry has been counted.
        rw [if_neg small] at suits
        rw [if_pos (Nat.le_of_not_lt small), (fdEntry_plain suits).1]
        exact ⟨system, rfl, orderly⟩

theorem sysFcntl {fd cmd arg : BitVec 64}
    (suits : cmd = fDupfd → ∀ entry, process.fds.get (asU32 fd) = some entry →
      entry.isPipe = false ∨ process.fds.alloc entry = none) :
    (system.sysFcntl pid process fd cmd arg).Orderly := by
  have known := orderly.known pid process calls.here
  unfold PipeSystem.sysFcntl
  cases changed : fcntlTable process.fds fd cmd arg with
  | none => exact orderly
  | some fds =>
    unfold fcntlTable at changed
    split at changed
    · rename_i dup
      obtain ⟨entry, found, changed⟩ := bind_eq_some_iff.mp changed
      obtain ⟨served, made, rfl⟩ := map_eq_some_iff.mp changed
      -- The copy is not counted, so it must not be an end of a pipe.
      rcases suits dup entry found with plain | full
      · refine orderly.setFds calls (.refl fun side id => ?_)
          (known.alloc (orderly.valid calls found) made)
        rw [FdTable.count_alloc made, weight_plain plain, Nat.add_zero]
      · cases full.symm.trans made
    · split at changed
      · unfold FdTable.setFdFlags at changed
        split at changed
        · cases changed
        · cases changed
          exact orderly.setFds calls (Follows.refl fun side id => rfl) known
      · cases changed

theorem sysClose
    (suits : 3 ≤ fd ∨ ∀ entry, process.fds.get fd = some entry → entry.isPipe = false) :
    ∃ next, system.sysClose pid process fd = .ok next ∧ next.Orderly := by
  have known := orderly.known pid process calls.here
  unfold PipeSystem.sysClose
  cases found : process.fds.get fd with
  | none => exact ⟨system, rfl, orderly⟩
  | some entry =>
    obtain ⟨inside, entered⟩ := FdTable.get_some found
    obtain ⟨pipes, run, follows⟩ := orderly.closeFdEntry calls.here calls.live found
    dsimp only
    rw [run]
    refine ⟨_, rfl, ?_⟩
    unfold FdTable.close
    split
    · -- The first three descriptors stay, and they are not ends of pipes.
      rename_i low
      have plain := suits.resolve_left (Nat.not_le_of_lt low) entry found
      refine orderly.setFds calls (follows.shift fun side id => ?_) known
      rw [weight_plain plain]
    · rw [found]
      refine orderly.setFds calls (follows.shift fun side id => ?_) (known.setEntry ?_)
      · have counted := FdTable.count_setEntry process.fds inside none (side.entry id)
        rw [entered] at counted
        exact counted.symm
      · nofun

theorem kernelExec {image : Option Nat} (suits : image = none ∨ keepsPipes process.fds = true) :
    (system.kernelExec pid process image).Orderly := by
  cases image with
  | none => exact orderly
  | some root =>
    have keeps := suits.resolve_left nofun
    simp only [keepsPipes, List.all_eq_true, List.mem_range, Bool.or_eq_true, Bool.not_eq_true',
      beq_iff_eq] at keeps
    refine orderly.put calls.small ?_ ?_ fun _ _ => rfl
    · -- No end of a pipe is closed, so the counts stay.
      intro side id
      rw [calls.here]
      simp only [holds, calls.live, if_true]
      refine (FdTable.count_congr fun fd inside => ?_).symm
      constructor
      · intro kept
        change (if _ then none else process.fds.entries fd) = _ at kept
        split at kept
        · cases kept
        · exact kept
      · intro entered
        rcases keeps fd inside with plain | kept
        · exact absurd entered (ne_entry plain)
        · exact kept.trans entered
    · intro fd side id entered
      change (if _ then none else process.fds.entries fd) = _ at entered
      split at entered
      · cases entered
      · exact orderly.known pid process calls.here fd side id entered

omit calls in
theorem doFork {space : Option Nat} {threadInserted : Bool} :
    (system.doFork pid process space threadInserted).Orderly := by
  cases space with
  | none => exact orderly
  | some root =>
    have numbered : { system with nextPid := system.nextPid + 1 }.Orderly := { orderly with }
    unfold PipeSystem.doFork
    dsimp only
    split
    · rename_i free
      have empty := isNone_iff_eq_none.mp free.2
      -- The child has the standard descriptors alone.
      have inserted : ({ system with nextPid := system.nextPid + 1 }.put system.nextPid.toNat
          (newChild pid system.nextPid.toNat root process)).Orderly := by
        refine numbered.put free.1 ?_ ?_ fun _ _ => rfl
        · intro side id
          have none : FdTable.new.initStdio.count (side.entry id) = 0 :=
            FdTable.count_eq_zero.mpr fun fd _ => ne_entry (initStdio_entries fd)
          simp only [empty, holds, newChild, none, ite_self]
        · intro fd side id entered
          exact absurd entered (ne_entry (initStdio_entries fd))
      split
      · refine inserted.withProcessMut fun pcb => ?_
        unfold Proc.Process.addChild
        split <;> rfl
      · exact inserted
    · exact numbered

theorem sysExit {status : BitVec 64} (suits : pipeFree process.fds = true) :
    (system.sysExit pid process status).Orderly := by
  simp only [pipeFree, List.all_eq_true, List.mem_range, Bool.not_eq_true'] at suits
  -- Waking the parent changes neither its descriptors nor whether it is live.
  have woken : ∀ pcb : Proc.Process,
      { pcb with childWait := wakeOne pcb.childWait }.state = pcb.state := fun _ => rfl
  unfold PipeSystem.sysExit
  refine Orderly.withProcessMut ?_ woken
  refine orderly.put calls.small ?_ (orderly.known pid process calls.here) ?_
  · intro side id
    have none : process.fds.count (side.entry id) = 0 :=
      FdTable.count_eq_zero.mpr fun fd inside => ne_entry (suits fd inside)
    simp only [calls.here, holds, none, ite_self]
  · intro id made
    rw [calls.idle] at made
    cases made

theorem createPipe
    (suits : maxPipes ≤ system.nextPipe.toNat ∨ system.unused system.nextPipe.toNat = true) :
    (system.createPipe pid).Orderly := by
  unfold PipeSystem.createPipe
  split
  · exact { orderly with }
  · rename_i full
    have unused := suits.resolve_left full
    simp only [PipeSystem.unused, Bool.and_eq_true, beq_iff_eq] at unused
    obtain ⟨⟨noReader, noWriter⟩, noCall⟩ := unused
    refine ⟨?_, forall_update (RingBuffer.queues_empty 0 (by decide)).1 orderly.rings,
      orderly.inside, orderly.known, forall_update
        ⟨Nat.lt_of_not_le full, process, calls.here, calls.live⟩ orderly.making⟩
    · intro side id pipe here
      refine refs_congr system { system with
        making := update system.making pid (some system.nextPipe.toNat) } ?_ rfl rfl
      have pending := pending_update system calls.small (some system.nextPipe.toNat) id
      rw [calls.idle, if_neg nofun] at pending
      rcases of_update here with ⟨rfl, ⟨⟩⟩ | ⟨same, here⟩
      · -- The ends of the new pipe are those that the call has yet to make.
        rw [if_pos rfl, noCall] at pending
        have none : system.count (side.entry system.nextPipe.toNat) = 0 := by
          cases side with
          | read => exact noReader
          | write => exact noWriter
        have one : side.refs { PipeInner.new with readRefs := 1, writeRefs := 1 } = 1 := by
          cases side <;> rfl
        rw [one]
        omega
      · rw [if_neg fun equal => same (Option.some.inj equal).symm] at pending
        have before := orderly.exact side id pipe here
        omega

omit calls in
theorem installPipe (made : system.making pid = some id)
    (suits : ∀ process, system.processes pid = some process →
      ∃ reading both, process.fds.alloc (.pipeRead id) = some reading ∧
        reading.2.alloc (.pipeWrite id) = some both) :
    { system.installPipe pid id with
      making := update system.making pid none }.Orderly := by
  obtain ⟨small, process, here, live⟩ := orderly.making pid id made
  obtain ⟨reading, both, first, second⟩ := suits process here
  have inside := orderly.inside pid process here
  have known := orderly.known pid process here
  have installed : system.installPipe pid id = system.put pid { process with fds := both.2 } := by
    simp only [PipeSystem.installPipe, here, first, second]
  have valid : ∀ (kind side : PipeEnd) (other : Nat), kind.entry id = side.entry other →
      other < maxPipes := by
    intro kind side other same
    cases kind <;> cases side <;> cases same <;> exact small
  have knownBoth : Known both.2 :=
    (known.alloc (valid .read) first).alloc (valid .write) second
  rw [installed]
  refine ⟨?_, orderly.rings, forall_update inside orderly.inside,
    forall_update knownBoth orderly.known, ?_⟩
  · intro side other pipe there
    have before := orderly.exact side other pipe there
    have pending := pending_update system inside none other
    have counted := count_put system { process with fds := both.2 } inside (side.entry other)
    have alive : Process.live { process with fds := both.2 } = true := live
    rw [here, holds, if_pos live, holds, if_pos alive,
      FdTable.count_alloc second, FdTable.count_alloc first] at counted
    have reads : (side.entry other).weight (some (.pipeRead id)) =
        if side = .read ∧ other = id then 1 else 0 := weight_entry .read
    have writes : (side.entry other).weight (some (.pipeWrite id)) =
        if side = .write ∧ other = id then 1 else 0 := weight_entry .write
    rw [reads, writes] at counted
    rw [made] at pending
    refine refs_congr (system.put pid { process with fds := both.2 })
      { system with making := update system.making pid none } ?_ rfl rfl
    -- Two descriptors take the place of those that the call had yet to make.
    by_cases same : other = id
    · subst same
      cases side <;> simp at counted pending <;> omega
    · have differ : ¬ some id = some other := fun equal => same (Option.some.inj equal).symm
      simp only [same, and_false, if_false, differ] at counted pending
      simp at pending
      omega
  · intro other number waits
    rcases of_update waits with ⟨-, ⟨⟩⟩ | ⟨same, waits⟩
    · change _ ∧ ∃ found, update system.processes pid _ other = _ ∧ _
      rw [update_of_ne same]
      exact orderly.making other number waits

omit calls in
theorem withPipe {change : PipeInner → Exec PipeInner} (inside : id < maxPipes)
    (changes : ∀ pipe, pipe.ring.Queues pipeBuf → ∃ changed, change pipe = .ok changed ∧
      changed.ring.Queues pipeBuf ∧ ∀ side, PipeEnd.refs side changed = side.refs pipe) :
    ∃ next, system.withPipe id change = .ok next ∧ next.Orderly := by
  have used : ∃ pipes, system.withPipe id change = .ok { system with pipes } ∧
      Follows system.pipes pipes (fun _ => 0) fun _ => 0 := by
    refine withPipe_follows inside ?_ fun _ _ _ => rfl
    intro pipe here
    obtain ⟨changed, run, queues, refs⟩ := changes pipe (orderly.rings id pipe here)
    exact ⟨changed, run, fun _ => queues, refs⟩
  obtain ⟨pipes, run, follows⟩ := used
  refine ⟨_, run, { orderly with exact := ?_, rings := ?_ }⟩
  · intro side id pipe' here
    obtain ⟨pipe, there, -, refs⟩ := follows id pipe' here
    exact (refs side).trans (orderly.exact side id pipe there)
  · intro id pipe' here
    obtain ⟨pipe, there, rings, -⟩ := follows id pipe' here
    exact rings (orderly.rings id pipe there)

end Orderly

theorem takeBytes_returns (tid room : Nat) (queues : pipe.ring.Queues pipeBuf) :
    ∃ changed, takeBytes tid room pipe = .ok changed ∧ changed.ring.Queues pipeBuf ∧
      ∀ side, PipeEnd.refs side changed = side.refs pipe := by
  unfold takeBytes
  split
  · obtain ⟨ring, ran, kept, -⟩ := queues.read room
    rw [PipeInner.readOnce, ran]
    refine ⟨_, rfl, ?_, fun side => ?_⟩
    · split <;> exact kept
    · split <;> cases side <;> rfl
  · split
    · exact ⟨pipe, rfl, queues, fun _ => rfl⟩
    · refine ⟨_, rfl, queues, fun side => ?_⟩
      cases side <;> rfl

theorem giveBytes_returns (tid : Nat) (data : Bytes) (queues : pipe.ring.Queues pipeBuf) :
    ∃ changed, giveBytes tid data pipe = .ok changed ∧ changed.ring.Queues pipeBuf ∧
      ∀ side, PipeEnd.refs side changed = side.refs pipe := by
  unfold giveBytes
  split
  · exact ⟨pipe, rfl, queues, fun _ => rfl⟩
  · obtain ⟨ring, ran, kept, -⟩ := queues.write data
    rw [PipeInner.writeOnce, ran]
    simp only [Exec.indexed, Exec.ok_bind]
    split
    · refine ⟨_, rfl, kept, fun side => ?_⟩
      cases side <;> rfl
    · split <;> exact ⟨_, rfl, kept, fun side => by cases side <;> rfl⟩

namespace Orderly

/-- A call that suits the system returns and keeps the counts exact. -/
theorem perform (orderly : system.Orderly) (calls : system.Calls pid process) {call : PipeCall}
    (suits : system.suits process call = true) :
    ∃ next, system.perform pid process call = .ok next ∧ next.Orderly := by
  cases call with
  | pipe2 fds =>
    rw [PipeSystem.suits, Bool.or_eq_true, decide_eq_true_eq] at suits
    unfold PipeSystem.perform
    dsimp only
    split
    · exact ⟨_, rfl, orderly.createPipe calls suits⟩
    · exact ⟨system, rfl, orderly⟩
  | dup fd =>
    refine orderly.sysDup calls fun entry found isEnd full => ?_
    rw [PipeSystem.suits, found, all_some, isEnd, full] at suits
    cases suits
  | dup2 oldfd newfd =>
    rw [PipeSystem.suits, Bool.or_eq_true, beq_iff_eq] at suits
    refine orderly.sysDup2 calls (suits.imp_right fun plain entry found => ?_)
    rw [found, all_some] at plain
    split
    · rename_i small
      rwa [if_pos small, Bool.not_eq_true'] at plain
    · rename_i large
      rwa [if_neg large, Bool.not_eq_true'] at plain
  | fcntl fd cmd arg =>
    refine ⟨_, rfl, orderly.sysFcntl calls fun dup entry found => ?_⟩
    rw [PipeSystem.suits, dup, found, all_some] at suits
    simpa using suits
  | close fd =>
    rw [PipeSystem.suits, Bool.or_eq_true, decide_eq_true_eq] at suits
    refine orderly.sysClose calls (suits.imp_right fun plain entry found => ?_)
    rwa [found, all_some, Bool.not_eq_true'] at plain
  | exec image =>
    rw [PipeSystem.suits, Bool.or_eq_true, isNone_iff_eq_none] at suits
    exact ⟨_, rfl, orderly.kernelExec calls suits⟩
  | fork space threadInserted => exact ⟨_, rfl, orderly.doFork⟩
  | exit status => exact ⟨_, rfl, orderly.sysExit calls suits⟩
  | read tid fd room =>
    unfold PipeSystem.perform
    dsimp only
    split
    · rename_i id found
      exact orderly.withPipe (orderly.valid calls found .read id rfl)
        fun _ queues => takeBytes_returns tid room queues
    · exact ⟨system, rfl, orderly⟩
  | write tid fd data =>
    unfold PipeSystem.perform
    dsimp only
    split
    · rename_i id found
      exact orderly.withPipe (orderly.valid calls found .write id rfl)
        fun _ queues => giveBytes_returns tid data queues
    · exact ⟨system, rfl, orderly⟩

/-- A careful step returns and keeps the counts exact. -/
theorem step (orderly : system.Orderly) {op : PipeOp} (careful : system.careful op = true) :
    ∃ next, system.step op = .ok next ∧ next.Orderly := by
  cases op with
  | call pid call =>
    unfold PipeSystem.step
    dsimp only
    cases calling : system.caller pid with
    | none => exact ⟨system, rfl, orderly⟩
    | some process =>
      rw [PipeSystem.careful, calling, all_some] at careful
      unfold caller at calling
      split at calling
      · rename_i valid
        obtain ⟨here, live⟩ := filter_eq_some_iff.mp calling
        exact orderly.perform ⟨valid.1, valid.2, here, live⟩ careful
      · cases calling
  | next pid =>
    unfold PipeSystem.step
    dsimp only
    cases made : system.making pid with
    | none => exact ⟨system, rfl, orderly⟩
    | some id =>
      refine ⟨_, rfl, orderly.installPipe made fun process here => ?_⟩
      rw [PipeSystem.careful, made, all_some, here, all_some] at careful
      cases first : process.fds.alloc (.pipeRead id) with
      | none =>
        rw [first] at careful
        cases careful
      | some reading =>
        rw [first, any_some] at careful
        obtain ⟨both, second⟩ := isSome_iff_exists.mp careful
        exact ⟨reading, both, rfl, second⟩

theorem boot : PipeSystem.boot.Orderly where
  exact := nofun
  rings := nofun
  inside := by
    intro pid process here
    simp only [PipeSystem.boot, ite_none_right_eq_some] at here
    exact Nat.lt_of_le_of_lt here.1 (by decide)
  known := by
    intro pid process here fd side id entered
    simp only [PipeSystem.boot, ite_none_right_eq_some, Option.some.injEq] at here
    rw [← here.2] at entered
    dsimp only at entered
    split at entered
    · cases entered
    · exact absurd entered (ne_entry (initStdio_entries fd))
  making := nofun

theorem isExact (orderly : system.Orderly) : system.Exact := by
  intro id pipe here settled
  -- No call has yet to make descriptors of the pipe.
  have none : system.pending id = 0 := sum_eq_zero fun pid _ => if_neg (settled pid)
  have reads : pipe.readRefs = system.count (.pipeRead id) + system.pending id :=
    orderly.exact .read id pipe here
  have writes : pipe.writeRefs = system.count (.pipeWrite id) + system.pending id :=
    orderly.exact .write id pipe here
  rw [none, Nat.add_zero] at reads writes
  refine ⟨reads, writes, fun room held world empty => ?_, fun data held world => ?_⟩
  · rw [← count_eq_zero, ← writes]
    unfold tryPipeRead
    rw [if_neg (by omega)]
    split
    · rename_i closed
      exact ⟨fun _ => closed, fun _ => ⟨world, rfl⟩⟩
    · rename_i left
      refine ⟨fun ⟨after, run⟩ => ?_, fun closed => absurd closed left⟩
      cases run
  · rw [← count_eq_zero, ← reads]
    unfold tryPipeWrite
    split
    · rename_i closed
      exact ⟨fun _ => closed, fun _ => ⟨world, rfl⟩⟩
    · rename_i left
      refine ⟨fun ⟨after, run⟩ => ?_, fun closed => absurd closed left⟩
      obtain ⟨⟨count, written⟩, _, -, run⟩ := Locking.Code.bind_returned run
      -- The call returns a count, or it would have to wait.
      dsimp only at run
      split at run
      · cases run
      · split at run <;> cases run

end Orderly

/--
The counts of the ends of pipes are exact in careful runs.

Calls that make and drop descriptors, and those that use pipes, are made by any processes in any
order.
-/
theorem counts_exact {ops : List PipeOp} (checked : Runs.everyStep step careful boot ops = true) :
    ∃ final, Runs.run step boot ops = .ok final ∧ final.Exact := by
  obtain ⟨final, run, orderly⟩ := Runs.run_returns Orderly
    (fun _ _ orderly careful => orderly.step careful) Orderly.boot checked
  exact ⟨final, run, orderly.isExact⟩

/-- A pipe whose write end is copied, closed twice, and read to its end. -/
def copied : List PipeOp :=
  [.call 1 (.pipe2 0x10000), .next 1, .call 1 (.dup 4), .call 1 (.close 4),
    .call 1 (.write 1 5 [7]), .call 1 (.close 5), .call 1 (.read 1 3 8)]

/-- The counts stay exact when an end is copied by `dup`. -/
theorem copied_exact : Runs.everyStep step careful boot copied = true ∧
    ∃ final, Runs.run step boot copied = .ok final ∧ final.Exact :=
  ⟨by decide, counts_exact (by decide)⟩

/-- A pipe whose write end is copied by `fcntl` before it is closed. -/
def uncounted : List PipeOp :=
  [.call 1 (.pipe2 0x10000), .next 1, .call 1 (.fcntl 4 fDupfd 0), .call 1 (.close 4)]

/-- The end of a pipe is reported although a descriptor for writing is left. -/
theorem uncounted_not_exact : ∃ final pipe, Runs.run step boot uncounted = .ok final ∧
    final.pipes 0 = some pipe ∧ (∀ pid, final.making pid ≠ some 0) ∧ pipe.writeRefs = 0 ∧
    final.count (.pipeWrite 0) = 1 ∧ ¬ final.Exact := by
  have counted : ∀ final pipe, Runs.run step boot uncounted = .ok final →
      final.pipes 0 = some pipe → pipe.writeRefs = 0 ∧ final.count (.pipeWrite 0) = 1 := by
    intro final pipe run here
    cases run
    cases here
    exact ⟨rfl, by decide⟩
  have settled : ∀ final, Runs.run step boot uncounted = .ok final →
      ∀ pid, final.making pid ≠ some 0 := by
    intro final run pid
    cases run
    change update (update (fun _ => none) 1 (some 0)) 1 none pid ≠ some 0
    rw [update_idem, update_apply]
    split <;> exact nofun
  refine ⟨_, _, rfl, rfl, settled _ rfl, (counted _ _ rfl rfl).1, (counted _ _ rfl rfl).2, ?_⟩
  intro exactly
  have wrong := (exactly 0 _ rfl (settled _ rfl)).2.1
  rw [(counted _ _ rfl rfl).1, (counted _ _ rfl rfl).2] at wrong
  cases wrong

end PipeSystem

end TheoryKernel.Syscall
