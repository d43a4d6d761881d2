import TheoryKernel.Lib.Runs
import TheoryKernel.Proc.Pcb

/-! Processes that are made, exit and are waited for, each step under the lock of a table. -/

namespace TheoryKernel.Proc

/-- The spin locks of the tables. -/
inductive TableLock where
  | processes
  | threads
  deriving DecidableEq, Repr

/-- The states of a thread. -/
inductive ThreadState where
  | created
  | runnable
  | blocked
  | zombie
  deriving DecidableEq, Repr

/-- The calls of a process, with what the rest of the machine answers to them. -/
inductive Call where
  | fork (spaceCopied : Bool)
  | exit (status : BitVec 64)
  | wait4 (pidArg : BitVec 32) (statusCopied : Bool)
  deriving DecidableEq, Repr

/-- How far a process is in a call; each place but one is the next use of a table. -/
inductive Stage where
  | user
  | forkThread (spaceCopied : Bool)
  | forkSpace (spaceCopied : Bool)
  | forkIds
  | forkRead (locks : List TableLock) (child tid : Nat)
  | insertProcess (child tid : Nat)
  | insertThread (child tid : Nat)
  | addChild (child tid : Nat)
  | enqueue (child : Nat)
  | exitRead (locks : List TableLock) (code : BitVec 32)
  | exitMark (code : BitVec 32)
  | exitThread
  | exitWake
  | exitBlock
  | waitThread (pidArg : BitVec 32) (statusCopied : Bool)
  | waitList (pidArg : BitVec 32) (statusCopied : Bool)
  | waitCheck (child : Nat) (left : List Nat) (pidArg : BitVec 32) (statusCopied : Bool)
  | waitReap (child : Nat) (code : BitVec 32)
  | waitCount (pidArg : BitVec 32)
  | waitBlock (pidArg : BitVec 32)
  | spinning
  deriving DecidableEq, Repr

/-- The thread of a process, of which there is one. -/
structure Task where
  tid : Nat
  state : ThreadState
  stage : Stage
  deriving DecidableEq, Repr

/-- The table of processes. -/
abbrev ProcessTable : Type := Nat → Option Process

/-- What can be told about the children of processes. -/
inductive Event where
  | forked (parent child : Nat)
  | exited (pid : Nat) (code : BitVec 32)
  | reported (parent child : Nat) (code : BitVec 32)
  | noChild (parent : Nat)
  | waits (parent : Nat)
  | slept (parent : Nat) (pidArg : BitVec 32)
  deriving DecidableEq, Repr

/-- The tables, the locks that are never released, and what happened with the latest event first. -/
structure Kernel where
  processes : ProcessTable
  tasks : Nat → Option Task
  tids : List Nat
  nextPid : Nat
  nextTid : Nat
  held : TableLock → Bool
  log : List Event

/-- The children that a process has a record of. -/
def Process.kids (process : Process) : List Nat :=
  (List.range process.childCount).map process.children

/-- Whether a child is one that a process waits for. -/
def asks (pidArg : BitVec 32) (child : Nat) : Bool :=
  child ≠ invalidPid && !(0 < pidArg.toInt && BitVec.ofNat 32 child ≠ pidArg)

/-- The first place of a call. -/
def Call.entry : Call → Stage
  | .fork spaceCopied => .forkThread spaceCopied
  | .exit status => .exitRead [.threads, .processes, .threads] (status.setWidth 32)
  | .wait4 pidArg statusCopied => .waitThread pidArg statusCopied

/-- The lock that is taken first at a place of a call. -/
def Stage.lock : Stage → Option TableLock
  | .user => none
  | .forkThread _ => some .threads
  | .forkSpace _ => some .processes
  | .forkIds => none
  | .forkRead locks _ _ => locks.head?
  | .insertProcess _ _ => some .processes
  | .insertThread _ _ => some .threads
  | .addChild _ _ => some .processes
  | .enqueue _ => some .threads
  | .exitRead locks _ => locks.head?
  | .exitMark _ => some .processes
  | .exitThread => some .threads
  | .exitWake => some .processes
  | .exitBlock => some .threads
  | .waitThread _ _ => some .threads
  | .waitList _ _ => some .processes
  | .waitCheck _ _ _ _ => some .processes
  | .waitReap _ _ => some .processes
  | .waitCount _ => some .processes
  | .waitBlock _ => some .processes
  | .spinning => none

namespace Kernel

/-- Changing the record of a process, if there is one. -/
def withProcessMut (kernel : Kernel) (pid : Nat) (change : Process → Process) : Kernel :=
  { kernel with
    processes := Function.update kernel.processes pid ((kernel.processes pid).map change) }

/-- Changing the thread of a process, if there is one. -/
def withTask (kernel : Kernel) (pid : Nat) (change : Task → Task) : Kernel :=
  { kernel with tasks := Function.update kernel.tasks pid ((kernel.tasks pid).map change) }

/-- Going on to another place of a call. -/
def goto (kernel : Kernel) (pid : Nat) (stage : Stage) : Kernel :=
  kernel.withTask pid fun task => { task with stage }

/-- Keeping an event in mind. -/
def tell (kernel : Kernel) (event : Event) : Kernel := { kernel with log := event :: kernel.log }

/-- Taking locks that are never released. -/
def hold (kernel : Kernel) (locks : List TableLock) : Kernel :=
  { kernel with held := fun lock => kernel.held lock || decide (lock ∈ locks) }

section Fields

variable {kernel : Kernel} {pid : Nat} {stage : Stage} {event : Event} {locks : List TableLock}
  {change : Process → Process} {update : Task → Task}

@[simp] theorem withProcessMut_processes : (kernel.withProcessMut pid change).processes =
    Function.update kernel.processes pid ((kernel.processes pid).map change) := rfl
@[simp] theorem withProcessMut_tasks : (kernel.withProcessMut pid change).tasks = kernel.tasks := rfl
@[simp] theorem withTask_tasks : (kernel.withTask pid update).tasks =
    Function.update kernel.tasks pid ((kernel.tasks pid).map update) := rfl
@[simp] theorem goto_processes : (kernel.goto pid stage).processes = kernel.processes := rfl
@[simp] theorem goto_tasks : (kernel.goto pid stage).tasks = Function.update kernel.tasks pid
    ((kernel.tasks pid).map fun task => { task with stage }) := rfl
@[simp] theorem goto_log : (kernel.goto pid stage).log = kernel.log := rfl
@[simp] theorem goto_held : (kernel.goto pid stage).held = kernel.held := rfl
@[simp] theorem tell_processes : (kernel.tell event).processes = kernel.processes := rfl
end Fields

/-- The next child that is looked at, or the end of the search. -/
def nextCheck (left : List Nat) (pidArg : BitVec 32) (statusCopied : Bool) : Stage :=
  match left with
  | [] => .waitCount pidArg
  | child :: left => .waitCheck child left pidArg statusCopied

/-- Waking the thread that began to wait last; the thread table may be locked for good. -/
def wakeOne (kernel : Kernel) (pid parent : Nat) : Kernel :=
  match kernel.processes parent with
  | none => kernel.goto pid .exitBlock
  | some process =>
    match process.childWait.pop with
    | (none, _) => kernel.goto pid .exitBlock
    | (some tid, queue) =>
      let popped := kernel.withProcessMut parent fun process => { process with childWait := queue }
      if kernel.held .threads then (popped.hold [.processes]).goto pid .spinning
      else
        let woken := { popped with tasks := fun other => (popped.tasks other).map fun (task : Task) =>
          if task.tid = tid then { task with state := .runnable } else task }
        woken.goto pid .exitBlock

/-- One use of a table by the thread of a process. -/
def perform (kernel : Kernel) (pid : Nat) (process : Process) (task : Task) : Kernel :=
  match task.stage with
  | .user => kernel
  | .spinning => kernel
  | .forkThread spaceCopied => kernel.goto pid (.forkSpace spaceCopied)
  | .forkSpace spaceCopied =>
    if spaceCopied then kernel.goto pid .forkIds else kernel.goto pid .user
  | .forkIds =>
    { kernel with
        nextPid := (kernel.nextPid + 1) % 2 ^ 32
        nextTid := (kernel.nextTid + 1) % 2 ^ 32 }.goto pid
      (.forkRead [.threads, .threads, .processes, .processes, .processes] kernel.nextPid
        kernel.nextTid)
  | .forkRead locks child tid =>
    match locks with
    | [] => kernel.goto pid (.insertProcess child tid)
    | _ :: locks => kernel.goto pid (.forkRead locks child tid)
  | .insertProcess child tid =>
    if child < maxProcesses ∧ (kernel.processes child).isNone then
      { kernel with processes := Function.update kernel.processes child (some
          { Process.newUser child pid with
            state := .running
            cred := process.cred.fork
            signals := process.signals.forkState }) }.goto pid (.insertThread child tid)
    else kernel.goto pid .user
  | .insertThread child tid =>
    if tid < maxThreads ∧ tid ∉ kernel.tids then
      { kernel with
        tids := tid :: kernel.tids
        tasks := Function.update kernel.tasks child (some ⟨tid, .created, .user⟩) }.goto pid
          (.addChild child tid)
    else kernel.goto pid .user
  | .addChild child _ =>
    ((kernel.withProcessMut pid fun process => (process.addChild child).2).tell
      (.forked pid child)).goto pid (.enqueue child)
  | .enqueue child =>
    (kernel.withTask child fun task => { task with state := .runnable }).goto pid .user
  | .exitRead locks code =>
    match locks with
    | [] => kernel.goto pid (.exitMark code)
    | _ :: locks => kernel.goto pid (.exitRead locks code)
  | .exitMark code =>
    ((kernel.withProcessMut pid fun process => { process with state := .zombie, exitCode := code }).tell
      (.exited pid code)).goto pid .exitThread
  | .exitThread => (kernel.withTask pid fun task => { task with state := .zombie }).goto pid .exitWake
  | .exitWake => kernel.wakeOne pid process.parent
  | .exitBlock =>
    -- The thread table is locked again while it is locked.
    ((kernel.withTask pid fun task => { task with state := .blocked }).hold [.threads]).goto pid
      .spinning
  | .waitThread pidArg statusCopied => kernel.goto pid (.waitList pidArg statusCopied)
  | .waitList pidArg statusCopied =>
    kernel.goto pid (nextCheck (process.kids.filter (asks pidArg)) pidArg statusCopied)
  | .waitCheck child left pidArg statusCopied =>
    match kernel.processes child with
    | none => kernel.goto pid (nextCheck left pidArg statusCopied)
    | some found =>
      if found.state = .zombie then
        kernel.goto pid (if statusCopied then .waitReap child found.exitCode else .user)
      else kernel.goto pid (nextCheck left pidArg statusCopied)
  | .waitReap child code =>
    ((kernel.withProcessMut child fun process => { process with state := .dead }).tell
      (.reported pid child code)).goto pid .user
  | .waitCount pidArg =>
    if 0 < process.childCount then (kernel.tell (.waits pid)).goto pid (.waitBlock pidArg)
    else (kernel.tell (.noChild pid)).goto pid .user
  | .waitBlock pidArg =>
    -- Both tables are locked when the thread table is locked again.
    ((((kernel.withProcessMut pid fun process =>
      { process with childWait := (process.childWait.push task.tid).2 }).withTask pid fun task =>
        { task with state := .blocked }).tell (.slept pid pidArg)).hold [.processes, .threads]).goto
          pid .spinning

end Kernel

/-- A process makes a call, or goes on with the one it has made. -/
inductive Action where
  | call (pid : Nat) (call : Call)
  | advance (pid : Nat)
  deriving DecidableEq, Repr

namespace Kernel

/-- Whether the lock that a place of a call needs can be taken. -/
def canTake (kernel : Kernel) (stage : Stage) : Bool :=
  match stage.lock with
  | none => true
  | some lock => !kernel.held lock

/-- A step of a process, if it can take one. -/
def step (kernel : Kernel) : Action → Except Unit Kernel
  | .call pid call =>
    match kernel.tasks pid with
    | none => .error ()
    | some task =>
      if task.stage = .user ∧ task.state = .runnable then .ok (kernel.goto pid call.entry)
      else .error ()
  | .advance pid =>
    match kernel.processes pid, kernel.tasks pid with
    | some process, some task =>
      if task.stage ≠ .user ∧ task.stage ≠ .spinning ∧ kernel.canTake task.stage then
        .ok (kernel.perform pid process task)
      else .error ()
    | _, _ => .error ()

/-- The kernel with its first process, whose thread has a given number. -/
def boot (tid : Nat) : Kernel where
  processes := fun pid =>
    if pid = kernelPid then some { Process.newUser kernelPid kernelPid with state := .running, cred := .root }
    else if pid = 1 then some { Process.newUser 1 kernelPid with state := .running, cred := .root }
    else none
  tasks := fun pid => if pid = 1 then some ⟨tid, .runnable, .user⟩ else none
  tids := List.range (tid + 1)
  nextPid := 2
  nextTid := tid + 1
  held := fun _ => false
  log := []

end Kernel

end TheoryKernel.Proc
