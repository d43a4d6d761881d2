import TheoryKernel.Base.Exec
import TheoryKernel.Base.Word
import TheoryKernel.Lib.Locking
import TheoryKernel.Proc.Pcb
import Mathlib.Data.List.Sort

/-! The run queues, and the functions that move threads between them and the processors. -/

namespace TheoryKernel.Sched

open Function
open Proc (maxThreads)

/-- The number of run queues. -/
def maxCpus : Nat := 256

/-- The thread number that names no thread. -/
def noThread : Nat := 2 ^ 32 - 1

/-- What a thread is doing. -/
inductive ThreadState where
  | created
  | runnable
  | running
  | sleeping
  | blocked
  | zombie
  | dead
  deriving DecidableEq, Repr

/-- What the scheduler keeps of a thread. -/
structure Thread where
  tid : Nat
  pid : Nat
  state : ThreadState
  isIdle : Bool
  cpu : Nat
  vruntime : Nat
  piBoost : Nat
  rbNode : Option Nat
  onRq : Bool
  deriving DecidableEq, Repr

/-- The runtime by which threads are ordered, with the boost of a mutex owner taken off. -/
def Thread.effectiveVruntime (thread : Thread) : Nat := thread.vruntime - thread.piBoost

/-- A thread is placed no earlier than the queue has come. -/
def placeEntity (minVruntime vruntime : Nat) : Nat :=
  if minVruntime ≤ vruntime then vruntime else minVruntime

/-- A thread in a queue, with the node that holds it. -/
structure QueueEntry where
  key : Nat
  tid : Nat
  node : Nat
  deriving DecidableEq, Repr

/-- A run queue, whose tree is the list of its entries from left to right. -/
structure CfsRunQueue where
  cpu : Nat
  tree : List QueueEntry
  nrRunning : Nat
  minVruntime : Nat
  curr : Nat
  idle : Nat

namespace CfsRunQueue

/-- An entry goes to the right of all entries with the same key. -/
def insert (queue : CfsRunQueue) (entry : QueueEntry) : CfsRunQueue :=
  { queue with tree := queue.tree.orderedInsert (·.key < ·.key) entry }

/-- The entry of a node is taken out, if there is one. -/
def remove (queue : CfsRunQueue) (node : Option Nat) : CfsRunQueue :=
  { queue with tree := queue.tree.filter fun entry => some entry.node != node }

/-- The smallest key, if there is an entry. -/
def peekMinKey (queue : CfsRunQueue) : Option Nat := queue.tree.head?.map (·.key)

end CfsRunQueue

/-- The thread table, the run queues, and what each processor runs. -/
structure Scheduler where
  threads : Nat → Option Thread
  queues : Nat → CfsRunQueue
  current : Nat → Nat
  cpuCount : Nat
  preemptCount : BitVec 32
  needResched : Bool
  /-- A number that no node of a tree has had yet. -/
  nextNode : Nat

namespace Scheduler

/-- The thread of a number, if there is one. -/
def thread (scheduler : Scheduler) (tid : Nat) : Option Thread :=
  if maxThreads ≤ tid then none else scheduler.threads tid

/-- A thread of the table with other contents. -/
def setThread (scheduler : Scheduler) (tid : Nat) (thread : Thread) : Scheduler :=
  { scheduler with threads := update scheduler.threads tid (some thread) }

/-- A run queue with other contents. -/
def setQueue (scheduler : Scheduler) (cpu : Nat) (queue : CfsRunQueue) : Scheduler :=
  { scheduler with queues := update scheduler.queues cpu queue }

section Access

variable {scheduler : Scheduler} {cpu tid other : Nat} {thread : Thread} {queue : CfsRunQueue}

/-- A thread of the table has a small number. -/
theorem thread_small (found : scheduler.thread tid = some thread) : tid < maxThreads := by
  unfold Scheduler.thread at found
  split at found
  · cases found
  · rename_i small
    exact Nat.lt_of_not_le small

/-- A thread that is changed has its new contents. -/
theorem thread_setThread (small : tid < maxThreads) :
    (scheduler.setThread tid thread).thread tid = some thread := by
  rw [Scheduler.thread, if_neg (Nat.not_le_of_lt small)]
  exact update_self ..

/-- The other threads are as they were. -/
theorem thread_setThread_of_ne (differ : other ≠ tid) :
    (scheduler.setThread tid thread).thread other = scheduler.thread other := by
  unfold Scheduler.thread
  split
  · rfl
  · exact update_of_ne differ ..

/-- A queue that is changed has its new contents. -/
theorem queues_setQueue : (scheduler.setQueue cpu queue).queues cpu = queue :=
  update_self ..

/-- The other queues are as they were. -/
theorem queues_setQueue_of_ne (differ : other ≠ cpu) :
    (scheduler.setQueue cpu queue).queues other = scheduler.queues other :=
  update_of_ne differ ..

end Access

/-- Placing a thread, and giving it a node of the tree. -/
def insertThread (scheduler : Scheduler) (cpu tid : Nat) (thread : Thread) : Nat × Scheduler :=
  let queue := scheduler.queues cpu
  let placed := placeEntity queue.minVruntime thread.effectiveVruntime
  let key := { thread with vruntime := placed }.effectiveVruntime
  let node := scheduler.nextNode
  (placed, { scheduler.setQueue cpu (queue.insert ⟨key, tid, node⟩) with nextNode := node + 1 })

end Scheduler

/-- The spin locks around the run queues, the thread table and the process table. -/
inductive Lock where
  | runQueues
  | threads
  | processes
  deriving DecidableEq, Repr

/-- Code of the scheduler. -/
abbrev Code (α : Type) : Type := Locking.Code Lock Scheduler Fault α

open Locking.Code (read modify fault withLock)

/-- Whether the current processor may switch to another thread. -/
def preemptEnabled : Code Bool := read (·.preemptCount == 0)

/-- Whether a switch was asked for, which is then forgotten. -/
def takeNeedResched : Code Bool := do
  let needed ← read (·.needResched)
  modify fun scheduler => { scheduler with needResched := false }
  pure needed

/-- Asking for a switch. -/
def setNeedResched : Code Unit := modify fun scheduler => { scheduler with needResched := true }

/-- The thread that a processor runs. -/
def currentTid (cpu : Nat) : Code Nat :=
  if maxCpus ≤ cpu then fault .indexOutOfBounds else read (·.current cpu)

/-- Code for a thread of the table, if it is there. -/
def withThread {α : Type} (tid : Nat) (body : Thread → Code α) : Code (Option α) :=
  if maxThreads ≤ tid then pure none
  else withLock .threads do
    match ← read (·.threads tid) with
    | none => pure none
    | some thread => some <$> body thread

/-- Code for a thread is run if the thread is in the table. -/
theorem withThread_run {α : Type} {tid : Nat} {scheduler : Scheduler} {body : Thread → Code α}
    {held inner : Locking.Held Lock} (taken : held.take .threads = some inner) :
    withThread tid body held scheduler =
      match scheduler.thread tid with
      | none => .ok (none, scheduler)
      | some thread => (some <$> body thread) inner scheduler := by
  unfold withThread Scheduler.thread
  split
  · rfl
  · rw [Locking.Code.withLock_run taken, Locking.Code.read_bind]
    cases scheduler.threads tid with
    | none | some thread => rfl

/-- A change of a thread of the table, if it is there. -/
def withThreadMut (tid : Nat) (change : Thread → Thread) : Code (Option Unit) :=
  withThread tid fun thread => modify (·.setThread tid (change thread))

/-- Code for a run queue. -/
def withRunqueue {α : Type} (cpu : Nat) (body : Code α) : Code α :=
  withLock .runQueues (if maxCpus ≤ cpu then fault .indexOutOfBounds else body)

/-- A change of the queue of a processor. -/
def modifyQueue (cpu : Nat) (change : CfsRunQueue → CfsRunQueue) : Code Unit :=
  modify fun scheduler => scheduler.setQueue cpu (change (scheduler.queues cpu))

namespace CfsRunQueue

/-- Adding a thread to a queue. -/
def enqueue (cpu tid : Nat) : Code Unit := do
  let placed ← withThread tid fun thread => modify fun scheduler =>
    let (vruntime, inserted) := scheduler.insertThread cpu tid thread
    inserted.setThread tid
      { thread with
        vruntime
        rbNode := some scheduler.nextNode
        onRq := true
        state := .runnable
        cpu := (scheduler.queues cpu).cpu }
  if placed.isSome then
    modifyQueue cpu fun queue =>
      { queue with
        nrRunning := queue.nrRunning + 1
        minVruntime := queue.peekMinKey.getD queue.minVruntime }

/-- Taking a thread out of a queue, if it is in one. -/
def dequeue (cpu tid : Nat) : Code Unit := do
  let _ ← withThread tid fun thread =>
    if thread.onRq && thread.rbNode.isSome then do
      modifyQueue cpu fun queue =>
        { queue.remove thread.rbNode with nrRunning := queue.nrRunning - 1 }
      modify (·.setThread tid { thread with rbNode := none, onRq := false })
    else pure ()

/-- Taking the leftmost thread out of a queue, or the idle thread if there is none. -/
def pickNext (cpu : Nat) : Code Nat := do
  match ← read fun scheduler => (scheduler.queues cpu).tree.head? with
  | some entry =>
    let node ← withThread entry.tid fun thread => pure thread.rbNode
    modifyQueue cpu fun queue => queue.remove node.join
    let _ ← withThreadMut entry.tid fun thread =>
      { thread with onRq := false, rbNode := none, state := .running }
    modifyQueue cpu fun queue =>
      { queue with nrRunning := queue.nrRunning - 1, minVruntime := entry.key }
    pure entry.tid
  | none => read fun scheduler => (scheduler.queues cpu).idle

/-- Moving the leftmost thread of another queue to a queue. -/
def stealFrom (cpu victim : Nat) : Code (Option Nat) := do
  let here ← read fun scheduler => (scheduler.queues cpu).cpu
  let there ← read fun scheduler => (scheduler.queues victim).cpu
  match ← read fun scheduler => (scheduler.queues victim).tree.head? with
  | none => pure none
  | some entry =>
    if there = here then pure none
    else
      let node ← withThread entry.tid fun thread => pure thread.rbNode
      modifyQueue victim fun queue =>
        { queue.remove node.join with nrRunning := queue.nrRunning - 1 }
      let _ ← withThread entry.tid fun thread => modify fun scheduler =>
        let (vruntime, inserted) := scheduler.insertThread cpu entry.tid thread
        inserted.setThread entry.tid
          { thread with vruntime, cpu := here, rbNode := some scheduler.nextNode, onRq := true }
      modifyQueue cpu fun queue =>
        { queue with
          nrRunning := queue.nrRunning + 1
          minVruntime := queue.peekMinKey.getD entry.key }
      pure (some entry.tid)

end CfsRunQueue

/-- Adding a thread to the queue of a processor. -/
def enqueueThread (tid cpu : Nat) : Code Unit := withRunqueue cpu (CfsRunQueue.enqueue cpu tid)

/-- A thread from the first of the other queues that has one to spare. -/
def trySteal (cpu : Nat) : List Nat → Code (Option Nat)
  | [] => pure none
  | other :: others =>
    if other = cpu then trySteal cpu others
    else do
      let stolen ← withRunqueue other do
        if (← read fun scheduler => (scheduler.queues other).nrRunning) ≤ 1 then pure none
        else CfsRunQueue.stealFrom cpu other
      match stolen with
      | some tid => pure (some tid)
      | none => trySteal cpu others

/-- The thread that a processor runs next. -/
def pickNextThread (cpu : Nat) : Code Nat :=
  withRunqueue cpu do
    if (← read fun scheduler => (scheduler.queues cpu).nrRunning) = 0 then
      match ← trySteal cpu (List.range (← read (·.cpuCount))) with
      | some tid => pure tid
      | none => CfsRunQueue.pickNext cpu
    else CfsRunQueue.pickNext cpu

/-- Noting the thread that a processor runs in its queue. -/
def setCurrent (cpu tid : Nat) : Code Unit :=
  withRunqueue cpu (modifyQueue cpu fun queue => { queue with curr := tid })

/-- Taking both contexts for a switch outside of an interrupt. -/
def switchContext (prev next : Nat) : Code Unit :=
  withLock .threads do
    let threads ← read (·.threads)
    if maxThreads ≤ prev ∨ maxThreads ≤ next then fault .indexOutOfBounds
    else if threads prev = none ∨ threads next = none then fault .assertionFailed
    else pure ()

/-- The address space of a process is activated under the lock of the process table. -/
def activateSpace (pid : Nat) : Code Unit :=
  if pid = 0 then pure () else withLock .processes (pure ())

/-- Making a thread the one that a processor runs, from the code or from an interrupt frame. -/
def switchTo (cpu prev next : Nat) (frame : Bool) : Code Unit := do
  modify fun scheduler =>
    { scheduler with current := update scheduler.current cpu next }
  setCurrent cpu next
  let pid ← withThread next fun thread => pure thread.pid
  activateSpace (pid.getD 0)
  -- The stack pointer and the thread-local base are read in sections of their own.
  let _ ← withThread next fun _ => pure ()
  let _ ← withThread next fun _ => pure ()
  let _ ← withThreadMut next fun thread => { thread with state := .running }
  if frame then
    let _ ← withThread next fun _ => pure ()
  else switchContext prev next

/-- Going on with another thread, if that is allowed. -/
def reschedule (cpu : Nat) : Code Unit := do
  if ← preemptEnabled then
    let next ← pickNextThread cpu
    if next = noThread then pure ()
    else
      let curr ← currentTid cpu
      if curr = next then enqueueThread next cpu else switchTo cpu curr next false

/-- A thread that an interrupt has stopped goes back to the queue, unless it is idle or blocked. -/
def putBack (cpu curr : Nat) (thread : Thread) : Code Unit :=
  if thread.state = .running ∧ thread.isIdle = false then do
    modify (·.setThread curr { thread with state := .runnable })
    enqueueThread curr cpu
  else pure ()

/-- Going on with another thread at the end of an interrupt, if that was asked for. -/
def preempt (cpu : Nat) : Code Unit := do
  let needed ← takeNeedResched
  if needed && (← preemptEnabled) then
    let curr ← currentTid cpu
    let _ ← withThread curr (putBack cpu curr)
    let next ← pickNextThread cpu
    if next = noThread ∨ next = curr then pure () else switchTo cpu curr next true

/-- Asking for a switch, with switches turned off around it. -/
def yieldCpu (cpu : Nat) : Code Unit := do
  modify fun scheduler => { scheduler with preemptCount := scheduler.preemptCount + 1 }
  setNeedResched
  reschedule cpu
  modify fun scheduler => { scheduler with preemptCount := scheduler.preemptCount - 1 }

/-- Marking the current thread as blocked, and asking for a switch. -/
def blockCurrent (cpu : Nat) : Code Unit := do
  let curr ← currentTid cpu
  let _ ← withThread curr fun thread => do
    modify (·.setThread curr { thread with state := .blocked })
    withRunqueue cpu (CfsRunQueue.dequeue cpu curr)
  yieldCpu cpu

/-- Adding a thread to the queue it was in last. -/
def wakeThread (tid : Nat) : Code Unit := do
  match ← withThread tid fun thread => pure thread.cpu with
  | some cpu => do
    enqueueThread tid cpu
    setNeedResched
  | none => pure ()

/-- Raising the priority of a thread, which moves it in its queue. -/
def piBoost (tid boost : Nat) : Code Unit := do
  let _ ← withThread tid fun thread => do
    modify (·.setThread tid { thread with piBoost := min (thread.piBoost + boost) maxWord })
    if thread.onRq then
      withRunqueue thread.cpu (CfsRunQueue.dequeue thread.cpu thread.tid)
      enqueueThread thread.tid thread.cpu

end TheoryKernel.Sched
