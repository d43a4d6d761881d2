import TheoryKernel.Sched.RunQueue

/-! Where threads are while they are moved between queues and processors. -/

namespace TheoryKernel.Sched

open Function Scheduler List
open Proc (maxThreads)

/-- Whether a thread should run. -/
def Thread.Ready (thread : Thread) : Prop := thread.state = .runnable ∨ thread.state = .running

/-- Whether a thread is in a queue. -/
def Scheduler.Queued (scheduler : Scheduler) (cpu tid : Nat) : Prop :=
  ∃ entry ∈ (scheduler.queues cpu).tree, entry.tid = tid

/--
The bookkeeping of the scheduler, with one processor and one thread set aside.

What the vacant processor runs does not count. The loose thread is in no queue and on no other
processor, and may be ready all the same.
-/
structure InOrder (vacant loose : Option Nat) (scheduler : Scheduler) : Prop where
  /-- A queued thread is a runnable one that knows its node. -/
  entry : ∀ cpu, ∀ entry ∈ (scheduler.queues cpu).tree, ∃ thread,
    scheduler.thread entry.tid = some thread ∧ thread.isIdle = false ∧ thread.state = .runnable ∧
      thread.rbNode = some entry.node
  once : ∀ cpu other tid, scheduler.Queued cpu tid → scheduler.Queued other tid → cpu = other
  nodup : ∀ cpu, ((scheduler.queues cpu).tree.map (·.tid)).Nodup
  nodes : ∀ cpu, ∀ first ∈ (scheduler.queues cpu).tree, ∀ second ∈ (scheduler.queues cpu).tree,
    first.node = second.node → first.tid = second.tid
  fresh : ∀ cpu, ∀ entry ∈ (scheduler.queues cpu).tree, entry.node < scheduler.nextNode
  counted : ∀ cpu, (scheduler.queues cpu).nrRunning = (scheduler.queues cpu).tree.length
  onRq : ∀ tid thread, scheduler.thread tid = some thread → thread.onRq = true →
    ∃ cpu, scheduler.Queued cpu tid
  idle : ∀ cpu thread, scheduler.thread (scheduler.queues cpu).idle = some thread →
    thread.isIdle = true
  offline : ∀ cpu, maxCpus ≤ cpu → scheduler.thread (scheduler.current cpu) = none
  /-- A thread runs on one processor at a time, and is in no queue then. -/
  single : ∀ cpu other thread, some cpu ≠ vacant → some other ≠ vacant →
    scheduler.current cpu = scheduler.current other →
    scheduler.thread (scheduler.current cpu) = some thread → thread.isIdle = false → cpu = other
  apart : ∀ cpu other, some cpu ≠ vacant → ¬ scheduler.Queued other (scheduler.current cpu)
  started : ∀ cpu thread, some cpu ≠ vacant →
    scheduler.thread (scheduler.current cpu) = some thread → thread.isIdle = false →
    thread.state ≠ .runnable
  /-- A thread that should run does so, or is in a queue. -/
  kept : ∀ tid thread, some tid ≠ loose → scheduler.thread tid = some thread →
    thread.isIdle = false → thread.Ready →
    (∃ cpu, some cpu ≠ vacant ∧ scheduler.current cpu = tid) ∨ ∃ cpu, scheduler.Queued cpu tid
  free : ∀ tid thread, loose = some tid → scheduler.thread tid = some thread →
    thread.isIdle = false →
    (∀ cpu, some cpu ≠ vacant → scheduler.current cpu ≠ tid) ∧ ∀ cpu, ¬ scheduler.Queued cpu tid

namespace InOrder

variable {vacant loose : Option Nat} {scheduler after : Scheduler} {cpu tid : Nat} {thread : Thread}

/-- A processor gives up its thread. -/
theorem release (order : InOrder none none scheduler) (cpu : Nat) :
    InOrder (some cpu) (some (scheduler.current cpu)) scheduler := by
  have counts : ∀ other : Nat, some other ≠ (none : Option Nat) := nofun
  exact {
    order with
    single := fun first second thread _ _ =>
      order.single first second thread (counts first) (counts second)
    apart := fun other queue _ => order.apart other queue (counts other)
    started := fun other thread _ => order.started other thread (counts other)
    kept := by
      intro tid thread other found busy ready
      rcases order.kept tid thread (counts tid) found busy ready with ⟨holder, -, runs⟩ | queued
      · refine .inl ⟨holder, ?_, runs⟩
        intro same
        cases same
        exact other (congrArg some runs.symm)
      · exact .inr queued
    free := by
      intro tid thread same found busy
      cases same
      refine ⟨fun other differ runs => ?_, fun queue => order.apart cpu queue (counts cpu)⟩
      have one := order.single cpu other thread (counts cpu) (counts other) runs.symm found busy
      exact differ (congrArg some one.symm) }

/-- A loose thread that should not run needs no place. -/
theorem settle (order : InOrder vacant (some tid) scheduler)
    (rests : ∀ thread, scheduler.thread tid = some thread → thread.isIdle = false →
      ¬ thread.Ready) : InOrder vacant none scheduler := by
  exact {
    order with
    kept := by
      intro other thread _ found busy ready
      by_cases same : other = tid
      · subst same
        exact absurd ready (rests thread found busy)
      · refine order.kept other thread ?_ found busy ready
        intro equal
        cases equal
        exact same rfl
    free := nofun }

/-- A thread that is neither queued nor running can be set aside. -/
theorem loosen (order : InOrder vacant none scheduler)
    (away : ∀ thread, scheduler.thread tid = some thread → thread.isIdle = false →
      (∀ cpu, some cpu ≠ vacant → scheduler.current cpu ≠ tid) ∧
        ∀ cpu, ¬ scheduler.Queued cpu tid) : InOrder vacant (some tid) scheduler := by
  exact {
    order with
    kept := fun other thread _ => order.kept other thread nofun
    free := by
      intro other thread same found busy
      cases same
      exact away thread found busy }

variable (order : InOrder vacant loose scheduler)

include order

theorem not_queued_of_idle (found : scheduler.thread tid = some thread)
    (isIdle : thread.isIdle = true) (cpu : Nat) : ¬ scheduler.Queued cpu tid := by
  rintro ⟨entry, member, rfl⟩
  obtain ⟨queued, same, busy, -⟩ := order.entry cpu entry member
  cases found.symm.trans same
  cases isIdle.symm.trans busy

theorem processors (found : scheduler.thread tid = some thread)
    (threads : ∀ other, other ≠ tid → after.thread other = scheduler.thread other)
    (current : after.current = scheduler.current)
    (idle : ∀ cpu, (after.queues cpu).idle = (scheduler.queues cpu).idle)
    (isIdle : ∀ now, after.thread tid = some now → now.isIdle = thread.isIdle)
    (away : thread.isIdle = false → ∀ cpu, some cpu ≠ vacant → scheduler.current cpu ≠ tid) :
    (∀ cpu now, after.thread (after.queues cpu).idle = some now → now.isIdle = true) ∧
    (∀ cpu, maxCpus ≤ cpu → after.thread (after.current cpu) = none) ∧
    (∀ cpu other now, some cpu ≠ vacant → some other ≠ vacant →
      after.current cpu = after.current other → after.thread (after.current cpu) = some now →
      now.isIdle = false → cpu = other) ∧
    ∀ cpu now, some cpu ≠ vacant → after.thread (after.current cpu) = some now →
      now.isIdle = false → now.state ≠ .runnable := by
  -- A thread that is busy and runs is not the one that changes.
  have runs : ∀ cpu now, some cpu ≠ vacant → after.thread (scheduler.current cpu) = some now →
      now.isIdle = false → scheduler.thread (scheduler.current cpu) = some now := by
    intro cpu now counts look busy
    by_cases here : scheduler.current cpu = tid
    · rw [here] at look
      exact absurd here (away ((isIdle now look).symm.trans busy) cpu counts)
    · exact (threads _ here).symm.trans look
  rw [current]
  refine ⟨fun cpu now look => ?_, fun cpu large => ?_, ?_, ?_⟩
  · rw [idle] at look
    by_cases here : (scheduler.queues cpu).idle = tid
    · rw [here] at look
      exact (isIdle now look).trans (order.idle cpu thread (here ▸ found))
    · exact order.idle cpu now ((threads _ here).symm.trans look)
  · have none := order.offline cpu large
    rw [threads, none]
    intro here
    rw [here, found] at none
    cases none
  · intro first second now one two equal look busy
    exact order.single first second now one two equal (runs first now one look busy) busy
  · intro cpu now counts look busy
    exact order.started cpu now counts (runs cpu now counts look busy) busy

/-- The record of an idle or a loose thread may change. -/
theorem touch {changed : Thread} (found : scheduler.thread tid = some thread)
    (isIdle : changed.isIdle = thread.isIdle) (onRq : changed.onRq = thread.onRq)
    (spare : thread.isIdle = true ∨ loose = some tid) :
    InOrder vacant loose (scheduler.setThread tid changed) := by
  have now : (scheduler.setThread tid changed).thread tid = some changed :=
    thread_setThread (thread_small found)
  have same : ∀ other, other ≠ tid →
      (scheduler.setThread tid changed).thread other = scheduler.thread other :=
    fun _ differ => thread_setThread_of_ne differ
  have isLoose : thread.isIdle = false → loose = some tid := fun busy =>
    spare.resolve_left (by rw [busy]; exact Bool.false_ne_true)
  -- The thread is in no queue, so the entries are about other threads.
  have outside : ∀ cpu, ¬ scheduler.Queued cpu tid := by
    intro cpu
    cases kind : thread.isIdle with
    | true => exact order.not_queued_of_idle found kind cpu
    | false => exact (order.free tid thread (isLoose kind) found kind).2 cpu
  obtain ⟨idle, offline, single, started⟩ := order.processors found same rfl (fun _ => rfl)
    (fun _ look => (congrArg Thread.isIdle (Option.some.inj (look.symm.trans now))).trans isIdle)
    fun busy => (order.free tid thread (isLoose busy) found busy).1
  exact {
    order with
    entry := by
      intro cpu entry member
      have differ : entry.tid ≠ tid := fun here => outside cpu ⟨entry, member, here⟩
      rw [same entry.tid differ]
      exact order.entry cpu entry member
    onRq := by
      intro other record look queued
      by_cases here : other = tid
      · subst here
        cases now.symm.trans look
        exact order.onRq other thread found (onRq.symm.trans queued)
      · exact order.onRq other record ((same other here).symm.trans look) queued
    idle
    offline
    single
    started
    kept := by
      intro other record notLoose look busy ready
      by_cases here : other = tid
      · subst here
        cases now.symm.trans look
        exact absurd (isLoose (isIdle.symm.trans busy)).symm notLoose
      · exact order.kept other record notLoose ((same other here).symm.trans look) busy ready
    free := by
      intro other record set look busy
      by_cases here : other = tid
      · subst here
        cases now.symm.trans look
        exact order.free other thread set found (isIdle.symm.trans busy)
      · exact order.free other record set ((same other here).symm.trans look) busy }

omit order in
/-- A processor without a thread takes the loose one. -/
theorem assign (order : InOrder (some cpu) (some tid) scheduler) (online : cpu < maxCpus)
    (started : ∀ thread, scheduler.thread tid = some thread → thread.isIdle = false →
      thread.state ≠ .runnable) :
    InOrder none none
      { scheduler with current := update scheduler.current cpu tid } := by
  -- A processor runs the thread exactly if it is the one that took it.
  have here : update scheduler.current cpu tid cpu = tid := update_self ..
  have there : ∀ other, other ≠ cpu →
      update scheduler.current cpu tid other = scheduler.current other :=
    fun _ differ => update_of_ne differ ..
  have counts : ∀ other, other ≠ cpu → some other ≠ some cpu :=
    fun _ differ same => differ (Option.some.inj same)
  exact {
    order with
    offline := by
      intro other large
      change scheduler.thread (update scheduler.current cpu tid other) = none
      rw [there other (by omega)]
      exact order.offline other large
    single := by
      intro first second thread _ _ equal found busy
      change update scheduler.current cpu tid first =
        update scheduler.current cpu tid second at equal
      change scheduler.thread (update scheduler.current cpu tid first) = some thread
        at found
      by_cases one : first = cpu
      · by_cases two : second = cpu
        · exact one.trans two.symm
        · rw [one, here, there second two] at equal
          rw [one, here] at found
          have away := (order.free tid thread rfl found busy).1 second (counts second two)
          exact absurd equal.symm away
      · by_cases two : second = cpu
        · rw [two, here, there first one] at equal
          rw [there first one, equal] at found
          have away := (order.free tid thread rfl found busy).1 first (counts first one)
          exact absurd equal away
        · rw [there first one, there second two] at equal
          rw [there first one] at found
          exact order.single first second thread (counts first one) (counts second two) equal
            found busy
    apart := by
      intro other queue _ queued
      change scheduler.Queued queue (update scheduler.current cpu tid other) at queued
      by_cases same : other = cpu
      · rw [same, here] at queued
        obtain ⟨entry, member, rfl⟩ := queued
        obtain ⟨thread, found, busy, -⟩ := order.entry queue entry member
        exact (order.free _ thread rfl found busy).2 queue ⟨entry, member, rfl⟩
      · rw [there other same] at queued
        exact order.apart other queue (counts other same) queued
    started := by
      intro other thread _ found busy
      change scheduler.thread (update scheduler.current cpu tid other) = some thread
        at found
      by_cases same : other = cpu
      · rw [same, here] at found
        exact started thread found busy
      · rw [there other same] at found
        exact order.started other thread (counts other same) found busy
    kept := by
      intro other thread _ found busy ready
      by_cases same : other = tid
      · exact .inl ⟨cpu, nofun, here.trans same.symm⟩
      · have notLoose : some other ≠ some tid := fun equal => same (Option.some.inj equal)
        rcases order.kept other thread notLoose found busy ready with ⟨holder, other, runs⟩ | queued
        · refine .inl ⟨holder, nofun, ?_⟩
          refine (there holder ?_).trans runs
          rintro rfl
          exact other rfl
        · exact .inr queued
    free := nofun }

/-- Fields of a queue beside its tree, its count and its idle thread do not matter. -/
theorem setQueue {queue : CfsRunQueue} (tree : queue.tree = (scheduler.queues cpu).tree)
    (count : queue.nrRunning = (scheduler.queues cpu).nrRunning)
    (idle : queue.idle = (scheduler.queues cpu).idle) :
    InOrder vacant loose (scheduler.setQueue cpu queue) := by
  have same : ∀ {β : Type} (field : CfsRunQueue → β),
      field queue = field (scheduler.queues cpu) → ∀ other,
        field ((scheduler.setQueue cpu queue).queues other) = field (scheduler.queues other) := by
    intro β field equal other
    by_cases here : other = cpu
    · rw [here, queues_setQueue, equal]
    · rw [queues_setQueue_of_ne here]
  have trees := same (·.tree) tree
  have counts := same (·.nrRunning) count
  have idles := same (·.idle) idle
  have queued : ∀ other thread, (scheduler.setQueue cpu queue).Queued other thread ↔
      scheduler.Queued other thread := by
    intro other thread
    unfold Queued
    rw [trees other]
  exact {
    entry := fun other entry member => order.entry other entry (trees other ▸ member)
    once := by simpa only [queued] using order.once
    nodup := fun other => (trees other).symm ▸ order.nodup other
    nodes := fun other first one second two =>
      order.nodes other first (trees other ▸ one) second (trees other ▸ two)
    fresh := fun other entry member => order.fresh other entry (trees other ▸ member)
    counted := fun other => by rw [counts, trees]; exact order.counted other
    onRq := by simp only [queued]; exact order.onRq
    idle := fun other thread found => order.idle other thread (idles other ▸ found)
    offline := order.offline
    single := order.single
    apart := fun other run counts queue => order.apart other run counts ((queued _ _).mp queue)
    started := order.started
    kept := by simp only [queued]; exact order.kept
    free := by simp only [queued]; exact order.free }

end InOrder

/-- What enqueueing does to a thread of the table. -/
def Scheduler.enqueued (scheduler : Scheduler) (cpu tid : Nat) (thread : Thread) : Scheduler :=
  let (vruntime, inserted) := scheduler.insertThread cpu tid thread
  let placed := inserted.setThread tid
    { thread with
      vruntime
      rbNode := some scheduler.nextNode
      onRq := true
      state := .runnable
      cpu := (scheduler.queues cpu).cpu }
  let queue := placed.queues cpu
  placed.setQueue cpu
    { queue with
      nrRunning := queue.nrRunning + 1
      minVruntime := queue.peekMinKey.getD queue.minVruntime }

/-- One more entry in one of the trees. -/
structure Inserted (scheduler : Scheduler) (cpu tid : Nat) (entry : QueueEntry)
    (after : Scheduler) : Prop where
  named : entry.tid = tid
  node : entry.node = scheduler.nextNode
  tree : (after.queues cpu).tree.Perm (entry :: (scheduler.queues cpu).tree)
  count : (after.queues cpu).nrRunning = (scheduler.queues cpu).nrRunning + 1
  idle : ∀ other, (after.queues other).idle = (scheduler.queues other).idle
  queues : ∀ other, other ≠ cpu → after.queues other = scheduler.queues other
  threads : ∀ other, other ≠ tid → after.thread other = scheduler.thread other
  thread : ∃ thread, after.thread tid = some thread ∧ thread.isIdle = false ∧
    thread.state = .runnable ∧ thread.rbNode = some entry.node
  current : after.current = scheduler.current
  next : after.nextNode = scheduler.nextNode + 1

/-- Enqueueing adds an entry to one tree. -/
theorem inserted_enqueued {scheduler : Scheduler} {tid : Nat} {thread : Thread} (cpu : Nat)
    (found : scheduler.thread tid = some thread) (busy : thread.isIdle = false) :
    ∃ entry, Inserted scheduler cpu tid entry (scheduler.enqueued cpu tid thread) := by
  have small := thread_small found
  let placed := placeEntity (scheduler.queues cpu).minVruntime thread.effectiveVruntime
  let entry : QueueEntry :=
    ⟨{ thread with vruntime := placed }.effectiveVruntime, tid, scheduler.nextNode⟩
  let inserted := scheduler.setQueue cpu ((scheduler.queues cpu).insert entry)
  have inner : inserted.queues cpu = (scheduler.queues cpu).insert entry :=
    queues_setQueue
  have outer : (scheduler.enqueued cpu tid thread).queues cpu =
      { inserted.queues cpu with
        nrRunning := (inserted.queues cpu).nrRunning + 1
        minVruntime := (inserted.queues cpu).peekMinKey.getD (inserted.queues cpu).minVruntime } :=
    queues_setQueue
  rw [inner] at outer
  have queues : ∀ other, other ≠ cpu →
      (scheduler.enqueued cpu tid thread).queues other = scheduler.queues other := by
    intro other differ
    have last : (scheduler.enqueued cpu tid thread).queues other = inserted.queues other :=
      queues_setQueue_of_ne differ
    exact last.trans (queues_setQueue_of_ne differ)
  refine ⟨entry, ?_⟩
  exact {
    named := rfl
    node := rfl
    tree := by rw [outer]; exact perm_orderedInsert ..
    count := by rw [outer]; rfl
    idle := by
      intro other
      by_cases same : other = cpu
      · rw [same, outer]
        rfl
      · rw [queues other same]
    queues
    threads := fun other differ => thread_setThread_of_ne differ
    thread := ⟨_, thread_setThread small, busy, rfl, rfl⟩
    current := rfl
    next := rfl }

namespace InOrder

variable {vacant loose : Option Nat} {scheduler after : Scheduler} {cpu tid : Nat}
  {thread : Thread} {entry : QueueEntry}

/-- A loose thread is in order again when it is enqueued. -/
theorem insert (order : InOrder vacant (some tid) scheduler)
    (found : scheduler.thread tid = some thread) (busy : thread.isIdle = false)
    (inserted : Inserted scheduler cpu tid entry after) : InOrder vacant none after := by
  obtain ⟨away, outside⟩ := order.free tid thread rfl found busy
  -- The entries of the trees are the old ones and the new one.
  have member : ∀ other item, item ∈ (after.queues other).tree ↔
      other = cpu ∧ item = entry ∨ item ∈ (scheduler.queues other).tree := by
    intro other item
    by_cases same : other = cpu
    · subst same
      rw [inserted.tree.mem_iff, mem_cons]
      simp
    · rw [inserted.queues other same]
      simp [same]
  have queued : ∀ other run, after.Queued other run ↔
      other = cpu ∧ run = tid ∨ scheduler.Queued other run := by
    intro other run
    constructor
    · rintro ⟨item, isIn, rfl⟩
      rcases (member other item).mp isIn with ⟨here, rfl⟩ | old
      · exact .inl ⟨here, inserted.named⟩
      · exact .inr ⟨item, old, rfl⟩
    · rintro (⟨rfl, rfl⟩ | ⟨item, old, rfl⟩)
      · exact ⟨entry, (member other entry).mpr (.inl ⟨rfl, rfl⟩), inserted.named⟩
      · exact ⟨item, (member other item).mpr (.inr old), rfl⟩
  obtain ⟨placed, look, idleFlag, runnable, node⟩ := inserted.thread
  have oldEntry : ∀ other item, item ∈ (scheduler.queues other).tree → item.tid ≠ tid :=
    fun other item isIn same => outside other ⟨item, isIn, same⟩
  obtain ⟨idle, offline, single, started⟩ := order.processors found inserted.threads inserted.current
    inserted.idle (fun _ isThere => by cases look.symm.trans isThere; rw [idleFlag, busy])
    fun _ => away
  exact {
    entry := by
      intro other item isIn
      rcases (member other item).mp isIn with ⟨-, rfl⟩ | old
      · rw [inserted.named]
        exact ⟨placed, look, idleFlag, runnable, node⟩
      · rw [inserted.threads item.tid (oldEntry other item old)]
        exact order.entry other item old
    once := by
      intro first second run one two
      rcases (queued first run).mp one with ⟨here, rfl⟩ | one
      · rcases (queued second run).mp two with ⟨here', -⟩ | two
        · exact here.trans here'.symm
        · exact absurd two (outside second)
      · rcases (queued second run).mp two with ⟨-, rfl⟩ | two
        · exact absurd one (outside first)
        · exact order.once first second run one two
    nodup := by
      intro other
      by_cases same : other = cpu
      · subst same
        rw [(inserted.tree.map _).nodup_iff, map_cons, nodup_cons, inserted.named]
        refine ⟨?_, order.nodup other⟩
        intro isIn
        obtain ⟨item, old, equal⟩ := mem_map.mp isIn
        exact oldEntry other item old equal
      · rw [inserted.queues other same]
        exact order.nodup other
    nodes := by
      intro other first one second two equal
      rcases (member other first).mp one with ⟨-, rfl⟩ | one
      · rcases (member other second).mp two with ⟨-, rfl⟩ | two
        · rfl
        · have below := order.fresh other second two
          rw [← equal, inserted.node] at below
          exact absurd below (Nat.lt_irrefl _)
      · rcases (member other second).mp two with ⟨-, rfl⟩ | two
        · have below := order.fresh other first one
          rw [equal, inserted.node] at below
          exact absurd below (Nat.lt_irrefl _)
        · exact order.nodes other first one second two equal
    fresh := by
      intro other item isIn
      rw [inserted.next]
      rcases (member other item).mp isIn with ⟨-, rfl⟩ | old
      · rw [inserted.node]
        exact Nat.lt_succ_self _
      · exact Nat.lt_succ_of_lt (order.fresh other item old)
    counted := by
      intro other
      by_cases same : other = cpu
      · subst same
        rw [inserted.count, inserted.tree.length_eq, order.counted other, length_cons]
      · rw [inserted.queues other same]
        exact order.counted other
    onRq := by
      intro run record isThere flag
      by_cases same : run = tid
      · exact ⟨cpu, (queued cpu run).mpr (.inl ⟨rfl, same⟩)⟩
      · rw [inserted.threads run same] at isThere
        obtain ⟨other, old⟩ := order.onRq run record isThere flag
        exact ⟨other, (queued other run).mpr (.inr old)⟩
    idle
    offline
    single
    started
    apart := by
      intro other queue counts isQueued
      rw [inserted.current] at isQueued
      rcases (queued queue _).mp isQueued with ⟨-, same⟩ | old
      · exact away other counts same
      · exact order.apart other queue counts old
    kept := by
      intro run record _ isThere flag ready
      by_cases same : run = tid
      · exact .inr ⟨cpu, (queued cpu run).mpr (.inl ⟨rfl, same⟩)⟩
      · rw [inserted.threads run same] at isThere
        have notLoose : some run ≠ some tid := fun equal => same (Option.some.inj equal)
        rcases order.kept run record notLoose isThere flag ready with runs | ⟨queue, old⟩
        · rw [inserted.current]
          exact .inl runs
        · exact .inr ⟨queue, (queued queue run).mpr (.inr old)⟩
    free := nofun }

end InOrder

/-- The first entry of one of the trees is gone, and its thread runs. -/
structure Removed (scheduler : Scheduler) (cpu : Nat) (entry : QueueEntry)
    (after : Scheduler) : Prop where
  tree : (scheduler.queues cpu).tree = entry :: (after.queues cpu).tree
  count : (after.queues cpu).nrRunning = (scheduler.queues cpu).nrRunning - 1
  idle : ∀ other, (after.queues other).idle = (scheduler.queues other).idle
  queues : ∀ other, other ≠ cpu → after.queues other = scheduler.queues other
  threads : ∀ other, other ≠ entry.tid → after.thread other = scheduler.thread other
  thread : ∃ thread, after.thread entry.tid = some thread ∧ thread.isIdle = false ∧
    thread.onRq = false ∧ thread.state = .running
  current : after.current = scheduler.current
  next : after.nextNode = scheduler.nextNode

namespace InOrder

variable {vacant loose : Option Nat} {scheduler after : Scheduler} {cpu : Nat}
  {thread : Thread} {entry : QueueEntry}

/-- A thread that is taken out of a queue is loose. -/
theorem remove (order : InOrder vacant none scheduler)
    (removed : Removed scheduler cpu entry after) : InOrder vacant (some entry.tid) after := by
  have head : entry ∈ (scheduler.queues cpu).tree := by
    rw [removed.tree]
    exact mem_cons_self
  obtain ⟨thread, found, busy, -⟩ := order.entry cpu entry head
  obtain ⟨now, look, idleFlag, offQueue, running⟩ := removed.thread
  -- No other entry is about the thread.
  have ownNodup := order.nodup cpu
  rw [removed.tree, map_cons, nodup_cons] at ownNodup
  have old : ∀ other item, item ∈ (after.queues other).tree →
      item ∈ (scheduler.queues other).tree ∧ item.tid ≠ entry.tid := by
    intro other item isIn
    by_cases same : other = cpu
    · subst same
      refine ⟨?_, fun equal => ownNodup.1 (mem_map.mpr ⟨item, isIn, equal⟩)⟩
      rw [removed.tree]
      exact mem_cons_of_mem entry isIn
    · rw [removed.queues other same] at isIn
      refine ⟨isIn, fun equal => same ?_⟩
      exact order.once other cpu entry.tid ⟨item, isIn, equal⟩ ⟨entry, head, rfl⟩
  have queued : ∀ other run, after.Queued other run ↔
      scheduler.Queued other run ∧ run ≠ entry.tid := by
    intro other run
    constructor
    · rintro ⟨item, isIn, rfl⟩
      exact ⟨⟨item, (old other item isIn).1, rfl⟩, (old other item isIn).2⟩
    · rintro ⟨⟨item, isIn, rfl⟩, differ⟩
      refine ⟨item, ?_, rfl⟩
      by_cases same : other = cpu
      · subst same
        rw [removed.tree] at isIn
        exact (mem_cons.mp isIn).resolve_left fun equal => differ (congrArg _ equal)
      · rwa [removed.queues other same]
  have runsNowhere : ∀ other, some other ≠ vacant → scheduler.current other ≠ entry.tid :=
    fun other counts same => order.apart other cpu counts ⟨entry, head, same.symm⟩
  obtain ⟨idle, offline, single, started⟩ := order.processors found removed.threads removed.current
    removed.idle (fun _ isThere => by cases look.symm.trans isThere; rw [idleFlag, busy])
    fun _ => runsNowhere
  exact {
    entry := by
      intro other item isIn
      obtain ⟨wasIn, differ⟩ := old other item isIn
      rw [removed.threads item.tid differ]
      exact order.entry other item wasIn
    once := by
      intro first second run one two
      exact order.once first second run ((queued first run).mp one).1 ((queued second run).mp two).1
    nodup := by
      intro other
      by_cases same : other = cpu
      · subst same
        exact ownNodup.2
      · rw [removed.queues other same]
        exact order.nodup other
    nodes := fun other first one second two =>
      order.nodes other first (old other first one).1 second (old other second two).1
    fresh := by
      intro other item isIn
      rw [removed.next]
      exact order.fresh other item (old other item isIn).1
    counted := by
      intro other
      by_cases same : other = cpu
      · subst same
        rw [removed.count, order.counted other, removed.tree, length_cons, Nat.add_sub_cancel]
      · rw [removed.queues other same]
        exact order.counted other
    onRq := by
      intro run record isThere flag
      by_cases same : run = entry.tid
      · subst same
        cases look.symm.trans isThere
        cases offQueue.symm.trans flag
      · rw [removed.threads run same] at isThere
        obtain ⟨other, was⟩ := order.onRq run record isThere flag
        exact ⟨other, (queued other run).mpr ⟨was, same⟩⟩
    idle
    offline
    single
    started
    apart := by
      intro other queue counts isQueued
      rw [removed.current] at isQueued
      exact order.apart other queue counts ((queued queue _).mp isQueued).1
    kept := by
      intro run record notLoose isThere flag ready
      have differ : run ≠ entry.tid := fun same => notLoose (congrArg some same)
      rw [removed.threads run differ] at isThere
      rcases order.kept run record nofun isThere flag ready with runs | ⟨queue, was⟩
      · rw [removed.current]
        exact .inl runs
      · exact .inr ⟨queue, (queued queue run).mpr ⟨was, differ⟩⟩
    free := by
      intro run record same isThere flag
      cases same
      rw [removed.current]
      exact ⟨runsNowhere, fun queue isQueued => ((queued queue _).mp isQueued).2 rfl⟩ }

end InOrder

end TheoryKernel.Sched
