import TheoryKernel.Lib.Runs
import TheoryKernel.Sched.Conserve

/-! No thread is lost or run twice, in the runs that leave the thread of each processor a place. -/

set_option maxRecDepth 8000

namespace TheoryKernel.Sched

open Function Scheduler List CfsRunQueue
open Locking.Code
open Proc (maxThreads)

variable {scheduler after : Scheduler} {cpu tid next : Nat} {thread : Thread}
  {vacant loose : Option Nat}

variable {α : Type} {rest : List QueueEntry} {prev : Nat} {frame : Bool}

theorem withRunqueue_run {body : Code α} (online : cpu < maxCpus) :
    withRunqueue cpu body .reentrant scheduler = body .reentrant scheduler := by
  rw [withRunqueue, withLock_run rfl, if_neg (Nat.not_le_of_lt online)]

theorem withRunqueue_ok {body : Code α} {value : α}
    (run : withRunqueue cpu body .reentrant scheduler = .ok (value, after)) :
    cpu < maxCpus ∧ body .reentrant scheduler = .ok (value, after) := by
  rw [withRunqueue, withLock_run rfl] at run
  split at run
  · cases run
  · rename_i online
    exact ⟨Nat.lt_of_not_le online, run⟩

theorem enqueueThread_run (online : cpu < maxCpus) :
    enqueueThread tid cpu .reentrant scheduler =
      .ok ((), match scheduler.thread tid with
        | none => scheduler
        | some thread => scheduler.enqueued cpu tid thread) := by
  rw [enqueueThread, withRunqueue_run online, enqueue, bind_run, withThread_run rfl]
  cases scheduler.thread tid with
  | none => rfl
  | some thread => rfl

/-- What taking the first entry out of a queue does. -/
def Scheduler.picked (scheduler : Scheduler) (cpu : Nat) (entry : QueueEntry) (thread : Thread) :
    Scheduler :=
  let removed := scheduler.setQueue cpu ((scheduler.queues cpu).remove thread.rbNode)
  let started := removed.setThread entry.tid
    { thread with onRq := false, rbNode := none, state := .running }
  let queue := started.queues cpu
  started.setQueue cpu { queue with nrRunning := queue.nrRunning - 1, minVruntime := entry.key }

theorem pickNext_run {entry : QueueEntry} (tree : (scheduler.queues cpu).tree = entry :: rest)
    (found : scheduler.thread entry.tid = some thread) :
    pickNext cpu .reentrant scheduler =
      .ok (entry.tid, scheduler.picked cpu entry thread) := by
  have node : withThread entry.tid (fun record => pure record.rbNode) .reentrant scheduler =
      .ok (some thread.rbNode, scheduler) := by
    rw [withThread_run rfl, found]
    rfl
  let removed := scheduler.setQueue cpu ((scheduler.queues cpu).remove thread.rbNode)
  have started : withThreadMut entry.tid
      (fun record => { record with onRq := false, rbNode := none, state := .running })
      .reentrant removed =
      .ok (some (), removed.setThread entry.tid
        { thread with onRq := false, rbNode := none, state := .running }) := by
    have same : removed.thread entry.tid = some thread := found
    rw [withThreadMut, withThread_run rfl, same]
    rfl
  rw [pickNext, read_bind, tree]
  simp only [List.head?_cons]
  rw [bind_ok node, modifyQueue, modify_bind, Option.join_some, bind_ok started]
  rfl

theorem removed_picked {entry : QueueEntry} (order : InOrder vacant loose scheduler)
    (tree : (scheduler.queues cpu).tree = entry :: rest)
    (found : scheduler.thread entry.tid = some thread) :
    Removed scheduler cpu entry (scheduler.picked cpu entry thread) := by
  have small := thread_small found
  have head : entry ∈ (scheduler.queues cpu).tree := tree ▸ mem_cons_self
  obtain ⟨record, same, busy, -, node⟩ := order.entry cpu entry head
  cases found.symm.trans same
  let removed := scheduler.setQueue cpu ((scheduler.queues cpu).remove thread.rbNode)
  have inner : removed.queues cpu = (scheduler.queues cpu).remove thread.rbNode :=
    queues_setQueue
  have outer : (scheduler.picked cpu entry thread).queues cpu =
      { removed.queues cpu with
        nrRunning := (removed.queues cpu).nrRunning - 1
        minVruntime := entry.key } := queues_setQueue
  rw [inner] at outer
  -- The node of the entry is that of no other one.
  have filtered : ((scheduler.queues cpu).remove thread.rbNode).tree = rest := by
    have distinct := order.nodup cpu
    rw [tree, map_cons, nodup_cons] at distinct
    rw [remove, tree, node, filter_cons_of_neg (by simp)]
    apply filter_eq_self.mpr
    intro other member
    rw [bne_iff_ne]
    intro equal
    have later : other ∈ (scheduler.queues cpu).tree := tree ▸ mem_cons_of_mem entry member
    have named := order.nodes cpu other later entry head (Option.some.inj equal)
    exact distinct.1 (mem_map.mpr ⟨other, member, named⟩)
  have queues : ∀ other, other ≠ cpu →
      (scheduler.picked cpu entry thread).queues other = scheduler.queues other := by
    intro other differ
    have last : (scheduler.picked cpu entry thread).queues other = removed.queues other :=
      queues_setQueue_of_ne differ
    exact last.trans (queues_setQueue_of_ne differ)
  exact {
    tree := by rw [outer, tree, ← filtered]
    count := by rw [outer]; rfl
    idle := by
      intro other
      by_cases same : other = cpu
      · rw [same, outer]
        rfl
      · rw [queues other same]
    queues
    threads := fun other differ => thread_setThread_of_ne differ
    thread := ⟨_, thread_setThread small, busy, rfl, rfl⟩
    current := rfl
    next := rfl }

/-- Whether a processor has a thread of its own to pick, or nobody has one to spare. -/
def Scheduler.calm (scheduler : Scheduler) (cpu : Nat) : Bool :=
  (scheduler.queues cpu).nrRunning != 0 ||
    (List.range scheduler.cpuCount).all fun other =>
      other == cpu || decide ((scheduler.queues other).nrRunning ≤ 1)

/-- Nothing is stolen from queues of at most one thread. -/
theorem trySteal_calm {others : List Nat} {stolen : Option Nat}
    (poor : ∀ other ∈ others, other = cpu ∨ (scheduler.queues other).nrRunning ≤ 1)
    (run : trySteal cpu others .reentrant scheduler = .ok (stolen, after)) :
    stolen = none ∧ after = scheduler := by
  induction others with
  | nil =>
    cases run
    exact ⟨rfl, rfl⟩
  | cons other others ih =>
    have later := ih fun item member => poor item (mem_cons_of_mem other member)
    rw [trySteal] at run
    split at run
    · exact later run
    · rename_i differ
      have few := (poor other mem_cons_self).resolve_left differ
      obtain ⟨found, middle, tried, run⟩ := bind_returned run
      obtain ⟨-, skipped⟩ := withRunqueue_ok tried
      rw [read_bind, if_pos few] at skipped
      cases skipped
      exact later run

theorem pickNextThread_cases (order : InOrder vacant loose scheduler)
    (calm : scheduler.calm cpu = true)
    (run : pickNextThread cpu .reentrant scheduler = .ok (next, after)) :
    cpu < maxCpus ∧
      ((∃ entry, next = entry.tid ∧ Removed scheduler cpu entry after) ∨
        (scheduler.queues cpu).nrRunning = 0 ∧ next = (scheduler.queues cpu).idle ∧
          after = scheduler) := by
  obtain ⟨online, run⟩ := withRunqueue_ok run
  refine ⟨online, ?_⟩
  rw [read_bind] at run
  have counted := order.counted cpu
  cases tree : (scheduler.queues cpu).tree with
  | nil =>
    rw [tree, length_nil] at counted
    rw [if_pos counted, read_bind] at run
    -- Nobody has a thread to spare, so the idle thread is left.
    have poor : ∀ other ∈ List.range scheduler.cpuCount,
        other = cpu ∨ (scheduler.queues other).nrRunning ≤ 1 := by
      simpa [Scheduler.calm, counted] using calm
    obtain ⟨stolen, same, steal, finish⟩ := bind_returned run
    obtain ⟨rfl, rfl⟩ := trySteal_calm poor steal
    dsimp only at finish
    rw [pickNext, read_bind, tree] at finish
    cases finish
    exact .inr ⟨counted, rfl, rfl⟩
  | cons entry rest =>
    have head : entry ∈ (scheduler.queues cpu).tree := tree ▸ mem_cons_self
    obtain ⟨thread, found, -⟩ := order.entry cpu entry head
    rw [if_neg (by rw [counted, tree]; exact Nat.succ_ne_zero _), pickNext_run tree found] at run
    cases run
    exact .inl ⟨entry, rfl, removed_picked order tree found⟩

/-- What a switch to a thread does. -/
def Scheduler.switched (scheduler : Scheduler) (cpu next : Nat) : Scheduler :=
  let assigned := { scheduler with current := update scheduler.current cpu next }
  let noted := assigned.setQueue cpu { assigned.queues cpu with curr := next }
  match scheduler.thread next with
  | none => noted
  | some thread => noted.setThread next { thread with state := .running }

theorem withThread_read {part : Thread → α} :
    withThread tid (fun record => pure (part record)) .reentrant scheduler =
      .ok ((scheduler.thread tid).map part, scheduler) := by
  rw [withThread_run rfl]
  cases scheduler.thread tid with
  | none => rfl
  | some thread => rfl

/-- Up to the switch of contexts, switching only notes which thread runs. -/
theorem switchTo_run (online : cpu < maxCpus) :
    switchTo cpu prev next frame .reentrant scheduler =
      (if frame then do
        let _ ← withThread next fun _ => pure ()
      else switchContext prev next : Code Unit) .reentrant (scheduler.switched cpu next) := by
  let assigned := { scheduler with current := update scheduler.current cpu next }
  let noted := assigned.setQueue cpu { assigned.queues cpu with curr := next }
  have note : setCurrent cpu next .reentrant assigned = .ok ((), noted) := by
    rw [setCurrent, withRunqueue_run online]
    rfl
  have start : withThreadMut next (fun record => { record with state := .running })
      .reentrant noted = .ok ((scheduler.thread next).map fun _ => (), scheduler.switched cpu next) := by
    have same : noted.thread next = scheduler.thread next := rfl
    rw [withThreadMut, withThread_run rfl, same]
    unfold switched
    cases scheduler.thread next with
    | none | some thread => rfl
  have activates : ∀ pid, activateSpace pid .reentrant noted = .ok ((), noted) := by
    intro pid
    unfold activateSpace
    split <;> rfl
  rw [switchTo, modify_bind, bind_ok note, bind_ok withThread_read, bind_ok (activates _),
    bind_ok withThread_read, bind_ok withThread_read, bind_ok start]

theorem switchTo_ok (online : cpu < maxCpus)
    (run : switchTo cpu prev next frame .reentrant scheduler = .ok ((), after)) :
    after = scheduler.switched cpu next := by
  rw [switchTo_run online] at run
  cases frame with
  | true =>
    rw [if_pos rfl, bind_ok withThread_read] at run
    cases run
    rfl
  | false =>
    rw [if_neg Bool.false_ne_true, switchContext, withLock_run rfl, read_bind] at run
    split_ifs at run
    · cases run
    · cases run
    · cases run
      rfl

namespace InOrder

theorem online (order : InOrder vacant loose scheduler)
    (found : scheduler.thread (scheduler.current cpu) = some thread) : cpu < maxCpus := by
  by_contra outside
  cases found.symm.trans (order.offline cpu (Nat.le_of_not_lt outside))

theorem flags (order : InOrder vacant loose scheduler) {count : BitVec 32} {needed : Bool} :
    InOrder vacant loose { scheduler with preemptCount := count, needResched := needed } :=
  { order with }

theorem switched (order : InOrder (some cpu) (some next) scheduler) (online : cpu < maxCpus) :
    InOrder none none (scheduler.switched cpu next) := by
  unfold Scheduler.switched
  cases found : scheduler.thread next with
  | none =>
    have assigned := order.assign online fun thread isThere => by
      cases found.symm.trans isThere
    exact assigned.setQueue rfl rfl rfl
  | some thread =>
    -- The thread is marked as running before it counts as the current one.
    let changed : Thread := { thread with state := .running }
    have touched : InOrder (some cpu) (some next) (scheduler.setThread next changed) :=
      order.touch found rfl rfl (.inr rfl)
    have assigned := touched.assign online (by
      intro record isThere _
      rw [thread_setThread (thread_small found)] at isThere
      cases isThere
      exact nofun)
    exact assigned.setQueue rfl rfl rfl

theorem picked (order : InOrder (some cpu) none scheduler) (calm : scheduler.calm cpu = true)
    (run : pickNextThread cpu .reentrant scheduler = .ok (next, after)) :
    cpu < maxCpus ∧ InOrder (some cpu) (some next) after ∧ after.current = scheduler.current ∧
      ∀ thread, after.thread next = some thread → thread.isIdle = false →
        thread.state = .running ∧ ∃ queue, scheduler.Queued queue next := by
  obtain ⟨online, ⟨entry, rfl, removed⟩ | ⟨-, rfl, rfl⟩⟩ := pickNextThread_cases order calm run
  · refine ⟨online, order.remove removed, removed.current, ?_⟩
    intro thread found busy
    obtain ⟨record, same, -, -, running⟩ := removed.thread
    cases found.symm.trans same
    exact ⟨running, cpu, entry, removed.tree ▸ mem_cons_self, rfl⟩
  · -- The idle thread needs no place.
    have isIdle : ∀ thread, after.thread (after.queues cpu).idle = some thread →
        thread.isIdle = false → False := by
      intro thread found busy
      cases busy.symm.trans (order.idle cpu thread found)
    refine ⟨online, order.loosen fun thread found busy => (isIdle thread found busy).elim, rfl, ?_⟩
    exact fun thread found busy => (isIdle thread found busy).elim

end InOrder

/-- Whether a thread should run can be told from its state. -/
instance : DecidablePred Thread.Ready := fun thread =>
  inferInstanceAs (Decidable (thread.state = .runnable ∨ thread.state = .running))

/-- The calls that move threads, each with the processor or the thread it is made for. -/
inductive SwitchCall where
  | reschedule (cpu : Nat)
  | preempt (cpu : Nat)
  | blockCurrent (cpu : Nat)
  | wakeThread (tid : Nat)

namespace SwitchCall

/-- The code of a call. -/
def code : SwitchCall → Code Unit
  | .reschedule cpu => Sched.reschedule cpu
  | .preempt cpu => Sched.preempt cpu
  | .blockCurrent cpu => Sched.blockCurrent cpu
  | .wakeThread tid => Sched.wakeThread tid

/-- One call, with locks that can be taken again. -/
def step (scheduler : Scheduler) (call : SwitchCall) :
    Except (Locking.Stop Fault) Scheduler :=
  (call.code .reentrant scheduler).map Prod.snd

/--
Whether a call leaves every thread a place.

Nothing may be stolen. A call to reschedule comes from a thread that does not want to run any more,
or from the idle thread when there is something in the queue. The counter of switches does not run
over while a thread blocks. A thread is woken when it is blocked and no processor still runs it.
-/
def allowed (scheduler : Scheduler) : SwitchCall → Bool
  | .reschedule cpu =>
    scheduler.preemptCount != 0 ||
      scheduler.calm cpu &&
        match scheduler.thread (scheduler.current cpu) with
        | none => true
        | some thread =>
          if thread.isIdle then (scheduler.queues cpu).nrRunning != 0 else !decide thread.Ready
  | .preempt cpu =>
    !scheduler.needResched || scheduler.preemptCount != 0 || scheduler.calm cpu ||
      match scheduler.thread (scheduler.current cpu) with
      | none => false
      | some thread => thread.state == .running && !thread.isIdle
  | .blockCurrent _ => scheduler.preemptCount + 1 != 0
  | .wakeThread tid =>
    match scheduler.thread tid with
    | none => true
    | some thread =>
      thread.state == .blocked && !thread.isIdle &&
        (List.range maxCpus).all fun cpu => scheduler.current cpu != tid

/-- A call that is allowed keeps the bookkeeping in order. -/
def Keeps (call : SwitchCall) : Prop :=
  ∀ scheduler after, InOrder none none scheduler → call.allowed scheduler = true →
    call.code .reentrant scheduler = .ok ((), after) → InOrder none none after

end SwitchCall

theorem ne_noThread (found : scheduler.thread tid = some thread) : tid ≠ noThread := by
  rintro rfl
  cases found

theorem currentTid_ok (run : currentTid cpu .reentrant scheduler = .ok (tid, after)) :
    cpu < maxCpus ∧ scheduler.current cpu = tid ∧ scheduler = after := by
  unfold currentTid at run
  split at run
  · cases run
  · rename_i online
    cases run
    exact ⟨Nat.lt_of_not_le online, rfl, rfl⟩

theorem reschedule_keeps : (SwitchCall.reschedule cpu).Keeps := by
  intro scheduler after order allowed run
  by_cases enabled : scheduler.preemptCount = 0
  · rw [SwitchCall.code, reschedule, preemptEnabled, read_bind, if_pos (beq_iff_eq.mpr enabled)]
      at run
    simp only [SwitchCall.allowed, enabled, bne_self_eq_false, Bool.false_or,
      Bool.and_eq_true] at allowed
    obtain ⟨calm, gone⟩ := allowed
    -- The thread of the processor does not want to run any more.
    have settled : InOrder (some cpu) none scheduler := by
      refine (order.release cpu).settle fun thread found busy => ?_
      rw [found] at gone
      simpa [busy] using gone
    obtain ⟨next, chosen, pick, run⟩ := bind_returned run
    obtain ⟨online, picked, current, -⟩ := settled.picked calm pick
    obtain ⟨-, cases⟩ := pickNextThread_cases settled calm pick
    by_cases invalid : next = noThread
    · -- Only a processor without an idle thread finds nothing at all.
      rw [if_pos invalid] at run
      cases run
      rcases cases with ⟨entry, rfl, removed⟩ | ⟨-, -, rfl⟩
      · obtain ⟨thread, found, -⟩ := removed.thread
        exact absurd invalid (ne_noThread found)
      · exact order
    · rw [if_neg invalid] at run
      obtain ⟨curr, looked, found, run⟩ := bind_returned run
      obtain ⟨-, rfl, rfl⟩ := currentTid_ok found
      rw [current] at run
      by_cases same : scheduler.current cpu = next
      · rw [if_pos same, enqueueThread_run online] at run
        cases run
        rcases cases with ⟨entry, rfl, removed⟩ | ⟨empty, rfl, rfl⟩
        · have queued : scheduler.Queued cpu (scheduler.current cpu) :=
            ⟨entry, removed.tree ▸ mem_cons_self, same.symm⟩
          exact absurd queued (order.apart cpu cpu nofun)
        · -- The idle thread would be enqueued, but it does not come here with an empty queue.
          rw [same] at gone
          cases found : chosen.thread (chosen.queues cpu).idle with
          | none => exact order
          | some thread =>
            rw [found] at gone
            simp [order.idle cpu thread found, empty] at gone
      · rw [if_neg same] at run
        rw [switchTo_ok online run]
        exact picked.switched online
  · rw [SwitchCall.code, reschedule, preemptEnabled, read_bind,
      if_neg (fun same => enabled (beq_iff_eq.mp same))] at run
    cases run
    exact order

theorem pickAndSwitch_keeps (order : InOrder (some cpu) none scheduler)
    (rest : InOrder none none scheduler ∨ (scheduler.queues cpu).nrRunning ≠ 0)
    (calm : scheduler.calm cpu = true)
    (run : (do
      let next ← pickNextThread cpu
      if next = noThread ∨ next = scheduler.current cpu then pure ()
      else switchTo cpu (scheduler.current cpu) next true : Code Unit) .reentrant scheduler =
        .ok ((), after)) : InOrder none none after := by
  obtain ⟨next, chosen, pick, run⟩ := bind_returned run
  obtain ⟨online, picked, current, started⟩ := order.picked calm pick
  obtain ⟨-, cases⟩ := pickNextThread_cases order calm pick
  by_cases stays : next = noThread ∨ next = scheduler.current cpu
  · rw [if_pos stays] at run
    cases run
    rcases cases with ⟨entry, rfl, removed⟩ | ⟨empty, -, rfl⟩
    · -- The thread that was put back is picked again, and still is the current one.
      have same : entry.tid = after.current cpu := by
        rw [current]
        refine stays.resolve_left fun invalid => ?_
        obtain ⟨thread, found, -⟩ := removed.thread
        exact ne_noThread found invalid
      have again := picked.assign online fun thread found busy => by
        rw [(started thread found busy).1]
        exact nofun
      rwa [same, update_eq_self] at again
    · exact rest.resolve_right fun nonempty => nonempty empty
  · rw [if_neg stays] at run
    rw [switchTo_ok online run]
    exact picked.switched online

theorem calm_of_queued (order : InOrder vacant loose scheduler)
    (queued : scheduler.Queued cpu tid) :
    (scheduler.queues cpu).nrRunning ≠ 0 ∧ scheduler.calm cpu = true := by
  obtain ⟨entry, member, -⟩ := queued
  have nonempty : (scheduler.queues cpu).nrRunning ≠ 0 := by
    rw [order.counted cpu]
    exact Nat.ne_of_gt (length_pos_of_mem member)
  refine ⟨nonempty, ?_⟩
  rw [calm, bne_iff_ne.mpr nonempty, Bool.true_or]

theorem preempt_keeps : (SwitchCall.preempt cpu).Keeps := by
  intro scheduler after order allowed run
  let cleared := { scheduler with needResched := false }
  have rest : InOrder none none cleared := order.flags
  have start : (SwitchCall.preempt cpu).code .reentrant scheduler =
      (if scheduler.needResched && scheduler.preemptCount == 0 then do
        let curr ← currentTid cpu
        let _ ← withThread curr (putBack cpu curr)
        let next ← pickNextThread cpu
        if next = noThread ∨ next = curr then pure () else switchTo cpu curr next true
      else pure () : Code Unit) .reentrant cleared := rfl
  rw [start] at run
  by_cases asked : scheduler.needResched = true ∧ scheduler.preemptCount = 0
  · rw [if_pos (by simp [asked])] at run
    simp only [SwitchCall.allowed, asked.1, asked.2, Bool.not_true, bne_self_eq_false,
      Bool.false_or, Bool.or_eq_true] at allowed
    obtain ⟨curr, looked, current, run⟩ := bind_returned run
    obtain ⟨online, rfl, rfl⟩ := currentTid_ok current
    have released := rest.release cpu
    cases found : cleared.thread (scheduler.current cpu) with
    | none =>
      have missing : withThread (scheduler.current cpu) (putBack cpu (scheduler.current cpu))
          .reentrant cleared = .ok (none, cleared) := by
        rw [withThread_run rfl, found]
      rw [bind_ok missing] at run
      have calm : cleared.calm cpu = true := by
        refine allowed.resolve_right ?_
        rw [show scheduler.thread (scheduler.current cpu) = none from found]
        exact Bool.false_ne_true
      have settled : InOrder (some cpu) none cleared :=
        released.settle fun thread isThere => by cases found.symm.trans isThere
      exact pickAndSwitch_keeps settled (.inl rest) calm run
    | some thread =>
      by_cases active : thread.state = .running ∧ thread.isIdle = false
      · -- The thread goes back to the queue, and the processor picks from there.
        let stopped : Thread := { thread with state := .runnable }
        let put := (cleared.setThread (scheduler.current cpu) stopped).enqueued cpu
          (scheduler.current cpu) stopped
        have small := thread_small found
        have look : (cleared.setThread (scheduler.current cpu) stopped).thread
            (scheduler.current cpu) = some stopped := thread_setThread small
        have goes : withThread (scheduler.current cpu) (putBack cpu (scheduler.current cpu))
            .reentrant cleared = .ok (some (), put) := by
          rw [withThread_run rfl, found]
          simp only [map_run, putBack, if_pos active, modify_bind]
          rw [enqueueThread_run online, look]
        rw [bind_ok goes] at run
        have touched : InOrder (some cpu) (some (scheduler.current cpu))
            (cleared.setThread (scheduler.current cpu) stopped) :=
          released.touch found rfl rfl (.inr rfl)
        obtain ⟨entry, inserted⟩ := inserted_enqueued cpu look active.2
        have ordered := touched.insert look active.2 inserted
        have queued : put.Queued cpu (scheduler.current cpu) :=
          ⟨entry, inserted.tree.mem_iff.mpr mem_cons_self, inserted.named⟩
        obtain ⟨nonempty, calm⟩ := calm_of_queued ordered queued
        exact pickAndSwitch_keeps ordered (.inr nonempty) calm run
      · have stays : withThread (scheduler.current cpu) (putBack cpu (scheduler.current cpu))
            .reentrant cleared = .ok (some (), cleared) := by
          rw [withThread_run rfl, found]
          simp only [map_run, putBack, if_neg active, pure_run]
        rw [bind_ok stays] at run
        have calm : cleared.calm cpu = true := by
          refine allowed.resolve_right ?_
          rw [show scheduler.thread (scheduler.current cpu) = some thread from found]
          simpa using active
        -- A current thread that does not run is no runnable one.
        have settled : InOrder (some cpu) none cleared := by
          refine released.settle fun record isThere busy ready => ?_
          cases found.symm.trans isThere
          rcases ready with runnable | running
          · exact rest.started cpu thread nofun found busy runnable
          · exact active ⟨running, busy⟩
        exact pickAndSwitch_keeps settled (.inl rest) calm run
  · rw [if_neg (by simpa using asked)] at run
    have same : cleared = after := (Prod.mk.inj (Except.ok.inj run)).2
    exact same ▸ rest

theorem yieldCpu_quiet (off : scheduler.preemptCount + 1 ≠ 0) :
    yieldCpu cpu .reentrant scheduler =
      .ok ((), { scheduler with
        preemptCount := scheduler.preemptCount + 1 - 1, needResched := true }) := by
  -- Switches are off while the processor yields, so that nothing happens there.
  have returns : ∀ quiet : Scheduler, quiet.preemptCount = scheduler.preemptCount + 1 →
      reschedule cpu .reentrant quiet = .ok ((), quiet) := by
    intro quiet count
    rw [reschedule, preemptEnabled, read_bind, if_neg]
    · rfl
    · rw [count]
      exact fun equal => off (beq_iff_eq.mp equal)
  rw [yieldCpu, modify_bind, setNeedResched, modify_bind, bind_ok (returns _ rfl)]
  rfl

theorem currentTid_run (online : cpu < maxCpus) :
    currentTid cpu .reentrant scheduler = .ok (scheduler.current cpu, scheduler) := by
  rw [currentTid, if_neg (Nat.not_le_of_lt online)]
  rfl

theorem blockCurrent_run (order : InOrder none none scheduler) (online : cpu < maxCpus)
    (found : scheduler.thread (scheduler.current cpu) = some thread) :
    blockCurrent cpu .reentrant scheduler = yieldCpu cpu .reentrant
      (scheduler.setThread (scheduler.current cpu) { thread with state := .blocked }) ∧
    InOrder none none
      (scheduler.setThread (scheduler.current cpu) { thread with state := .blocked }) := by
  let blocked : Thread := { thread with state := .blocked }
  let marked := scheduler.setThread (scheduler.current cpu) blocked
  have look : marked.thread (scheduler.current cpu) = some blocked :=
    thread_setThread (thread_small found)
  constructor
  · -- The thread runs, so there is no queue to take it out of.
    have offQueue : thread.onRq = false := by
      rw [← Bool.not_eq_true]
      intro flag
      obtain ⟨queue, queued⟩ := order.onRq _ thread found flag
      exact order.apart cpu queue nofun queued
    have dequeues : dequeue cpu (scheduler.current cpu) .reentrant marked =
        .ok ((), marked) := by
      have nothing : withThread (scheduler.current cpu) (fun record =>
          if record.onRq && record.rbNode.isSome then do
            modifyQueue cpu fun queue =>
              { queue.remove record.rbNode with nrRunning := queue.nrRunning - 1 }
            modify (·.setThread (scheduler.current cpu)
              { record with rbNode := none, onRq := false })
          else pure ()) .reentrant marked = .ok (some (), marked) := by
        rw [withThread_run rfl, look]
        simp only [map_run, blocked, offQueue, Bool.false_and, Bool.false_eq_true, if_false,
          pure_run]
      rw [dequeue, bind_ok nothing]
      rfl
    have marks : withThread (scheduler.current cpu) (fun record => do
        modify (·.setThread (scheduler.current cpu) { record with state := .blocked })
        withRunqueue cpu (dequeue cpu (scheduler.current cpu)))
        .reentrant scheduler = .ok (some (), marked) := by
      rw [withThread_run rfl, found]
      simp only [map_run, modify_bind]
      rw [withRunqueue_run online, dequeues]
    rw [blockCurrent, bind_ok (currentTid_run online), bind_ok marks]
  · have touched : InOrder (some cpu) (some (scheduler.current cpu)) marked :=
      (order.release cpu).touch found rfl rfl (Or.inr rfl)
    have again := touched.assign online fun record isThere _ => by
      cases look.symm.trans isThere
      exact nofun
    have same : update marked.current cpu (scheduler.current cpu) = marked.current :=
      update_eq_self cpu marked.current
    rwa [same] at again

theorem blockCurrent_keeps : (SwitchCall.blockCurrent cpu).Keeps := by
  intro scheduler after order allowed run
  have off : scheduler.preemptCount + 1 ≠ 0 := by simpa [SwitchCall.allowed] using allowed
  cases found : scheduler.thread (scheduler.current cpu) with
  | none =>
    obtain ⟨curr, looked, current, run⟩ := bind_returned run
    obtain ⟨-, rfl, rfl⟩ := currentTid_ok current
    have missing : ∀ body : Thread → Code Unit,
        withThread (scheduler.current cpu) body .reentrant scheduler = .ok (none, scheduler) := by
      intro body
      rw [withThread_run rfl, found]
    rw [bind_ok (missing _), yieldCpu_quiet off] at run
    cases run
    exact order.flags
  | some thread =>
    obtain ⟨same, marked⟩ := blockCurrent_run order (order.online found) found
    cases run.symm.trans (same.trans (yieldCpu_quiet off))
    exact marked.flags

theorem wakeThread_keeps : (SwitchCall.wakeThread tid).Keeps := by
  intro scheduler after order allowed run
  rw [SwitchCall.code, wakeThread, bind_ok withThread_read] at run
  simp only [SwitchCall.allowed] at allowed
  cases found : scheduler.thread tid with
  | none =>
    rw [found] at run
    cases run
    exact order
  | some thread =>
    rw [found] at run allowed
    simp only [Bool.and_eq_true, beq_iff_eq, Bool.not_eq_true', all_eq_true, mem_range,
      bne_iff_ne] at allowed
    obtain ⟨⟨blocked, busy⟩, away⟩ := allowed
    obtain ⟨_, middle, enqueued, run⟩ := bind_returned run
    have online := (withRunqueue_ok enqueued).1
    rw [enqueueThread_run online, found] at enqueued
    cases enqueued
    cases run
    -- A blocked thread is in no queue, and it is on no processor either.
    have loose : InOrder none (some tid) scheduler := by
      refine order.loosen fun record isThere _ => ⟨fun cpu _ same => ?_, fun cpu queued => ?_⟩
      · by_cases inside : cpu < maxCpus
        · exact away cpu inside same
        · have none := order.offline cpu (Nat.le_of_not_lt inside)
          rw [same, found] at none
          cases none
      · obtain ⟨entry, member, rfl⟩ := queued
        obtain ⟨record, same, -, runnable, -⟩ := order.entry cpu entry member
        cases found.symm.trans same
        cases blocked.symm.trans runnable
    obtain ⟨entry, inserted⟩ := inserted_enqueued thread.cpu found busy
    exact (loose.insert found busy inserted).flags

/--
No thread is lost or run twice.

A thread that should run is the current one of exactly one processor and in no queue, or it is in
exactly one queue, once, and current nowhere. Idle threads are in no queue.
-/
def Scheduler.Conserved (scheduler : Scheduler) : Prop :=
  (∀ tid thread, scheduler.thread tid = some thread → thread.isIdle = false → thread.Ready →
    (∃ cpu, scheduler.current cpu = tid ∧ (∀ other, scheduler.current other = tid → other = cpu) ∧
      ∀ queue, ¬ scheduler.Queued queue tid) ∨
    (∃ queue, ((scheduler.queues queue).tree.map (·.tid)).count tid = 1 ∧
      (∀ other, scheduler.Queued other tid → other = queue) ∧
      ∀ cpu, scheduler.current cpu ≠ tid)) ∧
  ∀ queue tid thread, scheduler.Queued queue tid → scheduler.thread tid = some thread →
    thread.isIdle = false

theorem InOrder.conserved (order : InOrder none none scheduler) : scheduler.Conserved := by
  have counts : ∀ cpu : Nat, some cpu ≠ (none : Option Nat) := nofun
  constructor
  · intro tid thread found busy ready
    rcases order.kept tid thread (counts tid) found busy ready with ⟨cpu, -, rfl⟩ | ⟨queue, queued⟩
    · refine Or.inl ⟨cpu, rfl, ?_, fun queue => order.apart cpu queue (counts cpu)⟩
      intro other same
      exact (order.single cpu other thread (counts cpu) (counts other) same.symm found busy).symm
    · refine Or.inr ⟨queue, ?_, ?_, ?_⟩
      · obtain ⟨entry, member, rfl⟩ := queued
        exact count_eq_one_of_mem (order.nodup queue) (mem_map.mpr ⟨entry, member, rfl⟩)
      · exact fun other isQueued => order.once other queue tid isQueued queued
      · rintro cpu rfl
        exact order.apart cpu queue (counts cpu) queued
  · rintro queue tid thread ⟨entry, member, rfl⟩ found
    obtain ⟨record, same, busy, -⟩ := order.entry queue entry member
    cases found.symm.trans same
    exact busy

namespace SwitchCall

theorem step_keeps (scheduler : Scheduler) (call : SwitchCall) (after : Scheduler)
    (order : InOrder none none scheduler) (allowed : call.allowed scheduler = true)
    (stepped : step scheduler call = .ok after) : InOrder none none after := by
  unfold step at stepped
  cases run : call.code .reentrant scheduler with
  | error stop =>
    rw [run] at stepped
    cases stepped
  | ok result =>
    rw [run] at stepped
    cases stepped
    cases call with
    | reschedule cpu => exact reschedule_keeps _ _ order allowed run
    | preempt cpu => exact preempt_keeps _ _ order allowed run
    | blockCurrent cpu => exact blockCurrent_keeps _ _ order allowed run
    | wakeThread tid => exact wakeThread_keeps _ _ order allowed run

/-- In every run of allowed calls, no thread is lost or run twice. -/
theorem no_thread_lost_or_doubled (start : Scheduler) (calls : List SwitchCall)
    (final : Scheduler) (order : InOrder none none start)
    (allowed : Runs.everyStep step (fun scheduler call => call.allowed scheduler) start calls =
      true)
    (run : Runs.run step start calls = .ok final) : final.Conserved :=
  InOrder.conserved (Runs.holds_of_run (InOrder none none) step_keeps order allowed run)

/-- A thread on the first processor with fresh scheduling data. -/
def newThread (tid : Nat) (state : ThreadState) (isIdle : Bool) : Thread :=
  ⟨tid, 0, state, isIdle, 0, 0, 0, none, false⟩

/-- One processor with its idle thread, a thread that runs, and a thread that is blocked. -/
def threeThreads : Scheduler where
  threads := fun tid =>
    match tid with
    | 1 => some (newThread 1 .runnable true)
    | 2 => some (newThread 2 .running false)
    | 3 => some (newThread 3 .blocked false)
    | _ => none
  queues := fun cpu => ⟨cpu, [], 0, 0, noThread, if cpu = 0 then 1 else noThread⟩
  current := fun cpu => if cpu = 0 then 2 else noThread
  cpuCount := 1
  preemptCount := 0
  needResched := false
  nextNode := 0

theorem threeThreads_thread (found : threeThreads.thread tid = some thread) :
    thread.onRq = false ∧ (thread.isIdle = true ∨ tid = 2 ∨ thread.state = .blocked) := by
  unfold Scheduler.thread threeThreads at found
  split at found
  · cases found
  · simp only at found
    split at found
    · cases found
      exact ⟨rfl, .inl rfl⟩
    · cases found
      exact ⟨rfl, .inr (.inl rfl)⟩
    · cases found
      exact ⟨rfl, .inr (.inr rfl)⟩
    · cases found

theorem threeThreads_current
    (found : threeThreads.thread (threeThreads.current cpu) = some thread) : cpu = 0 := by
  by_contra other
  exact ne_noThread found (if_neg other)

theorem threeThreads_inOrder : InOrder none none threeThreads where
  entry := nofun
  once := fun _ _ _ ⟨_, member, _⟩ => by cases member
  nodup := fun _ => nodup_nil
  nodes := nofun
  fresh := nofun
  counted := fun _ => rfl
  onRq := by
    intro tid thread found flag
    cases (threeThreads_thread found).1.symm.trans flag
  idle := by
    intro cpu thread found
    by_cases first : cpu = 0
    · subst first
      cases found
      rfl
    · exact absurd (if_neg first) (ne_noThread found)
  offline := by
    intro cpu large
    have none : threeThreads.current cpu = noThread := if_neg (by unfold maxCpus at large; omega)
    rw [none]
    rfl
  single := by
    intro first second thread _ _ same found _
    rw [threeThreads_current found]
    rw [same] at found
    rw [threeThreads_current found]
  apart := fun _ _ _ ⟨_, member, _⟩ => by cases member
  started := by
    intro cpu thread _ found _
    have first := threeThreads_current found
    subst first
    cases found
    exact nofun
  kept := by
    intro tid thread _ found busy ready
    rcases (threeThreads_thread found).2 with isIdle | rfl | blocked
    · cases busy.symm.trans isIdle
    · exact .inl ⟨0, fun same => (by cases same), rfl⟩
    · rcases ready with runnable | running
      · cases blocked.symm.trans runnable
      · cases blocked.symm.trans running
  free := nofun

/-- The blocked thread is woken, the other one blocks, and they take turns after that. -/
def turns : List SwitchCall :=
  [.wakeThread 3, .blockCurrent 0, .reschedule 0, .preempt 0, .wakeThread 2, .preempt 0]

theorem turns_conserved :
    ∃ final, Runs.run step threeThreads turns = .ok final ∧ final.Conserved := by
  have returns : (Runs.run step threeThreads turns).isOk = true := by decide
  cases run : Runs.run step threeThreads turns with
  | error stop =>
    rw [run] at returns
    cases returns
  | ok final =>
    refine ⟨final, rfl, no_thread_lost_or_doubled threeThreads turns final threeThreads_inOrder ?_ run⟩
    decide

/-- The running thread calls for another one while it still wants to run. -/
def givenAway : List SwitchCall := [.wakeThread 3, .reschedule 0]

theorem givenAway_lost : InOrder none none threeThreads ∧
    ∃ final, Runs.run step threeThreads givenAway = .ok final ∧ ¬ final.Conserved := by
  refine ⟨threeThreads_inOrder, _, rfl, fun conserved => ?_⟩
  have lost := conserved.1 2 (newThread 2 .running false) rfl rfl (.inr rfl)
  rcases lost with ⟨cpu, runs, -⟩ | ⟨queue, once, -⟩
  · change update threeThreads.current 0 3 cpu = 2 at runs
    by_cases first : cpu = 0
    · rw [first, update_self] at runs
      cases runs
    · rw [update_of_ne first] at runs
      have none : threeThreads.current cpu = noThread := if_neg first
      rw [none] at runs
      cases runs
  · by_cases first : queue = 0
    · subst first
      cases once
    · -- The five changes of queues are all for the first processor.
      change ((update (update (update (update (update
        threeThreads.queues 0 _) 0 _) 0 _) 0 _) 0 _ queue).tree.map (·.tid)).count 2 = 1 at once
      simp only [update_of_ne first] at once
      cases once

end SwitchCall

theorem switchContext_run {first second : Thread} (here : scheduler.thread prev = some first)
    (there : scheduler.thread next = some second) :
    switchContext prev next .reentrant scheduler = .ok ((), scheduler) := by
  have known : ∀ {tid thread}, scheduler.thread tid = some thread → scheduler.threads tid ≠ none := by
    intro tid thread found missing
    rw [Scheduler.thread, missing, ite_self] at found
    cases found
  have inside := not_or.mpr ⟨Nat.not_le_of_lt (thread_small here),
    Nat.not_le_of_lt (thread_small there)⟩
  rw [switchContext, withLock_run rfl, read_bind, if_neg inside,
    if_neg (not_or.mpr ⟨known here, known there⟩), pure_run]

theorem yieldCpu_switches {entry : QueueEntry} (order : InOrder none none scheduler)
    (caller : scheduler.thread (scheduler.current cpu) = some thread)
    (tree : (scheduler.queues cpu).tree = entry :: rest) (wraps : scheduler.preemptCount + 1 = 0) :
    ∃ after, yieldCpu cpu .reentrant scheduler = .ok ((), after) ∧ after.current cpu = entry.tid ∧
      ∀ other, other ≠ entry.tid → after.thread other = scheduler.thread other := by
  let asked : Scheduler :=
    { scheduler with preemptCount := scheduler.preemptCount + 1, needResched := true }
  have online := order.online caller
  have head : entry ∈ (scheduler.queues cpu).tree := tree ▸ mem_cons_self
  have apart : scheduler.current cpu ≠ entry.tid :=
    fun same => order.apart cpu cpu nofun ⟨entry, head, same.symm⟩
  obtain ⟨waiting, found, -⟩ := order.entry cpu entry head
  have removed : Removed asked cpu entry (asked.picked cpu entry waiting) :=
    removed_picked order.flags tree found
  obtain ⟨picked, now, -⟩ := removed.thread
  -- The queue is not empty, so its first thread is picked.
  have picks : pickNextThread cpu .reentrant asked =
      .ok (entry.tid, asked.picked cpu entry waiting) := by
    have busy : (asked.queues cpu).nrRunning ≠ 0 := by
      rw [order.flags.counted cpu]
      exact Nat.ne_of_gt (length_pos_of_mem head)
    rw [pickNextThread, withRunqueue_run online, read_bind, if_neg busy]
    exact pickNext_run tree found
  generalize asked.picked cpu entry waiting = chosen at removed now picks
  have started : (chosen.switched cpu entry.tid).current cpu = entry.tid ∧
      (∃ record, (chosen.switched cpu entry.tid).thread entry.tid = some record) ∧
      ∀ other, other ≠ entry.tid →
        (chosen.switched cpu entry.tid).thread other = chosen.thread other := by
    rw [switched, now]
    exact ⟨update_self .., ⟨_, thread_setThread (thread_small now)⟩,
      fun other differ => thread_setThread_of_ne differ⟩
  obtain ⟨current, ⟨record, isThere⟩, others⟩ := started
  have same : ∀ other, other ≠ entry.tid →
      (chosen.switched cpu entry.tid).thread other = scheduler.thread other :=
    fun other differ => (others other differ).trans (removed.threads other differ)
  have switches : reschedule cpu .reentrant asked = .ok ((), chosen.switched cpu entry.tid) := by
    have enabled : (asked.preemptCount == 0) = true := beq_iff_eq.mpr wraps
    rw [reschedule, preemptEnabled, read_bind, if_pos enabled, bind_ok picks,
      if_neg (ne_noThread found), bind_ok (currentTid_run online), removed.current, if_neg apart,
      switchTo_run online, if_neg Bool.false_ne_true]
    exact switchContext_run ((same _ apart).trans caller) isThere
  refine ⟨{ chosen.switched cpu entry.tid with
    preemptCount := (chosen.switched cpu entry.tid).preemptCount - 1 }, ?_, current, same⟩
  rw [yieldCpu, modify_bind, setNeedResched, modify_bind, bind_ok switches]
  rfl

/-- The calls by which a thread gives up its processor. -/
inductive GiveUp where
  | yieldCpu
  | blockCurrent

namespace GiveUp

/-- The code of a call. -/
def code (cpu : Nat) : GiveUp → Code Unit
  | .yieldCpu => Sched.yieldCpu cpu
  | .blockCurrent => Sched.blockCurrent cpu

/-- A call hands its processor to a thread of the queue, and a caller that blocks stays blocked. -/
def TakesEffect (scheduler : Scheduler) (cpu : Nat) (call : GiveUp) : Prop :=
  ∃ after, call.code cpu .reentrant scheduler = .ok ((), after) ∧
    scheduler.Queued cpu (after.current cpu) ∧ after.current cpu ≠ scheduler.current cpu ∧
    (call = .blockCurrent →
      (after.thread (scheduler.current cpu)).map (·.state) = some .blocked)

/-- Giving up a processor takes effect only if the preemption counter wraps to zero. -/
theorem takes_effect_iff (call : GiveUp) (scheduler : Scheduler) (cpu : Nat) (thread : Thread)
    (order : InOrder none none scheduler)
    (caller : scheduler.thread (scheduler.current cpu) = some thread)
    (waiting : ∃ tid, tid ≠ scheduler.current cpu ∧ scheduler.Queued cpu tid) :
    call.TakesEffect scheduler cpu ↔ scheduler.preemptCount + 1 = 0 := by
  obtain ⟨same, marked⟩ := blockCurrent_run order (order.online caller) caller
  have small := thread_small caller
  constructor
  · rintro ⟨after, run, -, moved, -⟩
    by_contra off
    cases call with
    | yieldCpu =>
      cases run.symm.trans (yieldCpu_quiet off)
      exact moved rfl
    | blockCurrent =>
      cases run.symm.trans (same.trans (yieldCpu_quiet off))
      exact moved rfl
  · intro wraps
    obtain ⟨tid, -, entry, member, -⟩ := waiting
    obtain ⟨first, rest, tree⟩ := exists_cons_of_ne_nil (ne_nil_of_mem member)
    have head : first ∈ (scheduler.queues cpu).tree := tree ▸ mem_cons_self
    have apart : first.tid ≠ scheduler.current cpu :=
      fun equal => order.apart cpu cpu nofun ⟨first, head, equal⟩
    cases call with
    | yieldCpu =>
      obtain ⟨after, run, current, -⟩ := yieldCpu_switches order caller tree wraps
      exact ⟨after, run, ⟨first, head, current.symm⟩, current ▸ apart, nofun⟩
    | blockCurrent =>
      obtain ⟨after, run, current, others⟩ :=
        yieldCpu_switches marked (thread_setThread small) tree wraps
      refine ⟨after, same.trans run, ⟨first, head, current.symm⟩, current ▸ apart, fun _ => ?_⟩
      rw [others _ apart.symm, thread_setThread small]
      rfl

/-- One processor with a thread that runs and a thread in the queue. -/
def oneWaits (count : BitVec 32) : Scheduler :=
  { SwitchCall.threeThreads.enqueued 0 3 (SwitchCall.newThread 3 .blocked false) with
    preemptCount := count
    needResched := true }

theorem oneWaits_inOrder (count : BitVec 32) : InOrder none none (oneWaits count) := by
  have woken : wakeThread 3 .reentrant SwitchCall.threeThreads = .ok ((), oneWaits 0) := rfl
  exact (wakeThread_keeps _ _ SwitchCall.threeThreads_inOrder (by decide) woken).flags

theorem oneWaits_takes_effect :
    TakesEffect (oneWaits (BitVec.allOnes 32)) 0 .yieldCpu ∧
      TakesEffect (oneWaits (BitVec.allOnes 32)) 0 .blockCurrent := by
  have waiting : ∃ tid, tid ≠ (oneWaits (BitVec.allOnes 32)).current 0 ∧
      (oneWaits (BitVec.allOnes 32)).Queued 0 tid := ⟨3, by decide, _, mem_cons_self, rfl⟩
  exact ⟨(takes_effect_iff .yieldCpu _ 0 _ (oneWaits_inOrder _) rfl waiting).mpr (by decide),
    (takes_effect_iff .blockCurrent _ 0 _ (oneWaits_inOrder _) rfl waiting).mpr (by decide)⟩

/-- A thread yields and goes on, and a thread blocks and goes on, though another one waits. -/
theorem oneWaits_without_effect : (oneWaits 0).preemptCount = 0 ∧ (oneWaits 0).Queued 0 3 ∧
    ¬ TakesEffect (oneWaits 0) 0 .yieldCpu ∧ ¬ TakesEffect (oneWaits 0) 0 .blockCurrent := by
  refine ⟨rfl, ⟨_, mem_cons_self, rfl⟩, ?_, ?_⟩ <;>
  · rintro ⟨after, run, -, moved, -⟩
    cases run
    exact moved rfl

end GiveUp

end TheoryKernel.Sched
