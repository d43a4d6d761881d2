import TheoryKernel.Sched.RunQueue

/-! Which calls into the scheduler wait for a lock that they hold themselves. -/

namespace TheoryKernel.Sched

open Locking.Code Within List CfsRunQueue
open Proc (maxThreads)

variable {α : Type} {allowed : List Lock} {cpu tid : Nat} {scheduler : Scheduler}

/-- All locks that the scheduler takes. -/
def allLocks : List Lock := [.runQueues, .threads, .processes]

variable {held inner : Locking.Held Lock} {body : Thread → Code α} {others : List Nat}

theorem withThread_within (within : ∀ thread, Within allowed (body thread))
    (fresh : .threads ∉ allowed) : Within (.threads :: allowed) (withThread tid body) := by
  unfold withThread
  split
  · exact pure
  · apply withLock _ fresh
    apply read.bind
    intro found
    cases found with
    | none => exact pure
    | some thread => exact (within thread).map

theorem withThreadMut_within {change : Thread → Thread} :
    Within [.threads] (withThreadMut tid change) :=
  withThread_within (fun _ => modify) not_mem_nil

theorem withRunqueue_within {body : Code α} (within : Within allowed body)
    (fresh : .runQueues ∉ allowed) : Within (.runQueues :: allowed) (withRunqueue cpu body) := by
  apply withLock _ fresh
  split
  · exact fault
  · exact within

namespace CfsRunQueue

theorem enqueue_within : Within [.threads] (enqueue cpu tid) := by
  apply (withThread_within (fun _ => modify) not_mem_nil).bind
  intro placed
  split
  · exact modify
  · exact pure

theorem pickNext_within : Within [.threads] (pickNext cpu) := by
  apply read.bind
  intro leftmost
  cases leftmost with
  | none => exact read
  | some entry =>
    apply (withThread_within (fun _ => pure) not_mem_nil).bind
    intro node
    apply modify.bind
    intro _
    apply withThreadMut_within.bind
    intro _
    exact modify.bind fun _ => pure

end CfsRunQueue

theorem enqueueThread_within : Within [.runQueues, .threads] (enqueueThread tid cpu) :=
  withRunqueue_within enqueue_within (by decide)

/-- Switching takes its locks one after another. -/
theorem switchTo_within {prev next : Nat} {frame : Bool} :
    Within allLocks (switchTo cpu prev next frame) := by
  have look : ∀ {β : Type} {body : Thread → Code β}, (∀ thread, Within [] (body thread)) →
      Within allLocks (withThread next body) := fun within =>
    (withThread_within within not_mem_nil).mono (by decide)
  have space : ∀ pid, Within allLocks (activateSpace pid) := by
    intro pid
    unfold activateSpace
    split
    · exact pure
    · exact (pure.withLock not_mem_nil).mono (by decide)
  have contexts : Within allLocks (switchContext prev next) := by
    apply mono (withLock _ not_mem_nil) (by decide)
    apply read.bind
    intro threads
    split_ifs
    · exact fault
    · exact fault
    · exact pure
  apply modify.bind
  intro _
  apply ((withRunqueue_within modify not_mem_nil).mono (by decide)).bind
  intro _
  apply (look fun _ => pure).bind
  intro pid
  apply (space _).bind
  intro _
  apply (look fun _ => pure).bind
  intro _
  apply (look fun _ => pure).bind
  intro _
  apply (look fun _ => modify).bind
  intro _
  split
  · exact (look fun _ => pure).bind fun _ => pure
  · exact contexts

/-- Whether a processor has another one to steal from. -/
def HasOther (scheduler : Scheduler) (cpu : Nat) : Prop :=
  ∃ other < scheduler.cpuCount, other ≠ cpu

theorem trySteal_deadlocks :
    (trySteal cpu others).Deadlocks (.exclusive [.runQueues]) scheduler ↔
      ∃ other ∈ others, other ≠ cpu := by
  induction others with
  | nil => simp [trySteal, Deadlocks]
  | cons other others ih =>
    rw [trySteal, exists_mem_cons_iff]
    split
    · rename_i same
      simp [ih, same]
    · rename_i differ
      refine iff_of_true ?_ (.inl differ)
      exact bind_error (withLock_held (mem_singleton.mpr rfl))

theorem trySteal_alone (alone : ∀ other ∈ others, other = cpu) :
    trySteal cpu others held scheduler = .ok (none, scheduler) := by
  induction others with
  | nil => rfl
  | cons other others ih =>
    rw [trySteal, if_pos (alone other mem_cons_self)]
    exact ih fun later member => alone later (mem_cons_of_mem other member)

theorem withRunqueue_deadlocks {body : Code α} (taken : held.take .runQueues = some inner) :
    (withRunqueue cpu body).Deadlocks held scheduler ↔
      cpu < maxCpus ∧ body.Deadlocks inner scheduler := by
  unfold withRunqueue Deadlocks
  rw [withLock_run taken]
  exact (deadlocks_ite_right not_deadlocks_fault).trans (and_congr_left' Nat.not_le)

theorem pickNextThread_deadlocks :
    (pickNextThread cpu).Deadlocks (.exclusive []) scheduler ↔
      cpu < maxCpus ∧ (scheduler.queues cpu).nrRunning = 0 ∧ HasOther scheduler cpu := by
  refine (withRunqueue_deadlocks rfl).trans (and_congr_right fun _ => ?_)
  rw [deadlocks_read_bind]
  have picks : ¬ (pickNext cpu).Deadlocks (.exclusive [.runQueues]) scheduler :=
    pickNext_within _ _ (by decide)
  by_cases empty : (scheduler.queues cpu).nrRunning = 0
  · rw [if_pos empty, deadlocks_read_bind, and_iff_right empty]
    have steals : (∃ other ∈ List.range scheduler.cpuCount, other ≠ cpu) ↔ HasOther scheduler cpu := by
      simp only [mem_range, HasOther]
    by_cases other : HasOther scheduler cpu
    · -- Stealing takes the lock of the queues a second time.
      refine iff_of_true (bind_error ?_) other
      exact trySteal_deadlocks.mpr (steals.mpr other)
    · have alone : ∀ later ∈ List.range scheduler.cpuCount, later = cpu := by
        intro later member
        by_contra differ
        exact other ⟨later, mem_range.mp member, differ⟩
      unfold Deadlocks
      rw [bind_ok (trySteal_alone alone)]
      exact iff_of_false picks other
  · rw [if_neg empty]
    exact iff_of_false picks fun all => empty all.1

theorem currentTid_within : Within allowed (currentTid cpu) := by
  unfold currentTid
  split
  · exact fault
  · exact read

theorem currentTid_bind_deadlocks {rest : Nat → Code α} :
    (currentTid cpu >>= rest).Deadlocks held scheduler ↔
      cpu < maxCpus ∧ (rest (scheduler.current cpu)).Deadlocks held scheduler := by
  unfold currentTid
  by_cases bound : cpu < maxCpus
  · rw [if_neg (Nat.not_le_of_lt bound), and_iff_right bound, deadlocks_read_bind]
  · rw [if_pos (Nat.le_of_not_lt bound)]
    exact iff_of_false nofun fun both => bound both.1

theorem reschedule_deadlocks :
    (reschedule cpu).Deadlocks (.exclusive []) scheduler ↔
      scheduler.preemptCount = 0 ∧ (pickNextThread cpu).Deadlocks (.exclusive []) scheduler := by
  unfold reschedule preemptEnabled
  rw [deadlocks_read_bind]
  refine (deadlocks_ite_left not_deadlocks_pure).trans (and_congr beq_iff_eq ?_)
  refine deadlocks_bind_left fun next after => safe (?_ : Within allLocks _)
  split
  · exact pure
  · apply currentTid_within.bind
    intro curr
    split
    · exact enqueueThread_within.mono (by decide)
    · exact switchTo_within

theorem withThread_deadlocks (taken : held.take .threads = some inner) :
    (withThread tid body).Deadlocks held scheduler ↔
      ∃ thread, scheduler.thread tid = some thread ∧ (body thread).Deadlocks inner scheduler := by
  unfold Deadlocks
  rw [withThread_run taken]
  cases scheduler.thread tid with
  | none => simp
  | some thread =>
    simp only [map_run, Option.some.injEq, exists_eq_left']
    cases body thread inner scheduler with
    | ok result | error stop => simp

theorem withThread_held {locks : List Lock} (held : .threads ∈ locks) :
    (withThread tid body).Deadlocks (.exclusive locks) scheduler ↔ tid < maxThreads :=
  (deadlocks_ite_right not_deadlocks_pure).trans ((and_iff_left (withLock_held held)).trans Nat.not_le)

theorem dequeue_deadlocks :
    (dequeue cpu tid).Deadlocks (.exclusive [.runQueues, .threads]) scheduler ↔
      tid < maxThreads :=
  (deadlocks_bind_left nofun).trans (withThread_held (by decide))

theorem enqueueThread_deadlocks :
    (enqueueThread tid cpu).Deadlocks (.exclusive [.threads]) scheduler ↔
      cpu < maxCpus ∧ tid < maxThreads := by
  refine (withRunqueue_deadlocks rfl).trans (and_congr_right fun _ => ?_)
  refine (deadlocks_bind_left fun placed next => ?_).trans (withThread_held (by decide))
  split <;> exact nofun

/-- Whether an interrupt would put the thread of a processor back into its queue. -/
def Preempted (scheduler : Scheduler) (cpu : Nat) : Prop :=
  ∃ thread, scheduler.thread (scheduler.current cpu) = some thread ∧ thread.state = .running ∧
    thread.isIdle = false

/-- Whether a processor finds its queue empty and looks at another one. -/
def PicksOther (scheduler : Scheduler) (cpu : Nat) : Prop :=
  cpu < maxCpus ∧ (scheduler.queues cpu).nrRunning = 0 ∧ HasOther scheduler cpu

theorem pickAndSwitch_deadlocks {further : Nat → Code Unit}
    (within : ∀ next, Within allLocks (further next)) :
    (pickNextThread cpu >>= further).Deadlocks (.exclusive []) scheduler ↔
      PicksOther scheduler cpu :=
  (deadlocks_bind_left fun next _ => (within next).safe).trans pickNextThread_deadlocks

theorem preempt_deadlocks :
    (preempt cpu).Deadlocks (.exclusive []) scheduler ↔
      (scheduler.needResched = true ∧ scheduler.preemptCount = 0) ∧ cpu < maxCpus ∧
        (Preempted scheduler cpu ∨ PicksOther scheduler cpu) := by
  let cleared := { scheduler with needResched := false }
  let further := fun next => (if next = noThread ∨ next = scheduler.current cpu then pure ()
    else switchTo cpu (scheduler.current cpu) next true : Code Unit)
  have start : preempt cpu (.exclusive []) scheduler =
      (if scheduler.needResched && scheduler.preemptCount == 0 then do
        let curr ← currentTid cpu
        let _ ← withThread curr (putBack cpu curr)
        let next ← pickNextThread cpu
        if next = noThread ∨ next = curr then pure () else switchTo cpu curr next true
      else pure () : Code Unit) (.exclusive []) cleared := by
    rfl
  unfold Deadlocks
  rw [start]
  refine (deadlocks_ite_left not_deadlocks_pure).trans (and_congr (by simp) ?_)
  refine currentTid_bind_deadlocks.trans (and_congr_right fun bound => ?_)
  have within : ∀ next, Within allLocks (further next) := by
    intro next
    unfold further
    split
    · exact pure
    · exact switchTo_within
  by_cases running : Preempted scheduler cpu
  · -- The thread is put back under the lock of the threads, which enqueueing takes again.
    refine iff_of_true (bind_error ?_) (.inl running)
    obtain ⟨thread, found, active⟩ := running
    refine (withThread_deadlocks rfl).mpr ⟨thread, found, ?_⟩
    exact (deadlocks_ite_left not_deadlocks_pure).mpr
      ⟨active, enqueueThread_deadlocks.mpr ⟨bound, Scheduler.thread_small found⟩⟩
  · -- The thread is left alone, and picking the next one decides.
    have left : ∃ found, withThread (scheduler.current cpu)
        (putBack cpu (scheduler.current cpu)) (.exclusive []) cleared = .ok (found, cleared) := by
      rw [withThread_run rfl]
      cases found : cleared.thread (scheduler.current cpu) with
      | none => exact ⟨none, rfl⟩
      | some thread =>
        have other : ¬ (thread.state = .running ∧ thread.isIdle = false) :=
          fun active => running ⟨thread, found, active⟩
        exact ⟨some (), by simp only [map_run, putBack, if_neg other, pure_run]⟩
    obtain ⟨found, run⟩ := left
    unfold Deadlocks
    rw [bind_ok run]
    exact (pickAndSwitch_deadlocks within).trans (or_iff_right running).symm

theorem yieldCpu_deadlocks :
    (yieldCpu cpu).Deadlocks (.exclusive []) scheduler ↔
      scheduler.preemptCount + 1 = 0 ∧ PicksOther scheduler cpu := by
  let off := { scheduler with preemptCount := scheduler.preemptCount + 1, needResched := true }
  have start : yieldCpu cpu (.exclusive []) scheduler =
      (reschedule cpu >>= fun _ => modify fun final =>
        { final with preemptCount := final.preemptCount - 1 }) (.exclusive []) off := rfl
  have picks : (pickNextThread cpu).Deadlocks (.exclusive []) off ↔ PicksOther scheduler cpu :=
    pickNextThread_deadlocks
  have decides : (reschedule cpu).Deadlocks (.exclusive []) off ↔
      scheduler.preemptCount + 1 = 0 ∧ PicksOther scheduler cpu :=
    reschedule_deadlocks.trans (and_congr Iff.rfl picks)
  unfold Deadlocks
  rw [start]
  exact (deadlocks_bind_left nofun).trans decides

theorem blockCurrent_deadlocks :
    (blockCurrent cpu).Deadlocks (.exclusive []) scheduler ↔
      cpu < maxCpus ∧ (scheduler.thread (scheduler.current cpu) ≠ none ∨
        scheduler.preemptCount + 1 = 0 ∧ PicksOther scheduler cpu) := by
  refine currentTid_bind_deadlocks.trans (and_congr_right fun bound => ?_)
  cases found : scheduler.thread (scheduler.current cpu) with
  | none =>
    have missing : ∀ body : Thread → Code Unit,
        withThread (scheduler.current cpu) body (.exclusive []) scheduler =
          .ok (none, scheduler) := by
      intro body
      rw [withThread_run rfl, found]
    unfold Deadlocks
    rw [bind_ok (missing _)]
    exact yieldCpu_deadlocks.trans (or_iff_right fun isSome => isSome rfl).symm
  | some thread =>
    -- Leaving the queue looks the thread up under the lock of the threads.
    refine iff_of_true (bind_error ?_) (.inl (Option.some_ne_none _))
    refine (withThread_deadlocks rfl).mpr ⟨thread, found, (withRunqueue_deadlocks rfl).mpr ?_⟩
    exact ⟨bound, dequeue_deadlocks.mpr (Scheduler.thread_small found)⟩

theorem piBoost_deadlocks {boost : Nat} :
    (piBoost tid boost).Deadlocks (.exclusive []) scheduler ↔
      ∃ thread, scheduler.thread tid = some thread ∧ thread.onRq = true ∧ thread.cpu < maxCpus ∧
        thread.tid < maxThreads := by
  have decides : ∀ thread : Thread, (do
      modify (·.setThread tid { thread with piBoost := min (thread.piBoost + boost) maxWord })
      if thread.onRq then
        withRunqueue thread.cpu (dequeue thread.cpu thread.tid)
        enqueueThread thread.tid thread.cpu
      else pure () : Code Unit).Deadlocks (.exclusive [.threads]) scheduler ↔
        thread.onRq = true ∧ thread.cpu < maxCpus ∧ thread.tid < maxThreads := by
    intro thread
    have first : ∀ state, (withRunqueue thread.cpu
        (dequeue thread.cpu thread.tid)).Deadlocks (.exclusive [.threads]) state ↔
          thread.cpu < maxCpus ∧ thread.tid < maxThreads := fun _ =>
      (withRunqueue_deadlocks rfl).trans (and_congr_right fun _ => dequeue_deadlocks)
    refine (deadlocks_ite_left not_deadlocks_pure).trans (and_congr_right fun _ =>
      deadlocks_bind.trans ⟨?_, fun both => .inl ((first _).mpr both)⟩)
    rintro (early | ⟨_, next, -, late⟩)
    · exact (first _).mp early
    · exact enqueueThread_deadlocks.mp late
  refine (deadlocks_bind_left nofun).trans ((withThread_deadlocks rfl).trans ?_)
  exact exists_congr fun thread => and_congr_right fun _ => decides thread

theorem wakeThread_within : Within allLocks (wakeThread tid) := by
  apply ((withThread_within (fun _ => pure) not_mem_nil).mono (by decide)).bind
  intro found
  cases found with
  | none => exact pure
  | some cpu => exact (enqueueThread_within.mono (by decide)).bind fun _ => modify

/-- The calls into the scheduler, each with the processor or the thread it is made for. -/
inductive SchedulerCall where
  | pickNextThread (cpu : Nat)
  | enqueueThread (tid cpu : Nat)
  | reschedule (cpu : Nat)
  | preempt (cpu : Nat)
  | blockCurrent (cpu : Nat)
  | wakeThread (tid : Nat)
  | piBoost (tid boost : Nat)

namespace SchedulerCall

/-- The code of a call. -/
def code : SchedulerCall → Code Unit
  | .pickNextThread cpu => do
    let _ ← Sched.pickNextThread cpu
  | .enqueueThread tid cpu => Sched.enqueueThread tid cpu
  | .reschedule cpu => Sched.reschedule cpu
  | .preempt cpu => Sched.preempt cpu
  | .blockCurrent cpu => Sched.blockCurrent cpu
  | .wakeThread tid => Sched.wakeThread tid
  | .piBoost tid boost => Sched.piBoost tid boost

/--
The states in which a call does not take a lock twice.

A processor picks from a queue that is not empty, or there is no other one. An interrupt finds the
idle thread or one that does not run, a thread that blocks is not in the table, and a thread that is
boosted is in no queue.
-/
def Safe (scheduler : Scheduler) : SchedulerCall → Prop
  | .pickNextThread cpu => ¬ PicksOther scheduler cpu
  | .enqueueThread _ _ => True
  | .reschedule cpu => scheduler.preemptCount = 0 → ¬ PicksOther scheduler cpu
  | .preempt cpu => scheduler.needResched = true → scheduler.preemptCount = 0 → cpu < maxCpus →
      ¬ Preempted scheduler cpu ∧ ¬ PicksOther scheduler cpu
  | .blockCurrent cpu => cpu < maxCpus → scheduler.thread (scheduler.current cpu) = none ∧
      (scheduler.preemptCount + 1 = 0 → ¬ PicksOther scheduler cpu)
  | .wakeThread _ => True
  | .piBoost tid _ => ∀ thread, scheduler.thread tid = some thread → thread.onRq = true →
      thread.cpu < maxCpus → maxThreads ≤ thread.tid

/-- A call takes no lock that it holds exactly in the states that are safe for it. -/
theorem takes_no_lock_twice_iff (call : SchedulerCall) (scheduler : Scheduler) :
    ¬ call.code.Deadlocks (.exclusive []) scheduler ↔ call.Safe scheduler := by
  cases call with
  | pickNextThread cpu =>
    exact not_congr (pickAndSwitch_deadlocks fun _ => pure)
  | enqueueThread tid cpu => exact iff_of_true enqueueThread_within.safe trivial
  | reschedule cpu =>
    refine (not_congr (reschedule_deadlocks.trans (and_congr Iff.rfl pickNextThread_deadlocks))).trans ?_
    exact not_and
  | preempt cpu =>
    refine (not_congr preempt_deadlocks).trans ?_
    simp only [Safe, not_and, not_or, and_imp]
  | blockCurrent cpu =>
    refine (not_congr blockCurrent_deadlocks).trans ?_
    simp only [Safe, not_and, not_or, not_not]
  | wakeThread tid => exact iff_of_true wakeThread_within.safe trivial
  | piBoost tid boost =>
    refine (not_congr piBoost_deadlocks).trans ?_
    simp only [Safe, not_exists, not_and, not_lt]

/-- Two processors, of which the first finds its queue empty. -/
def twoProcessors : Scheduler where
  threads := fun _ => none
  queues := fun cpu => ⟨cpu, [], 0, 0, noThread, noThread⟩
  current := fun _ => noThread
  cpuCount := 2
  preemptCount := 0
  needResched := false
  nextNode := 0

theorem twoProcessors_pick_deadlocks :
    (SchedulerCall.pickNextThread 0).code.Deadlocks (.exclusive []) twoProcessors := rfl

end SchedulerCall

end TheoryKernel.Sched
