import TheoryKernel.Base.Word
import TheoryKernel.Ipc.Wait
import TheoryKernel.Lib.Slots

/-! The mutex that blocks its waiters, one atomic step of one thread at a time. -/

namespace TheoryKernel.Sync

open Function List
open Ipc (WaitQueue waitCapacity)

/-- The value of the owner field while nobody owns the mutex. -/
def noOwner : Nat := 2 ^ 32 - 1

/-- What a contender adds to the priority of the owner. -/
def piBoostNs : Nat := 500000

/-- The fields of the mutex, with a flag for the spin lock around its waiters. -/
structure PiMutex where
  locked : Bool
  owner : Nat
  waiters : WaitQueue
  waitersLocked : Bool

/-- A mutex that nobody has locked. -/
def PiMutex.new : PiMutex := ⟨false, noOwner, .new, false⟩

/-- Where a thread is in its calls of `lock` and `unlock`: the step it takes next. -/
inductive Place where
  -- Before a call of `lock`.
  | outside
  -- In `lock`: the exchange, and the store of the owner after a successful one.
  | trying
  | owning
  -- The guard is out, and its drop calls `unlock`.
  | holding
  -- In `lock` after a failed exchange: the boost, the entry as a waiter, the call to sleep.
  | failed
  | queueing
  | blocking
  | asleep
  -- In `unlock`: the two stores, and the wake-up of one waiter.
  | unowning
  | unlocking
  | popping
  | waking (next : Nat)
  deriving DecidableEq

/-- The mutex, the priority boosts, and the place of each thread. -/
structure System where
  mutex : PiMutex
  boosts : Nat → Nat
  places : Nat → Place

namespace System

/-- A new mutex that no thread uses. -/
def new : System := ⟨.new, fun _ => 0, fun _ => .outside⟩

/-- A thread moves on. -/
def goto (system : System) (tid : Nat) (place : Place) : System :=
  { system with places := update system.places tid place }

/-- A boost for the owner that was read, if it is a thread at all. -/
def piBoost (system : System) (owner : Nat) : System :=
  if owner = noOwner then system
  else
    { system with
      boosts := update system.boosts owner
        (min (system.boosts owner + piBoostNs) maxWord) }

/-- A wake-up reaches only a thread that already sleeps: going to sleep takes back an earlier one. -/
def wakeThread (system : System) (tid : Nat) : System :=
  if system.places tid = .asleep then system.goto tid .trying else system

/-- The next atomic step of a thread. -/
def step (system : System) (tid : Nat) : System :=
  let mutex := system.mutex
  match system.places tid with
  | .outside => system.goto tid .trying
  | .trying =>
    if mutex.locked then system.goto tid .failed
    else { system with mutex := { mutex with locked := true } }.goto tid .owning
  | .owning => { system with mutex := { mutex with owner := tid } }.goto tid .holding
  | .holding => system.goto tid .unowning
  | .failed => (system.piBoost mutex.owner).goto tid .queueing
  | .queueing =>
    -- The spin lock is taken for the push alone, whose result is ignored.
    if mutex.waitersLocked then system
    else { system with mutex := { mutex with waiters := (mutex.waiters.push tid).2 } }.goto tid
      .blocking
  | .blocking => system.goto tid .asleep
  | .asleep => system
  | .unowning => { system with mutex := { mutex with owner := noOwner } }.goto tid .unlocking
  | .unlocking => { system with mutex := { mutex with locked := false } }.goto tid .popping
  | .popping =>
    -- The spin lock is kept until the thread that was popped is awake.
    if mutex.waitersLocked then system
    else
      match mutex.waiters.pop with
      | (some next, waiters) =>
        { system with mutex := { mutex with waiters, waitersLocked := true } }.goto tid
          (.waking next)
      | (none, waiters) => { system with mutex := { mutex with waiters } }.goto tid .outside
  | .waking next =>
    ({ system with mutex := { mutex with waitersLocked := false } }.wakeThread next).goto tid
      .outside

/-- The steps of any threads, one after another. -/
def run (system : System) (schedule : List Nat) : System := schedule.foldl step system

end System

/-- What a place means for the others. -/
inductive Role where
  | idle
  | deciding
  | waiting
  | critical
  | releasing
  | waking (next : Nat)
  deriving DecidableEq

/-- Whether a role is that of a thread that neither waits nor wakes another. -/
def Role.apart : Role → Bool
  | .waiting | .waking _ => false
  | _ => true

/-- The role of a place. -/
def Place.role : Place → Role
  | .outside | .trying => .idle
  | .failed | .queueing => .deciding
  | .blocking | .asleep => .waiting
  | .owning | .holding | .unowning | .unlocking => .critical
  | .popping => .releasing
  | .waking next => .waking next

/-- Whether a thread has called `unlock` and not returned from it. -/
def Place.inUnlock : Place → Bool
  | .unowning | .unlocking | .popping | .waking _ => true
  | _ => false

namespace System

/-- The role of each thread. -/
def roles (system : System) (tid : Nat) : Role := (system.places tid).role

/-- At most one thread has the guard. -/
def OneHolder (system : System) : Prop :=
  ∀ first second, system.places first = .holding → system.places second = .holding →
    first = second

/-- The mutex is free, no unlock is in progress, and a thread sleeps in `lock`. -/
def Forgotten (system : System) : Prop :=
  system.mutex.locked = false ∧ (∀ tid, (system.places tid).inUnlock = false) ∧
    ∃ tid, system.places tid = .asleep

/--
What a step needs so that nobody is forgotten.

A waiter finds room in the queue. The mutex is given free when no thread is on its way to the queue,
and when at most one thread is behind it. A thread is woken when it already sleeps.
-/
def Careful (system : System) (tid : Nat) : Prop :=
  match system.places tid with
  | .queueing => system.mutex.waiters.len < waitCapacity
  | .unlocking =>
    (∀ other, system.roles other ≠ .deciding) ∧
      ∀ first second, system.roles first = .waiting → system.roles second = .waiting →
        first = second
  | .waking next => system.places next = .asleep
  | _ => True

/-- Each step of a schedule is careful in the state where it is taken. -/
def CarefulRun : System → List Nat → Prop
  | _, [] => True
  | system, tid :: schedule => system.Careful tid ∧ CarefulRun (system.step tid) schedule

end System

/-- What the threads can tell of a system: the flags, who waits, and the role of each thread. -/
structure View where
  locked : Bool
  busy : Bool
  queue : List Nat
  roles : Nat → Role

namespace View

variable {careful : Prop} {view after : View} {tid : Nat}

/--
What one step of a thread can do to the view.

The facts behind `careful` are those that a careless step does not have.
-/
inductive Transition (careful : Prop) (view : View) (tid : Nat) : View → Prop where
  | stay : Transition careful view tid view
  | fail (locked : view.locked = true) (idle : view.roles tid = .idle) :
      Transition careful view tid { view with roles := update view.roles tid .deciding }
  | enter (free : view.locked = false) (idle : view.roles tid = .idle) :
      Transition careful view tid
        { view with locked := true, roles := update view.roles tid .critical }
  | enqueue (queue : List Nat) (deciding : view.roles tid = .deciding)
      (room : careful → queue = view.queue ++ [tid]) :
      Transition careful view tid
        { view with queue, roles := update view.roles tid .waiting }
  | release (critical : view.roles tid = .critical)
      (decided : careful → ∀ other, view.roles other ≠ .deciding)
      (single : careful → ∀ first second, view.roles first = .waiting →
        view.roles second = .waiting → first = second) :
      Transition careful view tid
        { view with locked := false, roles := update view.roles tid .releasing }
  | take (next : Nat) (rest : List Nat) (releasing : view.roles tid = .releasing)
      (spare : view.busy = false) (last : view.queue = rest ++ [next]) :
      Transition careful view tid
        { view with
          busy := true, queue := rest, roles := update view.roles tid (.waking next) }
  | leave (releasing : view.roles tid = .releasing) (spare : view.busy = false)
      (empty : view.queue = []) :
      Transition careful view tid { view with roles := update view.roles tid .idle }
  | wake (next : Nat) (role : Role) (waking : view.roles tid = .waking next)
      (kept : role = view.roles next ∨ role = .idle)
      (reached : careful → view.roles next = .waiting ∧ role = .idle) :
      Transition careful view tid
        { view with
          busy := false
          roles := update (update view.roles next role) tid .idle }

theorem role_of_update {roles : Nat → Role} {thread : Nat} {role other : Role}
    (found : update roles tid role thread = other) (differ : other ≠ role) :
    roles thread = other := by
  rcases Slots.of_update found with ⟨-, same⟩ | ⟨-, found⟩
  · exact absurd same.symm differ
  · exact found

theorem Transition.idle (moved : Transition careful view tid after) {other : Nat}
    (differ : other ≠ tid) (idle : view.roles other = .idle) : after.roles other = .idle := by
  cases moved with
  | stay => exact idle
  | wake next role _ kept _ =>
    -- A thread that is woken is idle after that, or keeps its role.
    refine (update_of_ne differ ..).trans ?_
    by_cases same : other = next
    · rw [same, update_self]
      exact kept.elim (fun old => old.trans (same ▸ idle)) id
    · exact (update_of_ne same ..).trans idle
  | _ => exact (update_of_ne differ ..).trans idle

/-- The mutex is locked while a thread is in its critical part, and only one thread is. -/
structure Guarded (view : View) : Prop where
  locked : ∀ tid, view.roles tid = .critical → view.locked = true
  unique : ∀ first second, view.roles first = .critical → view.roles second = .critical →
    first = second

theorem Guarded.assign (guarded : Guarded view) {role : Role} (other : .critical ≠ role)
    {busy : Bool} {queue : List Nat} :
    Guarded ⟨view.locked, busy, queue, update view.roles tid role⟩ where
  locked := fun thread critical => guarded.locked thread (role_of_update critical other)
  unique := fun first second one two =>
    guarded.unique first second (role_of_update one other) (role_of_update two other)

theorem Guarded.transition (guarded : Guarded view) (moved : Transition careful view tid after) :
    Guarded after := by
  cases moved with
  | stay => exact guarded
  | fail _ _ | enqueue _ _ _ | leave _ _ _ => exact guarded.assign (by decide)
  | enter free idle =>
    -- Nobody was in the critical part of a free mutex, so the thread is alone there.
    have alone : ∀ thread, update view.roles tid .critical thread = .critical →
        thread = tid := by
      intro thread critical
      by_contra other
      rw [update_of_ne other] at critical
      have held := guarded.locked thread critical
      rw [free] at held
      cases held
    exact ⟨fun _ _ => rfl, fun first second one two => (alone first one).trans (alone second two).symm⟩
  | release critical _ _ =>
    -- The thread that leaves was the only one.
    have none : ∀ thread, update view.roles tid .releasing thread ≠ .critical := by
      intro thread still
      rcases Slots.of_update still with ⟨-, ⟨⟩⟩ | ⟨same, still⟩
      exact same (guarded.unique thread tid still critical)
    exact ⟨fun thread still => absurd still (none thread),
      fun first _ still => absurd still (none first)⟩
  | take next rest _ _ _ => exact guarded.assign (fun same => by cases same)
  | wake next role waking kept _ =>
    -- The role of the woken thread is the old one or that of an idle thread.
    have woken : Guarded ⟨view.locked, view.busy, view.queue,
        update view.roles next role⟩ := by
      rcases kept with same | idle
      · rw [same, update_eq_self]
        exact guarded
      · exact guarded.assign (by rw [idle]; decide)
    exact woken.assign (by decide)

/--
How the waiters are kept track of, whoever locks the mutex.

A waiter is in the queue or is being woken by the only thread that has the queue to itself.
-/
structure Tracked (busy : Bool) (queue : List Nat) (roles : Nat → Role) : Prop where
  nodup : queue.Nodup
  queued : ∀ tid ∈ queue, roles tid = .waiting
  waiting : ∀ tid, roles tid = .waiting → tid ∈ queue ∨ ∃ waker, roles waker = .waking tid
  busy : ∀ waker tid, roles waker = .waking tid → busy = true
  target : ∀ waker tid, roles waker = .waking tid → roles tid = .waiting ∧ tid ∉ queue
  waker : ∀ first second tid other, roles first = .waking tid → roles second = .waking other →
    first = second

namespace Tracked

variable {busy : Bool} {queue : List Nat} {roles : Nat → Role} {role : Role} {next : Nat}

theorem update_iff {thread : Nat} {other : Role} (before : roles tid ≠ other)
    (after : role ≠ other) : update roles tid role thread = other ↔ roles thread = other := by
  by_cases same : thread = tid
  · rw [same, update_self]
    exact iff_of_false after before
  · rw [update_of_ne same]

theorem assign (tracked : Tracked busy queue roles) (before : (roles tid).apart = true)
    (after : role.apart = true) : Tracked busy queue (update roles tid role) := by
  -- Nobody becomes or stops being a waiter or a waker.
  have same : ∀ thread other, other.apart = false →
      (update roles tid role thread = other ↔ roles thread = other) := by
    intro thread other involved
    exact update_iff (fun equal => by simp [equal, involved] at before)
      fun equal => by simp [equal, involved] at after
  have waits := fun thread => same thread .waiting rfl
  have wakes := fun thread target => same thread (.waking target) rfl
  constructor
  · exact tracked.nodup
  · simpa only [waits] using tracked.queued
  · simpa only [waits, wakes] using tracked.waiting
  · simpa only [wakes] using tracked.busy
  · simpa only [waits, wakes] using tracked.target
  · simpa only [wakes] using tracked.waker

theorem enqueue (tracked : Tracked busy queue roles) (deciding : roles tid = .deciding) :
    Tracked busy (queue ++ [tid]) (update roles tid .waiting) := by
  -- The thread is not in the queue yet, and nobody wakes it.
  have absent : tid ∉ queue := fun member => by simp [tracked.queued tid member] at deciding
  have unwoken : ∀ thread, roles thread ≠ .waking tid := fun thread wakes => by
    simp [(tracked.target thread tid wakes).1] at deciding
  have wakes : ∀ thread target, update roles tid .waiting thread = .waking target ↔
      roles thread = .waking target := fun thread target => update_iff (by simp [deciding]) nofun
  have waits : ∀ thread, update roles tid .waiting thread = .waiting ↔
      thread = tid ∨ roles thread = .waiting := by
    intro thread
    by_cases same : thread = tid <;> simp [same]
  constructor
  · refine nodup_append.mpr ⟨tracked.nodup, pairwise_singleton .., ?_⟩
    rintro thread member last isLast rfl
    exact absent (mem_singleton.mp isLast ▸ member)
  · intro thread member
    rcases mem_append.mp member with old | new
    · exact (waits thread).mpr (.inr (tracked.queued thread old))
    · exact (waits thread).mpr (.inl (mem_singleton.mp new))
  · intro thread waiting
    simp only [wakes]
    rcases (waits thread).mp waiting with rfl | old
    · exact .inl (by simp)
    · exact (tracked.waiting thread old).imp_left (mem_append_left _)
  · simpa only [wakes] using tracked.busy
  · intro thread target woken
    rw [wakes] at woken
    obtain ⟨old, outside⟩ := tracked.target thread target woken
    have other : target ≠ tid := fun same => unwoken thread (same ▸ woken)
    exact ⟨(waits target).mpr (.inr old), by simp [outside, other]⟩
  · simpa only [wakes] using tracked.waker

theorem no_waker (tracked : Tracked false queue roles) (waker : Nat) :
    roles waker ≠ .waking next := by
  intro wakes
  cases tracked.busy waker next wakes

theorem take (tracked : Tracked false (queue ++ [next]) roles)
    (releasing : roles tid = .releasing) :
    Tracked true queue (update roles tid (.waking next)) := by
  have nextWaits : roles next = .waiting :=
    tracked.queued next (mem_append.mpr (.inr (mem_singleton.mpr rfl)))
  -- The thread is the only waker, and it wakes the thread that was taken.
  have wakes : ∀ thread target, update roles tid (.waking next) thread = .waking target ↔
      thread = tid ∧ target = next := by
    intro thread target
    by_cases same : thread = tid
    · simp [same, eq_comm]
    · simp [same, tracked.no_waker thread]
  have waits : ∀ thread, update roles tid (.waking next) thread = .waiting ↔
      roles thread = .waiting := fun thread => update_iff (by simp [releasing]) nofun
  obtain ⟨nodup, -, outside⟩ := nodup_append.mp tracked.nodup
  constructor
  · exact nodup
  · exact fun thread member =>
      (waits thread).mpr (tracked.queued thread (mem_append_left _ member))
  · intro thread waiting
    rcases tracked.waiting thread ((waits thread).mp waiting) with member | ⟨other, woken⟩
    · rcases mem_append.mp member with old | new
      · exact .inl old
      · exact .inr ⟨tid, (wakes _ _).mpr ⟨rfl, mem_singleton.mp new⟩⟩
    · exact absurd woken (tracked.no_waker other)
  · exact fun _ _ _ => rfl
  · intro thread target woken
    obtain ⟨-, rfl⟩ := (wakes thread target).mp woken
    exact ⟨(waits target).mpr nextWaits, fun member => outside target member target (by simp) rfl⟩
  · exact fun first second target other one two =>
      ((wakes _ _).mp one).1.trans ((wakes _ _).mp two).1.symm

theorem wake (tracked : Tracked busy queue roles) (wakes : roles tid = .waking next) :
    Tracked false queue (update (update roles next .idle) tid .idle) := by
  obtain ⟨nextWaits, outside⟩ := tracked.target tid next wakes
  -- No waker is left, and the other waiters are in the queue.
  have none : ∀ thread target,
      update (update roles next .idle) tid .idle thread ≠ .waking target := by
    intro thread target still
    have old := role_of_update (role_of_update still nofun) nofun
    rw [tracked.waker thread tid target next old wakes, update_self] at still
    cases still
  have waits : ∀ thread,
      update (update roles next .idle) tid .idle thread = .waiting ↔
        roles thread = .waiting ∧ thread ≠ next := by
    intro thread
    by_cases same : thread = tid
    · simp [same, wakes]
    · by_cases woken : thread = next
      · simp [woken, woken ▸ same]
      · simp [same, woken]
  constructor
  · exact tracked.nodup
  · intro thread member
    refine (waits thread).mpr ⟨tracked.queued thread member, ?_⟩
    rintro rfl
    exact outside member
  · intro thread waiting
    obtain ⟨old, other⟩ := (waits thread).mp waiting
    rcases tracked.waiting thread old with member | ⟨waker, found⟩
    · exact .inl member
    · -- The only waker was the one that has just finished.
      cases tracked.waker waker tid thread next found wakes
      rw [wakes] at found
      cases found
      exact absurd rfl other
  · exact fun thread target still => absurd still (none thread target)
  · exact fun thread target still => absurd still (none thread target)
  · exact fun first _ target _ still => absurd still (none first target)

end Tracked

/--
What holds while the mutex is free.

No thread is on its way to the queue, there is at most one waiter, and some thread is on its way to
wake it.
-/
structure Settled (roles : Nat → Role) : Prop where
  decided : ∀ tid, roles tid ≠ .deciding
  single : ∀ first second, roles first = .waiting → roles second = .waiting → first = second
  served : ∀ tid, roles tid = .waiting →
    ∃ helper, roles helper = .releasing ∨ roles helper = .waking tid

/-- How a mutex with careful users looks after its waiters. -/
structure Orderly (view : View) : Prop where
  tracked : Tracked view.busy view.queue view.roles
  settled : view.locked = false → Settled view.roles

theorem Orderly.transition (orderly : Orderly view) (moved : Transition True view tid after) :
    Orderly after := by
  obtain ⟨tracked, settled⟩ := orderly
  cases moved with
  | stay => exact ⟨tracked, settled⟩
  | fail locked idle =>
    refine ⟨tracked.assign (by rw [idle]; rfl) rfl, fun free => ?_⟩
    cases locked.symm.trans free
  | enter free idle =>
    exact ⟨tracked.assign (by rw [idle]; rfl) rfl, nofun⟩
  | enqueue queue deciding room =>
    -- The mutex is locked, since it was when the thread failed to lock it.
    rw [room trivial]
    exact ⟨tracked.enqueue deciding, fun free => absurd deciding ((settled free).decided tid)⟩
  | release critical decided single =>
    refine ⟨tracked.assign (by rw [critical]; rfl) rfl, fun _ => ?_⟩
    constructor
    · exact fun thread found => decided trivial thread (role_of_update found (by decide))
    · exact fun first second one two => single trivial first second
        (role_of_update one (by decide)) (role_of_update two (by decide))
    · exact fun _ _ => ⟨tid, .inl (update_self ..)⟩
  | take next rest releasing spare last =>
    rw [spare, last] at tracked
    have taken := tracked.take releasing
    refine ⟨taken, fun free => ?_⟩
    obtain ⟨decided, single, -⟩ := settled free
    have one : ∀ thread, update view.roles tid (.waking next) thread = .waiting →
        thread = next := fun thread waits =>
      single thread next (role_of_update waits (by simp))
        (tracked.queued next (mem_append.mpr (.inr (mem_singleton.mpr rfl))))
    constructor
    · exact fun thread found => decided thread (role_of_update found (by simp))
    · exact fun first second firstWaits secondWaits =>
        (one first firstWaits).trans (one second secondWaits).symm
    · intro thread waits
      refine ⟨tid, .inr ?_⟩
      rw [one thread waits]
      exact update_self ..
  | leave releasing spare empty =>
    have none : ∀ thread, view.roles thread ≠ .waiting := by
      intro thread waits
      rw [spare, empty] at tracked
      rcases tracked.waiting thread waits with member | ⟨waker, wakes⟩
      · cases member
      · exact tracked.no_waker waker wakes
    refine ⟨tracked.assign (by rw [releasing]; rfl) rfl, fun free => ?_⟩
    obtain ⟨decided, -, -⟩ := settled free
    constructor
    · exact fun thread found => decided thread (role_of_update found (by decide))
    · exact fun first _ waits => absurd (role_of_update waits (by decide)) (none first)
    · exact fun thread waits => absurd (role_of_update waits (by decide)) (none thread)
  | wake next role waking kept reached =>
    obtain ⟨waits, idle⟩ := reached trivial
    subst idle
    refine ⟨tracked.wake waking, fun free => ?_⟩
    obtain ⟨decided, single, -⟩ := settled free
    -- The woken thread was the only waiter.
    have none : ∀ thread,
        update (update view.roles next .idle) tid .idle thread ≠ .waiting := by
      intro thread still
      have before := role_of_update still (by decide)
      have same := single thread next (role_of_update before (by decide)) waits
      rw [same, update_self] at before
      cases before
    constructor
    · exact fun thread found =>
        decided thread (role_of_update (role_of_update found (by decide)) (by decide))
    · exact fun first _ still => absurd still (none first)
    · exact fun thread still => absurd still (none thread)

end View

namespace System

variable {system : System} {tid : Nat} {schedule : List Nat}

/-- What the threads can tell of a system. -/
def view (system : System) : View :=
  ⟨system.mutex.locked, system.mutex.waitersLocked, system.mutex.waiters.list, system.roles⟩

theorem view_goto (system : System) (tid : Nat) (place : Place) :
    (system.goto tid place).view =
      { system.view with roles := update system.roles tid place.role } := by
  have changed : (system.goto tid place).roles = update system.roles tid place.role := by
    funext thread
    by_cases same : thread = tid
    · rw [same, update_self]
      exact congrArg Place.role (update_self ..)
    · rw [update_of_ne same]
      exact congrArg Place.role (update_of_ne same ..)
  unfold view
  rw [changed]
  rfl

theorem transition_same {careful : Prop} {moved : System} {place : Place}
    (unseen : moved.view = system.view) (same : system.roles tid = place.role) :
    View.Transition careful system.view tid (moved.goto tid place).view := by
  have roles : moved.roles = system.roles := congrArg View.roles unseen
  rw [view_goto, roles, ← same, update_eq_self, unseen]
  exact .stay

theorem view_piBoost (system : System) (owner : Nat) : (system.piBoost owner).view =
    system.view := by
  unfold piBoost
  split <;> rfl

theorem view_wakeThread (system : System) (next : Nat) :
    ∃ role, (role = system.roles next ∨ role = .idle) ∧
      (system.places next = .asleep → system.roles next = .waiting ∧ role = .idle) ∧
      (system.wakeThread next).view =
        { system.view with roles := update system.roles next role } := by
  unfold wakeThread
  by_cases asleep : system.places next = .asleep
  · have waits : system.roles next = .waiting := by
      rw [roles, asleep]
      rfl
    rw [if_pos asleep]
    exact ⟨.idle, .inr rfl, fun _ => ⟨waits, rfl⟩, view_goto system next .trying⟩
  · rw [if_neg asleep]
    refine ⟨system.roles next, .inl rfl, fun isAsleep => absurd isAsleep asleep, ?_⟩
    rw [update_eq_self]
    rfl

theorem step_transition (system : System) (tid : Nat) :
    View.Transition (system.Careful tid) system.view tid (system.step tid).view := by
  have role : system.view.roles tid = (system.places tid).role := rfl
  unfold step Careful
  cases place : system.places tid with
  | outside | owning | holding | blocking | unowning =>
    -- Nobody else can tell these moves.
    rw [place] at role
    exact transition_same rfl role
  | trying =>
    rw [place] at role
    simp only
    split
    · rename_i locked
      rw [view_goto]
      exact .fail locked role
    · rename_i free
      rw [view_goto]
      exact .enter (Bool.eq_false_iff.mpr free) role
  | failed =>
    rw [place] at role
    exact transition_same (view_piBoost system system.mutex.owner) role
  | queueing =>
    rw [place] at role
    simp only
    split
    · exact .stay
    · rw [view_goto]
      exact .enqueue _ role fun room => WaitQueue.list_push room
  | asleep => exact .stay
  | unlocking =>
    rw [place] at role
    simp only
    rw [view_goto]
    exact .release role And.left And.right
  | popping =>
    rw [place] at role
    simp only
    split
    · exact .stay
    · rename_i spare
      have spare : system.view.busy = false := Bool.eq_false_iff.mpr spare
      split
      · rename_i next waiters taken
        rw [view_goto]
        exact .take next waiters.list role spare (WaitQueue.list_pop taken)
      · rename_i waiters refused
        obtain ⟨empty, same⟩ := WaitQueue.pop_none refused
        rw [view_goto, same]
        exact .leave role spare empty
  | waking next =>
    rw [place] at role
    -- The flag of the spin lock and the role of the woken thread change before the move.
    let spare := { system with mutex := { system.mutex with waitersLocked := false } }
    obtain ⟨woken, kept, reached, seen⟩ := view_wakeThread spare next
    have roles : (spare.wakeThread next).roles = update system.roles next woken :=
      congrArg View.roles seen
    change View.Transition _ _ _ ((spare.wakeThread next).goto tid .outside).view
    rw [view_goto, roles, seen]
    exact .wake next woken role kept reached

theorem guarded_new : new.view.Guarded := ⟨nofun, nofun⟩

theorem orderly_new : new.view.Orderly := by
  constructor
  · exact ⟨nodup_nil, nofun, nofun, nofun, nofun, nofun⟩
  · exact fun _ => ⟨nofun, nofun, nofun⟩

theorem guarded_run (guarded : system.view.Guarded) :
    (system.run schedule).view.Guarded := by
  induction schedule generalizing system with
  | nil => exact guarded
  | cons tid schedule ih => exact ih (guarded.transition (system.step_transition tid))

theorem orderly_run (orderly : system.view.Orderly) (careful : system.CarefulRun schedule) :
    (system.run schedule).view.Orderly := by
  induction schedule generalizing system with
  | nil => exact orderly
  | cons tid schedule ih =>
    have moved := system.step_transition tid
    rw [eq_true careful.1] at moved
    exact ih (orderly.transition moved) careful.2

theorem oneHolder_of_guarded (guarded : system.view.Guarded) : system.OneHolder := by
  have critical : ∀ tid, system.places tid = .holding → system.view.roles tid = .critical := by
    intro tid holding
    change (system.places tid).role = .critical
    rw [holding]
    rfl
  intro first second one two
  exact guarded.unique first second (critical first one) (critical second two)

theorem not_forgotten_of_orderly (orderly : system.view.Orderly) : ¬ system.Forgotten := by
  intro ⟨free, quiet, tid, asleep⟩
  have waits : system.view.roles tid = .waiting := by
    change (system.places tid).role = .waiting
    rw [asleep]
    rfl
  obtain ⟨helper, role⟩ := (orderly.settled free).served tid waits
  have quiet := quiet helper
  change (system.places helper).role = .releasing ∨ (system.places helper).role = .waking tid at role
  cases place : system.places helper with
  | popping | unowning | unlocking | waking next =>
    rw [place] at quiet
    cases quiet
  | outside | trying | owning | holding | failed | queueing | blocking | asleep =>
    rw [place] at role
    rcases role with role | role
    · cases role
    · cases role

/--
At most one thread has the guard, whatever the schedule.

Nobody sleeps before a free mutex that no thread is about to unlock, provided that each step of the
schedule is careful.
-/
theorem piMutex_excludes_and_wakes (schedule : List Nat) :
    (new.run schedule).OneHolder ∧
      (new.CarefulRun schedule → ¬ (new.run schedule).Forgotten) :=
  ⟨oneHolder_of_guarded (guarded_run guarded_new),
    fun careful => not_forgotten_of_orderly (orderly_run orderly_new careful)⟩

theorem idle_of_not_mem (absent : tid ∉ schedule) (idle : system.roles tid = .idle) :
    (system.run schedule).roles tid = .idle := by
  induction schedule generalizing system with
  | nil => exact idle
  | cons other schedule ih =>
    rw [mem_cons, not_or] at absent
    exact ih absent.2 ((system.step_transition other).idle absent.1 idle)

/--
The owner unlocks while a contender has failed to lock and is not in the queue yet.

The unlock finds nobody to wake, and the contender goes to sleep before a free mutex.
-/
def missedWakeUp : List Nat := [0, 0, 0, 1, 1, 0, 0, 0, 0, 1, 1, 1]

theorem missedWakeUp_forgotten : (new.run missedWakeUp).Forgotten := by
  refine ⟨by decide, fun tid => ?_, 1, by decide⟩
  by_cases member : tid ∈ missedWakeUp
  · have all : ∀ thread ∈ missedWakeUp,
        ((new.run missedWakeUp).places thread).inUnlock = false := by decide
    exact all tid member
  · have idle : (new.run missedWakeUp).roles tid = .idle := idle_of_not_mem member rfl
    unfold roles at idle
    cases place : (new.run missedWakeUp).places tid <;> rw [place] at idle <;> trivial

/-- A contender that sleeps before the owner unlocks is woken, and gets the mutex. -/
def handOver : List Nat := [0, 0, 0, 1, 1, 1, 1, 1, 0, 0, 0, 0, 0, 1, 1]

theorem handOver_careful :
    new.CarefulRun handOver ∧ (new.run handOver).places 1 = .holding ∧
      ¬ (new.run handOver).Forgotten := by
  -- When the owner gives the mutex free, the contender is the only other thread in `lock`.
  have roles : ∀ tid, (new.run (handOver.take 10)).roles tid =
      if tid = 0 then .critical else if tid = 1 then .waiting else .idle := by
    intro tid
    by_cases member : tid ∈ handOver.take 10
    · have all : ∀ thread ∈ handOver.take 10, (new.run (handOver.take 10)).roles thread =
          if thread = 0 then .critical else if thread = 1 then .waiting else .idle := by decide
      exact all tid member
    · have other : tid ≠ 0 ∧ tid ≠ 1 := by
        constructor <;> (rintro rfl; exact member (by decide))
      rw [idle_of_not_mem member rfl, if_neg other.1, if_neg other.2]
  have decided : ∀ tid, (new.run (handOver.take 10)).roles tid ≠ .deciding := by
    intro tid deciding
    rw [roles] at deciding
    split_ifs at deciding
  have single : ∀ tid, (new.run (handOver.take 10)).roles tid = .waiting → tid = 1 := by
    intro tid waits
    rw [roles] at waits
    split_ifs at waits
    assumption
  have careful : new.CarefulRun handOver :=
    ⟨trivial, trivial, trivial, trivial, trivial, trivial, Nat.zero_lt_succ 31, trivial, trivial,
      trivial,
      ⟨decided, fun first second one two => (single first one).trans (single second two).symm⟩,
      trivial, rfl, trivial, trivial, trivial⟩
  exact ⟨careful, by decide, (piMutex_excludes_and_wakes handOver).2 careful⟩

end System

end TheoryKernel.Sync
