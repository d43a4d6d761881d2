import TheoryKernel.Lib.Slots
import TheoryKernel.Proc.Lifecycle

/-! The table of processes agrees with what parents are told about their children. -/

namespace TheoryKernel.Proc

open Function Option
open Kernel

/-- What may happen after a row of events, with the latest first. -/
def Allowed (earlier : List Event) : Event → Prop
  | .forked _ _ => True
  | .exited pid _ => ∀ code, .exited pid code ∉ earlier
  | .reported parent child code =>
    .forked parent child ∈ earlier ∧ .exited child code ∈ earlier ∧
      ∀ other code', .reported other child code' ∉ earlier
  | .noChild parent =>
    ∀ child, .forked parent child ∈ earlier → ∃ code, .reported parent child code ∈ earlier
  | .waits parent =>
    ∃ child, .forked parent child ∈ earlier ∧ ∀ code, .reported parent child code ∉ earlier
  | .slept parent pidArg =>
    ∀ child code, asks pidArg child → .forked parent child ∈ earlier →
      .exited child code ∈ earlier → .reported parent child code ∈ earlier

/--
The rules that parents and children go by.

A child is reported at most once, after its exit, to its parent and with its code. A parent is told
that it has no child exactly if none is left to be reported, and it does not sleep while there is
something to report.
-/
def Protocol : List Event → Prop
  | [] => True
  | event :: earlier => Allowed earlier event ∧ Protocol earlier

/-- Whether a child of a process is left that has not been reported. -/
def unreported (kernel : Kernel) (process : Process) : Bool :=
  process.kids.any fun child => (kernel.processes child).any fun found => found.state ≠ .dead

/--
The steps that the rules can survive.

A process has room for the record of another child, a process that looks for children has none or
has one that is not reported, and no thread blocks.
-/
def sustainable (kernel : Kernel) : Action → Bool
  | .call _ _ => true
  | .advance pid =>
    match kernel.processes pid, kernel.tasks pid with
    | some process, some task =>
      match task.stage with
      | .addChild _ _ => process.childCount < maxChildren
      | .waitCount _ => process.childCount = 0 || unreported kernel process
      | .exitBlock => false
      | .waitBlock _ => false
      | _ => true
    | _, _ => true

/-- A process that has not exited. -/
def Alive (table : ProcessTable) (pid : Nat) : Prop :=
  ∃ process, table pid = some process ∧ process.state = .running

/-- A child of a process, as the table knows it. -/
def ChildOf (table : ProcessTable) (parent child : Nat) : Prop :=
  child < maxProcesses ∧ ∃ process, table child = some process ∧ process.parent = parent

/-- A child that a process has a record of. -/
def Recorded (table : ProcessTable) (parent child : Nat) : Prop :=
  ∃ process, table parent = some process ∧ child ∈ process.kids

/-- A process that has exited with a code and is not reported. -/
def Waiting (table : ProcessTable) (pid : Nat) (code : BitVec 32) : Prop :=
  ∃ process, table pid = some process ∧ process.state = .zombie ∧ process.exitCode = code

/-- A process that has exited with a code and is reported to its parent. -/
def Gone (table : ProcessTable) (parent pid : Nat) (code : BitVec 32) : Prop :=
  ∃ process, table pid = some process ∧ process.state = .dead ∧ process.parent = parent ∧
    process.exitCode = code

/-- What is known at each place of a call. -/
def StageOk (table : ProcessTable) (pid : Nat) : Stage → Prop
  | .insertThread child _ => Alive table pid ∧ ChildOf table pid child ∧ Alive table child
  | .addChild child _ => Alive table pid ∧ ChildOf table pid child
  | .exitThread => True
  | .exitWake => True
  | .exitBlock => True
  | .spinning => True
  | .waitCheck child left _ _ =>
    Alive table pid ∧ ∀ other ∈ child :: left, Recorded table pid other
  | .waitReap child code => Alive table pid ∧ Recorded table pid child ∧ Waiting table child code
  | _ => Alive table pid

/-- Every call is where it can be, and a process gets its thread only once. -/
structure ThreadsOk (table : ProcessTable) (tasks : Nat → Option Task) : Prop where
  stages : ∀ pid task, tasks pid = some task → StageOk table pid task.stage
  owned : ∀ pid, (tasks pid).isSome → (table pid).isSome
  unborn : ∀ pid task child tid, tasks pid = some task → task.stage = .insertThread child tid →
    tasks child = none

/-- The table agrees with the events, which go by the rules. -/
structure Records (table : ProcessTable) (log : List Event) : Prop where
  small : ∀ pid, (table pid).isSome → pid < maxProcesses
  kids : ∀ parent child, Recorded table parent child → ChildOf table parent child
  forked : ∀ parent child, .forked parent child ∈ log ↔ Recorded table parent child
  exited : ∀ pid code, .exited pid code ∈ log ↔
    Waiting table pid code ∨ ∃ parent, Gone table parent pid code
  reported : ∀ parent child code, .reported parent child code ∈ log ↔ Gone table parent child code
  protocol : Protocol log

/-- All is in order, and no lock is held for good. -/
structure Coherent (kernel : Kernel) : Prop where
  threads : ThreadsOk kernel.processes kernel.tasks
  records : Records kernel.processes kernel.log
  free : ∀ lock, kernel.held lock = false

/-- What a step of one process leaves to the others. -/
structure Respects (actor : Nat) (table changed : ProcessTable) : Prop where
  present : ∀ pid, (table pid).isSome → (changed pid).isSome
  alive : ∀ pid, pid ≠ actor → Alive table pid → Alive changed pid
  child : ∀ parent child, ChildOf table parent child → ChildOf changed parent child
  recorded : ∀ parent child, Recorded table parent child → Recorded changed parent child
  waiting : ∀ parent child code, parent ≠ actor → ChildOf table parent child →
    Waiting table child code → Waiting changed child code

section Tables

variable {table changed : ProcessTable} {actor pid parent child : Nat} {code : BitVec 32}
  {stage : Stage} {process : Process} {change : Process → Process}

/-- A process that runs has not exited. -/
theorem Alive.not_waiting (alive : Alive table pid) : ¬ Waiting table pid code := by
  obtain ⟨process, known, running⟩ := alive
  rintro ⟨same, known', zombie, -⟩
  cases known.symm.trans known'
  cases running.symm.trans zombie

/-- The record of a process that runs. -/
theorem Alive.running (alive : Alive table pid) (known : table pid = some process) :
    process.state = .running := by
  obtain ⟨same, known', running⟩ := alive
  cases known.symm.trans known'
  exact running

theorem ChildOf.unique {other : Nat} (first : ChildOf table parent child)
    (second : ChildOf table other child) : parent = other := by
  obtain ⟨-, process, known, rfl⟩ := first
  obtain ⟨-, same, known', rfl⟩ := second
  cases known.symm.trans known'
  rfl

/-- Whether a process runs is in its own record. -/
theorem alive_congr (same : changed pid = table pid) : Alive changed pid ↔ Alive table pid := by
  rw [Alive, same, Alive]

theorem StageOk.respects (ok : StageOk table pid stage) (respects : Respects actor table changed)
    (differs : pid ≠ actor)
    (unborn : ∀ child tid, stage = .insertThread child tid → child ≠ actor)
    (kids : ∀ child, Recorded table pid child → ChildOf table pid child) :
    StageOk changed pid stage := by
  cases stage with
  | insertThread child tid =>
    exact ⟨respects.alive pid differs ok.1, respects.child _ _ ok.2.1,
      respects.alive child (unborn child tid rfl) ok.2.2⟩
  | addChild child tid => exact ⟨respects.alive pid differs ok.1, respects.child _ _ ok.2⟩
  | exitThread | exitWake | exitBlock | spinning => trivial
  | waitCheck child left pidArg statusCopied =>
    exact ⟨respects.alive pid differs ok.1, fun other member =>
      respects.recorded _ _ (ok.2 other member)⟩
  | waitReap child code =>
    exact ⟨respects.alive pid differs ok.1, respects.recorded _ _ ok.2.1,
      respects.waiting pid child code differs (kids child ok.2.1) ok.2.2⟩
  | _ => exact respects.alive pid differs ok

/-- A step that leaves the table alone. -/
theorem Respects.refl (table : ProcessTable) : Respects actor table table :=
  ⟨fun _ present => present, fun _ _ alive => alive, fun _ _ child => child,
    fun _ _ recorded => recorded, fun _ _ _ _ _ waiting => waiting⟩

variable {new : Process} {holds : Process → Prop}

/-- A record that replaces another one is the only difference. -/
theorem update_congr (differs : child ≠ pid) :
    update table pid (some new) child = table child := update_of_ne differs _ _

theorem held_update {other : Nat} :
    (∃ found, update table pid (some new) other = some found ∧ holds found) ↔
      if other = pid then holds new else ∃ found, table other = some found ∧ holds found := by
  split
  · rename_i here
    subst here
    simp
  · rename_i differs
    rw [update_congr differs]

/-- There is one record of a process. -/
theorem record_unique (known : table pid = some process) :
    ∀ found, table pid = some found → found = process :=
  fun _ there => Option.some.inj (there.symm.trans known)

/-- A record may be replaced by one with the same parent. -/
theorem ChildOf.update (parents : ∀ found, table pid = some found → new.parent = found.parent)
    (isChild : ChildOf table parent child) :
    ChildOf (update table pid (some new)) parent child := by
  refine ⟨isChild.1, held_update.mpr ?_⟩
  obtain ⟨-, found, known, isParent⟩ := isChild
  split
  · rename_i here
    rw [parents found (here ▸ known), isParent]
  · exact ⟨found, known, isParent⟩

/-- A record may change as long as it leaves to others what they rely on. -/
theorem respects_update (known : ∀ found, table pid = some found → found = process)
    (sameParent : new.parent = process.parent) (kids : ∀ child ∈ process.kids, child ∈ new.kids)
    (alive : process.state = .running → pid = actor ∨ new.state = .running)
    (waiting : process.state = .zombie → process.parent = actor ∨ (new.state = .zombie ∧
      new.exitCode = process.exitCode)) :
    Respects actor table (update table pid (some new)) where
  present := (Function.forall_update_iff table fun other (slot : Option Process) =>
    (table other).isSome → slot.isSome).mpr ⟨fun _ => rfl, fun _ _ present => present⟩
  alive := by
    intro other differs isAlive
    rw [Alive, held_update]
    split
    · rename_i here
      subst here
      obtain ⟨found, there, running⟩ := isAlive
      cases known found there
      exact (alive running).resolve_left differs
    · exact isAlive
  child := fun parent child => ChildOf.update fun found there => by rw [known found there, sameParent]
  recorded := by
    intro parent child isRecorded
    rw [Recorded, held_update]
    split
    · rename_i here
      subst here
      obtain ⟨found, there, member⟩ := isRecorded
      cases known found there
      exact kids child member
    · exact isRecorded
  waiting := by
    intro parent child code differs isChild isWaiting
    rw [Waiting, held_update]
    split
    · rename_i here
      subst here
      obtain ⟨-, found, there, rfl⟩ := isChild
      cases known found there
      obtain ⟨same, there', zombie, rfl⟩ := isWaiting
      cases known same there'
      exact (waiting zombie).resolve_left differs
    · exact isWaiting

end Tables

section Threads

variable {table changed : ProcessTable} {tasks next : Nat → Option Task} {actor : Nat} {stage : Stage}

/-- The thread of one process goes on, and no other thread does. -/
theorem ThreadsOk.goto (threads : ThreadsOk table tasks) (acts : (tasks actor).isSome)
    (kids : ∀ parent child, Recorded table parent child → ChildOf table parent child)
    (respects : Respects actor table changed)
    (others : ∀ pid, (next pid).map (·.stage) = (tasks pid).map (·.stage))
    (ok : StageOk changed actor stage)
    (unborn : ∀ child tid, stage = .insertThread child tid → tasks child = none) :
    ThreadsOk changed
      (update next actor ((next actor).map fun task => { task with stage })) := by
  have present : ∀ pid, (next pid).isSome = (tasks pid).isSome := by
    intro pid
    rw [← isSome_map, others pid, isSome_map]
  have absent : ∀ pid, tasks pid = none → update next actor
      ((next actor).map fun task => { task with stage }) pid = none := by
    intro pid none
    have differs : pid ≠ actor := by
      rintro rfl
      rw [none] at acts
      cases acts
    rw [update_of_ne differs, ← not_isSome_iff_eq_none, present pid, none]
    exact Bool.false_ne_true
  have before : ∀ pid task, pid ≠ actor → next pid = some task →
      ∃ old, tasks pid = some old ∧ old.stage = task.stage := by
    intro pid task _ known
    have same := others pid
    rw [known] at same
    exact map_eq_some_iff.mp same.symm
  refine ⟨?_, ?_, ?_⟩
  · intro pid task known
    rcases Slots.of_update known with ⟨rfl, known⟩ | ⟨here, known⟩
    · obtain ⟨old, -, rfl⟩ := map_eq_some_iff.mp known
      exact ok
    · obtain ⟨old, was, same⟩ := before pid task here known
      rw [← same]
      apply (threads.stages pid old was).respects respects here ?_ (kids pid)
      rintro child tid isInsert rfl
      rw [threads.unborn pid old child tid was isInsert] at acts
      cases acts
  · intro pid isTask
    apply respects.present pid
    apply threads.owned pid
    by_cases here : pid = actor
    · exact here ▸ acts
    · rwa [update_of_ne here, present pid] at isTask
  · intro pid task child tid known isInsert
    apply absent child
    rcases Slots.of_update known with ⟨rfl, known⟩ | ⟨here, known⟩
    · obtain ⟨old, -, rfl⟩ := map_eq_some_iff.mp known
      exact unborn child tid isInsert
    · obtain ⟨old, was, same⟩ := before pid task here known
      exact threads.unborn pid old child tid was (same.trans isInsert)

/-- A new process gets its thread. -/
theorem ThreadsOk.born {child tid : Nat} {task : Task} (threads : ThreadsOk table tasks)
    (kids : ∀ parent child, Recorded table parent child → ChildOf table parent child)
    (known : tasks actor = some task) (inserts : task.stage = .insertThread child tid) :
    ThreadsOk table (update (update tasks actor
      (some { task with stage := .addChild child tid })) child (some ⟨tid, .created, .user⟩)) := by
  have absent := threads.unborn actor task child tid known inserts
  obtain ⟨alive, isChild, childAlive⟩ : Alive table actor ∧ ChildOf table actor child ∧
      Alive table child := by
    have ok := threads.stages actor task known
    rwa [inserts] at ok
  have differs : child ≠ actor := by
    rintro rfl
    rw [known] at absent
    cases absent
  -- The thread of the actor goes on first, so that it is no longer about to make the child.
  have moved := threads.goto (isSome_of_eq_some known) kids (Respects.refl table)
    (fun _ => rfl) (show StageOk table actor (.addChild child tid) from ⟨alive, isChild⟩) nofun
  rw [known, map_some] at moved
  refine ⟨?_, ?_, ?_⟩
  · intro pid other found
    rcases Slots.of_update found with ⟨rfl, ⟨⟩⟩ | ⟨-, found⟩
    · exact childAlive
    · exact moved.stages pid other found
  · intro pid isTask
    by_cases new : pid = child
    · obtain ⟨process, present, -⟩ := childAlive
      rw [new, present]
      rfl
    · rw [update_of_ne new] at isTask
      exact moved.owned pid isTask
  · intro pid other unbornChild otherTid found isInsert
    have old : pid ≠ child := by
      rintro rfl
      rw [update_self] at found
      cases found
      cases isInsert
    rw [update_of_ne old] at found
    -- A child has one parent, and one process makes one child at a time.
    have notChild : unbornChild ≠ child := by
      rintro rfl
      have ok := moved.stages pid other found
      rw [isInsert] at ok
      rw [ok.2.1.unique isChild, update_self] at found
      cases found
      cases isInsert
    rw [update_of_ne notChild]
    exact moved.unborn pid other unbornChild otherTid found isInsert

end Threads

/-- The process whose record an event is about, if it is about one. -/
def Event.subject : Event → Option Nat
  | .forked pid _ | .exited pid _ | .reported _ pid _ => some pid
  | _ => none

/-- The events tell whether and how a process ended, and to whom that was reported. -/
def TellsEnd (events : List Event) (pid : Nat) (process : Process) : Prop :=
  (∀ code, .exited pid code ∈ events ↔
    (process.state = .zombie ∨ process.state = .dead) ∧ process.exitCode = code) ∧
  ∀ parent code, .reported parent pid code ∈ events ↔
    process.state = .dead ∧ process.parent = parent ∧ process.exitCode = code

section Changes

variable {table : ProcessTable} {log : List Event} {pid parent child : Nat} {code : BitVec 32}
  {process new : Process}

variable (records : Records table log)

include records

theorem Records.told (known : table pid = some process) :
    (∀ child, .forked pid child ∈ log ↔ child ∈ process.kids) ∧ TellsEnd log pid process := by
  simp [TellsEnd, records.forked, records.exited, records.reported, Recorded, Waiting, Gone, known,
    or_and_right]

theorem Records.untold (absent : table pid = none) :
    (∀ child, .forked pid child ∉ log) ∧ (∀ code, .exited pid code ∉ log) ∧
      ∀ parent code, .reported parent pid code ∉ log := by
  simp [records.forked, records.exited, records.reported, Recorded, Waiting, Gone, absent]

-- The events tell what is new of one process, and of the others what they told before.
theorem Records.set (told : List Event) (inTable : pid < maxProcesses)
    (parents : ∀ found, table pid = some found → new.parent = found.parent)
    (kids : ∀ child ∈ new.kids, ChildOf table pid child)
    (about : ∀ event ∈ told, event.subject = some pid)
    (forked : ∀ child, .forked pid child ∈ told ++ log ↔ child ∈ new.kids)
    (ends : TellsEnd (told ++ log) pid new) (protocol : Protocol (told ++ log)) :
    Records (update table pid (some new)) (told ++ log) := by
  have others : ∀ event : Event, event.subject ≠ some pid →
      (event ∈ told ++ log ↔ event ∈ log) := by
    intro event apart
    rw [List.mem_append, or_iff_right fun isTold => apart (about event isTold)]
  refine ⟨?_, ?_, ?_, ?_, ?_, protocol⟩
  · exact (Function.forall_update_iff table fun other (slot : Option Process) =>
      slot.isSome → other < maxProcesses).mpr ⟨fun _ => inTable, fun other _ => records.small other⟩
  · intro parent child isRecorded
    apply ChildOf.update parents
    rw [Recorded, held_update] at isRecorded
    split at isRecorded
    · rename_i here
      exact here ▸ kids child isRecorded
    · exact records.kids parent child isRecorded
  · intro parent child
    rw [Recorded, held_update]
    split
    · rename_i here
      rw [here, forked]
    · rename_i apart
      rw [others _ (by simpa [Event.subject] using apart), records.forked, Recorded]
  · intro other code
    simp only [Waiting, Gone, held_update]
    split
    · rename_i here
      rw [here, ends.1]
      simp [or_and_right]
    · rename_i apart
      exact (others _ (by simpa [Event.subject] using apart)).trans (records.exited other code)
  · intro parent child code
    rw [Gone, held_update]
    split
    · rename_i here
      rw [here, ends.2]
    · rename_i apart
      rw [others _ (by simpa [Event.subject] using apart), records.reported, Gone]

theorem Records.replace (told : List Event) (known : table pid = some process)
    (sameParent : new.parent = process.parent) (sameKids : new.kids = process.kids)
    (about : ∀ event ∈ told, event.subject = some pid)
    (unforked : ∀ child, .forked pid child ∉ told) (ends : TellsEnd (told ++ log) pid new)
    (protocol : Protocol (told ++ log)) : Records (update table pid (some new)) (told ++ log) := by
  refine records.set told (records.small pid (isSome_of_eq_some known)) ?_ ?_ about ?_ ends
    protocol
  · intro found there
    rw [record_unique known found there, sameParent]
  · exact fun child member => records.kids pid child ⟨process, known, sameKids ▸ member⟩
  · intro child
    rw [List.mem_append, or_iff_right (unforked child), (records.told known).1, sameKids]

/-- A process exits. -/
theorem Records.exitMark (known : table pid = some process) (running : process.state = .running)
    (sameParent : new.parent = process.parent) (sameKids : new.kids = process.kids)
    (zombie : new.state = .zombie) (isCode : new.exitCode = code) :
    Records (update table pid (some new)) (.exited pid code :: log) := by
  obtain ⟨-, exited, reported⟩ := records.told known
  have unheard : ∀ other, .exited pid other ∉ log := by simp [exited, running]
  refine records.replace [.exited pid code] known sameParent sameKids (by simp [Event.subject])
    (by simp) ⟨fun code' => ?_, fun parent code' => ?_⟩ ⟨unheard, records.protocol⟩
  · simp [unheard, zombie, isCode, eq_comm]
  · simp [reported, running, zombie]

/-- A child is reported to its parent. -/
theorem Records.reap (isRecorded : Recorded table parent child)
    (known : table child = some process) (zombie : process.state = .zombie)
    (isCode : process.exitCode = code) (sameParent : new.parent = process.parent)
    (sameKids : new.kids = process.kids) (dead : new.state = .dead)
    (sameCode : new.exitCode = process.exitCode) :
    Records (update table child (some new)) (.reported parent child code :: log) := by
  obtain ⟨-, exited, reported⟩ := records.told known
  obtain ⟨-, same, known', isParent⟩ := records.kids parent child isRecorded
  cases known.symm.trans known'
  have unheard : ∀ other code', .reported other child code' ∉ log := by simp [reported, zombie]
  have exitedBefore : .exited child code ∈ log := (exited code).mpr ⟨.inl zombie, isCode⟩
  refine records.replace [.reported parent child code] known sameParent sameKids
    (by simp [Event.subject]) (by simp) ⟨fun code' => ?_, fun other code' => ?_⟩
    ⟨⟨(records.forked parent child).mpr isRecorded, exitedBefore, unheard⟩, records.protocol⟩
  · -- The child was waiting with its code, and now it is gone with its code.
    simp [exited, zombie, dead, sameCode]
  · simp [unheard, dead, sameParent, isParent, sameCode, isCode, eq_comm]

/-- A process gets the record of a child. -/
theorem Records.addChild (known : table pid = some process) (isChild : ChildOf table pid child)
    (sameParent : new.parent = process.parent) (kids : new.kids = process.kids ++ [child])
    (sameState : new.state = process.state) (sameCode : new.exitCode = process.exitCode) :
    Records (update table pid (some new)) (.forked pid child :: log) := by
  obtain ⟨forked, exited, reported⟩ := records.told known
  refine records.set [.forked pid child] (records.small pid (isSome_of_eq_some known)) ?_ ?_
    (by simp [Event.subject]) ?_ ⟨?_, ?_⟩ ⟨trivial, records.protocol⟩
  · intro found there
    rw [record_unique known found there, sameParent]
  · intro other member
    rw [kids] at member
    rcases List.mem_append.mp member with before | new
    · exact records.kids pid other ⟨process, known, before⟩
    · exact List.mem_singleton.mp new ▸ isChild
  · simp [forked, kids, or_comm]
  · simp [exited, sameState, sameCode]
  · simp [reported, sameState, sameParent, sameCode]

/-- A process changes in ways that no record is about. -/
theorem Records.assign (known : table pid = some process)
    (sameParent : new.parent = process.parent) (sameKids : new.kids = process.kids)
    (sameState : new.state = process.state) (sameCode : new.exitCode = process.exitCode) :
    Records (update table pid (some new)) log := by
  obtain ⟨-, exited, reported⟩ := records.told known
  refine records.replace [] known sameParent sameKids nofun nofun ⟨?_, ?_⟩ records.protocol
  · simp [exited, sameState, sameCode]
  · simp [reported, sameState, sameParent, sameCode]

/-- A new process. -/
theorem Records.insertProcess (inTable : child < maxProcesses) (absent : table child = none)
    (running : new.state = .running) (noKids : new.kids = []) :
    Records (update table child (some new)) log := by
  obtain ⟨forked, exited, reported⟩ := records.untold absent
  refine records.set [] inTable (by simp [absent]) (by simp [noKids]) nofun ?_ ⟨?_, ?_⟩
    records.protocol
  · simp [forked, noKids]
  · simp [exited, running]
  · simp [reported, running]

end Changes

end TheoryKernel.Proc
