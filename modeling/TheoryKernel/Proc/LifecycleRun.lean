import TheoryKernel.Proc.LifecycleTable

/-! What parents are told about their children, in every order of the steps. -/

set_option maxRecDepth 8000

namespace TheoryKernel.Proc

open Function Kernel List Runs
open Kernel

variable {kernel next : Kernel} {pid : Nat} {process : Process} {task : Task} {stage : Stage}

variable {other tid : Nat} {state : ThreadState} {left : List Nat} {statusCopied : Bool}
  {action : Action} {actions : List Action} {changed : ProcessTable}

theorem Coherent.change {log : List Event} (coherent : Coherent kernel)
    (acts : (kernel.tasks pid).isSome) (respects : Respects pid kernel.processes changed)
    (records : Records changed log) (ok : StageOk changed pid stage)
    (unborn : ∀ child tid, stage = .insertThread child tid → kernel.tasks child = none)
    (processes : next.processes = changed)
    (tasks : ∀ pid, (next.tasks pid).map (·.stage) = (kernel.tasks pid).map (·.stage))
    (isLog : next.log = log) (held : next.held = kernel.held) :
    Coherent (next.goto pid stage) where
  threads := by
    rw [goto_processes, goto_tasks, processes]
    exact coherent.threads.goto acts coherent.records.kids respects tasks ok unborn
  records := by
    rw [goto_processes, goto_log, processes, isLog]
    exact records
  free := by
    rw [goto_held, held]
    exact coherent.free

theorem Coherent.retask (coherent : Coherent kernel) (acts : (kernel.tasks pid).isSome)
    (plain : ∀ child tid, stage ≠ .insertThread child tid)
    (ok : StageOk kernel.processes pid stage)
    (tasks : ∀ pid, (next.tasks pid).map (·.stage) = (kernel.tasks pid).map (·.stage))
    (processes : next.processes = kernel.processes) (log : next.log = kernel.log)
    (held : next.held = kernel.held) : Coherent (next.goto pid stage) :=
  coherent.change acts (Respects.refl _) coherent.records ok
    (fun child tid same => absurd same (plain child tid)) processes tasks log held

theorem Coherent.goto (coherent : Coherent kernel) (acts : (kernel.tasks pid).isSome)
    (plain : ∀ child tid, stage ≠ .insertThread child tid)
    (ok : StageOk kernel.processes pid stage) : Coherent (kernel.goto pid stage) :=
  coherent.retask acts plain ok (fun _ => rfl) rfl rfl rfl

theorem withTask_stage (each : Nat) :
    ((kernel.withTask other fun task => { task with state }).tasks each).map (·.stage) =
      (kernel.tasks each).map (·.stage) := by
  rw [withTask_tasks]
  by_cases here : each = other
  · subst here
    rw [update_self, Option.map_map]
    rfl
  · rw [update_of_ne here]

theorem kids_addChild {child : Nat} (room : process.childCount < maxChildren) :
    (process.addChild child).2.kids = process.kids ++ [child] := by
  have fits : ¬ maxChildren ≤ process.childCount := by omega
  rw [Process.addChild, if_neg fits]
  simp only [Process.kids, range_succ, map_append, map_singleton,
    update_self, append_cancel_right_eq]
  apply map_congr_left
  intro index member
  rw [update_of_ne]
  exact Nat.ne_of_lt (mem_range.mp member)

theorem nextCheck_ok {pidArg : BitVec 32} {table : ProcessTable} (alive : Alive table pid)
    (recorded : ∀ child ∈ left, Recorded table pid child) :
    StageOk table pid (nextCheck left pidArg statusCopied) := by
  cases left with
  | nil => exact alive
  | cons child left => exact ⟨alive, recorded⟩

theorem nextCheck_plain {pidArg : BitVec 32} :
    ∀ child tid, nextCheck left pidArg statusCopied ≠ .insertThread child tid := by
  intro child tid
  cases left with
  | nil | cons first left => exact Stage.noConfusion

section Transitions

variable {child tid : Nat} {code : BitVec 32} {state : ThreadState}

variable (coherent : Coherent kernel)

include coherent

theorem Coherent.insertProcess (isTask : kernel.tasks pid = some ⟨tid, state, stage⟩)
    {childTid : Nat} (alive : Alive kernel.processes pid) (small : child < maxProcesses)
    (absent : kernel.processes child = none) {new : Process} (isParent : new.parent = pid)
    (running : new.state = .running) (noKids : new.kids = []) :
    Coherent ({ kernel with processes := update kernel.processes child (some new) }.goto pid
      (.insertThread child childTid)) := by
  have acts := Option.isSome_of_eq_some isTask
  have records := coherent.records.insertProcess small absent running noKids
  -- No process is lost, neither to the actor nor to the others.
  have respects : ∀ actor, Respects actor kernel.processes
      (update kernel.processes child (some new)) := fun actor =>
    respects_update (by simp [absent]) rfl (fun _ member => member) Or.inr
      fun zombie => .inr ⟨zombie, rfl⟩
  have notChild : pid ≠ child := by
    rintro rfl
    obtain ⟨process, known, -⟩ := alive
    rw [absent] at known
    cases known
  refine coherent.change acts (respects pid) records ?_ ?_ rfl (fun _ => rfl) rfl rfl
  · exact ⟨(respects child).alive pid notChild alive, ⟨small, new, update_self _ _ _, isParent⟩,
      new, update_self _ _ _, running⟩
  · -- A thread would have a process already.
    intro other childTid' same
    cases same
    rw [← Option.not_isSome_iff_eq_none]
    intro present
    have owned := coherent.threads.owned child present
    rw [absent] at owned
    cases owned

theorem Coherent.insertThread
    (isTask : kernel.tasks pid = some ⟨tid, state, .insertThread child childTid⟩)
    {tids : List Nat} : Coherent ({ kernel with
      tids
      tasks := update kernel.tasks child (some ⟨childTid, .created, .user⟩) }.goto pid
        (.addChild child childTid)) := by
  have absent := coherent.threads.unborn pid _ child childTid isTask rfl
  have differs : pid ≠ child := by
    rintro rfl
    rw [isTask] at absent
    cases absent
  refine ⟨?_, coherent.records, coherent.free⟩
  have born := coherent.threads.born coherent.records.kids isTask rfl
  rw [goto_tasks]
  dsimp only
  rw [update_of_ne differs, isTask, update_comm differs.symm]
  exact born

theorem Coherent.addChild (known : kernel.processes pid = some process)
    (acts : (kernel.tasks pid).isSome) (alive : Alive kernel.processes pid)
    (isChild : ChildOf kernel.processes pid child) (room : process.childCount < maxChildren) :
    Coherent (((kernel.withProcessMut pid fun process => (process.addChild child).2).tell
      (.forked pid child)).goto pid (.enqueue child)) := by
  have fits : ¬ maxChildren ≤ process.childCount := by omega
  have kids : (process.addChild child).2.kids = process.kids ++ [child] := kids_addChild room
  have same : (process.addChild child).2.parent = process.parent ∧
      (process.addChild child).2.state = process.state ∧
      (process.addChild child).2.exitCode = process.exitCode := by
    rw [Process.addChild, if_neg fits]
    exact ⟨rfl, rfl, rfl⟩
  obtain ⟨sameParent, sameState, sameCode⟩ := same
  have running := alive.running known
  have respects : Respects pid kernel.processes
      (update kernel.processes pid (some (process.addChild child).2)) := by
    apply respects_update (record_unique known) sameParent
    · intro other member
      rw [kids]
      exact mem_append_left _ member
    · exact fun _ => .inl rfl
    · intro zombie
      cases running.symm.trans zombie
  refine coherent.change acts respects
    (coherent.records.addChild known isChild sameParent kids sameState sameCode) ?_
    nofun ?_ (fun _ => rfl) rfl rfl
  · exact ⟨_, update_self _ _ _, sameState.trans running⟩
  · rw [tell_processes, withProcessMut_processes, known]
    rfl

theorem Coherent.exitMark (known : kernel.processes pid = some process)
    (acts : (kernel.tasks pid).isSome) (alive : Alive kernel.processes pid) :
    Coherent (((kernel.withProcessMut pid fun process =>
      { process with state := .zombie, exitCode := code }).tell (.exited pid code)).goto pid
        .exitThread) := by
  have running := alive.running known
  have respects : Respects pid kernel.processes (update kernel.processes pid
      (some { process with state := .zombie, exitCode := code })) := by
    refine respects_update (record_unique known) rfl (fun _ member => member) (fun _ => .inl rfl) ?_
    intro zombie
    cases running.symm.trans zombie
  refine coherent.change acts respects (coherent.records.exitMark known running rfl rfl rfl rfl)
    trivial nofun ?_ (fun _ => rfl) rfl rfl
  rw [tell_processes, withProcessMut_processes, known]
  rfl

variable (acts : (kernel.tasks pid).isSome)

include acts

theorem Coherent.wakeOne {parent : Nat} : Coherent (kernel.wakeOne pid parent) := by
  unfold Kernel.wakeOne
  split
  · exact coherent.goto acts nofun trivial
  · rename_i found known
    split
    · exact coherent.goto acts nofun trivial
    · rename_i tid queue popped
      rw [coherent.free .threads]
      dsimp only
      rw [if_neg Bool.false_ne_true]
      have respects : Respects pid kernel.processes (update kernel.processes parent
          (some { found with childWait := queue })) :=
        respects_update (record_unique known) rfl (fun _ member => member) (fun running => .inr running)
          fun zombie => .inr ⟨zombie, rfl⟩
      refine coherent.change acts respects (coherent.records.assign known rfl rfl rfl rfl) trivial
        nofun ?_ ?_ rfl rfl
      · rw [withProcessMut_processes, known]
        rfl
      · intro other
        dsimp only
        rw [withProcessMut_tasks, Option.map_map]
        congr 1
        funext task
        dsimp only [Function.comp]
        split <;> rfl

variable {pidArg : BitVec 32}

theorem Coherent.waitCheck {left : List Nat} {statusCopied : Bool}
    (alive : Alive kernel.processes pid)
    (recorded : ∀ other ∈ child :: left, Recorded kernel.processes pid other) {found : Process}
    (known : kernel.processes child = some found) :
    Coherent (if found.state = .zombie then
        kernel.goto pid (if statusCopied then .waitReap child found.exitCode else .user)
      else kernel.goto pid (nextCheck left pidArg statusCopied)) := by
  split
  · rename_i zombie
    split
    · refine coherent.goto acts nofun ⟨alive, recorded child mem_cons_self, ?_⟩
      exact ⟨found, known, zombie, rfl⟩
    · exact coherent.goto acts nofun alive
  · exact coherent.goto acts nextCheck_plain
      (nextCheck_ok alive fun other member => recorded other (mem_cons_of_mem _ member))

theorem Coherent.waitReap (alive : Alive kernel.processes pid)
    (recorded : Recorded kernel.processes pid child)
    (waiting : Waiting kernel.processes child code) :
    Coherent (((kernel.withProcessMut child fun process => { process with state := .dead }).tell
      (.reported pid child code)).goto pid .user) := by
  have notSelf : pid ≠ child := by
    rintro rfl
    exact alive.not_waiting waiting
  obtain ⟨process, known, zombie, isCode⟩ := waiting
  obtain ⟨-, same, known', isParent⟩ := coherent.records.kids pid child recorded
  cases known.symm.trans known'
  have respects : Respects pid kernel.processes
      (update kernel.processes child (some { process with state := .dead })) := by
    refine respects_update (record_unique known) rfl (fun _ member => member) ?_ (fun _ => .inl isParent)
    intro running
    cases running.symm.trans zombie
  refine coherent.change acts respects
    (coherent.records.reap recorded known zombie isCode rfl rfl rfl rfl) ?_
    nofun ?_ (fun _ => rfl) rfl rfl
  · exact (alive_congr (update_congr notSelf)).mpr alive
  · rw [tell_processes, withProcessMut_processes, known]
    rfl

theorem Coherent.tellParent {event : Event} (allowed : Allowed kernel.log event)
    (silent : ∀ parent child code, event ≠ .forked parent child ∧ event ≠ .exited child code ∧
      event ≠ .reported parent child code)
    (plain : ∀ child tid, stage ≠ .insertThread child tid)
    (ok : StageOk kernel.processes pid stage) : Coherent ((kernel.tell event).goto pid stage) := by
  have records : Records kernel.processes (event :: kernel.log) := by
    refine ⟨coherent.records.small, coherent.records.kids, ?_, ?_, ?_, allowed,
      coherent.records.protocol⟩
    · intro parent child
      rw [mem_cons, or_iff_right (silent parent child 0).1.symm]
      exact coherent.records.forked parent child
    · intro other code
      rw [mem_cons, or_iff_right (silent 0 other code).2.1.symm]
      exact coherent.records.exited other code
    · intro parent child code
      rw [mem_cons, or_iff_right (silent parent child code).2.2.symm]
      exact coherent.records.reported parent child code
  have told : Coherent (kernel.tell event) := ⟨coherent.threads, records, coherent.free⟩
  exact told.goto acts plain ok

theorem Coherent.waitCount (known : kernel.processes pid = some process)
    (alive : Alive kernel.processes pid)
    (allowed : (process.childCount = 0 || unreported kernel process) = true) :
    Coherent (if 0 < process.childCount then (kernel.tell (.waits pid)).goto pid (.waitBlock pidArg)
      else (kernel.tell (.noChild pid)).goto pid .user) := by
  have here : ∀ child, Recorded kernel.processes pid child ↔ child ∈ process.kids := by
    intro child
    simp [Recorded, known]
  split
  · rename_i some
    have count : ¬ process.childCount = 0 := by omega
    rw [decide_eq_false count, Bool.false_or, unreported, any_eq_true] at allowed
    obtain ⟨child, member, left⟩ := allowed
    refine coherent.tellParent acts ⟨child, ?_, ?_⟩
      (fun _ _ _ => ⟨Event.noConfusion, Event.noConfusion, Event.noConfusion⟩)
      (fun _ _ => Stage.noConfusion) alive
    · rw [coherent.records.forked, here]
      exact member
    · -- A child that is reported is dead.
      intro code wasReported
      obtain ⟨found, foundAt, dead, -⟩ := (coherent.records.reported pid child code).mp wasReported
      rw [foundAt, Option.any_some, dead] at left
      exact absurd left (by decide)
  · rename_i none
    refine coherent.tellParent acts ?_
      (fun _ _ _ => ⟨Event.noConfusion, Event.noConfusion, Event.noConfusion⟩)
      (fun _ _ => Stage.noConfusion) alive
    intro child wasForked
    rw [coherent.records.forked, here, Process.kids] at wasForked
    have count : process.childCount = 0 := by omega
    rw [count] at wasForked
    cases wasForked

end Transitions

theorem Coherent.perform (coherent : Coherent kernel)
    (known : kernel.processes pid = some process) (isTask : kernel.tasks pid = some task)
    (allowed : sustainable kernel (.advance pid) = true) :
    Coherent (kernel.perform pid process task) := by
  have acts := Option.isSome_of_eq_some isTask
  have ok := coherent.threads.stages pid task isTask
  have here : Recorded kernel.processes pid = fun child => child ∈ process.kids := by
    funext child
    simp [Recorded, known]
  rw [sustainable, known, isTask] at allowed
  obtain ⟨tid, state, stage⟩ := task
  cases stage with
  | user | spinning => exact coherent
  | forkThread spaceCopied | waitThread pidArg statusCopied => exact coherent.goto acts (fun _ _ => Stage.noConfusion) ok
  | forkSpace spaceCopied =>
    unfold perform
    dsimp only
    split <;> exact coherent.goto acts (fun _ _ => Stage.noConfusion) ok
  | forkIds =>
    have counted : Coherent { kernel with
        nextPid := (kernel.nextPid + 1) % 2 ^ 32
        nextTid := (kernel.nextTid + 1) % 2 ^ 32 } :=
      { coherent with }
    exact counted.goto acts (fun _ _ => Stage.noConfusion) ok
  | forkRead locks child tid | exitRead locks code =>
    cases locks with
    | nil | cons lock locks => exact coherent.goto acts (fun _ _ => Stage.noConfusion) ok
  | insertProcess child childTid =>
    unfold perform
    dsimp only
    split
    · rename_i fresh
      exact coherent.insertProcess isTask ok fresh.1 (Option.isNone_iff_eq_none.mp fresh.2) rfl rfl rfl
    · exact coherent.goto acts (fun _ _ => Stage.noConfusion) ok
  | insertThread child childTid =>
    unfold perform
    dsimp only
    split
    · exact coherent.insertThread isTask
    · exact coherent.goto acts (fun _ _ => Stage.noConfusion) ok.1
  | addChild child childTid =>
    exact coherent.addChild known acts ok.1 ok.2 (of_decide_eq_true allowed)
  | enqueue child =>
    exact coherent.retask acts (fun _ _ => Stage.noConfusion) ok withTask_stage rfl rfl rfl
  | exitMark code => exact coherent.exitMark known acts ok
  | exitThread =>
    exact coherent.retask acts (fun _ _ => Stage.noConfusion) trivial withTask_stage rfl rfl rfl
  | exitWake => exact coherent.wakeOne acts
  | exitBlock => cases allowed
  | waitList pidArg statusCopied =>
    refine coherent.goto acts nextCheck_plain (nextCheck_ok ok ?_)
    intro child member
    rw [here]
    exact (mem_filter.mp member).1
  | waitCheck child left pidArg statusCopied =>
    obtain ⟨-, found, foundAt, -⟩ := coherent.records.kids pid child (ok.2 child mem_cons_self)
    unfold perform
    dsimp only
    rw [foundAt]
    exact coherent.waitCheck acts ok.1 ok.2 foundAt
  | waitReap child code => exact coherent.waitReap acts ok.1 ok.2.1 ok.2.2
  | waitCount pidArg => exact coherent.waitCount acts known ok allowed
  | waitBlock pidArg => cases allowed

theorem Coherent.step (coherent : Coherent kernel) (allowed : sustainable kernel action = true)
    (moved : kernel.step action = .ok next) : Coherent next := by
  cases action with
  | call pid call =>
    rw [step] at moved
    split at moved
    · cases moved
    · rename_i task isTask
      split at moved
      · rename_i atUser
        cases moved
        have acts := Option.isSome_of_eq_some isTask
        have alive : Alive kernel.processes pid := by
          have ok := coherent.threads.stages pid task isTask
          rwa [atUser.1] at ok
        cases call with
        | fork _ | exit _ | wait4 _ _ => exact coherent.goto acts nofun alive
      · cases moved
  | advance pid =>
    rw [step] at moved
    split at moved
    · rename_i process task known isTask
      split at moved
      · cases moved
        exact coherent.perform known isTask allowed
      · cases moved
    · cases moved

theorem coherent_boot (tid : Nat) : Coherent (boot tid) := by
  have known : ∀ pid process, (boot tid).processes pid = some process →
      pid < maxProcesses ∧ process.state = .running ∧ process.kids = [] := by
    intro pid process known
    unfold boot at known
    dsimp only at known
    unfold maxProcesses
    split at known
    · rename_i isKernel
      cases known
      exact ⟨isKernel ▸ (by decide), rfl, rfl⟩
    · split at known
      · cases known
        exact ⟨by omega, rfl, rfl⟩
      · cases known
  have noKids : ∀ parent child, ¬ Recorded (boot tid).processes parent child := by
    rintro parent child ⟨process, found, member⟩
    rw [(known parent process found).2.2] at member
    cases member
  have notWaiting : ∀ pid code, ¬ Waiting (boot tid).processes pid code := by
    rintro pid code ⟨process, found, zombie, -⟩
    cases (known pid process found).2.1.symm.trans zombie
  have notGone : ∀ parent pid code, ¬ Gone (boot tid).processes parent pid code := by
    rintro parent pid code ⟨process, found, dead, -⟩
    cases (known pid process found).2.1.symm.trans dead
  have only : ∀ pid task, (boot tid).tasks pid = some task → pid = 1 ∧ task.stage = .user := by
    intro pid task known
    unfold boot at known
    dsimp only at known
    split at known
    · rename_i isInit
      cases known
      exact ⟨isInit, rfl⟩
    · cases known
  refine ⟨⟨?_, ?_, ?_⟩, ⟨?_, ?_, ?_, ?_, ?_, trivial⟩, fun _ => rfl⟩
  · intro pid task known
    obtain ⟨rfl, atUser⟩ := only pid task known
    rw [atUser]
    exact ⟨_, rfl, rfl⟩
  · intro pid present
    obtain ⟨task, known⟩ := Option.isSome_iff_exists.mp present
    obtain ⟨rfl, -⟩ := only pid task known
    rfl
  · intro pid task child childTid known inserts
    rw [(only pid task known).2] at inserts
    cases inserts
  · intro pid present
    obtain ⟨process, found⟩ := Option.isSome_iff_exists.mp present
    exact (known pid process found).1
  · exact fun parent child isRecorded => absurd isRecorded (noKids parent child)
  · exact fun parent child => iff_of_false not_mem_nil (noKids parent child)
  · intro pid code
    refine iff_of_false not_mem_nil ?_
    rintro (waiting | ⟨parent, gone⟩)
    · exact notWaiting pid code waiting
    · exact notGone parent pid code gone
  · exact fun parent child code => iff_of_false not_mem_nil (notGone parent child code)

theorem coherent_run (allowed : everyStep step sustainable (boot tid) actions = true)
    (run : run step (boot tid) actions = .ok kernel) : Coherent kernel :=
  holds_of_run Coherent (fun _ _ _ coherent fine moved => coherent.step fine moved)
    (coherent_boot tid) allowed run

section Reports

variable {pidArg : BitVec 32} {child : Nat} {code : BitVec 32}

theorem advance_ok (isTask : kernel.tasks pid = some task)
    (known : kernel.processes pid = some process) (free : ∀ lock, kernel.held lock = false)
    (inCall : task.stage ≠ .user) (notStuck : task.stage ≠ .spinning) :
    kernel.step (.advance pid) = .ok (kernel.perform pid process task) := by
  have takes : kernel.canTake task.stage = true := by
    unfold canTake
    split
    · rfl
    · rw [free]
      rfl
  rw [step, known, isTask]
  dsimp only
  rw [if_pos ⟨inCall, notStuck, takes⟩]

/-- The thread of a process gets a report if nobody else does anything. -/
def Reports (kernel : Kernel) (pid : Nat) (pidArg : BitVec 32) (log : List Event) : Prop :=
  ∃ count final found code,
    run step kernel (List.replicate count (.advance pid)) = .ok final ∧
    final.log = .reported pid found code :: log ∧ asks pidArg found

theorem Reports.before {log : List Event} (moved : kernel.step (.advance pid) = .ok next)
    (reports : Reports next pid pidArg log) : Reports kernel pid pidArg log := by
  obtain ⟨count, final, found, code, run, isLog, asked⟩ := reports
  exact ⟨count + 1, final, found, code, (run_cons moved).trans run, isLog, asked⟩

theorem goto_task (isTask : kernel.tasks pid = some task) :
    (kernel.goto pid stage).tasks pid = some { task with stage } := by
  rw [goto_tasks, update_self, isTask]
  rfl

theorem reports_of_check {left : List Nat} (isTask : kernel.tasks pid = some task)
    (known : kernel.processes pid = some process) (free : ∀ lock, kernel.held lock = false)
    (atCheck : task.stage = nextCheck left pidArg true)
    (asked : ∀ other ∈ left, asks pidArg other) (member : child ∈ left)
    (waiting : Waiting kernel.processes child code) : Reports kernel pid pidArg kernel.log := by
  -- The search moves on until it comes to the first child that has exited.
  induction left generalizing kernel task with
  | nil => cases member
  | cons first left ih =>
    obtain ⟨tid, state, stage⟩ := task
    cases atCheck
    apply Reports.before (advance_ok isTask known free Stage.noConfusion Stage.noConfusion)
    unfold perform
    dsimp only
    by_cases exited : ∃ found, kernel.processes first = some found ∧ found.state = .zombie
    · obtain ⟨found, foundAt, zombie⟩ := exited
      rw [foundAt]
      dsimp only
      rw [if_pos zombie, if_pos rfl]
      apply Reports.before
        (advance_ok (goto_task isTask) known free Stage.noConfusion Stage.noConfusion)
      exact ⟨0, _, first, found.exitCode, rfl, rfl, asked first mem_cons_self⟩
    · have later : child ∈ left := by
        rcases mem_cons.mp member with rfl | later
        · obtain ⟨found, foundAt, zombie, -⟩ := waiting
          exact absurd ⟨found, foundAt, zombie⟩ exited
        · exact later
      have goOn : Reports (kernel.goto pid (nextCheck left pidArg true)) pid pidArg kernel.log := by
        apply ih (goto_task isTask) known free rfl _ later waiting
        exact fun other inLeft => asked other (mem_cons_of_mem _ inLeft)
      split
      · exact goOn
      · rename_i found foundAt
        rw [if_neg fun zombie => exited ⟨found, foundAt, zombie⟩]
        exact goOn

end Reports

/--
The rules hold in every run of steps that they can survive.

In addition a parent that makes the call to wait gets a report whenever one of the children it asks
for has exited and is not reported yet.
-/
theorem exit_statuses_are_reported {tid : Nat} {actions : List Action}
    (allowed : everyStep step sustainable (boot tid) actions = true)
    (run : run step (boot tid) actions = .ok kernel) :
    Protocol kernel.log ∧
    ∀ parent child code task pidArg, .forked parent child ∈ kernel.log →
      .exited child code ∈ kernel.log → (∀ other, .reported parent child other ∉ kernel.log) →
      kernel.tasks parent = some task → task.stage = .user → task.state = .runnable →
      asks pidArg child →
      ∃ next, kernel.step (.call parent (.wait4 pidArg true)) = .ok next ∧
        Reports next parent pidArg kernel.log := by
  have coherent := coherent_run allowed run
  refine ⟨coherent.records.protocol, ?_⟩
  intro parent child code task pidArg forked exited unreported isTask atUser runnable asked
  have recorded := (coherent.records.forked parent child).mp forked
  have waiting : Waiting kernel.processes child code := by
    rcases (coherent.records.exited child code).mp exited with waiting | ⟨other, gone⟩
    · exact waiting
    · -- A child that is gone was reported to its parent.
      obtain ⟨-, process, known, isParent⟩ := coherent.records.kids parent child recorded
      obtain ⟨same, known', dead, -, isCode⟩ := gone
      cases known.symm.trans known'
      exact absurd ((coherent.records.reported parent child code).mpr
        ⟨process, known, dead, isParent, isCode⟩) (unreported code)
  refine ⟨kernel.goto parent (.waitThread pidArg true), ?_, ?_⟩
  · rw [step, isTask]
    dsimp only
    rw [if_pos ⟨atUser, runnable⟩]
    rfl
  · obtain ⟨process, known, member⟩ := recorded
    apply Reports.before
      (advance_ok (goto_task isTask) known coherent.free Stage.noConfusion Stage.noConfusion)
    apply Reports.before (advance_ok (goto_task (goto_task isTask)) known coherent.free
      Stage.noConfusion Stage.noConfusion)
    have candidates : ∀ other ∈ process.kids.filter (asks pidArg), asks pidArg other :=
      fun other inKids => (mem_filter.mp inKids).2
    exact reports_of_check (goto_task (goto_task (goto_task isTask))) known coherent.free rfl
      candidates (mem_filter.mpr ⟨member, asked⟩) waiting

/-- A process makes a call and takes a number of steps in it. -/
def acts (pid : Nat) (call : Call) (steps : Nat) : List Action :=
  .call pid call :: List.replicate steps (.advance pid)

/-- The first process makes a child, and the child exits with code 7 up to where it blocks. -/
def childExits : List Action := acts 1 (.fork true) 13 ++ acts 2 (.exit 7) 7

theorem ran_of_map {α : Type} {fact : Kernel → α} {value : α} {outcome : Except Unit Kernel}
    (known : outcome.toOption.map fact = some value) :
    ∃ kernel, outcome = .ok kernel ∧ fact kernel = value := by
  cases outcome with
  | error failure => cases known
  | ok kernel => exact ⟨kernel, rfl, Option.some.inj known⟩

/-- The parent of a child that has exited gets a report. -/
theorem exit_statuses_are_reported_once :
    ∃ kernel, run step (boot 1) childExits = .ok kernel ∧
      kernel.log = [.exited 2 7, .forked 1 2] ∧
      ∃ next, kernel.step (.call 1 (.wait4 (-1) true)) = .ok next ∧
        Reports next 1 (-1) kernel.log := by
  obtain ⟨kernel, run, facts⟩ := ran_of_map (by decide :
    (run step (boot 1) childExits).toOption.map
      (fun kernel => (kernel.log, kernel.tasks 1)) =
        some ([.exited 2 7, .forked 1 2], some ⟨1, .runnable, .user⟩))
  obtain ⟨log, isTask⟩ := Prod.mk.inj facts
  have reported := (exit_statuses_are_reported (by decide) run).2 1 2 7 ⟨1, .runnable, .user⟩
    (-1)
  rw [log] at reported
  refine ⟨kernel, run, log, ?_⟩
  rw [log]
  exact reported (by decide) (by decide) (by simp) isTask rfl rfl (by decide)

/-- Every thread is in user mode, or waits for the thread table, or waits forever. -/
def Stuck (kernel : Kernel) : Prop :=
  kernel.held .threads = true ∧ ∀ pid task, kernel.tasks pid = some task →
    task.stage = .user ∨ task.stage.lock = some .threads ∨ task.stage = .spinning

theorem Stuck.step (stuck : Stuck kernel) (moved : kernel.step action = .ok next) :
    Stuck next ∧ next.log = kernel.log := by
  cases action with
  | call pid call =>
    rw [step] at moved
    split at moved
    · cases moved
    · split at moved
      · cases moved
        refine ⟨⟨stuck.1, ?_⟩, rfl⟩
        intro other task known
        rw [goto_tasks] at known
        rcases Slots.of_update known with ⟨rfl, known⟩ | ⟨-, known⟩
        · -- Every call starts with a look at the thread table.
          obtain ⟨before, -, rfl⟩ := Option.map_eq_some_iff.mp known
          cases call with
          | fork spaceCopied | exit status | wait4 pidArg statusCopied => exact .inr (.inl rfl)
        · exact stuck.2 other task known
      · cases moved
  | advance pid =>
    rw [step] at moved
    split at moved
    · rename_i process task known isTask
      split at moved
      · rename_i can
        obtain ⟨inCall, notSpinning, takes⟩ := can
        rcases stuck.2 pid task isTask with atUser | needs | spinning
        · exact absurd atUser inCall
        · rw [canTake, needs] at takes
          dsimp only at takes
          rw [stuck.1] at takes
          cases takes
        · exact absurd spinning notSpinning
      · cases moved
    · cases moved

theorem Stuck.run {final : Kernel} (stuck : Stuck kernel)
    (run : run Kernel.step kernel actions = .ok final) : final.log = kernel.log := by
  have anything : everyStep Kernel.step (fun _ _ => true) kernel actions = true :=
    everyStep_of_forall fun _ _ => rfl
  have always : Stuck final ∧ final.log = kernel.log := by
    refine holds_of_run (fun state => Stuck state ∧ state.log = kernel.log) ?_ ⟨stuck, rfl⟩
      anything run
    rintro state action next' ⟨isStuck, log⟩ - moved
    obtain ⟨stays, same⟩ := isStuck.step moved
    exact ⟨stays, same.trans log⟩
  exact always.2

theorem stuck_of_exitBlock (coherent : Coherent kernel)
    (isTask : kernel.tasks pid = some ⟨tid, state, .exitBlock⟩)
    (others : ∀ other < maxProcesses, other ≠ pid → ∀ task, kernel.tasks other = some task →
      task.stage = .user) :
    ∃ final, kernel.step (.advance pid) = .ok final ∧ Stuck final ∧ final.log = kernel.log := by
  obtain ⟨process, known⟩ :=
    Option.isSome_iff_exists.mp (coherent.threads.owned pid (Option.isSome_of_eq_some isTask))
  refine ⟨_, advance_ok isTask known coherent.free Stage.noConfusion Stage.noConfusion, ⟨?_, ?_⟩, rfl⟩
  · change (kernel.held .threads || decide (TableLock.threads ∈ [TableLock.threads])) = true
    rw [Bool.or_eq_true]
    exact .inr (by decide)
  · intro other task found
    change update (update kernel.tasks pid _) pid _ other = some task at found
    rcases Slots.of_update found with ⟨rfl, found⟩ | ⟨here, found⟩
    · obtain ⟨before, -, rfl⟩ := Option.map_eq_some_iff.mp found
      exact .inr (.inr rfl)
    · rw [update_of_ne here] at found
      have owned := coherent.threads.owned other (Option.isSome_of_eq_some found)
      exact .inl (others other (coherent.records.small other owned) here task found)

/--
The exit of a child locks the thread table for good, so that nobody ever hears of it.

And if the parent is quick enough to hear of it before that, then its next call waits instead of
telling that there is no child.
-/
theorem child_exits_unheard :
    (∃ before kernel, run step (boot 1) childExits = .ok before ∧
      before.step (.advance 2) = .ok kernel ∧ kernel.log = [.exited 2 7, .forked 1 2] ∧
      ∀ actions final, run step kernel actions = .ok final →
        ∀ code, .reported 1 2 code ∉ final.log) ∧
    ∃ kernel, run step (boot 1)
        (childExits ++ acts 1 (.wait4 (-1) true) 4 ++ acts 1 (.wait4 (-1) true) 5) = .ok kernel ∧
      kernel.log = [.slept 1 (-1), .waits 1, .reported 1 2 7, .exited 2 7, .forked 1 2] ∧
      ¬ Protocol kernel.log := by
  constructor
  · obtain ⟨before, run, facts⟩ := ran_of_map (by decide :
      (run step (boot 1) childExits).toOption.map
        (fun kernel => (kernel.log, kernel.tasks 2, (List.range maxProcesses).all fun pid =>
          pid = 2 || (kernel.tasks pid).all fun task => task.stage = .user)) =
        some ([.exited 2 7, .forked 1 2], some ⟨2, .zombie, .exitBlock⟩, true))
    obtain ⟨log, facts⟩ := Prod.mk.inj facts
    obtain ⟨isTask, idle⟩ := Prod.mk.inj facts
    have coherent := coherent_run (by decide) run
    obtain ⟨kernel, moved, stuck, same⟩ := stuck_of_exitBlock coherent isTask (by
      intro other small differs task found
      have atUser := all_eq_true.mp idle other (mem_range.mpr small)
      rw [decide_eq_false differs, Bool.false_or, found, Option.all_some] at atUser
      exact of_decide_eq_true atUser)
    refine ⟨before, kernel, run, moved, same.trans log, ?_⟩
    intro actions final later code
    rw [stuck.run later, same, log]
    simp
  · obtain ⟨kernel, run, log⟩ := ran_of_map (by decide :
      (run step (boot 1) (childExits ++ acts 1 (.wait4 (-1) true) 4 ++
        acts 1 (.wait4 (-1) true) 5)).toOption.map (·.log) =
        some [.slept 1 (-1), .waits 1, .reported 1 2 7, .exited 2 7, .forked 1 2])
    refine ⟨kernel, run, log, ?_⟩
    rw [log]
    rintro ⟨-, ⟨child, forked, unreported⟩, -⟩
    -- The only child was reported before.
    have isChild : child = 2 := by
      simpa using forked
    subst isChild
    exact unreported 7 mem_cons_self

end TheoryKernel.Proc
