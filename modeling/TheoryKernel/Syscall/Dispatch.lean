import TheoryKernel.Proc.Pcb
import TheoryKernel.Security.Seccomp

/-! System calls that threads make, and the filters that decide which of them are carried out. -/

namespace TheoryKernel.Syscall

open Function
open Proc (Credentials maxProcesses maxThreads)
open Security (CapSet Nr SeccompFilter)

/-- The part of a process that decides about its system calls. -/
structure Guard where
  cred : Credentials
  seccomp : SeccompFilter

/-- How far a thread is in a system call; each place but the first is the next use of a table. -/
inductive Stage where
  | user
  | prctlCapable (mode : BitVec 64)
  | prctlApply (mode : BitVec 64)
  | forkSpace (spaceCopied : Bool)
  | forkIds
  | forkCred (child tid : Nat)
  | forkSeccomp (child tid : Nat) (cred : Credentials)
  | insertProcess (child tid : Nat) (guard : Guard)
  | insertThread (child tid : Nat)
  | handling (nr : Nr)

/-- A thread, which belongs to a process. -/
structure Caller where
  pid : Nat
  stage : Stage

/-- What can be told about system calls. -/
inductive Event where
  | dispatched (pid : Nat) (nr : Nr)
  | entered (pid : Nat)

/-- The tables, the next free numbers, and what happened with the latest event first. -/
structure Calls where
  processes : Nat → Option Guard
  threads : Nat → Option Caller
  nextPid : Nat
  nextTid : Nat
  log : List Event

/-- The option of prctl that changes the filter. -/
def prSetSeccomp : BitVec 64 := 22

/-- The calls that the filter mode of prctl allows. -/
def filterCalls : List Nr := [0, 1, 60, 15]

/-- The filter of a process after prctl, for the modes that there are. -/
def applyMode (filter : SeccompFilter) (mode : BitVec 64) : Option SeccompFilter :=
  if mode = 1 then some filter.setStrict
  else if mode = 2 then filter.setFilter filterCalls
  else none

namespace Calls

/-- Going on to another place of a system call. -/
def goto (calls : Calls) (tid : Nat) (stage : Stage) : Calls :=
  { calls with
    threads := update calls.threads tid
      ((calls.threads tid).map fun caller => { caller with stage }) }

/-- Keeping an event in mind. -/
def tell (calls : Calls) (event : Event) : Calls := { calls with log := event :: calls.log }

/-- The process of a number that the table can hold. -/
def process (calls : Calls) (pid : Nat) : Option Guard :=
  if pid < maxProcesses then calls.processes pid else none

/-- Whether the filter of a process lets a call pass; without a process every call does. -/
def checkCurrent (calls : Calls) (pid : Nat) (nr : Nr) : Bool :=
  ((calls.process pid).map fun guard => guard.seccomp.allows nr).getD true

/-- The first place of the handler of a call. -/
def handler (nr : Nr) (option mode : BitVec 64) (spaceCopied : Bool) : Stage :=
  if nr = Nr.prctl then
    if option = prSetSeccomp then .prctlCapable mode else .handling nr
  else if nr = Nr.fork ∨ nr = Nr.clone then .forkSpace spaceCopied
  else .handling nr

/-- The entry of a system call: the filter is asked, and the call is dispatched or refused. -/
def syscallDispatch (calls : Calls) (tid : Nat) (caller : Caller) (nr : Nr)
    (option mode : BitVec 64) (spaceCopied : Bool) : Calls :=
  if nr ≠ Nr.rtSigreturn ∧ calls.checkCurrent caller.pid nr = false then calls
  else (calls.goto tid (handler nr option mode spaceCopied)).tell (.dispatched caller.pid nr)

/-- The change of a filter, if the process and the mode exist. -/
def applyFilter (calls : Calls) (tid pid : Nat) (mode : BitVec 64) : Calls :=
  match calls.process pid with
  | none => calls.goto tid .user
  | some guard =>
    match applyMode guard.seccomp mode with
    | none => calls.goto tid .user
    | some seccomp =>
      ({ calls with
        processes := update calls.processes pid (some { guard with seccomp }) }.goto tid
          .user).tell (.entered pid)

/-- The next use of a table by a thread. -/
def perform (calls : Calls) (tid : Nat) (caller : Caller) : Calls :=
  match caller.stage with
  | .user => calls
  | .handling _ => calls.goto tid .user
  | .prctlCapable mode =>
    match calls.process caller.pid with
    | some guard =>
      if guard.cred.capable CapSet.sysAdmin then calls.goto tid (.prctlApply mode)
      else calls.goto tid .user
    | none => calls.goto tid .user
  | .prctlApply mode => calls.applyFilter tid caller.pid mode
  | .forkSpace spaceCopied =>
    if spaceCopied ∧ (calls.process caller.pid).isSome then calls.goto tid .forkIds
    else calls.goto tid .user
  | .forkIds =>
    { calls with
      nextPid := (calls.nextPid + 1) % 2 ^ 32
      nextTid := (calls.nextTid + 1) % 2 ^ 32 }.goto tid (.forkCred calls.nextPid calls.nextTid)
  | .forkCred child childTid =>
    match calls.process caller.pid with
    | some guard => calls.goto tid (.forkSeccomp child childTid guard.cred)
    | none => calls.goto tid .user
  | .forkSeccomp child childTid cred =>
    match calls.process caller.pid with
    | some guard =>
      calls.goto tid (.insertProcess child childTid ⟨cred.fork, guard.seccomp⟩)
    | none => calls.goto tid .user
  | .insertProcess child childTid guard =>
    if child < maxProcesses ∧ (calls.processes child).isNone then
      { calls with processes := update calls.processes child (some guard) }.goto tid
        (.insertThread child childTid)
    else calls.goto tid .user
  | .insertThread child childTid =>
    if childTid < maxThreads ∧ (calls.threads childTid).isNone then
      { calls with threads := update calls.threads childTid (some ⟨child, .user⟩) }.goto
        tid .user
    else calls.goto tid .user

/-- What a thread can do: make a system call, or go on with the one it is in. -/
inductive Action where
  | call (nr : Nr) (option mode : BitVec 64) (spaceCopied : Bool)
  | advance

/-- A step of a thread; threads that do not exist or are in a call make no calls. -/
def step (calls : Calls) (tid : Nat) (action : Action) : Calls :=
  match calls.threads tid with
  | none => calls
  | some caller =>
    match action, caller.stage with
    | .call nr option mode spaceCopied, .user =>
      calls.syscallDispatch tid caller nr option mode spaceCopied
    | .call _ _ _ _, _ => calls
    | .advance, _ => calls.perform tid caller

/-- The steps of threads, one after another. -/
def run (calls : Calls) (steps : List (Nat × Action)) : Calls :=
  steps.foldl (fun calls next => calls.step next.1 next.2) calls

/-- Tables before any event. -/
def start (processes : Nat → Option Guard) (threads : Nat → Option Caller)
    (nextPid nextTid : Nat) : Calls := ⟨processes, threads, nextPid, nextTid, []⟩

/-- The processes that have changed to a mode are restricted, and every call after that remained. -/
structure OneWay (calls : Calls) : Prop where
  restricted : ∀ pid, Event.entered pid ∈ calls.log →
    ∃ guard, calls.process pid = some guard ∧ guard.seccomp.Restricted
  dispatched : ∀ later earlier pid nr,
    calls.log = later ++ Event.dispatched pid nr :: earlier → Event.entered pid ∈ earlier →
      nr ∈ SeccompFilter.remaining

/-- The events stay, and the processes that were there keep their filters or restrict them. -/
structure Narrows (calls changed : Calls) : Prop where
  log : changed.log = calls.log
  kept : ∀ pid guard, calls.process pid = some guard → guard.seccomp.Restricted →
    ∃ guard', changed.process pid = some guard' ∧ guard'.seccomp.Restricted

variable {calls changed : Calls}

theorem OneWay.narrow (oneWay : OneWay calls) (narrows : Narrows calls changed) :
    OneWay changed where
  restricted := by
    intro pid entered
    rw [narrows.log] at entered
    obtain ⟨guard, isProcess, restricted⟩ := oneWay.restricted pid entered
    exact narrows.kept pid guard isProcess restricted
  dispatched := by
    rw [narrows.log]
    exact oneWay.dispatched

theorem OneWay.same (oneWay : OneWay calls) (processes : changed.processes = calls.processes)
    (log : changed.log = calls.log) : OneWay changed := by
  refine oneWay.narrow ⟨log, ?_⟩
  intro pid guard isProcess restricted
  refine ⟨guard, ?_, restricted⟩
  rw [process, processes]
  exact isProcess

theorem restricted_applyMode {filter seccomp : SeccompFilter} {mode : BitVec 64}
    (applied : applyMode filter mode = some seccomp) : seccomp.Restricted := by
  unfold applyMode at applied
  split at applied
  · cases applied
    exact SeccompFilter.restricted_setStrict filter
  · split at applied
    · have listed : ∀ nr ∈ filterCalls, nr ∈ SeccompFilter.remaining := by
        simp [filterCalls, SeccompFilter.remaining, Nr.read, Nr.write, Nr.exit, Nr.rtSigreturn]
      exact SeccompFilter.restricted_setFilter listed applied
    · cases applied

section

variable (oneWay : OneWay calls)

include oneWay

theorem OneWay.applyFilter (tid pid : Nat) (mode : BitVec 64) :
    OneWay (calls.applyFilter tid pid mode) := by
  unfold Calls.applyFilter
  split
  · exact oneWay.same rfl rfl
  · rename_i guard isProcess
    split
    · exact oneWay.same rfl rfl
    · rename_i seccomp applied
      have restricted := restricted_applyMode applied
      have small : pid < maxProcesses := by
        by_contra large
        rw [process, if_neg large] at isProcess
        cases isProcess
      refine ⟨?_, ?_⟩
      · intro other entered
        by_cases same : other = pid
        · subst same
          refine ⟨{ guard with seccomp }, ?_, restricted⟩
          rw [process, if_pos small]
          exact update_self other _ calls.processes
        · -- Another process has entered before, and its filter is as it was.
          have before : Event.entered other ∈ calls.log := by
            rcases List.mem_cons.mp entered with isPid | before
            · cases isPid
              exact absurd rfl same
            · exact before
          obtain ⟨old, isOld, oldRestricted⟩ := oneWay.restricted other before
          refine ⟨old, ?_, oldRestricted⟩
          rw [← isOld, process, process]
          exact if_congr Iff.rfl (update_of_ne same _ _) rfl
      · intro later earlier other nr split entered
        -- The event of the change is not a call, so the call is among the events before.
        cases later with
        | nil => cases (List.cons.inj split).1
        | cons last later =>
          exact oneWay.dispatched later earlier other nr (List.cons.inj split).2 entered

theorem OneWay.perform (tid : Nat) (caller : Caller) : OneWay (calls.perform tid caller) := by
  unfold Calls.perform
  cases caller.stage with
  | user => exact oneWay
  | handling nr | forkIds => exact oneWay.same rfl rfl
  | prctlCapable mode =>
    dsimp only
    split
    · split <;> exact oneWay.same rfl rfl
    · exact oneWay.same rfl rfl
  | prctlApply mode => exact oneWay.applyFilter tid caller.pid mode
  | forkSpace spaceCopied | forkCred child childTid | forkSeccomp child childTid cred
  | insertThread child childTid =>
    dsimp only
    split <;> exact oneWay.same rfl rfl
  | insertProcess child childTid guard =>
    dsimp only
    split
    · rename_i room
      refine oneWay.narrow ⟨rfl, fun pid old isProcess restricted => ⟨old, ?_, restricted⟩⟩
      -- The number of the child is not that of a process in the table.
      have other : pid ≠ child := by
        rintro rfl
        unfold process at isProcess
        split at isProcess
        · rw [isProcess] at room
          cases room.2
        · cases isProcess
      rw [← isProcess, process, process]
      exact if_congr Iff.rfl (update_of_ne other _ _) rfl
    · exact oneWay.same rfl rfl

theorem OneWay.syscallDispatch (tid : Nat) (caller : Caller) (nr : Nr) (option mode : BitVec 64)
    (spaceCopied : Bool) :
    OneWay (calls.syscallDispatch tid caller nr option mode spaceCopied) := by
  unfold Calls.syscallDispatch
  split
  · exact oneWay
  · rename_i passes
    refine ⟨?_, ?_⟩
    · intro pid entered
      -- The call is no change of a filter.
      rcases List.mem_cons.mp entered with isCall | before
      · cases isCall
      · exact oneWay.restricted pid before
    · intro later earlier pid nr' split entered
      cases later with
      | cons last later =>
        exact oneWay.dispatched later earlier pid nr' (List.cons.inj split).2 entered
      | nil =>
        obtain ⟨isCall, isLog⟩ := List.cons.inj split
        cases isCall
        rw [← isLog] at entered
        obtain ⟨guard, isProcess, restricted⟩ := oneWay.restricted caller.pid entered
        by_cases isReturn : nr = Nr.rtSigreturn
        · rw [isReturn]
          decide
        · -- The process exists, so its filter has been asked.
          have asked : calls.checkCurrent caller.pid nr = true := by
            by_contra refused
            exact passes ⟨isReturn, Bool.eq_false_iff.mpr refused⟩
          rw [checkCurrent, isProcess] at asked
          exact restricted.calls nr asked

theorem OneWay.step (tid : Nat) (action : Action) : OneWay (calls.step tid action) := by
  unfold Calls.step
  split
  · exact oneWay
  · rename_i caller isThread
    split
    · exact oneWay.syscallDispatch tid caller _ _ _ _
    · exact oneWay
    · exact oneWay.perform tid caller

theorem OneWay.run (steps : List (Nat × Action)) : OneWay (calls.run steps) := by
  induction steps generalizing calls with
  | nil => exact oneWay
  | cons next rest ih => exact ih (oneWay.step next.1 next.2)

end

/--
A process that has changed to a seccomp mode never gets out of it.

After the change, only the remaining calls are dispatched for it, and its mode is not disabled.
-/
theorem seccomp_is_one_way (processes : Nat → Option Guard) (threads : Nat → Option Caller)
    (nextPid nextTid : Nat) (steps : List (Nat × Action)) :
    (∀ later earlier pid nr,
      ((start processes threads nextPid nextTid).run steps).log =
        later ++ Event.dispatched pid nr :: earlier →
      Event.entered pid ∈ earlier → nr ∈ SeccompFilter.remaining) ∧
    ∀ pid, Event.entered pid ∈ ((start processes threads nextPid nextTid).run steps).log →
      ∃ guard, ((start processes threads nextPid nextTid).run steps).process pid = some guard ∧
        guard.seccomp.mode ≠ Security.seccompModeDisabled := by
  have begins : OneWay (start processes threads nextPid nextTid) := by
    refine ⟨fun pid entered => absurd entered List.not_mem_nil, ?_⟩
    intro later earlier pid nr split
    exact absurd split.symm (by simp [start])
  have oneWay := begins.run steps
  refine ⟨oneWay.dispatched, ?_⟩
  intro pid entered
  obtain ⟨guard, isProcess, restricted⟩ := oneWay.restricted pid entered
  exact ⟨guard, isProcess, restricted.mode⟩

end Calls

end TheoryKernel.Syscall
