import TheoryKernel.Syscall.ProcessCalls
import TheoryKernel.Syscall.SleepLocks

/-! Which calls take the lock of the process table while they hold it already. -/

namespace TheoryKernel.Syscall

open Fs (FdEntry)
open Ipc (PipeInner UnixSocket WaitQueue)
open Proc (kernelPid maxProcesses maxThreads)
open Locking.Code Within

variable {α β : Type} {held : Locking.Held Lock} {world after : World}

section Within

variable {allowed : List Lock} {id room rounds pid statusPtr : Nat} {data : Bytes}
  {waitPid : BitVec 32} {entry : FdEntry}

theorem within_blockOn {queue : WaitQueue} {update : WaitQueue → Tables → Tables} :
    Within allowed (blockOn queue fun queue => change (update queue)) := by
  refine read.bind fun tid => modify.bind fun _ => ?_
  refine locks.bind fun held => modify.bind fun _ => read.bind fun others => ?_
  cases others with
  | nil => exact pure
  | cons first later => exact modify.bind fun _ => pure

theorem within_again {sleep : Code (Option Bool)} {rest : Code (Option α)}
    (within : Within allowed sleep) (again : Within allowed rest) :
    Within allowed (do
      let woken ← sleep
      if woken = some false then pure none else rest) := by
  refine within.bind fun woken => ?_
  split
  · exact pure
  · exact again

theorem within_pipeRead : Within [.pipes] (pipeRead id room rounds) := by
  induction rounds with
  | zero => exact pure
  | succ rounds ih =>
    refine (Tame.withSlot (by simp) fun _ => .tryPipeRead).within.bind fun tried => ?_
    match tried with
    | some (.error .wouldBlock) =>
      refine within_again (within_withSlot (by simp) fun pipe => ?_) ih
      split
      · exact pure
      · split
        · exact pure
        · exact within_blockOn
    | none | some (.ok _) | some (.error .badFd) | some (.error .epipe) => exact pure

theorem within_pipeWrite : Within [.pipes] (pipeWrite id data rounds) := by
  induction rounds with
  | zero => exact pure
  | succ rounds ih =>
    refine (Tame.withSlot (by simp) fun _ => .tryPipeWrite).within.bind fun tried => ?_
    match tried with
    | some (.error .wouldBlock) =>
      refine within_again (within_withSlot (by simp) fun pipe => ?_) ih
      split
      · exact pure
      · exact within_blockOn
    | none | some (.ok _) | some (.error .badFd) | some (.error .epipe) => exact pure

theorem within_recv : Within [.sockets] (recv id room rounds) := by
  induction rounds with
  | zero => exact pure
  | succ rounds ih =>
    refine (Tame.withSlot (by simp) fun _ => .tryRecv).within.bind fun tried => ?_
    rcases tried with _ | error | bytes
    · exact pure
    · cases error with
      | wouldBlock => exact within_again (within_withSlot (by simp) fun _ => within_blockOn) ih
      | _ => exact pure
    · exact pure

theorem within_send : Within [.sockets] (send id data rounds) := by
  induction rounds with
  | zero => exact pure
  | succ rounds ih =>
    refine (within_withSlot (by simp) fun _ => pure).bind fun named => ?_
    cases named.join with
    | none => exact pure
    | some peer =>
      refine (Tame.withSlot (by simp) fun _ => .trySend).within.bind fun tried => ?_
      rcases tried with _ | error | count
      · exact pure
      · cases error with
        | wouldBlock => exact within_again (within_withSlot (by simp) fun _ => within_blockOn) ih
        | _ => exact pure
      · dsimp only
        split
        · exact pure
        · exact ih

theorem within_wait4 : Within [.threads, .processes] (wait4 waitPid statusPtr rounds) := by
  refine read.bind fun tid => (Tame.withThread fun _ => .pure).within.bind fun found => ?_
  cases found with
  | none => exact pure
  | some parent =>
    dsimp only
    induction rounds with
    | zero => exact pure
    | succ rounds ih =>
      refine Tame.findZombieChild.within.bind fun zombie => ?_
      cases zombie with
      | some ended => exact Tame.reap.within.map
      | none =>
        refine (Tame.withProcess fun _ => .pure).within.bind fun hasChildren => ?_
        split
        · exact pure
        · refine within_again
            ((within_withEntry (by simp) fun _ => (within_blockOn : Within [] _)).mono ?_) ih
          decide

theorem within_kill {sig : Nat} : Within [.processes, .threads] (kill pid sig) := by
  unfold kill
  split
  · exact pure
  · split
    · exact pure
    · refine (within_withEntry (by simp) fun process => Within.read.bind fun tid => ?_).bind fun outcome => ?_
      · exact (within_withEntry (by simp) fun _ => Within.pure).bind fun _ => Within.modify
      · cases outcome <;> exact Within.pure

theorem within_writeEntry : Within [.pipes, .sockets] (writeEntry data rounds entry) := by
  cases entry with
  | pipeWrite id => exact (within_pipeWrite.mono (by decide)).bind fun _ => pure
  | unixSocket id => exact (within_send.mono (by decide)).bind fun _ => pure
  | vfs file | socket id =>
    rw [writeEntry]
    exact read
  | _ => exact pure

theorem within_readEntry : Within [.pipes, .sockets] (readEntry room rounds entry) := by
  cases entry with
  | pipeRead id => exact (within_pipeRead.mono (by decide)).bind fun _ => pure
  | unixSocket id => exact (within_recv.mono (by decide)).bind fun _ => pure
  | vfs file | socket id =>
    rw [readEntry]
    exact read
  | _ => exact pure

end Within

section Current

variable {locks : List Lock}

theorem withEntry_held {lock : Lock} {size id : Nat} {table : Tables → Nat → Option β}
    {body : β → Code α} (held : lock ∈ locks) :
    (withEntry lock size table id body).Deadlocks (.exclusive locks) world ↔ id < size :=
  (deadlocks_ite_right not_deadlocks_pure).trans ((and_iff_left (withLock_held held)).trans Nat.not_le)

/-- What is done with the current process runs under the lock of the processes. -/
theorem currentProcessMut_deadlocks {body : Nat → Process → Code α} :
    (currentProcessMut body).Deadlocks (.exclusive []) world ↔
      ∃ pid process, world.tables.currentProcess = some (pid, process) ∧
        (body pid process).Deadlocks (.exclusive [.processes]) world := by
  unfold currentProcessMut Deadlocks
  rw [look, read_bind, withThread, bind_ok (lookUp_run rfl)]
  cases thread : lookUp maxThreads world.tables.threads world.tables.tid with
  | none =>
    rw [Option.map_none]
    exact iff_of_false not_deadlocks_pure (by simp [Tables.currentProcess, thread])
  | some pid =>
    rw [Option.map_some]
    dsimp only
    cases here : lookUp maxProcesses world.tables.processes pid with
    | none =>
      rw [withProcess, withEntry_none rfl here]
      exact iff_of_false (by simp) (by simp [Tables.currentProcess, thread, here])
    | some process =>
      obtain ⟨inside, slot⟩ := lookUp_some.mp here
      rw [withProcess, withEntry_run rfl inside slot]
      refine Iff.trans deadlocks_map ?_
      simp [Tables.currentProcess, thread, here, Deadlocks]

/-- The number of the process of the current thread, which is that of the kernel if there is none. -/
def Tables.currentPid (tables : Tables) : Nat :=
  (lookUp maxThreads tables.threads tables.tid).getD kernelPid

theorem copyUser_deadlocks {addr len : Nat} :
    (copyUser addr len).Deadlocks (.exclusive [.processes]) world ↔
      accessOk addr len = true ∧ world.tables.kpti = true ∧
        world.tables.currentPid ≠ kernelPid ∧ world.tables.currentPid < maxProcesses := by
  refine (deadlocks_ite_left not_deadlocks_pure).trans (and_congr_right fun _ => ?_)
  refine (deadlocks_ite_left not_deadlocks_pure).trans (and_congr_right fun _ => ?_)
  refine (deadlocks_bind_left fun _ _ => not_deadlocks_pure).trans ?_
  unfold currentUserCr3 Deadlocks
  rw [look, read_bind, withThread, bind_ok (lookUp_run rfl), look, read_bind, Option.map_id']
  change (if world.tables.currentPid = kernelPid then pure world.tables.kernelCr3 else do
    let found ← withProcess world.tables.currentPid fun process =>
      pure (process.cr3.getD world.tables.kernelCr3)
    pure (found.getD world.tables.kernelCr3) : Code Nat) _ _ = _ ↔ _
  refine (deadlocks_ite_right not_deadlocks_pure).trans (and_congr_right fun _ => ?_)
  exact (deadlocks_bind_left fun _ _ => not_deadlocks_pure).trans (withEntry_held List.mem_cons_self)

end Current

section Delivery

variable {id room rounds count : Nat} {bytes : Bytes}

/-- Tables in which the current thread finds the same process and the same isolation. -/
def SameCaller (before after : Tables) : Prop :=
  after.kpti = before.kpti ∧ after.currentPid = before.currentPid

variable {buf : Nat} {tables others : Tables} {locks : List Lock} {entry : FdEntry}

theorem guarded_pipes (held : .pipes ∈ locks) :
    (Tables.guarded locks tables others).pipes = tables.pipes := if_pos held

theorem guarded_sockets (held : .sockets ∈ locks) :
    (Tables.guarded locks tables others).sockets = tables.sockets := if_pos held

theorem pipeRead_bytes
    (run : pipeRead id room rounds (.exclusive [.processes]) world = .ok (some (.ok bytes), after))
    (nonempty : bytes ≠ []) :
    (∃ pipe, lookUp maxPipes world.tables.pipes id = some pipe ∧ 0 < pipe.ring.len ∧
      pipe.ring.head < Ipc.pipeBuf) ∧ SameCaller world.tables after.tables := by
  induction rounds generalizing world with
  | zero => cases run
  | succ rounds ih =>
    rw [pipeRead] at run
    obtain ⟨tried, middle, first, finish⟩ := bind_returned run
    rcases withSlot_ok first with
      ⟨rfl, rfl⟩ | ⟨pipe, outcome, inner, -, inside, found, attempt, rfl⟩
    · cases finish
    · unfold tryPipeRead at attempt
      split at attempt
      · rename_i stored
        obtain ⟨⟨items, rest⟩, next, read, changed⟩ := bind_returned attempt
        obtain ⟨final, ring, rfl, rfl⟩ :=
          indexed_returned (fun ring => ({ pipe with ring } : PipeInner)) read
        cases changed
        cases finish
        exact ⟨⟨pipe, lookUp_some.mpr ⟨inside, found⟩, stored,
          RingBuffer.head_lt_of_read ring nonempty⟩, rfl, rfl⟩
      · rename_i empty
        split at attempt
        · cases attempt
          cases finish
          exact absurd rfl nonempty
        · rename_i writers
          cases attempt
          obtain ⟨woken, rested, slept, again⟩ := bind_returned finish
          -- The reader sleeps with the lock of the pipes, and its pipe stays empty.
          have unchanged : ∃ queue, rested.tables.pipes id =
              some { pipe with readWaiters := queue } := by
            rcases withSlot_ok slept with
              ⟨-, rfl⟩ | ⟨pipe', answer, inner', taken, -, found', blocked, -⟩
            · exact ⟨pipe.readWaiters, found⟩
            · cases taken
              cases found.symm.trans found'
              rw [if_neg empty, if_neg writers] at blocked
              rcases blockOn_ok blocked with same | ⟨others, same⟩
              · rw [same]
                exact ⟨_, Function.update_self ..⟩
              · rw [same, guarded_pipes List.mem_cons_self]
                exact ⟨_, Function.update_self ..⟩
          obtain ⟨queue, here⟩ := unchanged
          split at again
          · cases again
          · obtain ⟨⟨pipe', found', stored, -⟩, -⟩ := ih again
            cases here.symm.trans (lookUp_some.mp found').2
            exact absurd stored empty

theorem recv_bytes
    (run : recv id room rounds (.exclusive [.processes]) world = .ok (some (.ok bytes), after))
    (nonempty : bytes ≠ []) :
    (∃ here, lookUp maxUnix world.tables.sockets id = some here ∧ 0 < here.ring.len ∧
      here.ring.head < Ipc.unixBuf) ∧ SameCaller world.tables after.tables := by
  induction rounds generalizing world with
  | zero => cases run
  | succ rounds ih =>
    rw [recv] at run
    obtain ⟨tried, middle, first, finish⟩ := bind_returned run
    rcases withSlot_ok first with
      ⟨rfl, rfl⟩ | ⟨here, outcome, inner, -, inside, found, attempt, rfl⟩
    · cases finish
    · unfold tryRecv at attempt
      split at attempt
      · rename_i stored
        obtain ⟨⟨items, rest⟩, next, read, changed⟩ := bind_returned attempt
        obtain ⟨final, ring, rfl, rfl⟩ :=
          indexed_returned (fun ring => ({ here with ring } : UnixSocket)) read
        cases changed
        cases finish
        exact ⟨⟨here, lookUp_some.mpr ⟨inside, found⟩, stored,
          RingBuffer.head_lt_of_read ring nonempty⟩, rfl, rfl⟩
      · rename_i empty
        split at attempt
        · cases attempt
          cases finish
          exact absurd rfl nonempty
        · cases attempt
          obtain ⟨woken, rested, slept, again⟩ := bind_returned finish
          -- The receiver sleeps with the lock of the sockets, and its socket stays empty.
          have unchanged : ∃ queue, rested.tables.sockets id =
              some { here with readWaiters := queue } := by
            rcases withSlot_ok slept with
              ⟨-, rfl⟩ | ⟨here', answer, inner', taken, -, found', blocked, -⟩
            · exact ⟨here.readWaiters, found⟩
            · cases taken
              cases found.symm.trans found'
              rcases blockOn_ok blocked with same | ⟨others, same⟩
              · rw [same]
                exact ⟨_, Function.update_self ..⟩
              · rw [same, guarded_sockets List.mem_cons_self]
                exact ⟨_, Function.update_self ..⟩
          obtain ⟨queue, there⟩ := unchanged
          split at again
          · cases again
          · obtain ⟨⟨here', found', stored, -⟩, -⟩ := ih again
            cases there.symm.trans (lookUp_some.mp found').2
            exact absurd stored empty

/-- What a descriptor stands for has bytes for a reader with a buffer in user space. -/
def Delivers (tables : Tables) (buf room : Nat) : FdEntry → Prop
  | .pipeRead id => ∃ pipe, lookUp maxPipes tables.pipes id = some pipe ∧ 0 < pipe.ring.len ∧
      pipe.ring.head < Ipc.pipeBuf
  | .unixSocket id => ∃ here, lookUp maxUnix tables.sockets id = some here ∧ 0 < here.ring.len ∧
      here.ring.head < Ipc.unixBuf
  | .vfs file => ∃ count, tables.devices.read (.vfs file) room = some (.ok count) ∧ count ≠ 0 ∧
      count ≤ copyRoom ∧ accessOk buf count = true
  | .socket id => ∃ count, tables.devices.read (.socket id) room = some (.ok count) ∧ count ≠ 0 ∧
      count ≤ copyRoom ∧ accessOk buf count = true
  | _ => False

theorem accessOk_part {addr len part : Nat} (access : accessOk addr len = true)
    (positive : part ≠ 0) (fits : part ≤ len) : accessOk addr part = true := by
  have nonempty : len ≠ 0 := fun zero => positive (Nat.le_zero.mp (zero ▸ fits))
  have ends := (accessOk_iff nonempty).mp access
  exact (accessOk_iff positive).mpr ⟨ends.1, by omega⟩

theorem handOut_deadlocks :
    (handOut buf count).Deadlocks (.exclusive [.processes]) world ↔
      count ≠ 0 ∧ count ≤ copyRoom ∧ accessOk buf count = true ∧ world.tables.kpti = true ∧
        world.tables.currentPid ≠ kernelPid ∧ world.tables.currentPid < maxProcesses := by
  refine (deadlocks_ite_right not_deadlocks_pure).trans (and_congr_right fun _ => ?_)
  refine (deadlocks_ite_right not_deadlocks_fault).trans (and_congr Nat.not_lt ?_)
  refine (deadlocks_bind_left fun copied next => ?_).trans copyUser_deadlocks
  cases copied <;> exact nofun

theorem readEntry_delivers
    (run : readEntry room rounds entry (.exclusive [.processes]) world =
      .ok (some (.ok count), after))
    (positive : count ≠ 0) (fits : count ≤ copyRoom) (access : accessOk buf count = true) :
    Delivers world.tables buf room entry ∧ SameCaller world.tables after.tables := by
  cases entry with
  | pipeRead id =>
    obtain ⟨outcome, middle, read, finish⟩ := bind_returned run
    rcases outcome with _ | _ | bytes
    · cases finish
    · cases finish
    · cases finish
      exact pipeRead_bytes read fun empty => positive (by rw [empty, List.length_nil])
  | unixSocket id =>
    obtain ⟨outcome, middle, read, finish⟩ := bind_returned run
    rcases outcome with _ | _ | bytes
    · cases finish
    · cases finish
    · cases finish
      exact recv_bytes read fun empty => positive (by rw [empty, List.length_nil])
  | vfs file | socket id =>
    obtain ⟨answer, same⟩ := Prod.mk.inj (Except.ok.inj run)
    cases same
    exact ⟨⟨count, answer, positive, fits, access⟩, rfl, rfl⟩
  | consoleIn =>
    cases run
    exact absurd rfl positive
  | _ => cases run

theorem Delivers.readEntry (delivers : Delivers world.tables buf room entry) (positive : room ≠ 0)
    (fits : room ≤ copyRoom) (access : accessOk buf room = true) :
    ∃ count after, readEntry room 1 entry (.exclusive [.processes]) world =
      .ok (some (.ok count), after) ∧ count ≠ 0 ∧ count ≤ copyRoom ∧ accessOk buf count = true ∧
      SameCaller world.tables after.tables := by
  -- A ring gives as many bytes as it has and the buffer takes.
  have part : ∀ len, 0 < len → min len room ≠ 0 ∧ min len room ≤ copyRoom ∧
      accessOk buf (min len room) = true := by
    intro len stored
    have some : min len room ≠ 0 := by omega
    exact ⟨some, Nat.le_trans (Nat.min_le_right _ _) fits,
      accessOk_part access some (Nat.min_le_right _ _)⟩
  cases entry with
  | pipeRead id =>
    obtain ⟨pipe, found, stored, inside⟩ := delivers
    obtain ⟨here, slot⟩ := lookUp_some.mp found
    obtain ⟨items, final, read, length⟩ := RingBuffer.read_length inside room
    have once : pipe.readOnce room = .ok (items, { pipe with ring := final }) := by
      rw [PipeInner.readOnce, read]
      rfl
    obtain ⟨some, small, reachable⟩ := length ▸ part pipe.ring.len stored
    rw [Syscall.readEntry, bind_run, Syscall.pipeRead, bind_run, withPipe,
      withSlot_run rfl here slot, map_run, tryPipeRead, if_pos stored, once]
    exact ⟨items.length, _, rfl, some, small, reachable, rfl, rfl⟩
  | unixSocket id =>
    obtain ⟨here, found, stored, inside⟩ := delivers
    obtain ⟨bound, slot⟩ := lookUp_some.mp found
    obtain ⟨items, final, read, length⟩ := RingBuffer.read_length inside room
    have once : here.readBytes room = .ok (items, { here with ring := final }) := by
      rw [UnixSocket.readBytes, read]
      rfl
    obtain ⟨some, small, reachable⟩ := length ▸ part here.ring.len stored
    rw [Syscall.readEntry, bind_run, Syscall.recv, bind_run, withSock,
      withSlot_run rfl bound slot, map_run, tryRecv, if_pos stored, once]
    exact ⟨items.length, _, rfl, some, small, reachable, rfl, rfl⟩
  | vfs file | socket id =>
    obtain ⟨count, answer, some, small, reachable⟩ := delivers
    exact ⟨count, world, by rw [Syscall.readEntry, look, read_run, answer], some, small, reachable,
      rfl, rfl⟩
  | _ => exact delivers.elim

end Delivery

/-- The calls that look at the process table. -/
inductive ProcessCall where
  | read (fd : BitVec 64) (buf count : Nat)
  | write (fd : BitVec 64) (buf count : Nat)
  | pipe2 (fds : Nat)
  | kill (pid sig : BitVec 64)
  | wait4 (waitPid : BitVec 32) (statusPtr : Nat)

namespace ProcessCall

/-- The code of a call, with the number of times it may try. -/
def code (rounds : Nat) : ProcessCall → Code Unit
  | .read fd buf count => (fun _ => ()) <$> sysRead fd buf count rounds
  | .write fd buf count => (fun _ => ()) <$> sysWrite fd buf count rounds
  | .pipe2 fds => (fun _ => ()) <$> sysPipe2 fds
  | .kill pid sig => (fun _ => ()) <$> sysKill pid sig
  | .wait4 waitPid statusPtr => (fun _ => ()) <$> Syscall.wait4 waitPid statusPtr rounds

/-- The states in which a call takes the lock of the processes a second time. -/
def Reenters (tables : Tables) : ProcessCall → Prop
  | .read fd buf count => tables.kpti = true ∧ count ≠ 0 ∧ accessOk buf count = true ∧
      ∃ pid process entry, tables.currentProcess = some (pid, process) ∧ pid ≠ kernelPid ∧
        process.fds.get (asU32 fd) = some entry ∧ Delivers tables buf (min count copyRoom) entry
  | .pipe2 fds => tables.kpti = true ∧ accessOk fds 8 = true ∧ tables.nextPipe.toNat < maxPipes ∧
      ∃ pid process, tables.currentProcess = some (pid, process) ∧ pid ≠ kernelPid ∧
        ∃ fd reading, process.fds.alloc (.pipeRead tables.nextPipe.toNat) = some (fd, reading) ∧
          (reading.alloc (.pipeWrite tables.nextPipe.toNat)).isSome = true
  | .kill pid _ => tables.currentProcess ≠ none ∧ asU32 pid ≠ tables.currentPid ∧
      asU32 pid < maxProcesses
  | .write _ _ _ => False
  | .wait4 _ _ => False

section Conditions

variable {tables : Tables} {rounds : Nat} {pid : Nat} {process : Process}

theorem currentPid_eq (current : tables.currentProcess = some (pid, process)) :
    tables.currentPid = pid ∧ pid < maxProcesses := by
  obtain ⟨found, thread, rest⟩ := Option.bind_eq_some_iff.mp current
  obtain ⟨item, here, same⟩ := Option.map_eq_some_iff.mp rest
  cases same
  refine ⟨?_, (lookUp_some.mp here).1⟩
  rw [Tables.currentPid, thread, Option.getD_some]

variable {fd : BitVec 64} {buf count fds : Nat}

theorem readProcess_deadlocks {room : Nat} :
    (readProcess fd buf room rounds process).Deadlocks (.exclusive [.processes]) world ↔
      ∃ entry count next, process.fds.get (asU32 fd) = some entry ∧
        readEntry room rounds entry (.exclusive [.processes]) world =
          .ok (some (.ok count), next) ∧
        (handOut buf count).Deadlocks (.exclusive [.processes]) next := by
  unfold readProcess
  cases found : process.fds.get (asU32 fd) with
  | none =>
    refine iff_of_false nofun ?_
    rintro ⟨entry, count, next, missing, -⟩
    cases missing
  | some entry =>
    dsimp only
    rw [deadlocks_bind, or_iff_right (within_readEntry _ _ (by decide))]
    constructor
    · rintro ⟨outcome, next, read, stuck⟩
      rcases outcome with _ | _ | count
      · cases stuck
      · cases stuck
      · exact ⟨entry, count, next, rfl, read, stuck⟩
    · rintro ⟨other, count, next, same, read, stuck⟩
      cases same
      exact ⟨some (.ok count), next, read, stuck⟩

/-- A read that gets stuck has bytes to hand out to its own process. -/
theorem reenters_of_read (stuck : (sysRead fd buf count rounds).Deadlocks (.exclusive []) world) :
    Reenters world.tables (.read fd buf count) := by
  unfold sysRead at stuck
  split at stuck
  · cases stuck
  · rename_i positive
    split at stuck
    · cases stuck
    · rename_i access
      obtain ⟨pid, process, current, inner⟩ :=
        currentProcessMut_deadlocks.mp ((deadlocks_bind_left nofun).mp stuck)
      obtain ⟨entry, got, next, found, read, handed⟩ := readProcess_deadlocks.mp inner
      obtain ⟨some, small, reachable, enabled, user, -⟩ := handOut_deadlocks.mp handed
      obtain ⟨delivers, same, number⟩ := readEntry_delivers read some small reachable
      rw [number, (currentPid_eq current).1] at user
      exact ⟨same ▸ enabled, positive, eq_true_of_ne_false access, pid, process, entry, current,
        user, found, delivers⟩

/-- A read with bytes to hand out gets stuck in its first round. -/
theorem read_of_reenters (reenters : Reenters world.tables (.read fd buf count)) :
    (sysRead fd buf count 1).Deadlocks (.exclusive []) world := by
  obtain ⟨enabled, positive, access, pid, process, entry, current, user, found, delivers⟩ := reenters
  have room : min count copyRoom ≠ 0 := by
    have : copyRoom = 4096 := rfl
    omega
  obtain ⟨got, next, read, some, small, reachable, same, number⟩ := delivers.readEntry room
    (Nat.min_le_right _ _) (accessOk_part access room (Nat.min_le_left _ _))
  obtain ⟨named, inside⟩ := currentPid_eq current
  unfold sysRead
  rw [if_neg positive, if_neg (ne_false_of_eq_true access)]
  refine (deadlocks_bind_left nofun).mpr
    (currentProcessMut_deadlocks.mpr ⟨pid, process, current, ?_⟩)
  refine readProcess_deadlocks.mpr ⟨entry, got, next, found, read, handOut_deadlocks.mpr ?_⟩
  rw [same, number, named]
  exact ⟨some, small, reachable, enabled, user, inside⟩

theorem within_currentProcessMut {allowed : List Lock} {body : Nat → Process → Code α}
    (within : ∀ pid process, Within allowed (body pid process)) (fresh : .processes ∉ allowed) :
    Within (.threads :: .processes :: allowed) (currentProcessMut body) := by
  refine Within.read.bind fun tid => Within.bind ?_ fun found => ?_
  · refine (within_withEntry (by simp) fun _ => (Within.pure : Within [] _)).mono fun lock member => ?_
    rw [List.mem_singleton.mp member]
    exact List.mem_cons_self
  · cases found with
    | none => exact pure
    | some pid =>
      exact (within_withEntry fresh (within pid)).mono fun lock member =>
        List.mem_cons_of_mem _ member

theorem within_sysWrite :
    Within [.threads, .processes, .pipes, .sockets] (sysWrite fd buf count rounds) := by
  unfold sysWrite
  split
  · exact pure
  · split
    · exact pure
    · refine (Tame.copyUser.within.mono (by decide)).bind fun copied => ?_
      cases copied with
      | error error => exact pure
      | ok _ =>
        refine Within.read.bind fun data => Within.bind ?_ fun _ => Within.pure
        refine within_currentProcessMut (fun _ process => ?_) (by decide)
        unfold writeProcess
        split
        · exact pure
        · exact within_writeEntry

theorem createPipe_run (world : World) : ∃ next,
    createPipe (.exclusive []) world =
      .ok (if maxPipes ≤ world.tables.nextPipe.toNat then none
        else some world.tables.nextPipe.toNat, next) ∧
    next.tables.currentProcess = world.tables.currentProcess ∧
    SameCaller world.tables next.tables := by
  unfold createPipe
  rw [withLock_free List.not_mem_nil, look, read_bind, change, modify_bind]
  split <;> exact ⟨_, rfl, rfl, rfl, rfl⟩

theorem installPipe_deadlocks {id : Nat} :
    (installPipe fds id pid process).Deadlocks (.exclusive [.processes]) world ↔
      (∃ fd reading, process.fds.alloc (.pipeRead id) = some (fd, reading) ∧
        (reading.alloc (.pipeWrite id)).isSome = true) ∧
      accessOk fds 8 = true ∧ world.tables.kpti = true ∧
        world.tables.currentPid ≠ kernelPid ∧ world.tables.currentPid < maxProcesses := by
  unfold installPipe
  cases first : process.fds.alloc (.pipeRead id) with
  | none =>
    refine iff_of_false not_deadlocks_pure ?_
    rintro ⟨⟨fd, reading, missing, -⟩, -⟩
    cases missing
  | some installed =>
    obtain ⟨fd, reading⟩ := installed
    dsimp only
    cases second : reading.alloc (.pipeWrite id) with
    | none =>
      refine iff_of_false not_deadlocks_pure ?_
      rintro ⟨⟨fd, other, same, free⟩, -⟩
      cases same
      rw [second] at free
      cases free
    | some both =>
      rw [and_iff_right ⟨fd, reading, rfl, by rw [second]; rfl⟩]
      -- The process with its new descriptors is in the table when their numbers are copied.
      let installed : World := { world with tables := { world.tables with
        processes := Function.update (Function.update world.tables.processes pid
          (some { process with fds := reading })) pid (some { process with fds := both.2 }) } }
      have copied : (copyUser fds 8).Deadlocks (.exclusive [.processes]) installed ↔ _ :=
        copyUser_deadlocks
      change (copyUser fds 8 >>= _ : Code _).Deadlocks (.exclusive [.processes]) installed ↔ _
      refine (deadlocks_bind_left fun outcome next => ?_).trans copied
      cases outcome <;> exact not_deadlocks_pure

theorem pipe2_deadlocks :
    (sysPipe2 fds).Deadlocks (.exclusive []) world ↔ Reenters world.tables (.pipe2 fds) := by
  obtain ⟨next, created, current, enabled, number⟩ := createPipe_run world
  unfold sysPipe2 Deadlocks
  by_cases access : accessOk fds 8 = true
  · rw [if_neg (ne_false_of_eq_true access), bind_ok created]
    by_cases full : maxPipes ≤ world.tables.nextPipe.toNat
    · rw [if_pos full]
      refine iff_of_false nofun fun reenters => ?_
      exact Nat.not_lt_of_le full reenters.2.2.1
    · rw [if_neg full]
      refine (deadlocks_bind_left nofun).trans (currentProcessMut_deadlocks.trans ?_)
      rw [current]
      constructor
      · rintro ⟨pid, process, here, stuck⟩
        obtain ⟨free, -, kpti, user, -⟩ := installPipe_deadlocks.mp stuck
        rw [number, (currentPid_eq here).1] at user
        exact ⟨enabled ▸ kpti, access, Nat.lt_of_not_le full, pid, process, here, user, free⟩
      · rintro ⟨kpti, -, -, pid, process, here, user, free⟩
        obtain ⟨named, inside⟩ := currentPid_eq here
        refine ⟨pid, process, here, installPipe_deadlocks.mpr ⟨free, access, ?_⟩⟩
        rw [enabled, number, named]
        exact ⟨kpti, user, inside⟩
  · rw [if_pos (eq_false_of_ne_true access)]
    exact iff_of_false nofun fun reenters => access reenters.2.1

theorem kill_deadlocks {target sig : BitVec 64} :
    (sysKill target sig).Deadlocks (.exclusive []) world ↔
      Reenters world.tables (.kill target sig) := by
  unfold sysKill Deadlocks
  rw [look, read_bind, withThread, bind_ok (lookUp_run rfl), Option.map_id']
  change (if asU32 target = world.tables.currentPid then Syscall.kill (asU32 target) (asU32 sig)
    else do
      let allowed ← maySignal (asU32 target)
      if allowed then Syscall.kill (asU32 target) (asU32 sig)
      else pure (.error .eperm) : Code (Except Errno Nat)) _ _ = _ ↔ _
  refine (deadlocks_ite_right within_kill.safe).trans (Iff.trans ?_ and_left_comm)
  refine and_congr_right fun _ => (deadlocks_bind_left fun allowed next => ?_).trans ?_
  · cases allowed with
    | true => exact within_kill.safe
    | false => exact not_deadlocks_pure
  · -- The other process is looked up while the processes are locked for the caller.
    have nested : ∀ caller : Process, (withProcess (asU32 target) fun process =>
        (pure (caller.pcb.cred.canSignal process.pcb.cred) : Code Bool)).Deadlocks
          (.exclusive [.processes]) world ↔ asU32 target < maxProcesses :=
      fun caller => withEntry_held List.mem_cons_self
    refine (deadlocks_bind_left fun _ _ => not_deadlocks_pure).trans (currentProcessMut_deadlocks.trans ?_)
    constructor
    · rintro ⟨pid, caller, current, stuck⟩
      refine ⟨?_, (nested caller).mp stuck⟩
      rw [current]
      exact Option.some_ne_none _
    · rintro ⟨known, inside⟩
      obtain ⟨⟨pid, caller⟩, current⟩ := Option.ne_none_iff_exists'.mp known
      exact ⟨pid, caller, current, (nested caller).mpr inside⟩

end Conditions

/--
A call takes the lock of the processes at most once exactly if none of these states is its start.

Reading and making a pipe look up the page table while they work on the process, and sending a
signal looks up the process that gets it.
-/
theorem takes_processes_once_iff (call : ProcessCall) (tables : Tables) :
    (∀ rounds wakeUps, ¬ (call.code rounds).Deadlocks (.exclusive []) ⟨tables, wakeUps, []⟩) ↔
      ¬ call.Reenters tables := by
  constructor
  · intro safe reenters
    refine safe 1 [] ?_
    cases call with
    | read fd buf count => exact deadlocks_map.mpr (read_of_reenters reenters)
    | write fd buf count => exact reenters.elim
    | pipe2 fds => exact deadlocks_map.mpr (pipe2_deadlocks.mpr reenters)
    | kill pid sig => exact deadlocks_map.mpr (kill_deadlocks.mpr reenters)
    | wait4 waitPid statusPtr => exact reenters.elim
  · intro single rounds wakeUps stuck
    cases call with
    | read fd buf count => exact single (reenters_of_read (deadlocks_map.mp stuck))
    | write fd buf count => exact within_sysWrite.safe (deadlocks_map.mp stuck)
    | pipe2 fds => exact single (pipe2_deadlocks.mp (deadlocks_map.mp stuck))
    | kill pid sig => exact single (kill_deadlocks.mp (deadlocks_map.mp stuck))
    | wait4 waitPid statusPtr => exact within_wait4.safe (deadlocks_map.mp stuck)

/-- Tables with two processes of one user, and isolated page tables. -/
def twoProcesses : Tables where
  tid := 1
  threads := fun tid => if tid = 1 then some 1 else none
  processes := fun pid =>
    if pid = 1 ∨ pid = 2 then some ⟨.newUser pid 0, Fs.FdTable.new.initStdio, none⟩ else none
  pipes := fun _ => none
  nextPipe := 0
  sockets := fun _ => none
  futexes := fun _ => none
  userWord := fun _ => 0
  kpti := true
  kernelCr3 := 0
  devices := ⟨fun _ _ => none, fun _ _ => none⟩

/-- A process that sends a signal to another one waits for a lock that it holds. -/
theorem twoProcesses_kill_deadlocks :
    ¬ ∀ rounds wakeUps, ¬ ((ProcessCall.kill 2 9).code rounds).Deadlocks (.exclusive [])
      ⟨twoProcesses, wakeUps, []⟩ := by
  intro safe
  exact safe 0 [] rfl

end ProcessCall

end TheoryKernel.Syscall
