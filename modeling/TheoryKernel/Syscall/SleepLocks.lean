import TheoryKernel.Syscall.Sleeping

/-! Every sleep of the blocking calls happens inside a section of a table lock. -/

namespace TheoryKernel.Syscall

open Ipc (PipeInner UnixSocket UnixType WaitQueue)
open Proc (maxChildren maxProcesses maxThreads)
open Locking.Code Option

variable {α β : Type} {held : Locking.Held Lock} {world after : World}

/-- Code that does not go to sleep. -/
def Quiet (body : Code α) : Prop :=
  ∀ held world value after, body held world = .ok (value, after) → after.sleeps = world.sleeps

variable {allowed : List Lock} {lock : Lock} {size id : Nat} {table : Tables → Nat → Option β}
  {body : β → Code α}

/-- Code for a slot takes the lock of its table besides those of its body. -/
theorem within_withSlot (fresh : lock ∉ allowed) (within : ∀ item, Within allowed (body item)) :
    Within (lock :: allowed) (withSlot lock size table id body) := by
  refine .withLock ?_ fresh
  split
  · exact .fault
  · refine Within.read.bind fun found => ?_
    cases found with
    | none => exact Within.pure
    | some item => exact (within item).map

/-- Code for a slot with a checked index takes the lock of its table as well. -/
theorem within_withEntry (fresh : lock ∉ allowed) (within : ∀ item, Within allowed (body item)) :
    Within (lock :: allowed) (withEntry lock size table id body) := by
  unfold withEntry
  split
  · exact .pure
  · exact within_withSlot fresh within

/-- Code that never sleeps and takes no lock except some, none of them twice. -/
structure Tame (allowed : List Lock) (body : Code α) : Prop where
  within : Within allowed body
  quiet : Quiet body

namespace Tame

theorem pure {value : α} : Tame allowed (Pure.pure value : Code α) := by
  refine ⟨.pure, ?_⟩
  intro held world result after run
  cases run
  rfl

theorem look {part : Tables → α} : Tame allowed (look part) := by
  refine ⟨Within.read, ?_⟩
  intro held world result after run
  cases run
  rfl

theorem change {update : Tables → Tables} : Tame allowed (change update) := by
  refine ⟨Within.modify, ?_⟩
  intro held world result after run
  cases run
  rfl

theorem fault {stop : Fault} : Tame allowed (Locking.Code.fault stop : Code α) :=
  ⟨Within.fault, nofun⟩

theorem ofExec {outcome : Exec α} : Tame allowed (ofExec outcome) := by
  cases outcome with
  | ok value => exact pure
  | error stop => exact fault

/-- A sequence is tame if its parts are. -/
theorem bind {first : Code α} {rest : α → Code β} (tame : Tame allowed first)
    (further : ∀ value, Tame allowed (rest value)) : Tame allowed (first >>= rest) := by
  refine ⟨tame.within.bind fun value => (further value).within, ?_⟩
  intro held world result after run
  obtain ⟨value, middle, start, finish⟩ := bind_returned run
  exact ((further value).quiet held middle result after finish).trans
    (tame.quiet held world value middle start)

/-- A wrapped value is as tame as the code that computes it. -/
theorem map {wrap : α → β} {body : Code α} (tame : Tame allowed body) :
    Tame allowed (wrap <$> body) :=
  tame.bind fun _ => pure

theorem withLock {body : Code α} (fresh : lock ∉ allowed) (tame : Tame allowed body) :
    Tame (lock :: allowed) (Locking.Code.withLock lock body) := by
  refine ⟨tame.within.withLock fresh, ?_⟩
  intro held world result after run
  unfold Locking.Code.withLock at run
  split at run
  · exact tame.quiet _ world result after run
  · cases run

/-- Code for a slot is as tame as its body. -/
theorem withSlot (fresh : lock ∉ allowed) (tame : ∀ item, Tame allowed (body item)) :
    Tame (lock :: allowed) (withSlot lock size table id body) := by
  refine withLock fresh ?_
  split
  · exact fault
  · refine look.bind fun found => ?_
    cases found with
    | none => exact pure
    | some item => exact (tame item).map

/-- Code for a slot with a checked index is as tame as its body. -/
theorem withEntry (fresh : lock ∉ allowed) (tame : ∀ item, Tame allowed (body item)) :
    Tame (lock :: allowed) (withEntry lock size table id body) := by
  unfold Syscall.withEntry
  split
  · exact pure
  · exact withSlot fresh tame

variable {addr len pid tid : Nat}

/-- Code for a thread may stand beside code for a process. -/
theorem withThread {body : Nat → Code α} (tame : ∀ pid, Tame [] (body pid)) :
    Tame [.threads, .processes] (withThread tid body) :=
  ⟨(withEntry (by simp) tame).within.mono (by decide), (withEntry (by simp) tame).quiet⟩

/-- Code for a process may stand beside code for a thread. -/
theorem withProcess {body : Process → Code α} (tame : ∀ process, Tame [] (body process)) :
    Tame [.threads, .processes] (withProcess pid body) :=
  ⟨(withEntry (by simp) tame).within.mono (by decide), (withEntry (by simp) tame).quiet⟩

theorem withUserAs {body : Code α} (tame : Tame [.threads, .processes] body) :
    Tame [.threads, .processes] (withUserAs body) := by
  refine look.bind fun enabled => ?_
  split
  · refine bind ?_ fun _ => tame
    refine look.bind fun tid => (withThread fun _ => pure).bind fun pid => look.bind fun kernel => ?_
    split
    · exact pure
    · exact (withProcess fun _ => pure).bind fun _ => pure
  · exact tame

theorem copyUser : Tame [.threads, .processes] (copyUser addr len) := by
  unfold Syscall.copyUser
  split
  · exact withUserAs pure
  · exact pure

end Tame

theorem quiet_attempt {γ : Type} {rest : Option α → Code γ} {result : γ} {blocked : α}
    {Refused : β → Prop}
    (run : (withSlot lock size table id body >>= rest) held world = .ok (result, after))
    (attempts : ∀ item, Tame [] (body item)) (missing : Tame [lock] (rest none))
    (refused : ∀ {item inner next}, body item inner world = .ok (blocked, next) → Refused item)
    (ready : ¬ (id < size ∧ ∃ item, table world.tables id = some item ∧ Refused item))
    (served : ∀ value, value ≠ blocked → Tame [lock] (rest (some value))) :
    after.sleeps = world.sleeps := by
  obtain ⟨tried, middle, first, finish⟩ := bind_returned run
  have quiet : middle.sleeps = world.sleeps :=
    (Tame.withSlot (by simp) attempts).quiet held world tried middle first
  rw [← quiet]
  rcases withSlot_ok first with
    ⟨rfl, -⟩ | ⟨item, value, inner, -, inside, found, attempt, rfl⟩
  · exact missing.quiet held middle result after finish
  · refine (served value ?_).quiet held middle result after finish
    rintro rfl
    exact ready ⟨inside, item, found, refused attempt⟩

/-- A ring that is read or written in its device is read or written itself. -/
theorem indexed_returned {δ ρ : Type} {served : Option (α × ρ)} (wrap : ρ → δ) {value : α}
    {device : δ} (run : ofExec (do
      let (value, ring) ← Exec.indexed served
      .ok (value, wrap ring)) held world = .ok ((value, device), after)) :
    ∃ ring, served = some (value, ring) ∧ device = wrap ring ∧ after = world := by
  cases served with
  | none => cases run
  | some outcome =>
    cases run
    exact ⟨outcome.2, rfl, rfl, rfl⟩

section Attempts

variable {id room peer : Nat} {data : Bytes} {pipe : PipeInner} {here there listener : UnixSocket}

theorem Tame.tryPipeWrite : Tame allowed (tryPipeWrite id data pipe) := by
  unfold Syscall.tryPipeWrite
  split
  · exact pure
  · refine ofExec.bind fun outcome => ?_
    dsimp only
    split
    · exact change.bind fun _ => pure
    · split <;> exact pure

theorem tryPipeWrite_refused
    (run : tryPipeWrite id data pipe held world = .ok (.error .wouldBlock, after)) :
    pipe.readRefs ≠ 0 ∧ Ipc.pipeBuf ≤ pipe.ring.len := by
  unfold tryPipeWrite at run
  split at run
  · cases run
  · rename_i readers
    obtain ⟨⟨count, written⟩, middle, wrote, finish⟩ := bind_returned run
    refine ⟨readers, ?_⟩
    dsimp only at finish
    split at finish
    · cases finish
    · rename_i nothing
      split at finish
      · rename_i full
        -- Nothing was written, so the ring that is full now was full before.
        have none : count = 0 := Nat.eq_zero_of_not_pos nothing
        subst none
        obtain ⟨final, ring, rfl, -⟩ :=
          indexed_returned (fun ring => ({ pipe with ring } : PipeInner)) wrote
        rw [RingBuffer.eq_of_write_zero ring] at full
        exact full
      · cases finish

theorem tryPipeWrite_full (readers : pipe.readRefs ≠ 0) (full : Ipc.pipeBuf ≤ pipe.ring.len) :
    tryPipeWrite id data pipe held world = .ok (.error .wouldBlock, world) := by
  have nothing : pipe.writeOnce data = .ok (0, pipe) := by
    rw [PipeInner.writeOnce, RingBuffer.write_full full data]
    rfl
  rw [tryPipeWrite, if_neg readers, nothing]
  change (if Ipc.pipeBuf ≤ pipe.ring.len then Pure.pure (.error .wouldBlock)
    else Pure.pure (.ok 0) : Code (Except PipeError Nat)) held world = _
  rw [if_pos full]
  rfl

theorem Tame.tryPipeRead : Tame allowed (tryPipeRead id room pipe) := by
  unfold Syscall.tryPipeRead
  split
  · exact ofExec.bind fun _ => change.bind fun _ => pure
  · split <;> exact pure

theorem tryPipeRead_refused
    (run : tryPipeRead id room pipe held world = .ok (.error .wouldBlock, after)) :
    pipe.ring.len = 0 ∧ pipe.writeRefs ≠ 0 := by
  unfold tryPipeRead at run
  split at run
  · obtain ⟨_, _, -, finish⟩ := bind_returned run
    cases finish
  · rename_i empty
    split at run
    · cases run
    · rename_i writers
      exact ⟨Nat.eq_zero_of_not_pos empty, writers⟩

theorem Tame.tryAccept : Tame allowed (tryAccept id listener) := by
  unfold Syscall.tryAccept
  split
  · exact pure
  · split
    · split
      · exact fault
      · exact change.bind fun _ => pure
    · exact pure

theorem tryAccept_refused
    (run : tryAccept id listener held world = .ok (.error .wouldBlock, after)) :
    listener.listener = true ∧ listener.pendingLen = 0 := by
  unfold tryAccept at run
  split at run
  · cases run
  · rename_i listens
    split at run
    · cases asked : listener.pending (listener.pendingLen - 1) with
      | none | some client =>
        rw [asked] at run
        cases run
    · rename_i nobody
      exact ⟨eq_true_of_ne_false listens, Nat.eq_zero_of_not_pos nobody⟩

theorem Tame.trySend : Tame allowed (trySend peer data there) := by
  unfold Syscall.trySend
  split
  · exact pure
  · split
    · exact pure
    · exact ofExec.bind fun _ => change.bind fun _ => pure

theorem trySend_refused
    (run : trySend peer data there held world = .ok (.error .wouldBlock, after)) :
    there.peerClosed = false ∧ Ipc.unixBuf ≤ there.ring.len := by
  unfold trySend at run
  split at run
  · cases run
  · rename_i isOpen
    split at run
    · rename_i full
      exact ⟨eq_false_of_ne_true isOpen, full⟩
    · obtain ⟨_, _, -, finish⟩ := bind_returned run
      cases finish

theorem trySend_nothing (found : world.tables.sockets peer = some there)
    (run : trySend peer data there held world = .ok (.ok 0, after)) : after = world := by
  unfold trySend at run
  split at run
  · cases run
  · split at run
    · cases run
    · obtain ⟨⟨count, written⟩, middle, wrote, finish⟩ := bind_returned run
      obtain ⟨final, ring, rfl, rfl⟩ :=
        indexed_returned (fun ring => ({ there with ring } : UnixSocket)) wrote
      cases finish
      -- The ring is not written, and the socket in the slot is replaced by itself.
      rw [RingBuffer.eq_of_write_zero ring]
      change World.mk { middle.tables with
        sockets := Function.update middle.tables.sockets peer (some there) } _ _ = middle
      rw [← found, Function.update_eq_self]

theorem Tame.tryRecv : Tame allowed (tryRecv id room here) := by
  unfold Syscall.tryRecv
  split
  · exact ofExec.bind fun _ => change.bind fun _ => pure
  · split <;> exact pure

theorem tryRecv_refused (run : tryRecv id room here held world = .ok (.error .wouldBlock, after)) :
    here.ring.len = 0 ∧ here.peerClosed = false := by
  unfold tryRecv at run
  split at run
  · obtain ⟨_, _, -, finish⟩ := bind_returned run
    cases finish
  · rename_i empty
    split at run
    · cases run
    · rename_i isOpen
      exact ⟨Nat.eq_zero_of_not_pos empty, eq_false_of_ne_true isOpen⟩

theorem Tame.socket {sockType : UnixType} : Tame [.sockets] (socket sockType) := by
  refine (withLock (by simp) look).bind fun free => ?_
  cases free with
  | none => exact pure
  | some id => exact (withLock (by simp) change).bind fun _ => pure

end Attempts

/-- Whether a child that is waited for has ended. -/
def lingers (tables : Tables) (waitPid : BitVec 32) (child : Nat) : Bool :=
  waitsFor waitPid child &&
    (lookUp maxProcesses tables.processes child).any fun process => process.pcb.state = .zombie

section Children

variable {waitPid : BitVec 32} {child parent : Nat} {children : List Nat} {process : Process}

theorem exitCode_none (waited : waitsFor waitPid child = true) {tables : Tables} :
    ((lookUp maxProcesses tables.processes child).map fun process =>
      if process.pcb.state = .zombie then some process.pcb.exitCode else none).join = none ↔
      lingers tables waitPid child = false := by
  rw [lingers, waited]
  cases found : lookUp maxProcesses tables.processes child with
  | none => simp
  | some process =>
    by_cases ended : process.pcb.state = .zombie <;> simp [ended]

theorem firstZombie_run (waitPid : BitVec 32) (children : List Nat) (world : World) :
    ∃ found, firstZombie waitPid children (.exclusive []) world = .ok (found, world) ∧
    (found = none ↔ ∀ child ∈ children, lingers world.tables waitPid child = false) := by
  induction children with
  | nil => exact ⟨none, rfl, by simp⟩
  | cons child children ih =>
    obtain ⟨found, run, ended⟩ := ih
    rw [firstZombie]
    by_cases waited : waitsFor waitPid child = true
    · rw [if_pos waited, withProcess, bind_ok (lookUp_run rfl), List.forall_mem_cons,
        ← exitCode_none waited]
      cases result : ((lookUp maxProcesses world.tables.processes child).map
        fun process => if process.pcb.state = .zombie then some process.pcb.exitCode
          else none).join with
      | none =>
        refine ⟨found, run, ?_⟩
        rw [ended, and_iff_right rfl]
      | some code => exact ⟨some (child, code), rfl, by simp⟩
    · refine ⟨found, ?_, ?_⟩
      · rw [if_neg waited, run]
      · rw [ended, List.forall_mem_cons]
        simp [lingers, waited]

theorem findZombieChild_ok {zombie : Option (Nat × BitVec 32)}
    (found : lookUp maxProcesses world.tables.processes parent = some process) :
    findZombieChild parent waitPid (.exclusive []) world = .ok (zombie, after) ↔
      process.pcb.childCount ≤ maxChildren ∧
        firstZombie waitPid ((List.range process.pcb.childCount).map process.pcb.children)
          (.exclusive []) world = .ok (zombie, after) := by
  obtain ⟨inside, here⟩ := lookUp_some.mp found
  rw [findZombieChild, withProcess, bind_run, withEntry_run rfl inside here]
  by_cases few : process.pcb.childCount ≤ maxChildren
  · rw [if_neg (Nat.not_lt_of_le few), and_iff_right few]
    rfl
  · rw [if_pos (Nat.lt_of_not_le few)]
    exact iff_of_false (fun wrong => by cases wrong) fun both => few both.1

theorem Tame.firstZombie : Tame [.threads, .processes] (firstZombie waitPid children) := by
  induction children with
  | nil => exact pure
  | cons child children ih =>
    rw [Syscall.firstZombie]
    split
    · refine (withProcess fun _ => pure).bind fun code => ?_
      split
      · exact pure
      · exact ih
    · exact ih

theorem Tame.findZombieChild : Tame [.threads, .processes] (findZombieChild parent waitPid) := by
  refine bind (withProcess fun process => ?_) fun children => ?_
  · split
    · exact fault
    · exact pure
  · cases children with
    | none => exact pure
    | some children => exact firstZombie

variable {statusPtr : Nat}

theorem Tame.giveStatus : Tame [.threads, .processes] (giveStatus statusPtr) := by
  unfold Syscall.giveStatus
  split
  · exact pure
  · exact copyUser

theorem Tame.reap : Tame [.threads, .processes] (reap child statusPtr) := by
  refine bind giveStatus fun copied => ?_
  cases copied with
  | error error => exact pure
  | ok _ => exact (withProcess fun _ => change).bind fun _ => pure

end Children

/-- The calls that may go to sleep. -/
inductive BlockingCall where
  | pipeWrite (id : Nat) (data : Bytes)
  | pipeRead (id room : Nat)
  | accept (id : Nat)
  | send (id : Nat) (data : Bytes)
  | recv (id room : Nat)
  | futexWait (uaddr : Nat) (expected : BitVec 32)
  | wait4 (waitPid : BitVec 32) (statusPtr : Nat)

namespace BlockingCall

/-- The code of a call, with the number of times it may try. -/
def code (rounds : Nat) : BlockingCall → Code Unit
  | .pipeWrite id data => (fun _ => ()) <$> Syscall.pipeWrite id data rounds
  | .pipeRead id room => (fun _ => ()) <$> Syscall.pipeRead id room rounds
  | .accept id => (fun _ => ()) <$> Syscall.accept id rounds
  | .send id data => (fun _ => ()) <$> Syscall.send id data rounds
  | .recv id room => (fun _ => ()) <$> Syscall.recv id room rounds
  | .futexWait uaddr expected => (fun _ => ()) <$> Syscall.futexWait uaddr expected rounds
  | .wait4 waitPid statusPtr => (fun _ => ()) <$> Syscall.wait4 waitPid statusPtr rounds

/-- The states in which a call has to wait. -/
def Blocks (tables : Tables) : BlockingCall → Prop
  | .pipeWrite id _ => id < maxPipes ∧ ∃ pipe, tables.pipes id = some pipe ∧
      pipe.readRefs ≠ 0 ∧ Ipc.pipeBuf ≤ pipe.ring.len
  | .pipeRead id _ => id < maxPipes ∧ ∃ pipe, tables.pipes id = some pipe ∧
      pipe.ring.len = 0 ∧ pipe.writeRefs ≠ 0
  | .accept id => id < maxUnix ∧ ∃ listener, tables.sockets id = some listener ∧
      listener.listener = true ∧ listener.pendingLen = 0
  | .send id _ => id < maxUnix ∧ ∃ here peer there, tables.sockets id = some here ∧
      peerOf id here = some peer ∧ peer < maxUnix ∧ tables.sockets peer = some there ∧
      there.peerClosed = false ∧ Ipc.unixBuf ≤ there.ring.len
  | .recv id _ => id < maxUnix ∧ ∃ here, tables.sockets id = some here ∧
      here.ring.len = 0 ∧ here.peerClosed = false
  | .futexWait uaddr expected => accessOk uaddr 4 = true ∧ tables.userWord uaddr = expected
  | .wait4 waitPid _ => ∃ parent process,
      lookUp maxThreads tables.threads tables.tid = some parent ∧
      lookUp maxProcesses tables.processes parent = some process ∧ 0 < process.pcb.childCount ∧
      process.pcb.childCount ≤ maxChildren ∧
      ∀ slot < process.pcb.childCount, lingers tables waitPid (process.pcb.children slot) = false

/-- Code that returns does not sleep in a state. -/
def Awake (tables : Tables) (body : Code α) : Prop :=
  ∀ wakeUps value final, body (.exclusive []) ⟨tables, wakeUps, []⟩ = .ok (value, final) →
    final.sleeps = []

section Awake

variable {id room rounds uaddr statusPtr : Nat} {data : Bytes} {expected waitPid : BitVec 32}
  {tables : Tables}

theorem awake_pipeWrite (ready : ¬ Blocks tables (.pipeWrite id data)) :
    Awake tables (Syscall.pipeWrite id data (rounds + 1)) := by
  intro wakeUps value final run
  rw [Syscall.pipeWrite] at run
  refine quiet_attempt run (fun _ => .tryPipeWrite) .pure tryPipeWrite_refused ready ?_
  rintro (error | count) accepted
  · cases error with
    | badFd | epipe => exact .pure
    | wouldBlock => exact absurd rfl accepted
  · exact .pure

theorem awake_pipeRead (ready : ¬ Blocks tables (.pipeRead id room)) :
    Awake tables (Syscall.pipeRead id room (rounds + 1)) := by
  intro wakeUps value final run
  rw [Syscall.pipeRead] at run
  refine quiet_attempt run (fun _ => .tryPipeRead) .pure tryPipeRead_refused ready ?_
  rintro (error | bytes) accepted
  · cases error with
    | badFd | epipe => exact .pure
    | wouldBlock => exact absurd rfl accepted
  · exact .pure

theorem awake_accept (ready : ¬ Blocks tables (.accept id)) :
    Awake tables (Syscall.accept id (rounds + 1)) := by
  intro wakeUps value final run
  rw [Syscall.accept] at run
  refine quiet_attempt run (fun _ => .tryAccept) .pure tryAccept_refused ready ?_
  rintro (error | client) accepted
  · cases error with
    | wouldBlock => exact absurd rfl accepted
    | _ => exact .pure
  · refine Tame.socket.bind fun created => ?_
    cases created with
    | error error => exact .pure
    | ok conn =>
      exact (Tame.withSlot (by simp) fun _ => .change).bind fun _ =>
        (Tame.withSlot (by simp) fun _ => .change).bind fun _ => .pure

theorem awake_recv (ready : ¬ Blocks tables (.recv id room)) :
    Awake tables (Syscall.recv id room (rounds + 1)) := by
  intro wakeUps value final run
  rw [Syscall.recv] at run
  refine quiet_attempt run (fun _ => .tryRecv) .pure tryRecv_refused ready ?_
  rintro (error | bytes) accepted
  · cases error with
    | wouldBlock => exact absurd rfl accepted
    | _ => exact .pure
  · exact .pure

theorem awake_send (ready : ¬ Blocks tables (.send id data)) :
    Awake tables (Syscall.send id data rounds) := by
  intro wakeUps value final run
  -- A sender that has nothing to send tries again in the same state.
  induction rounds with
  | zero =>
    cases run
    rfl
  | succ rounds ih =>
    rw [Syscall.send] at run
    obtain ⟨named, middle, first, finish⟩ := bind_returned run
    rcases withSlot_ok first with
      ⟨rfl, rfl⟩ | ⟨here, receiver, inner, -, inside, found, read, rfl⟩
    · cases finish
      rfl
    · cases read
      rw [join_some] at finish
      cases peer : peerOf id here with
      | none =>
        rw [peer] at finish
        cases finish
        rfl
      | some peer' =>
        rw [peer] at finish
        obtain ⟨tried, next, second, last⟩ := bind_returned finish
        have quiet : next.sleeps = [] := (Tame.withSlot (by simp) fun _ => (.trySend : Tame [] _)).quiet _ _ _ _ second
        rcases withSlot_ok second with
          ⟨rfl, rfl⟩ | ⟨there, outcome, inner', -, inside', found', attempt, rfl⟩
        · cases last
          rfl
        · cases outcome with
          | error error =>
            cases error with
            | wouldBlock =>
              exact absurd ⟨inside, here, peer', there, found, peer, inside', found',
                trySend_refused attempt⟩ ready
            | _ =>
              cases last
              exact quiet
          | ok count =>
            dsimp only at last
            split at last
            · cases last
              exact quiet
            · rename_i nothing
              rw [Nat.eq_zero_of_not_pos nothing] at attempt
              rw [trySend_nothing found' attempt] at last
              exact ih last

theorem awake_futexWait (ready : ¬ Blocks tables (.futexWait uaddr expected)) :
    Awake tables (Syscall.futexWait uaddr expected rounds) := by
  intro wakeUps value final run
  rw [Syscall.futexWait, bind_ok readUserU32_run] at run
  by_cases access : accessOk uaddr 4 = true
  · have differs : tables.userWord uaddr ≠ expected := fun same => ready ⟨access, same⟩
    rw [if_pos access] at run
    dsimp only at run
    rw [if_pos differs] at run
    cases run
    rfl
  · rw [if_neg access] at run
    cases run
    rfl

theorem awake_wait4 (ready : ¬ Blocks tables (.wait4 waitPid statusPtr)) :
    Awake tables (Syscall.wait4 waitPid statusPtr (rounds + 1)) := by
  intro wakeUps value final run
  rw [Syscall.wait4, look, read_bind, withThread, bind_ok (lookUp_run rfl)] at run
  dsimp only at run
  cases thread : lookUp maxThreads tables.threads tables.tid with
  | none =>
    rw [thread] at run
    cases run
    rfl
  | some parent =>
    rw [thread, map_some] at run
    dsimp only at run
    rw [waitRounds] at run
    obtain ⟨zombie, middle, searched, finish⟩ := bind_returned run
    have quiet : middle.sleeps = [] := Tame.findZombieChild.quiet _ _ _ _ searched
    cases zombie with
    | some ended => exact (Tame.reap.map.quiet _ _ _ _ finish).trans quiet
    | none =>
      cases found : lookUp maxProcesses tables.processes parent with
      | none =>
        -- A parent that is not there has no children.
        rw [findZombieChild, withProcess, bind_ok (withEntry_none rfl found)] at searched
        cases searched
        dsimp only at finish
        rw [withProcess, bind_ok (lookUp_run rfl), found, map_none, getD_none,
          if_pos rfl] at finish
        cases finish
        rfl
      | some process =>
        obtain ⟨few, run⟩ := (findZombieChild_ok found).mp searched
        obtain ⟨zombie, run', ended⟩ := firstZombie_run waitPid
          ((List.range process.pcb.childCount).map process.pcb.children) ⟨tables, wakeUps, []⟩
        cases run'.symm.trans run
        dsimp only at finish
        rw [withProcess, bind_ok (lookUp_run rfl), found, map_some, getD_some] at finish
        by_cases children : 0 < process.pcb.childCount
        · -- With children of which none has ended, the call would have to wait.
          have running := List.forall_mem_map.mp (ended.mp rfl)
          exact absurd ⟨parent, process, thread, found, children, few,
            fun slot member => running slot (List.mem_range.mpr member)⟩ ready
        · rw [if_pos (decide_eq_false children)] at finish
          cases finish
          rfl

end Awake

section Asleep

variable {id room rounds uaddr statusPtr : Nat} {data : Bytes} {expected waitPid : BitVec 32}
  {tables : Tables}

/-- Code that goes to sleep with a lock and is not woken. -/
def Sleeps (tables : Tables) (lock : Lock) (body : Code (Option α)) : Prop :=
  ∃ final, body (.exclusive []) ⟨tables, [], []⟩ = .ok (none, ⟨final, [], [[lock]]⟩)

theorem refused_run {lock : Lock} {size : Nat} {table : Tables → Nat → Option β} {item : β}
    {body : β → Code α} {answer : α} (inside : id < size) (found : table tables id = some item)
    (refused : body item (.exclusive [lock]) ⟨tables, [], []⟩ = .ok (answer, ⟨tables, [], []⟩)) :
    withSlot lock size table id body (.exclusive []) ⟨tables, [], []⟩ =
      .ok (some answer, ⟨tables, [], []⟩) := by
  rw [withSlot_run rfl inside found, map_run, refused]

theorem sleeps_pipeWrite (blocked : Blocks tables (.pipeWrite id data)) :
    Sleeps tables .pipes (Syscall.pipeWrite id data (rounds + 1)) := by
  obtain ⟨inside, pipe, found, readers, full⟩ := blocked
  unfold Sleeps
  rw [Syscall.pipeWrite, withPipe,
    bind_ok (refused_run inside found (tryPipeWrite_full readers full))]
  dsimp only
  rw [withPipe, bind_run, withSlot_run rfl inside found, if_neg readers]
  exact ⟨_, rfl⟩

theorem sleeps_pipeRead (blocked : Blocks tables (.pipeRead id room)) :
    Sleeps tables .pipes (Syscall.pipeRead id room (rounds + 1)) := by
  obtain ⟨inside, pipe, found, empty, writers⟩ := blocked
  have nothing : ¬ 0 < pipe.ring.len := Nat.not_lt_of_le (Nat.le_of_eq empty)
  have refused : tryPipeRead id room pipe (.exclusive [.pipes]) ⟨tables, [], []⟩ =
      .ok (.error .wouldBlock, ⟨tables, [], []⟩) := by
    rw [tryPipeRead, if_neg nothing, if_neg writers]
    rfl
  unfold Sleeps
  rw [Syscall.pipeRead, withPipe, bind_ok (refused_run inside found refused)]
  dsimp only
  rw [withPipe, bind_run, withSlot_run rfl inside found, if_neg nothing, if_neg writers]
  exact ⟨_, rfl⟩

theorem sleeps_accept (blocked : Blocks tables (.accept id)) :
    Sleeps tables .sockets (Syscall.accept id (rounds + 1)) := by
  obtain ⟨inside, listener, found, listens, nobody⟩ := blocked
  have refused : tryAccept id listener (.exclusive [.sockets]) ⟨tables, [], []⟩ =
      .ok (.error .wouldBlock, ⟨tables, [], []⟩) := by
    rw [tryAccept, if_neg (ne_false_of_eq_true listens),
      if_neg (Nat.not_lt_of_le (Nat.le_of_eq nobody))]
    rfl
  unfold Sleeps
  rw [Syscall.accept, withSock, bind_ok (refused_run inside found refused)]
  dsimp only
  rw [withSock, bind_run, withSlot_run rfl inside found]
  exact ⟨_, rfl⟩

theorem sleeps_send (blocked : Blocks tables (.send id data)) :
    Sleeps tables .sockets (Syscall.send id data (rounds + 1)) := by
  obtain ⟨inside, here, peer, there, found, named, inside', found', isOpen, full⟩ := blocked
  have receiver : withSock id (fun here => pure (peerOf id here)) (.exclusive [])
      ⟨tables, [], []⟩ = .ok (some (some peer), ⟨tables, [], []⟩) :=
    refused_run inside found (by rw [named, pure_run])
  have refused : trySend peer data there (.exclusive [.sockets]) ⟨tables, [], []⟩ =
      .ok (.error .wouldBlock, ⟨tables, [], []⟩) := by
    rw [trySend, if_neg (ne_true_of_eq_false isOpen), if_pos full]
    rfl
  unfold Sleeps
  rw [Syscall.send, bind_ok receiver, join_some]
  dsimp only
  rw [withSock, bind_ok (refused_run inside' found' refused)]
  dsimp only
  rw [withSock, bind_run, withSlot_run rfl inside' found']
  exact ⟨_, rfl⟩

theorem sleeps_recv (blocked : Blocks tables (.recv id room)) :
    Sleeps tables .sockets (Syscall.recv id room (rounds + 1)) := by
  obtain ⟨inside, here, found, empty, isOpen⟩ := blocked
  have refused : tryRecv id room here (.exclusive [.sockets]) ⟨tables, [], []⟩ =
      .ok (.error .wouldBlock, ⟨tables, [], []⟩) := by
    rw [tryRecv, if_neg (Nat.not_lt_of_le (Nat.le_of_eq empty)),
      if_neg (ne_true_of_eq_false isOpen)]
    rfl
  unfold Sleeps
  rw [Syscall.recv, withSock, bind_ok (refused_run inside found refused)]
  dsimp only
  rw [withSock, bind_run, withSlot_run rfl inside found]
  exact ⟨_, rfl⟩

theorem sleeps_futexWait (blocked : Blocks tables (.futexWait uaddr expected)) :
    Sleeps tables .futexes (Syscall.futexWait uaddr expected (rounds + 1)) := by
  obtain ⟨access, same⟩ := blocked
  obtain ⟨inside, entry, found⟩ := tables.futexes.findOrCreate_slot uaddr
  have slot : withLock .futexes (do
      let found ← look fun tables => tables.futexes.findOrCreate uaddr
      change fun tables => { tables with futexes := found.2 }
      pure found.1) (.exclusive []) ⟨tables, [], []⟩ =
      .ok ((tables.futexes.findOrCreate uaddr).1,
        ⟨{ tables with futexes := (tables.futexes.findOrCreate uaddr).2 }, [], []⟩) := rfl
  unfold Sleeps
  rw [Syscall.futexWait, bind_ok readUserU32_run, if_pos access]
  dsimp only
  rw [if_neg (not_not_intro same), bind_ok slot, futexRounds, bind_ok readUserU32_run,
    if_pos access]
  dsimp only
  rw [if_neg (not_not_intro same), bind_run, withSlot_run rfl inside found]
  exact ⟨_, rfl⟩

theorem sleeps_wait4 (blocked : Blocks tables (.wait4 waitPid statusPtr)) :
    Sleeps tables .processes (Syscall.wait4 waitPid statusPtr (rounds + 1)) := by
  obtain ⟨parent, process, thread, found, children, few, running⟩ := blocked
  obtain ⟨inside, here⟩ := lookUp_some.mp found
  obtain ⟨zombie, run, ended⟩ := firstZombie_run waitPid
    ((List.range process.pcb.childCount).map process.pcb.children) ⟨tables, [], []⟩
  have nobody : zombie = none := by
    rw [ended, List.forall_mem_map]
    exact fun slot member => running slot (List.mem_range.mp member)
  subst nobody
  have searched := (findZombieChild_ok found).mpr ⟨few, run⟩
  unfold Sleeps
  rw [Syscall.wait4, look, read_bind, withThread, bind_ok (lookUp_run rfl)]
  dsimp only
  rw [thread, map_some]
  dsimp only
  rw [waitRounds, bind_ok searched]
  dsimp only
  rw [withProcess, bind_ok (lookUp_run rfl), found, map_some, getD_some,
    decide_eq_true children, if_neg (by decide), withProcess, bind_run,
    withEntry_run rfl inside here]
  exact ⟨_, rfl⟩

end Asleep

variable {tables : Tables} {body : Code (Option α)}

theorem Awake.map (awake : Awake tables body) {wakeUps : List (Tables → Tables)} {final : World}
    (run : ((fun _ => ()) <$> body : Code Unit) (.exclusive []) ⟨tables, wakeUps, []⟩ =
      .ok ((), final)) : final.sleeps = [] := by
  obtain ⟨value, middle, first, finish⟩ := bind_returned run
  cases finish
  exact awake wakeUps value final first

theorem Sleeps.map {lock : Lock} (sleeps : Sleeps tables lock body)
    (unlocked : ∀ wakeUps final,
      ((fun _ => ()) <$> body : Code Unit) (.exclusive []) ⟨tables, wakeUps, []⟩ =
        .ok ((), final) → ∀ held ∈ final.sleeps, held = []) : False := by
  obtain ⟨final, run⟩ := sleeps
  have last : ((fun _ => ()) <$> body : Code Unit) (.exclusive []) ⟨tables, [], []⟩ =
      .ok ((), ⟨final, [], [[lock]]⟩) := by
    rw [map_run, run]
  cases unlocked [] _ last [lock] List.mem_cons_self

/--
A call goes to sleep without a lock exactly if it does not have to wait.

All the calls wait in a section of the lock around the table that they wait for.
-/
theorem sleeps_unlocked_iff (call : BlockingCall) (tables : Tables) (rounds : Nat) :
    (∀ wakeUps final, call.code (rounds + 1) (.exclusive []) ⟨tables, wakeUps, []⟩ =
      .ok ((), final) → ∀ held ∈ final.sleeps, held = []) ↔ ¬ call.Blocks tables := by
  constructor
  · intro unlocked blocked
    cases call with
    | pipeWrite id data => exact (sleeps_pipeWrite blocked).map unlocked
    | pipeRead id room => exact (sleeps_pipeRead blocked).map unlocked
    | accept id => exact (sleeps_accept blocked).map unlocked
    | send id data => exact (sleeps_send blocked).map unlocked
    | recv id room => exact (sleeps_recv blocked).map unlocked
    | futexWait uaddr expected => exact (sleeps_futexWait blocked).map unlocked
    | wait4 waitPid statusPtr => exact (sleeps_wait4 blocked).map unlocked
  · intro ready wakeUps final run
    -- A call that does not have to wait has no sleep in its record.
    suffices awake : final.sleeps = [] by
      rw [awake]
      exact fun held member => absurd member List.not_mem_nil
    cases call with
    | pipeWrite id data => exact (awake_pipeWrite ready).map run
    | pipeRead id room => exact (awake_pipeRead ready).map run
    | accept id => exact (awake_accept ready).map run
    | send id data => exact (awake_send ready).map run
    | recv id room => exact (awake_recv ready).map run
    | futexWait uaddr expected => exact (awake_futexWait ready).map run
    | wait4 waitPid statusPtr => exact (awake_wait4 ready).map run

/-- Tables with one process that has both ends of an empty pipe. -/
def emptyPipe : Tables where
  tid := 1
  threads := fun tid => if tid = 1 then some 1 else none
  processes := fun _ => none
  pipes := fun id => if id = 0 then some { PipeInner.new with readRefs := 1, writeRefs := 1 } else none
  nextPipe := 1
  sockets := fun _ => none
  futexes := fun _ => none
  userWord := fun _ => 0
  kpti := false
  kernelCr3 := 0
  devices := ⟨fun _ _ => none, fun _ _ => none⟩

/-- A reader of an empty pipe sleeps with the lock that the writer needs. -/
theorem emptyPipe_sleeps_locked : ¬ ∀ wakeUps final,
    (BlockingCall.pipeRead 0 1).code 1 (.exclusive []) ⟨emptyPipe, wakeUps, []⟩ =
      .ok ((), final) → ∀ held ∈ final.sleeps, held = [] := by
  intro unlocked
  cases unlocked [] _ rfl [Lock.pipes] List.mem_cons_self

end BlockingCall

end TheoryKernel.Syscall
