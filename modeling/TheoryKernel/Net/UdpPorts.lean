import TheoryKernel.Net.Stack

/-! Which datagrams the readers of ports get. -/

namespace TheoryKernel.Net.Udp

open Locking (Held Stop)
open Locking.Code List

variable {stack : Stack} {port : BitVec 16} {src : Ipv4Addr} {data : Bytes}

/-- A datagram that is well formed waits for itself as well. -/
theorem handleIncoming_exclusive : handleIncoming src data (.exclusive []) stack =
    if (parse src data).isSome then .error .deadlock else .ok ((), stack) := by
  unfold handleIncoming
  cases parse src data with
  | none | some datagram => rfl

/-- The stack, with all datagrams that came and all that were read. -/
structure Ports where
  stack : Stack
  arrived : List UdpDatagram
  /-- The datagrams that were returned, with the port that was read. -/
  returned : List (BitVec 16 × UdpDatagram)
  /-- The ports that were read in vain although a datagram was waiting. -/
  starved : List (BitVec 16)

/-- What happens to the queues. -/
inductive Op where
  | datagram (src : Ipv4Addr) (data : Bytes)
  | recv (port : BitVec 16)

namespace Ports

/-- The datagrams that wait for the reader of a port. -/
def waiting (stack : Stack) (port : BitVec 16) : List UdpDatagram :=
  (stack.queues (port.toNat % 64)).filter fun datagram => datagram.dstPort = port

/-- The datagrams that came for a port. -/
def arrivedFor (state : Ports) (port : BitVec 16) : List UdpDatagram :=
  state.arrived.filter fun datagram => datagram.dstPort = port

/-- The datagrams that the reads of a port have returned. -/
def returnedTo (state : Ports) (port : BitVec 16) : List UdpDatagram :=
  (state.returned.filter fun entry => entry.1 = port).map Prod.snd

/-- Nothing has come yet. -/
def start (stack : Stack) : Ports := ⟨{ stack with queues := fun _ => [] }, [], [], []⟩

/-- What is returned by a read. -/
def answer (state : Ports) (port : BitVec 16) (stack : Stack) : Option UdpDatagram → Ports
  | some datagram => { state with stack := stack, returned := state.returned ++ [(port, datagram)] }
  | none =>
    { state with
      stack := stack
      starved := if waiting state.stack port = [] then state.starved else state.starved ++ [port] }

/-- What happens to the queues, in code that holds some locks. -/
def step (held : Held Lock) (state : Ports) : Op → Except (Stop Fault) Ports
  | .datagram src data =>
    match handleIncoming src data held state.stack with
    | .ok ((), stack) =>
      .ok { state with stack := stack, arrived := state.arrived ++ (parse src data).toList }
    | .error stop => .error stop
  | .recv port =>
    match recv port held state.stack with
    | .ok (result, stack) => .ok (state.answer port stack result)
    | .error stop => .error stop

/-- Every port has got its datagrams in order, and no read was in vain while one was waiting. -/
structure Exact (state : Ports) : Prop where
  inOrder : ∀ port, state.returnedTo port ++ waiting state.stack port = state.arrivedFor port
  starved : state.starved = []

/-- Whether nothing touches the queues. -/
def idle : Op → Bool
  | .datagram src data => (parse src data).isNone
  | .recv _ => false

/-- Whether the first datagram in the queue of a port is for that port when it is read. -/
def ownFront (state : Ports) : Op → Bool
  | .datagram _ _ => true
  | .recv port =>
    match state.stack.queues (port.toNat % 64) with
    | [] => true
    | datagram :: _ => datagram.dstPort = port

variable {state : Ports} {op : Op} {ops : List Op}

theorem step_exclusive :
    step (.exclusive []) state op = if idle op then .ok state else .error .deadlock := by
  cases op with
  | datagram src data =>
    rw [step, handleIncoming_exclusive, idle]
    cases parse src data with
    | none => rw [Option.toList_none, append_nil]; rfl
    | some datagram => rfl
  | recv port => rfl

theorem run_exclusive {final : Ports} :
    Runs.run (step (.exclusive [])) state ops = .ok final ↔
      ops.all idle = true ∧ final = state := by
  induction ops generalizing state with
  | nil =>
    rw [Runs.run_nil, Except.ok.injEq]
    exact ⟨fun same => ⟨rfl, same.symm⟩, fun both => both.2.symm⟩
  | cons op ops ih =>
    rw [all_cons, Bool.and_eq_true]
    by_cases quiet : idle op = true
    · have first : step (.exclusive []) state op = .ok state := by rw [step_exclusive, if_pos quiet]
      rw [Runs.run_cons first, ih]
      exact ⟨fun both => ⟨⟨quiet, both.1⟩, both.2⟩, fun all => ⟨all.1.2, all.2⟩⟩
    · have first : step (.exclusive []) state op = .error .deadlock := by
        rw [step_exclusive, if_neg quiet]
      constructor
      · intro ended
        rw [Runs.run, foldlM_cons, first] at ended
        cases ended
      · intro all
        exact absurd all.1.1 quiet

theorem Exact.datagram (kept : Exact state) (src : Ipv4Addr) (data : Bytes) :
    ∃ next, step .reentrant state (.datagram src data) = .ok next ∧ Exact next := by
  rw [step, handleIncoming]
  cases parse src data with
  | none => exact ⟨_, rfl, by simpa [arrivedFor] using kept.inOrder, kept.starved⟩
  | some datagram =>
    refine ⟨_, rfl, fun port => ?_, kept.starved⟩
    have before := kept.inOrder port
    unfold arrivedFor returnedTo waiting at before ⊢
    dsimp only
    rw [Option.toList_some, filter_append, ← before, append_assoc]
    congr 1
    by_cases same : port.toNat % 64 = datagram.dstPort.toNat % 64
    · rw [same, Function.update_self, filter_append]
    · -- A port of another queue is another port.
      have other : ¬ datagram.dstPort = port := fun equal => same (by rw [equal])
      rw [Function.update_of_ne same, filter_cons, if_neg (by simp [other]), filter_nil,
        append_nil]

theorem Exact.recv (kept : Exact state) {port : BitVec 16}
    (own : ownFront state (.recv port) = true) :
    ∃ next, step .reentrant state (.recv port) = .ok next ∧ Exact next := by
  rw [ownFront] at own
  have taken : Udp.recv port .reentrant state.stack =
      popFront (port.toNat % 64) .reentrant state.stack := rfl
  rw [step, taken, popFront, read_bind]
  cases front : state.stack.queues (port.toNat % 64) with
  | nil =>
    -- Nothing waits in the queue, so nothing waits for the port.
    have none : waiting state.stack port = [] := by rw [waiting, front, filter_nil]
    refine ⟨_, rfl, ?_⟩
    rw [answer, if_pos none]
    exact ⟨kept.inOrder, kept.starved⟩
  | cons datagram rest =>
    rw [front] at own
    have port_eq : datagram.dstPort = port := of_decide_eq_true own
    subst port_eq
    refine ⟨_, rfl, fun port => ?_, kept.starved⟩
    have before := kept.inOrder port
    unfold arrivedFor returnedTo waiting at before ⊢
    rw [answer, ← before, filter_append, map_append, append_assoc]
    congr 1
    dsimp only
    by_cases same : port.toNat % 64 = datagram.dstPort.toNat % 64
    · rw [same, Function.update_self, front]
      by_cases own : datagram.dstPort = port <;> simp [own]
    · have other : ¬ datagram.dstPort = port := fun equal => same (by rw [equal])
      rw [Function.update_of_ne same]
      simp [other]

end Ports

/--
With the lock of the queues, a run comes to its end and is exact only if nothing touches them;
without it, every run is exact whose reads find a datagram of their own port at the front.
-/
theorem demultiplexing_iff (stack : Stack) :
    (∀ ops, (∃ final, Runs.run (Ports.step (.exclusive [])) (.start stack) ops = .ok final ∧
        final.Exact) ↔ ops.all Ports.idle = true) ∧
    ∀ ops, Runs.everyStep (Ports.step .reentrant) Ports.ownFront (.start stack) ops = true →
      ∃ final, Runs.run (Ports.step .reentrant) (.start stack) ops = .ok final ∧ final.Exact := by
  have begins : (Ports.start stack).Exact := ⟨fun _ => rfl, rfl⟩
  constructor
  · intro ops
    constructor
    · rintro ⟨final, ended, -⟩
      exact (Ports.run_exclusive.mp ended).1
    · intro quiet
      exact ⟨_, Ports.run_exclusive.mpr ⟨quiet, rfl⟩, begins⟩
  · intro ops own
    refine Runs.run_returns Ports.Exact ?_ begins own
    intro state op kept own
    cases op with
    | datagram src data => exact kept.datagram src data
    | recv port => exact kept.recv own

/-- A stack that has just started. -/
def newStack : Stack := ⟨⟨.any, none, fun _ => none⟩, none, fun _ => [], .initial, [], 0, []⟩

/-- The bytes of a datagram of one byte for a port. -/
def sampleDatagram (port : BitVec 16) (content : BitVec 8) : Op :=
  .datagram .any (toBeBytes16 1000 ++ toBeBytes16 port ++ toBeBytes16 9 ++ [0, 0, content])

/-- Two ports with one queue are read in the order in which their datagrams came. -/
theorem sample_exact :
    ∃ final, Runs.run (Ports.step .reentrant) (.start newStack)
      [sampleDatagram 53 1, sampleDatagram 117 2, .recv 53, .recv 117, .recv 53] = .ok final ∧
        final.Exact :=
  (demultiplexing_iff newStack).2 _ (by decide)

/-- A read never returns, and without the lock it would return the datagram of another port. -/
theorem sample_mixed :
    Runs.run (Ports.step (.exclusive [])) (.start newStack) [.recv 53] = .error .deadlock ∧
    ∃ final, Runs.run (Ports.step .reentrant) (.start newStack) [sampleDatagram 117 2, .recv 53] =
      .ok final ∧ ¬ final.Exact := by
  refine ⟨rfl, _, rfl, ?_⟩
  intro kept
  exact absurd (kept.inOrder 53) (by decide)

end TheoryKernel.Net.Udp
