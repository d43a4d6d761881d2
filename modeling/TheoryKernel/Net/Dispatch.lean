import TheoryKernel.Net.StackLocks

/-! Which frames the stack takes in without stopping, whatever else comes meanwhile. -/

namespace TheoryKernel.Net

open Locking (Held Stop)
open Locking.Code Tcp

/-- Code that is started without a lock comes back. -/
def Returns (body : Code Unit) (stack : Stack) : Prop :=
  ∃ next, body (.exclusive []) stack = .ok ((), next)

/-- Code that is started without a lock stops. -/
def Stops (body : Code Unit) (stack : Stack) : Prop :=
  ∃ stop, body (.exclusive []) stack = .error stop

/--
Code comes back if a condition holds, and stops otherwise.

It may have to wait for other frames before it stops, and then it stops where taking those in does.
-/
structure Decides (safe : Bool) (rxPoll body : Code Unit) (stack : Stack) : Prop where
  returns : safe = true → Returns body stack
  stops : safe = false → (∀ dst, Stops rxPoll (askedFor stack dst)) → Stops body stack

section Decisions

variable {stack : Stack} {src : Ipv4Addr} {data payload frame : Bytes} {rxPoll body : Code Unit}

theorem Stops.not_returns (stops : Stops body stack) : ¬ Returns body stack := by
  obtain ⟨stop, stopped⟩ := stops
  rintro ⟨next, returned⟩
  rw [stopped] at returned
  cases returned

theorem Decides.nothing : Decides true rxPoll (pure ()) stack :=
  ⟨fun _ => ⟨stack, rfl⟩, nofun⟩

theorem Decides.never (stops : Stops body stack) : Decides false rxPoll body stack :=
  ⟨nofun, fun _ _ => stops⟩

theorem Decides.of_eq {safe : Bool} {other : Code Unit}
    (decides : Decides safe rxPoll other stack)
    (same : body (.exclusive []) stack = other (.exclusive []) stack) :
    Decides safe rxPoll body stack := by
  constructor
  · intro isSafe
    obtain ⟨next, returned⟩ := decides.returns isSafe
    exact ⟨next, same.trans returned⟩
  · intro bad blocked
    obtain ⟨stop, stopped⟩ := decides.stops bad blocked
    exact ⟨stop, same.trans stopped⟩

theorem Decides.skip {safe : Bool} {skips : Prop} [Decidable skips]
    (rest : ¬ skips → Decides safe rxPoll body stack) :
    Decides (decide skips || safe) rxPoll (if skips then pure () else body) stack := by
  by_cases skip : skips
  · rw [if_pos skip, decide_eq_true skip, Bool.true_or]
    exact nothing
  · rw [if_neg skip, decide_eq_false skip, Bool.false_or]
    exact rest skip

theorem Decides.sliced {safe inside : Bool} {start stop : Nat} {rest : Bytes → Code Unit}
    (bounds : inside = true ↔ start ≤ stop ∧ stop ≤ data.length)
    (decides : Decides safe rxPoll (rest ((data.drop start).take (stop - start))) stack) :
    Decides (inside && safe) rxPoll (run (slice data start stop) >>= rest) stack := by
  unfold slice
  cases inside with
  | false =>
    rw [if_neg fun both => Bool.false_ne_true (bounds.mpr both)]
    exact .never ⟨_, rfl⟩
  | true =>
    rw [if_pos (bounds.mp rfl)]
    exact decides

namespace Icmp

/-- Whether a control message can be answered at once, if it must be. -/
def isSafe (stack : Stack) (src : Ipv4Addr) (data : Bytes) : Bool :=
  data.length < 8 || byte data 0 ≠ 8 || (data.length ≤ 576 && (known stack src).isSome)

theorem reply_eq (enough : 8 ≤ data.length) (short : data.length ≤ 576) :
    ∃ answer, reply data = .ok answer ∧ answer.length = data.length := by
  obtain ⟨filled, copied, length⟩ : ∃ filled, copyFromSlice (List.replicate 576 (0 : BitVec 8)) 0
      data.length data = .ok filled ∧ filled.length = _ :=
    copyFromSlice_length (Nat.zero_add _) (by rwa [List.length_replicate])
  rw [List.length_replicate] at length
  generalize isMarked : ((filled.set 0 0).set 2 0).set 3 0 = marked
  have size : marked.length = 576 := by simpa [← isMarked] using length
  obtain ⟨answer, summed, whole⟩ : ∃ answer, copyFromSlice marked 2 4
      (toBeBytes16 (checksum (marked.take data.length))) = .ok answer ∧ answer.length = _ :=
    copyFromSlice_length (by rw [toBeBytes16_length]) (by omega)
  refine ⟨answer.take data.length, ?_, by rw [List.length_take]; omega⟩
  unfold reply
  refine (Exec.bind_of_ok copied).trans ?_
  refine (Exec.bind_of_ok (setAt_eq (by omega))).trans ?_
  refine (Exec.bind_of_ok (setAt_eq (by simp [length]))).trans ?_
  refine (Exec.bind_of_ok (setAt_eq (by simp [length]))).trans ?_
  rw [isMarked]
  refine (Exec.bind_of_ok (slice_zero (by omega))).trans ?_
  refine (Exec.bind_of_ok summed).trans ?_
  exact slice_zero (by omega)

theorem reply_long (long : 576 < data.length) : reply data = .error .sliceOutOfRange := by
  have failed : copyFromSlice (List.replicate 576 (0 : BitVec 8)) 0 data.length data =
      .error .sliceOutOfRange := by
    rw [copyFromSlice, List.length_replicate, if_neg (by omega)]
  exact congrArg (· >>= _) failed

theorem handleIncoming_decides :
    Decides (isSafe stack src data) rxPoll (handleIncoming rxPoll src data) stack := by
  unfold isSafe handleIncoming
  rw [Bool.or_assoc]
  refine .skip fun enough => ?_
  rw [← ite_not]
  refine .skip fun _ => ?_
  by_cases fits : data.length ≤ 576
  · rw [decide_eq_true fits, Bool.true_and]
    obtain ⟨answer, built, length⟩ := reply_eq (by omega) fits
    rw [built]
    -- The answer is sent at once if the next host is known.
    constructor
    · intro found
      obtain ⟨mac, found⟩ := Option.isSome_iff_exists.mp found
      obtain ⟨frames, sent⟩ := @transmit_known rxPoll (.exclusive []) stack src ipProtoIcmp
        answer mac (by omega) found
      exact ⟨_, sent⟩
    · intro missing blocked
      obtain ⟨stop, stopped⟩ := blocked src
      exact ⟨stop, transmit_unknown (by omega) (by simpa using missing) stopped⟩
  · rw [decide_eq_false fits, Bool.false_and, reply_long (by omega)]
    exact .never ⟨_, rfl⟩

end Icmp

namespace Tcp

/-- Whether a connection answers a segment that is meant for it. -/
def answers (segment : Incoming) (tcb : TcpControlBlock) : Bool :=
  Connections.asks segment tcb ||
    (segment.flags &&& tcpRst = 0 &&
      (tcb.state = .established ||
        (tcb.state = .synSent && segment.flags &&& (tcpSyn ||| tcpAck) = tcpSyn ||| tcpAck)))

/-- Whether a segment need not be answered. -/
def isSafe (stack : Stack) (src : Ipv4Addr) (data : Bytes) : Bool :=
  match Incoming.parse data with
  | none => true
  | some segment =>
    match stack.conns.slotFor src segment with
    | none => true
    | some index => !(stack.conns.at? index).any (answers segment)

theorem isSafe_iff (stack : Stack) (src : Ipv4Addr) (data : Bytes) :
    isSafe stack src data = true ↔ (stack.conns.handleIncoming src data).2 = [] := by
  unfold isSafe Connections.handleIncoming
  cases Incoming.parse data with
  | none => exact iff_of_true rfl rfl
  | some segment =>
    dsimp only
    cases stack.conns.slotFor src segment with
    | none => exact iff_of_true rfl rfl
    | some index =>
      dsimp only
      cases stack.conns.at? index with
      | none => exact iff_of_true rfl rfl
      | some tcb =>
        rw [Option.any_some, Bool.not_eq_true']
        dsimp only [Connections.deliver]
        split
        · -- A host that asks for a connection is always answered.
          rename_i asked
          refine iff_of_false ?_ (List.cons_ne_nil _ _)
          rw [answers, asked, Bool.true_or]
          decide
        · rename_i established
          refine Iff.trans ?_ List.map_eq_nil_iff.symm
          unfold answers TcpControlBlock.processSegment
          rw [Bool.eq_false_iff.mpr established, Bool.false_or]
          by_cases reset : segment.flags &&& tcpRst = 0
          · rw [if_neg (not_not.mpr reset)]
            cases state : tcb.state with
            | synSent =>
              by_cases both : segment.flags &&& (tcpSyn ||| tcpAck) = tcpSyn ||| tcpAck
              · simp [reset, both]
              · simp [reset, both]
            | established => simp [reset]
            | _ => simp
          · rw [if_pos reset, decide_eq_false reset, Bool.false_and]
            exact iff_of_true rfl rfl

end Tcp

/-- Whether a packet of the older version is taken in. -/
def isSafeV4 (stack : Stack) (payload : Bytes) : Bool :=
  match Ipv4Header.parse payload with
  | none => true
  | some (hdr, offset) =>
    let stop := min hdr.totalLen payload.length
    (hdr.dst ≠ stack.host.ourIp && hdr.dst ≠ .broadcast) ||
      (offset ≤ stop &&
        let data := (payload.drop offset).take (stop - offset)
        if hdr.protocol = ipProtoIcmp then Icmp.isSafe stack hdr.src data
        else if hdr.protocol = ipProtoUdp then (Udp.parse hdr.src data).isNone
        else if hdr.protocol = ipProtoTcp then isSafe stack hdr.src data
        else true)

/-- Whether a packet of the newer version is taken in. -/
def isSafeV6 (payload : Bytes) : Bool :=
  payload.length < 40 || byte payload 0 >>> 4 ≠ 6 || 40 + (be16 payload 4).toNat ≤ payload.length

/-- Whether a frame is taken in. -/
def isSafe (stack : Stack) (frame : Bytes) : Bool :=
  match EthHeader.parse frame with
  | none => true
  | some (hdr, offset) =>
    if hdr.ethertype = ethertypeArp then true
    else if hdr.ethertype = ethertypeIpv4 then isSafeV4 stack (frame.drop offset)
    else if hdr.ethertype = ethertypeIpv6 then isSafeV6 (frame.drop offset)
    else true

theorem Tcp.handleIncoming_decides : Decides (isSafe stack src data) rxPoll
    (handleIncoming windowBytes rxPoll src data) stack := by
  have outcome := @Tcp.handleIncoming_windowBytes rxPoll (.exclusive []) stack
    (.exclusive [.connections]) rfl src data
  constructor
  · intro safe
    rw [if_pos ((isSafe_iff stack src data).mp safe)] at outcome
    exact ⟨_, outcome⟩
  · intro bad _
    rw [if_neg fun none => Bool.eq_false_iff.mp bad ((isSafe_iff stack src data).mpr none)]
      at outcome
    exact ⟨_, outcome⟩

theorem Udp.handleIncoming_decides : Decides (Udp.parse src data).isNone rxPoll
    (Udp.handleIncoming src data) stack := by
  have outcome := @Udp.handleIncoming_exclusive stack src data
  cases parsed : Udp.parse src data with
  | none =>
    rw [parsed] at outcome
    exact Decides.nothing.of_eq outcome
  | some datagram =>
    rw [parsed] at outcome
    exact .never ⟨_, outcome⟩

theorem handleIncomingV6_decides :
    Decides (isSafeV6 payload) rxPoll (handleIncomingV6 payload) stack := by
  unfold isSafeV6 handleIncomingV6
  rw [Bool.or_assoc]
  refine .skip fun _ => .skip fun _ => ?_
  rw [← Bool.and_true (decide (40 + _ ≤ _))]
  refine .sliced ?_ Decides.nothing
  rw [decide_eq_true_iff, and_iff_right (Nat.le_add_right _ _)]

theorem handleIncomingV4_decides : Decides (isSafeV4 stack payload) rxPoll
    (handleIncomingV4 windowBytes rxPoll payload) stack := by
  unfold isSafeV4 handleIncomingV4
  cases parsed : Ipv4Header.parse payload with
  | none => exact .nothing
  | some found =>
    obtain ⟨hdr, offset⟩ := found
    refine .of_eq ?_ (read_bind _)
    dsimp only
    rw [← Bool.decide_and]
    refine .skip fun _ => .sliced ?_ ?_
    · rw [decide_eq_true_iff, and_iff_left (Nat.min_le_right _ _)]
    -- The three protocols are the only ones that do anything.
    split
    · exact Icmp.handleIncoming_decides
    · split
      · exact Udp.handleIncoming_decides
      · split
        · exact handleIncoming_decides
        · exact .nothing

theorem dispatch_decides : Decides (isSafe stack frame) rxPoll
    (dispatch windowBytes rxPoll frame) stack := by
  unfold isSafe dispatch
  by_cases short : frame.length < ethHdrLen
  · rw [EthHeader.parse, if_pos short]
    exact .nothing
  · have whole : slice frame ethHdrLen frame.length = .ok (frame.drop ethHdrLen) := by
      rw [slice, if_pos ⟨Nat.le_of_not_lt short, Nat.le_refl _⟩, ← List.length_drop,
        List.take_length]
    rw [EthHeader.parse, if_neg short]
    dsimp only
    rw [whole]
    refine .of_eq ?_ (pure_bind_run _)
    split
    · exact ⟨fun _ => ⟨_, rfl⟩, Bool.noConfusion⟩
    · split
      · exact handleIncomingV4_decides
      · split
        · exact handleIncomingV6_decides
        · exact Decides.nothing

end Decisions

/-- A frame whose packet is of the newer version and ends before it should. -/
def cutFrame : Bytes :=
  List.replicate 12 0 ++ [0x86, 0xDD, 0x60, 0, 0, 0, 0, 1] ++ List.replicate 34 0

theorem rxPoll_cutFrame {stack : Stack} (device : stack.host.mac.isSome = true) (now : BitVec 64)
    (arrives : stack.polls = [⟨some cutFrame, now⟩]) (polls : Nat) :
    Stops (rxPoll windowBytes polls) stack := by
  cases polls with
  | zero => exact ⟨_, rfl⟩
  | succ polls =>
    have taken : pollRx (.exclusive []) stack =
        .ok (some cutFrame, { stack with polls := [], now := now }) := by
      unfold pollRx
      rw [read_bind, arrives]
      dsimp only
      rw [modify_bind, read_run]
      rw [if_pos device]
    have stopped : ∀ other, Stops (dispatch windowBytes (rxPoll windowBytes polls) cutFrame)
        other := fun other => ⟨.fault .sliceOutOfRange, rfl⟩
    obtain ⟨stop, stopped⟩ := stopped { stack with polls := [], now := now }
    unfold rxPoll
    exact ⟨stop, (bind_ok taken).trans (bind_error stopped)⟩

/-- The stack takes the frame in, whatever the device receives meanwhile. -/
def Stack.Accepts (stack : Stack) (frame : Bytes) : Prop :=
  ∀ polls, ∃ depth, Returns (dispatch windowBytes (rxPoll windowBytes depth) frame)
    { stack with polls := polls }

/--
Which frames a stack with a device takes in, whatever else the device receives meanwhile.

A packet must be as long as its header says; an echo request must fit in the buffer for its answer,
and the host to answer to must be known; a segment may not need an answer; and a datagram may not
be one.
-/
theorem dispatch_returns_iff (stack : Stack) (device : stack.host.mac.isSome = true)
    (frame : Bytes) : stack.Accepts frame ↔ isSafe stack frame = true := by
  constructor
  · intro returns
    by_contra bad
    obtain ⟨depth, returned⟩ := returns [⟨some cutFrame, 0⟩]
    refine Stops.not_returns ?_ returned
    refine dispatch_decides.stops (Bool.eq_false_iff.mpr bad) ?_
    intro dst
    exact @rxPoll_cutFrame (askedFor { stack with polls := _ } dst) device 0 rfl depth
  · intro safe polls
    exact ⟨0, dispatch_decides.returns safe⟩

/-- A stack with a device, which knows one other host. -/
def attachedStack : Stack :=
  { Udp.newStack with
    host := {
      ourIp := ⟨10, 0, 0, 1⟩
      mac := some (.ofBytes [2, 0, 0, 0, 0, 1] 0)
      cache := fun ip => if ip = ⟨10, 0, 0, 2⟩ then some (.ofBytes [2, 0, 0, 0, 0, 2] 0) else none } }

/-- A frame with a packet of the older version, for the host of the stack. -/
def packetFrame (total : BitVec 16) (protocol last : BitVec 8) (data : Bytes) : Bytes :=
  List.replicate 12 0 ++ [0x08, 0x00, 0x45, 0] ++ toBeBytes16 total ++
    [0, 0, 0x40, 0, 64, protocol, 0, 0, 10, 0, 0, last, 10, 0, 0, 1] ++ data

/-- An echo request of a known host is answered. -/
theorem echo_returns : attachedStack.Accepts
    (packetFrame 28 ipProtoIcmp 2 [8, 0, 0, 0, 0, 0, 0, 1]) :=
  (dispatch_returns_iff attachedStack rfl _).mpr (by decide)

/-- The frame stops the stack, whatever the bound on waiting is. -/
def Stack.StopsAt (stack : Stack) (frame : Bytes) : Prop :=
  ∀ depth, Stops (dispatch windowBytes (rxPoll windowBytes depth) frame) stack

set_option maxRecDepth 4000 in
/--
Frames that stop the stack.

The length of a packet is larger than the rest of the frame, or smaller than the header; an echo
request has more data than the buffer for its answer; and a datagram needs its queue.
-/
theorem dispatch_stops :
    attachedStack.StopsAt cutFrame ∧
    attachedStack.StopsAt (packetFrame 0 ipProtoIcmp 2 []) ∧
    attachedStack.StopsAt (packetFrame 597 ipProtoIcmp 2 (8 :: List.replicate 576 0)) ∧
    attachedStack.StopsAt (packetFrame 28 ipProtoUdp 2 [0, 1, 0, 53, 0, 8, 0, 0]) :=
  ⟨fun _ => ⟨.fault .sliceOutOfRange, rfl⟩, fun _ => ⟨.fault .sliceOutOfRange, rfl⟩,
    fun _ => ⟨.fault .sliceOutOfRange, rfl⟩, fun _ => ⟨.deadlock, rfl⟩⟩

end TheoryKernel.Net
