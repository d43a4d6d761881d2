import TheoryKernel.Net.Tcp.Sender

/-! Which bytes of a connection are sent under which numbers. -/

namespace TheoryKernel.Net.Tcp

/-- Whether a segment carries the bytes of a stream that belong to its number. -/
def Outgoing.Carries (iss : BitVec 32) (stream : Bytes) (segment : Outgoing) : Prop :=
  (segment.seq - (iss + 1)).toNat + segment.payload.length ≤ stream.length ∧
    segment.payload = (stream.drop (segment.seq - (iss + 1)).toNat).take segment.payload.length

instance (iss : BitVec 32) (stream : Bytes) (segment : Outgoing) :
    Decidable (segment.Carries iss stream) :=
  inferInstanceAs (Decidable (_ ∧ _))

/-- What a connection has been given to send, and the segments in which it was sent. -/
structure Sent where
  stream : Bytes
  segments : List Outgoing
  deriving DecidableEq, Repr

namespace Sent

/-- The bytes that a call adds to what is to be sent, if they are accepted. -/
def accepted (answer : Answer) : Option Input → Bytes
  | some (.send _ data) => if answer.accepted.isSome then data else []
  | _ => []

/-- What has been sent behind an operation. -/
def after (history : Sent) (_ : Op) (_ : TcpControlBlock) (input : Option Input)
    (_ : TcpControlBlock) (answer : Answer) : Sent where
  stream := history.stream ++ accepted answer input
  segments := history.segments ++ answer.sent.filter fun segment => segment.payload ≠ []

end Sent

/-- Whether no timer expires, and fewer bytes are sent than there are numbers. -/
def Input.onTime (history : Sent) (tcb : TcpControlBlock) : Input → Bool
  | .send _ data => history.stream.length + data.length < 2 ^ 32
  | .tick now => !tcb.expired now
  | _ => true

/-- The place in the buffer and the number that comes next belong together. -/
structure InStep (iss : BitVec 32) (tcb : TcpControlBlock) (history : Sent) : Prop where
  first : tcb.iss = iss
  buffer : tcb.txBuffer = history.stream
  short : history.stream.length < 2 ^ 32
  inside : tcb.txSent.toNat ≤ history.stream.length
  number : tcb.sndNxt = iss + 1 + tcb.txSent
  carries : ∀ segment ∈ history.segments, segment.Carries iss history.stream

section Steps

open TcpControlBlock List

variable {iss : BitVec 32} {tcb next : TcpControlBlock} {history : Sent} {now : BitVec 64}
  {stream data : Bytes}

theorem Outgoing.Carries.append {segment : Outgoing} (carries : segment.Carries iss stream)
    (data : Bytes) : segment.Carries iss (stream ++ data) := by
  obtain ⟨inside, same⟩ := carries
  refine ⟨by rw [length_append]; omega, ?_⟩
  have enough : segment.payload.length ≤ (stream.drop (segment.seq - (iss + 1)).toNat).length := by
    rw [length_drop]
    omega
  rw [drop_append_of_le_length (by omega), take_append_of_le_length enough]
  exact same

/-- The part of a connection that is about which bytes are sent next. -/
def TcpControlBlock.sending (tcb : TcpControlBlock) : BitVec 32 × BitVec 32 × Bytes × BitVec 32 :=
  (tcb.iss, tcb.sndNxt, tcb.txBuffer, tcb.txSent)

theorem InStep.keep (inStep : InStep iss tcb history) (same : next.sending = tcb.sending)
    (op : Op) {input : Option Input} {answer : Answer} (nothing : Sent.accepted answer input = [])
    (none : ∀ segment ∈ answer.sent, segment.payload = []) :
    InStep iss next (history.after op tcb input next answer) := by
  have noData : answer.sent.filter (fun segment => segment.payload ≠ []) = [] := by
    rw [filter_eq_nil_iff]
    intro segment member
    rw [decide_eq_true_eq, not_not]
    exact none segment member
  have unchanged : history.after op tcb input next answer = history := by
    rw [Sent.after, nothing, noData, append_nil, append_nil]
  unfold sending at same
  rw [Prod.mk.injEq, Prod.mk.injEq, Prod.mk.injEq] at same
  obtain ⟨first, number, buffer, sent⟩ := same
  rw [unchanged]
  exact ⟨first.trans inStep.first, buffer.trans inStep.buffer, inStep.short, sent ▸ inStep.inside,
    by rw [number, sent]; exact inStep.number, inStep.carries⟩

theorem processSegment_sending (flags : BitVec 8) (seq ack : BitVec 32) (payload : Bytes)
    (tcb : TcpControlBlock) :
    (tcb.processSegment flags seq ack payload).1.sending = tcb.sending ∧
      ∀ segment ∈ (tcb.processSegment flags seq ack payload).2, segment.payload = [] := by
  rcases processSegment_cases flags seq ack payload tcb with
    ⟨-, run⟩ | ⟨-, -, next, same, run⟩ | ⟨-, -, next, same, run⟩ | ⟨-, -, run⟩
  · rw [run]
    exact ⟨rfl, nofun⟩
  · rw [run, same]
    exact ⟨rfl, fun _ member => by rw [mem_singleton.mp member]; rfl⟩
  · obtain ⟨queue, number, queued⟩ := queuePayload_eq seq payload tcb
    obtain ⟨state, finished⟩ := takeFin_eq flags (takeAck flags ack (queuePayload seq payload tcb))
    have kept : (takeAck flags ack (queuePayload seq payload tcb)).sending = tcb.sending := by
      rw [queued]
      unfold takeAck
      split <;> rfl
    rw [run]
    refine ⟨?_, fun _ member => by rw [mem_singleton.mp member]; rfl⟩
    rw [same, finished]
    exact kept
  · rw [run]
    exact ⟨rfl, nofun⟩

theorem InStep.sendData (inStep : InStep iss tcb history) :
    InStep iss (sendData now tcb).1 { history with
      segments := history.segments ++
        (sendData now tcb).2.filter fun segment => segment.payload ≠ [] } := by
  rcases sendData_cases now tcb with same | ⟨next, segment, count, run, sends⟩
  · rw [same]
    refine { inStep with carries := ?_ }
    rw [filter_nil, append_nil]
    exact inStep.carries
  · have inside := sends.inside
    rw [inStep.buffer] at inside
    have short := inStep.short
    have place : (BitVec.ofNat 32 (tcb.txSent.toNat + count)).toNat = tcb.txSent.toNat + count := by
      rw [BitVec.toNat_ofNat]
      exact Nat.mod_eq_of_lt (by omega)
    -- The number of the segment is as far behind the first one as its bytes are in the buffer.
    have offset : (tcb.sndNxt - (iss + 1)).toNat = tcb.txSent.toNat := by
      rw [inStep.number, BitVec.add_comm, BitVec.add_sub_cancel]
    have length : ((tcb.txBuffer.drop tcb.txSent.toNat).take count).length = count := by
      rw [length_take, length_drop, inStep.buffer]
      omega
    have carries : segment.Carries iss history.stream := by
      rw [sends.segment_eq]
      unfold Outgoing.Carries
      dsimp only
      rw [offset, length, inStep.buffer]
      exact ⟨inside, rfl⟩
    rw [run]
    refine ⟨?_, ?_, short, ?_, ?_, ?_⟩
    · rw [sends.next_eq]
      exact inStep.first
    · rw [sends.next_eq]
      exact inStep.buffer
    · rw [sends.next_eq]
      dsimp only
      rw [place]
      exact inside
    · rw [sends.next_eq]
      dsimp only
      rw [inStep.number, BitVec.ofNat_add, BitVec.ofNat_toNat, BitVec.setWidth_eq, BitVec.add_assoc]
    · intro other member
      rcases mem_append.mp member with old | new
      · exact inStep.carries other old
      · rw [mem_singleton.mp (mem_filter.mp new).1]
        exact carries

theorem InStep.step (inStep : InStep iss tcb history) (op : Op) (input : Option Input)
    (passed : ∀ given, input = some given → given.onTime history tcb = true) :
    InStep iss (tcb.handle? input).1
      (history.after op tcb input (tcb.handle? input).1 (tcb.handle? input).2) := by
  cases input with
  | none => exact inStep.keep rfl op rfl nofun
  | some input =>
    have passed := passed input rfl
    cases input with
    | segment flags seq ack payload =>
      obtain ⟨same, none⟩ := processSegment_sending flags seq ack payload tcb
      exact inStep.keep same op rfl none
    | recv size =>
      have same : (tcb.recv size).1.sending = tcb.sending := by
        unfold recv
        split <;> rfl
      exact inStep.keep same op rfl nofun
    | send now data =>
      rw [Input.onTime, decide_eq_true_eq] at passed
      change InStep iss (tcb.send now data).1 (history.after op tcb (some (.send now data))
        (tcb.send now data).1 { sent := (tcb.send now data).2.1, accepted := (tcb.send now data).2.2 })
      unfold TcpControlBlock.send
      split
      · exact inStep.keep rfl op rfl nofun
      · split
        · exact inStep.keep rfl op rfl nofun
        · -- The bytes are put into the buffer and belong to the stream from then on.
          have filled : InStep iss { tcb with txBuffer := tcb.txBuffer ++ data }
              { history with stream := history.stream ++ data } := by
            refine ⟨inStep.first, ?_, ?_, ?_, inStep.number, ?_⟩
            · exact congrArg (· ++ data) inStep.buffer
            · rw [length_append]
              exact passed
            · rw [length_append]
              exact Nat.le_trans inStep.inside (Nat.le_add_right _ _)
            · exact fun segment member => (inStep.carries segment member).append data
          exact filled.sendData
    | tick now =>
      rw [Input.onTime, Bool.not_eq_true'] at passed
      have same : tcb.tick now = (tcb, []) := by
        rw [TcpControlBlock.tick, if_neg (Bool.eq_false_iff.mp passed)]
      change InStep iss (tcb.tick now).1 (history.after op tcb _ (tcb.tick now).1
        { sent := (tcb.tick now).2 })
      rw [same]
      exact inStep.keep rfl op rfl nofun

end Steps

namespace Sent

/-- Without an expired timer, every segment carries the bytes of its number, in every run. -/
theorem segments_carry {index : Nat} {conns : Connections} {tcb : TcpControlBlock} {ops : List Op}
    (occupied : conns.at? index = some tcb) (empty : tcb.txBuffer = []) (unsent : tcb.txSent = 0)
    (number : tcb.sndNxt = tcb.iss + 1)
    (onTime : Runs.everyStep (Watched.step index after)
      (Watched.given index fun history _ tcb input => input.onTime history tcb)
      ⟨conns, ⟨[], []⟩⟩ ops = true) :
    ∃ final next, Runs.run (Watched.step index after) ⟨conns, ⟨[], []⟩⟩ ops = .ok final ∧
      final.conns.at? index = some next ∧
      ∀ segment ∈ final.history.segments, segment.Carries tcb.iss final.history.stream := by
  have begins : InStep tcb.iss tcb ⟨[], []⟩ := by
    refine ⟨rfl, empty, by decide, ?_, ?_, nofun⟩
    · rw [unsent]
      exact Nat.le_refl _
    · rw [unsent, number]
      exact (BitVec.add_zero _).symm
  obtain ⟨final, next, run, slot, kept⟩ := Watched.run_keeps (InStep tcb.iss)
    (fun _ _ op input inStep passed => inStep.step op input passed) occupied begins ops onTime
  exact ⟨final, next, run, slot, kept.carries⟩

/-- The connection that a peer has asked for. -/
def askedFor : TcpControlBlock :=
  { Connections.child 0xA5A50000 .any ⟨1000, 80, 4, 0, tcpSyn, []⟩ with state := .established }

/-- A connection that a peer has asked for sends some bytes in two segments. -/
theorem asked_carry :
    ∃ final next, Runs.run (Watched.step 1 after) ⟨Advertised.tableAfter Advertised.asked, ⟨[], []⟩⟩
        [.send 1 10 [1, 2], .arrive .any (Advertised.peerSegment tcpAck 5 0xA5A50003 65535),
          .tick 20, .send 1 30 [3]] = .ok final ∧
      final.conns.at? 1 = some next ∧
      ∀ segment ∈ final.history.segments, segment.Carries askedFor.iss final.history.stream :=
  segments_carry (by decide) rfl rfl rfl (by decide)

/--
The peer has acknowledged the first byte, and the third one is sent again under the number of the
second one.
-/
theorem asked_differ :
    ∃ final, Runs.run (Watched.step 1 after) ⟨Advertised.tableAfter Advertised.asked, ⟨[], []⟩⟩
        [.send 1 10 [1, 2, 3], .arrive .any (Advertised.peerSegment tcpAck 5 0xA5A50003 65535),
          .tick 2000] = .ok final ∧
      final.history.stream = [1, 2, 3] ∧
      final.history.segments.map (fun segment => (segment.seq, segment.payload)) =
        [(0xA5A50002, [1, 2, 3]), (0xA5A50003, [3])] ∧
      ¬ ∀ segment ∈ final.history.segments, segment.Carries askedFor.iss final.history.stream :=
  Runs.exists_of_passes (by decide)

end Sent

end TheoryKernel.Net.Tcp
