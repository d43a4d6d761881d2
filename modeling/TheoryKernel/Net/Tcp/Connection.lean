import TheoryKernel.Net.Tcp.Segment

/-! What a connection does with its calls, with the segments that arrive and with its timer. -/

namespace TheoryKernel.Net.Tcp

open BitVec

/-- The smaller one of two numbers. -/
def least (left right : BitVec 32) : BitVec 32 := if left ≤ right then left else right

/-- The larger one of two numbers. -/
def largest (left right : BitVec 32) : BitVec 32 := if left ≤ right then right else left

/-- A sum that stays at the largest number. -/
def saturatingAdd (left right : BitVec 32) : BitVec 32 :=
  if left.toNat + right.toNat < 2 ^ 32 then left + right else BitVec.allOnes 32

/-- A difference that stays at zero. -/
def saturatingSub (left right : BitVec 32) : BitVec 32 := if right ≤ left then left - right else 0

/-- A segment that is built and handed to the network, with the connection as it is then. -/
structure Outgoing where
  tcb : TcpControlBlock
  flags : BitVec 8
  seq : BitVec 32
  ack : BitVec 32
  options : Bytes
  payload : Bytes
  deriving DecidableEq, Repr

namespace TcpControlBlock

/-- The congestion window grows with what is acknowledged. -/
def onAck (tcb : TcpControlBlock) (acked : BitVec 32) : TcpControlBlock :=
  let cwnd :=
    if tcb.cwnd < tcb.ssthresh then saturatingAdd tcb.cwnd (largest acked tcb.mss)
    else
      let cubicInc := (acked * 4) / largest tcb.cwnd 1
      let tcpInc := acked / largest tcb.cwnd 1
      saturatingAdd tcb.cwnd (largest (largest cubicInc tcpInc) 1)
  { tcb with cwnd := least cwnd tcb.sndWnd }

/-- The congestion window starts again after a loss. -/
def onLoss (tcb : TcpControlBlock) : TcpControlBlock :=
  { tcb with
    wMax := tcb.cwnd
    ssthresh := largest (tcb.cwnd * 7 / 10) (2 * tcb.mss)
    cwnd := tcb.mss }

/-- The bytes that have been sent and not acknowledged. -/
def inFlight (tcb : TcpControlBlock) : BitVec 32 := tcb.sndNxt - tcb.sndUna

/-- The smaller one of the two windows. -/
def window (tcb : TcpControlBlock) : BitVec 32 := least tcb.cwnd tcb.sndWnd

/-- One round of sending what is in the buffer, if there is room for some of it. -/
def sendDataRound (now : BitVec 64) (tcb : TcpControlBlock) :
    Option (TcpControlBlock × Outgoing) :=
  if tcb.txSent < BitVec.ofNat 32 tcb.txBuffer.length then
    let avail := saturatingSub tcb.window tcb.inFlight
    if avail = 0 then none
    else
      let start := tcb.txSent.toNat
      let stop := min (start + avail.toNat) tcb.txBuffer.length
      let chunk := (tcb.txBuffer.drop start).take (stop - start)
      some ({ tcb with
        sndNxt := tcb.sndNxt + BitVec.ofNat 32 chunk.length
        txSent := BitVec.ofNat 32 stop
        retransmitAt := now + tcb.rtoMs.setWidth 64 }, {
        tcb := tcb
        flags := tcpAck ||| tcpPsh
        seq := tcb.sndNxt
        ack := tcb.rcvNxt
        options := []
        payload := chunk })
  else none

/-- Rounds of sending, until one of them finds nothing to send or no room. -/
def sendDataLoop (now : BitVec 64) : Nat → TcpControlBlock → TcpControlBlock × List Outgoing
  | 0, tcb => (tcb, [])
  | rounds + 1, tcb =>
    match tcb.sendDataRound now with
    | none => (tcb, [])
    | some (next, segment) =>
      let (final, segments) := sendDataLoop now rounds next
      (final, segment :: segments)

/-- Sending what is in the buffer as far as the windows allow. -/
def sendData (now : BitVec 64) (tcb : TcpControlBlock) : TcpControlBlock × List Outgoing :=
  sendDataLoop now (tcb.txBuffer.length + 1) tcb

/-- The acknowledgement of everything that has arrived. -/
def acknowledgement (tcb : TcpControlBlock) : Outgoing where
  tcb := tcb
  flags := tcpAck
  seq := tcb.sndNxt
  ack := tcb.rcvNxt
  options := []
  payload := []

/-- The payload of a segment is queued if it is the next one that is expected. -/
def queuePayload (seq : BitVec 32) (payload : Bytes) (tcb : TcpControlBlock) : TcpControlBlock :=
  if payload ≠ [] ∧ seq = tcb.rcvNxt then
    { tcb with
      rxQueue := tcb.rxQueue ++ [payload]
      rcvNxt := tcb.rcvNxt + BitVec.ofNat 32 payload.length }
  else tcb

/-- An acknowledgement counts if its number is larger than that of the last one. -/
def takeAck (flags : BitVec 8) (ack : BitVec 32) (tcb : TcpControlBlock) : TcpControlBlock :=
  if flags &&& tcpAck ≠ 0 ∧ tcb.sndUna < ack then
    { tcb with sndUna := ack }.onAck (ack - tcb.sndUna)
  else tcb

/-- The other side sends nothing more. -/
def takeFin (flags : BitVec 8) (tcb : TcpControlBlock) : TcpControlBlock :=
  if flags &&& tcpFin ≠ 0 then { tcb with state := .closeWait } else tcb

/-- What a connection does with a segment that is meant for it. -/
def processSegment (flags : BitVec 8) (seq ack : BitVec 32) (payload : Bytes)
    (tcb : TcpControlBlock) : TcpControlBlock × List Outgoing :=
  if flags &&& tcpRst ≠ 0 then ({ tcb with state := .closed }, [])
  else
    match tcb.state with
    | .synSent =>
      if flags &&& (tcpSyn ||| tcpAck) = tcpSyn ||| tcpAck then
        let next := { tcb with rcvNxt := seq + 1, sndUna := ack, state := .established }
        (next, [next.acknowledgement])
      else (tcb, [])
    | .established =>
      let next := takeFin flags (takeAck flags ack (queuePayload seq payload tcb))
      (next, [next.acknowledgement])
    | _ => (tcb, [])

/-- Taking a segment off the queue, of which the buffer takes as much as it can. -/
def recv (size : Nat) (tcb : TcpControlBlock) : TcpControlBlock × Option Bytes :=
  match tcb.rxQueue with
  | [] => (tcb, none)
  | data :: rest => ({ tcb with rxQueue := rest }, some (data.take (min data.length size)))

/-- Sending bytes, if the windows have room for all of them. -/
def send (now : BitVec 64) (data : Bytes) (tcb : TcpControlBlock) :
    TcpControlBlock × List Outgoing × Option Nat :=
  if tcb.state ≠ .established then (tcb, [], none)
  else if tcb.window < tcb.inFlight + BitVec.ofNat 32 data.length then (tcb, [], none)
  else
    let (next, segments) := sendData now { tcb with txBuffer := tcb.txBuffer ++ data }
    (next, segments, some data.length)

/-- The connection as it is set back when its timer has expired. -/
def rewind (tcb : TcpControlBlock) : TcpControlBlock :=
  { tcb.onLoss with
    rtoMs := least (tcb.rtoMs * 2) 60000
    sndNxt := tcb.sndUna
    txSent := tcb.sndUna - tcb.iss }

/-- Whether the timer of a connection has expired. -/
def expired (now : BitVec 64) (tcb : TcpControlBlock) : Bool :=
  tcb.state = .established ∧ tcb.retransmitAt ≠ 0 ∧ tcb.retransmitAt ≤ now

/-- Sending again what has not been acknowledged, when the timer has expired. -/
def tick (now : BitVec 64) (tcb : TcpControlBlock) : TcpControlBlock × List Outgoing :=
  if tcb.expired now then sendData now tcb.rewind else (tcb, [])

end TcpControlBlock

section Numbers

variable {left right : BitVec 32}

/-- The smaller one of two numbers is the minimum of their values. -/
theorem least_toNat : (least left right).toNat = min left.toNat right.toNat := by
  unfold least
  split
  · rename_i le
    rw [Nat.min_eq_left (le_def.mp le)]
  · rename_i gt
    rw [le_def] at gt
    rw [Nat.min_eq_right (by omega)]

theorem saturatingSub_toNat :
    (saturatingSub left right).toNat = left.toNat - right.toNat := by
  unfold saturatingSub
  split
  · rename_i le
    exact toNat_sub_of_le le
  · rename_i gt
    rw [le_def] at gt
    change 0 = _
    omega

end Numbers

namespace TcpControlBlock

variable {tcb next : TcpControlBlock} {now : BitVec 64} {segment : Outgoing}

/-- What one round does: it sends a part of the buffer that is not empty and fits into the window. -/
structure Sends (now : BitVec 64) (tcb next : TcpControlBlock) (segment : Outgoing)
    (count : Nat) : Prop where
  positive : 0 < count
  inside : tcb.txSent.toNat + count ≤ tcb.txBuffer.length
  fits : tcb.inFlight.toNat + count ≤ tcb.window.toNat
  /-- Something is left only if the window is full. -/
  full : tcb.txSent.toNat + count = tcb.txBuffer.length ∨
    tcb.inFlight.toNat + count = tcb.window.toNat
  next_eq : next = { tcb with
    sndNxt := tcb.sndNxt + BitVec.ofNat 32 count
    txSent := BitVec.ofNat 32 (tcb.txSent.toNat + count)
    retransmitAt := now + tcb.rtoMs.setWidth 64 }
  segment_eq : segment = {
    tcb := tcb
    flags := tcpAck ||| tcpPsh
    seq := tcb.sndNxt
    ack := tcb.rcvNxt
    options := []
    payload := (tcb.txBuffer.drop tcb.txSent.toNat).take count }

theorem sends_of_round (round : tcb.sendDataRound now = some (next, segment)) :
    ∃ count, Sends now tcb next segment count := by
  unfold sendDataRound at round
  split at round
  · rename_i pending
    dsimp only at round
    split at round
    · cases round
    · rename_i room
      cases round
      -- The buffer is longer than what has been sent of it, and the window is not full.
      have more : tcb.txSent.toNat < tcb.txBuffer.length := by
        rw [lt_def, toNat_ofNat] at pending
        exact Nat.lt_of_lt_of_le pending (Nat.mod_le _ _)
      have available : (saturatingSub tcb.window tcb.inFlight).toNat ≠ 0 :=
        fun zero => room (eq_of_toNat_eq zero)
      have length : ((tcb.txBuffer.drop tcb.txSent.toNat).take
          (min (tcb.txSent.toNat + (saturatingSub tcb.window tcb.inFlight).toNat)
            tcb.txBuffer.length - tcb.txSent.toNat)).length =
          min (tcb.txSent.toNat + (saturatingSub tcb.window tcb.inFlight).toNat)
            tcb.txBuffer.length - tcb.txSent.toNat := by
        rw [List.length_take, List.length_drop]
        omega
      have stop : tcb.txSent.toNat +
          (min (tcb.txSent.toNat + (saturatingSub tcb.window tcb.inFlight).toNat)
            tcb.txBuffer.length - tcb.txSent.toNat) =
          min (tcb.txSent.toNat + (saturatingSub tcb.window tcb.inFlight).toNat)
            tcb.txBuffer.length := by
        omega
      refine ⟨min (tcb.txSent.toNat + (saturatingSub tcb.window tcb.inFlight).toNat)
        tcb.txBuffer.length - tcb.txSent.toNat, ?_, ?_, ?_, ?_, ?_, rfl⟩
      · omega
      · omega
      · rw [saturatingSub_toNat] at *
        omega
      · rw [saturatingSub_toNat] at *
        omega
      · rw [length, stop]
  · cases round

/-- What is in flight behind a round is what was, and what the round has sent. -/
theorem Sends.inFlight_next {count : Nat} (sends : Sends now tcb next segment count) :
    next.inFlight.toNat = tcb.inFlight.toNat + count := by
  have fits := sends.fits
  have small := tcb.window.isLt
  have same : next.inFlight = tcb.inFlight + BitVec.ofNat 32 count := by
    rw [sends.next_eq]
    exact add_sub_comm
  rw [same, toNat_add, toNat_ofNat, Nat.add_mod_mod, Nat.mod_eq_of_lt (by omega)]

theorem Sends.last {count : Nat} (sends : Sends now tcb next segment count) (later : BitVec 64) :
    next.sendDataRound later = none := by
  have flight := sends.inFlight_next
  have window : next.window = tcb.window := by rw [sends.next_eq]; rfl
  unfold sendDataRound
  rcases sends.full with done | full
  · -- The end of the buffer has been reached.
    have same : next.txSent = BitVec.ofNat 32 next.txBuffer.length := by
      rw [sends.next_eq]
      exact congrArg (BitVec.ofNat 32) done
    rw [same, if_neg (BitVec.lt_irrefl _)]
  · -- The window has been filled.
    have zero : saturatingSub next.window next.inFlight = 0 := by
      apply eq_of_toNat_eq
      rw [saturatingSub_toNat, window]
      change _ = 0
      omega
    dsimp only
    rw [if_pos zero, ite_self]

theorem sendDataLoop_eq (rounds : Nat) :
    sendDataLoop now (rounds + 1) tcb =
      match tcb.sendDataRound now with
      | none => (tcb, [])
      | some (next, segment) => (next, [segment]) := by
  rw [sendDataLoop]
  cases round : tcb.sendDataRound now with
  | none => rfl
  | some result =>
    obtain ⟨next, segment⟩ := result
    obtain ⟨count, sends⟩ := sends_of_round round
    cases rounds with
    | zero => rfl
    | succ rounds =>
      dsimp only
      rw [sendDataLoop, sends.last now]

/-- Sending either does nothing or sends one segment. -/
theorem sendData_cases (now : BitVec 64) (tcb : TcpControlBlock) :
    sendData now tcb = (tcb, []) ∨
      ∃ next segment count, sendData now tcb = (next, [segment]) ∧
        Sends now tcb next segment count := by
  rw [sendData, sendDataLoop_eq]
  cases round : tcb.sendDataRound now with
  | none => exact .inl rfl
  | some result =>
    obtain ⟨next, segment⟩ := result
    obtain ⟨count, sends⟩ := sends_of_round round
    exact .inr ⟨next, segment, count, rfl, sends⟩

/-- What a segment can do to a connection. -/
theorem processSegment_cases (flags : BitVec 8) (seq ack : BitVec 32) (payload : Bytes)
    (tcb : TcpControlBlock) :
    (flags &&& tcpRst ≠ 0 ∧
      tcb.processSegment flags seq ack payload = ({ tcb with state := .closed }, [])) ∨
    (flags &&& tcpRst = 0 ∧ tcb.state = .synSent ∧
      ∃ next, next = { tcb with rcvNxt := seq + 1, sndUna := ack, state := .established } ∧
        tcb.processSegment flags seq ack payload = (next, [next.acknowledgement])) ∨
    (flags &&& tcpRst = 0 ∧ tcb.state = .established ∧
      ∃ next, next = takeFin flags (takeAck flags ack (queuePayload seq payload tcb)) ∧
        tcb.processSegment flags seq ack payload = (next, [next.acknowledgement])) ∨
    (flags &&& tcpRst = 0 ∧ tcb.state ≠ .established ∧
      tcb.processSegment flags seq ack payload = (tcb, [])) := by
  unfold processSegment
  split
  · rename_i reset
    exact .inl ⟨reset, rfl⟩
  · rename_i calm
    have calm : flags &&& tcpRst = 0 := not_not.mp calm
    -- The states are told apart in the order in which the code does.
    split
    · rename_i waiting
      split
      · exact .inr (.inl ⟨calm, waiting, _, rfl, rfl⟩)
      · exact .inr (.inr (.inr ⟨calm, by rw [waiting]; decide, rfl⟩))
    · rename_i established
      exact .inr (.inr (.inl ⟨calm, established, _, rfl, rfl⟩))
    · rename_i other
      exact .inr (.inr (.inr ⟨calm, other, rfl⟩))

/-- The part of a connection that is about what it receives. -/
def receiving (tcb : TcpControlBlock) : TcpState × BitVec 32 × List Bytes :=
  (tcb.state, tcb.rcvNxt, tcb.rxQueue)

@[simp] theorem takeAck_receiving (flags : BitVec 8) (ack : BitVec 32) :
    (takeAck flags ack tcb).receiving = tcb.receiving := by
  unfold takeAck
  split <;> rfl

/-- The part of a connection about what it receives, behind a segment on an established one. -/
theorem receiving_established (flags : BitVec 8) (seq ack : BitVec 32) (payload : Bytes)
    (tcb : TcpControlBlock) :
    (takeFin flags (takeAck flags ack (queuePayload seq payload tcb))).receiving =
      (if flags &&& tcpFin ≠ 0 then .closeWait else (queuePayload seq payload tcb).state,
        (queuePayload seq payload tcb).rcvNxt, (queuePayload seq payload tcb).rxQueue) := by
  have kept : (takeAck flags ack (queuePayload seq payload tcb)).receiving =
      (queuePayload seq payload tcb).receiving := takeAck_receiving flags ack
  unfold receiving at kept ⊢
  rw [Prod.mk.injEq, Prod.mk.injEq] at kept
  obtain ⟨state, number, queue⟩ := kept
  unfold takeFin
  split
  · dsimp only
    rw [number, queue]
  · rw [number, queue, state]

@[simp] theorem sendData_receiving : (sendData now tcb).1.receiving = tcb.receiving := by
  rcases sendData_cases now tcb with same | ⟨next, segment, count, run, sends⟩
  · rw [same]
  · rw [run, sends.next_eq]
    rfl

@[simp] theorem send_receiving (data : Bytes) : (send now data tcb).1.receiving = tcb.receiving := by
  unfold TcpControlBlock.send
  split
  · rfl
  · split
    · rfl
    · exact sendData_receiving

@[simp] theorem tick_receiving : (tick now tcb).1.receiving = tcb.receiving := by
  unfold TcpControlBlock.tick
  split
  · exact sendData_receiving
  · rfl

end TcpControlBlock

end TheoryKernel.Net.Tcp
