import TheoryKernel.Net.Tcp.Table

/-! The numbers of what a connection sends, and the windows that bound them. -/

namespace TheoryKernel.Net.Tcp

/-- Whether an acknowledgement is about bytes that are in flight. -/
def TcpControlBlock.acknowledges (tcb : TcpControlBlock) (ack : BitVec 32) : Bool :=
  0 < (ack - tcb.sndUna).toNat ∧ (ack - tcb.sndUna).toNat ≤ tcb.inFlight.toNat

/-- Whether a segment acknowledges something to an established connection. -/
def TcpControlBlock.hears (tcb : TcpControlBlock) (flags : BitVec 8) : Bool :=
  tcb.state = .established ∧ flags &&& tcpRst = 0 ∧ flags &&& tcpAck ≠ 0

/-- What the peer of a connection has said so far. -/
structure Advertised where
  /-- The window of its last segment. -/
  window : Nat
  /-- Whether it has acknowledged something that was in flight. -/
  acked : Bool
  /-- The acknowledgements that were not taken as they should. -/
  misjudged : List (BitVec 32)
  deriving DecidableEq, Repr

namespace Advertised

/-- The window of the last segment of the peer, with the one that an operation brings. -/
def windowAt (history : Advertised) : Op → Nat
  | .arrive _ data => (be16 data 14).toNat
  | _ => history.window

/-- What the peer has said behind an operation. -/
def after (history : Advertised) (op : Op) (tcb : TcpControlBlock) (input : Option Input)
    (next : TcpControlBlock) (_ : Answer) : Advertised :=
  match input with
  | some (.segment flags _ ack _) =>
    let right := if tcb.acknowledges ack then ack else tcb.sndUna
    { window := history.windowAt op
      acked := history.acked || (tcb.hears flags && tcb.acknowledges ack)
      misjudged :=
        if tcb.hears flags = true ∧ next.sndUna ≠ right then history.misjudged ++ [ack]
        else history.misjudged }
  | _ => history

end Advertised

/-- The first number without an acknowledgement is behind that of the SYN and not behind the next. -/
structure TcpControlBlock.InOrder (tcb : TcpControlBlock) : Prop where
  started : 1 ≤ (tcb.sndUna - tcb.iss).toNat
  ordered : (tcb.sndUna - tcb.iss).toNat ≤ (tcb.sndNxt - tcb.iss).toNat

section Numbers

variable {iss una nxt ack : BitVec 32}

theorem toNat_sub_of_ordered (ordered : (una - iss).toNat ≤ (nxt - iss).toNat) :
    (nxt - una).toNat = (nxt - iss).toNat - (una - iss).toNat := by
  bv_omega

theorem toNat_sub_of_behind (small : (una - iss).toNat + (ack - una).toNat < 2 ^ 32) :
    (ack - iss).toNat = (una - iss).toNat + (ack - una).toNat := by
  bv_omega

/-- An acknowledgement is judged by its number alone, which is right exactly in these cases. -/
theorem judged_iff :
    (una < ack ↔ 0 < (ack - una).toNat ∧ (ack - una).toNat ≤ (nxt - una).toNat) ↔
      (una ≤ nxt ↔ ack ≤ nxt) := by
  bv_omega

end Numbers

/-- What stays in flight behind a segment of the peer. -/
def TcpControlBlock.unacknowledged (tcb : TcpControlBlock) (flags : BitVec 8) (ack : BitVec 32) :
    Nat :=
  if flags &&& tcpAck ≠ 0 ∧ tcb.acknowledges ack then (tcb.sndNxt - ack).toNat
  else tcb.inFlight.toNat

/-- What is in flight when a connection has sent what its windows allow. -/
def TcpControlBlock.filled (tcb : TcpControlBlock) : Nat :=
  min tcb.window.toNat (tcb.inFlight.toNat + (tcb.txBuffer.length - tcb.txSent.toNat))

/-- Whether the window of the peer has room for that, and the numbers of the connection. -/
def TcpControlBlock.mayFill (tcb : TcpControlBlock) (window : Nat) : Bool :=
  tcb.filled ≤ window ∧ (tcb.sndUna - tcb.iss).toNat + tcb.filled < 2 ^ 32

/--
What the code does not look after.

It compares numbers as if they never wrapped and takes acknowledgements of what was never sent. It
does not know the window of the peer, which has to stay open for what is in flight.
-/
def Input.orderly (history : Advertised) (op : Op) (tcb : TcpControlBlock) : Input → Bool
  | .segment flags _ ack _ =>
    tcb.state = .established ∧ flags &&& tcpRst = 0 →
      (flags &&& tcpAck ≠ 0 → (tcb.sndUna ≤ tcb.sndNxt ↔ ack ≤ tcb.sndNxt)) ∧
        tcb.unacknowledged flags ack ≤ history.windowAt op
  | .recv _ => true
  | .send _ data =>
    tcb.state = .established ∧ ¬ tcb.window < tcb.inFlight + BitVec.ofNat 32 data.length →
      { tcb with txBuffer := tcb.txBuffer ++ data }.mayFill history.window = true
  | .tick now => tcb.expired now = true → tcb.rewind.mayFill history.window = true

section Steps

open TcpControlBlock

variable {tcb next : TcpControlBlock} {window : Nat} {flags : BitVec 8} {ack : BitVec 32}
  {now : BitVec 64}

theorem le_saturatingAdd (left right : BitVec 32) :
    left.toNat ≤ (saturatingAdd left right).toNat := by
  unfold saturatingAdd
  split
  · rename_i small
    rw [BitVec.toNat_add, Nat.mod_eq_of_lt small]
    exact Nat.le_add_right _ _
  · rw [BitVec.toNat_allOnes]
    have bound := left.isLt
    omega

theorem le_onAck_cwnd (acked : BitVec 32) :
    min tcb.cwnd.toNat tcb.sndWnd.toNat ≤ (tcb.onAck acked).cwnd.toNat := by
  unfold onAck
  dsimp only
  rw [least_toNat]
  split
  · have grown := le_saturatingAdd tcb.cwnd (largest acked tcb.mss)
    omega
  · have grown := le_saturatingAdd tcb.cwnd
      (largest (largest (acked * 4 / largest tcb.cwnd 1) (acked / largest tcb.cwnd 1)) 1)
    omega

/-- What is in flight follows the first number without an acknowledgement, within all windows. -/
structure Steady (tcb : TcpControlBlock) (window : Nat) : Prop where
  ordered : (tcb.sndUna - tcb.iss).toNat ≤ (tcb.sndNxt - tcb.iss).toNat
  bounded : tcb.inFlight.toNat ≤ min tcb.cwnd.toNat window
  taken : tcb.inFlight.toNat ≤ tcb.sndWnd.toNat

/-- A steady connection that has moved on from one with the same acknowledgements. -/
structure Continues (tcb next : TcpControlBlock) (window : Nat) : Prop
    extends Steady next window where
  same : next.sndUna - next.iss = tcb.sndUna - tcb.iss

theorem Steady.of_window (steady : Steady tcb window) {other : Nat}
    (room : tcb.inFlight.toNat ≤ other) : Steady tcb other where
  __ := steady
  bounded := by
    have bounded := steady.bounded
    omega

theorem steady_rewind : Steady tcb.rewind window := by
  have zero : tcb.rewind.inFlight.toNat = 0 := by
    change (tcb.sndUna - tcb.sndUna).toNat = 0
    rw [BitVec.sub_self]
    rfl
  exact ⟨Nat.le_refl _, by omega, by omega⟩

section

variable (steady : Steady tcb window)

include steady

theorem Steady.inFlight_toNat :
    tcb.inFlight.toNat = (tcb.sndNxt - tcb.iss).toNat - (tcb.sndUna - tcb.iss).toNat :=
  toNat_sub_of_ordered steady.ordered

theorem Steady.acked (inside : tcb.acknowledges ack = true) (acked : BitVec 32) :
    Steady ({ tcb with sndUna := ack }.onAck acked) (tcb.sndNxt - ack).toNat ∧
      1 ≤ (ack - tcb.iss).toNat := by
  rw [acknowledges, decide_eq_true_eq] at inside
  have flight := steady.inFlight_toNat
  have ordered := steady.ordered
  have bounded := steady.bounded
  have taken := steady.taken
  have small := (tcb.sndNxt - tcb.iss).isLt
  -- All distances are measured from the first number of the connection.
  have moved : (ack - tcb.iss).toNat =
      (tcb.sndUna - tcb.iss).toNat + (ack - tcb.sndUna).toNat := toNat_sub_of_behind (by omega)
  have left : (tcb.sndNxt - ack).toNat =
      (tcb.sndNxt - tcb.iss).toNat - (ack - tcb.iss).toNat := toNat_sub_of_ordered (by omega)
  have grown : min tcb.cwnd.toNat tcb.sndWnd.toNat ≤
      ({ tcb with sndUna := ack }.onAck acked).cwnd.toNat := le_onAck_cwnd acked
  refine ⟨⟨?_, ?_, ?_⟩, by omega⟩
  · change (ack - tcb.iss).toNat ≤ (tcb.sndNxt - tcb.iss).toNat
    omega
  · change (tcb.sndNxt - ack).toNat ≤ _
    omega
  · change (tcb.sndNxt - ack).toNat ≤ tcb.sndWnd.toNat
    omega

theorem Steady.sendData (now : BitVec 64) (fill : tcb.mayFill window = true) :
    Continues tcb (sendData now tcb).1 window := by
  rw [mayFill, decide_eq_true_eq, filled] at fill
  rcases sendData_cases now tcb with same | ⟨next, segment, count, run, sends⟩
  · rw [same]
    exact ⟨steady, rfl⟩
  · have fits := sends.fits
    have inside := sends.inside
    have before := steady.inFlight_toNat
    have windows : tcb.window.toNat = min tcb.cwnd.toNat tcb.sndWnd.toNat := least_toNat
    obtain rfl := sends.next_eq
    -- What is in flight has room between the first number and the end of all numbers.
    have flight : (tcb.sndNxt + BitVec.ofNat 32 count - tcb.sndUna).toNat =
        tcb.inFlight.toNat + count := sends.inFlight_next
    have moved := toNat_sub_of_behind (show (tcb.sndUna - tcb.iss).toNat +
      (tcb.sndNxt + BitVec.ofNat 32 count - tcb.sndUna).toNat < 2 ^ 32 by omega)
    rw [run]
    refine ⟨⟨?_, ?_, ?_⟩, rfl⟩
    · change (tcb.sndUna - tcb.iss).toNat ≤ (tcb.sndNxt + BitVec.ofNat 32 count - tcb.iss).toNat
      omega
    · change (tcb.sndNxt + BitVec.ofNat 32 count - tcb.sndUna).toNat ≤ min tcb.cwnd.toNat window
      omega
    · change (tcb.sndNxt + BitVec.ofNat 32 count - tcb.sndUna).toNat ≤ tcb.sndWnd.toNat
      omega

theorem Steady.takeAck
    (plain : flags &&& tcpAck ≠ 0 → (tcb.sndUna ≤ tcb.sndNxt ↔ ack ≤ tcb.sndNxt)) :
    Steady (takeAck flags ack tcb) (tcb.unacknowledged flags ack) ∧
      (flags &&& tcpAck ≠ 0 →
        (takeAck flags ack tcb).sndUna = if tcb.acknowledges ack then ack else tcb.sndUna) ∧
      (1 ≤ ((takeAck flags ack tcb).sndUna - tcb.iss).toNat ↔
        1 ≤ (tcb.sndUna - tcb.iss).toNat ∨ flags &&& tcpAck ≠ 0 ∧ tcb.acknowledges ack = true) := by
  have exactly : flags &&& tcpAck ≠ 0 → (tcb.sndUna < ack ↔ tcb.acknowledges ack = true) := by
    intro carried
    rw [acknowledges, decide_eq_true_eq]
    exact judged_iff.mpr (plain carried)
  unfold TcpControlBlock.takeAck unacknowledged
  by_cases carried : flags &&& tcpAck ≠ 0
  · by_cases inside : tcb.acknowledges ack = true
    · -- The number is judged to be new, and it is.
      rw [if_pos ⟨carried, (exactly carried).mpr inside⟩, if_pos ⟨carried, inside⟩, if_pos inside]
      obtain ⟨kept, started⟩ := steady.acked inside (ack - tcb.sndUna)
      exact ⟨kept, fun _ => rfl, iff_of_true started (Or.inr ⟨carried, inside⟩)⟩
    · have old : ¬ tcb.sndUna < ack := fun new => inside ((exactly carried).mp new)
      rw [if_neg fun both => old both.2, if_neg fun both => inside both.2, if_neg inside]
      exact ⟨steady.of_window (Nat.le_refl _), fun _ => rfl,
        (or_iff_left fun both => inside both.2).symm⟩
  · rw [if_neg fun both => carried both.1, if_neg fun both => carried both.1]
    exact ⟨steady.of_window (Nat.le_refl _), fun other => absurd other carried,
      (or_iff_left fun both => carried both.1).symm⟩

end

/--
An established connection is steady, and every acknowledgement was judged as it should.

Its first number has been passed exactly if the peer has acknowledged something.
-/
structure Orderly (tcb : TcpControlBlock) (history : Advertised) : Prop where
  opened : tcb.state ≠ .synSent
  steady : tcb.state = .established → Steady tcb history.window
  started : tcb.state = .established →
    (1 ≤ (tcb.sndUna - tcb.iss).toNat ↔ history.acked = true)
  judged : history.misjudged = []

/-- Queueing a payload leaves everything about sending as it is. -/
theorem queuePayload_eq (seq : BitVec 32) (payload : Bytes) (tcb : TcpControlBlock) :
    ∃ queue number, queuePayload seq payload tcb =
      { tcb with rxQueue := queue, rcvNxt := number } := by
  unfold queuePayload
  split
  · exact ⟨_, _, rfl⟩
  · exact ⟨tcb.rxQueue, tcb.rcvNxt, rfl⟩

/-- The last segment of the peer leaves everything about sending as it is. -/
theorem takeFin_eq (flags : BitVec 8) (tcb : TcpControlBlock) :
    ∃ state, takeFin flags tcb = { tcb with state := state } := by
  unfold takeFin
  split
  · exact ⟨_, rfl⟩
  · exact ⟨tcb.state, rfl⟩

variable {history : Advertised} {op : Op}

theorem Orderly.segment (orderly : Orderly tcb history) {seq : BitVec 32} {payload : Bytes}
    (passed : (Input.segment flags seq ack payload).orderly history op tcb = true)
    (answer : Answer) :
    Orderly (tcb.processSegment flags seq ack payload).1
      (history.after op tcb (some (.segment flags seq ack payload))
        (tcb.processSegment flags seq ack payload).1 answer) := by
  rw [Input.orderly, decide_eq_true_eq] at passed
  rcases processSegment_cases flags seq ack payload tcb with
    ⟨asked, run⟩ | ⟨-, waiting, -⟩ | ⟨calm, established, next, after, run⟩ | ⟨calm, other, run⟩
  · -- A connection that has been reset is not established.
    have deaf : tcb.hears flags = false := decide_eq_false fun heard => asked heard.2.1
    rw [run]
    refine ⟨nofun, nofun, nofun, (if_neg ?_).trans orderly.judged⟩
    rw [deaf]
    nofun
  · exact absurd waiting orderly.opened
  · rw [run]
    obtain ⟨plain, room⟩ := passed ⟨established, calm⟩
    obtain ⟨queue, number, queued⟩ := queuePayload_eq seq payload tcb
    have receiving := receiving_established flags seq ack payload tcb
    rw [← after, queued] at receiving
    have state : next.state = if flags &&& tcpFin ≠ 0 then .closeWait else tcb.state :=
      congrArg Prod.fst receiving
    rw [queued] at after
    obtain ⟨final, finished⟩ := takeFin_eq flags
      (takeAck flags ack { tcb with rxQueue := queue, rcvNxt := number })
    -- What is queued does not matter for what has been sent.
    have before : Steady { tcb with rxQueue := queue, rcvNxt := number } history.window :=
      have steady := orderly.steady established
      { steady with }
    obtain ⟨steady, moved, started⟩ := before.takeAck plain
    have iss : next.iss = tcb.iss := by
      rw [after, finished]
      unfold TcpControlBlock.takeAck
      split <;> rfl
    have una : next.sndUna =
        (takeAck flags ack { tcb with rxQueue := queue, rcvNxt := number }).sndUna := by
      rw [after, finished]
    have heard : tcb.hears flags = true ↔ flags &&& tcpAck ≠ 0 := by
      simp [hears, established, calm]
    refine ⟨?_, fun _ => ?_, fun _ => ?_, (if_neg ?_).trans orderly.judged⟩
    · rw [state, established]
      split <;> decide
    · have kept : Steady next (tcb.unacknowledged flags ack) := by
        rw [after, finished]
        exact { steady with }
      refine kept.of_window (Nat.le_trans ?_ room)
      exact Nat.le_trans kept.bounded (Nat.min_le_right _ _)
    · dsimp only [Advertised.after]
      rw [iss, una, Bool.or_eq_true, Bool.and_eq_true, heard, ← orderly.started established]
      exact started
    · rintro ⟨carried, wrong⟩
      rw [una] at wrong
      exact wrong (moved (heard.mp carried))
  · -- A segment that is not expected changes nothing.
    have deaf : tcb.hears flags = false := decide_eq_false fun heard => other heard.1
    rw [run]
    refine ⟨orderly.opened, fun established => absurd established other,
      fun established => absurd established other, (if_neg ?_).trans orderly.judged⟩
    rw [deaf]
    nofun

theorem Orderly.of_sending (orderly : Orderly tcb history)
    (state : next.state = tcb.state)
    (sends : tcb.state = .established → Continues tcb next history.window) :
    Orderly next history where
  opened := state ▸ orderly.opened
  steady := fun established => (sends (state.symm.trans established)).toSteady
  started := by
    intro established
    rw [(sends (state.symm.trans established)).same]
    exact orderly.started (state.symm.trans established)
  judged := orderly.judged

theorem Orderly.step (orderly : Orderly tcb history) (op : Op) (input : Option Input)
    (passed : ∀ given, input = some given → given.orderly history op tcb = true) :
    Orderly (tcb.handle? input).1
      (history.after op tcb input (tcb.handle? input).1 (tcb.handle? input).2) := by
  cases input with
  | none => exact orderly
  | some input =>
    have passed := passed input rfl
    cases input with
    | segment flags seq ack payload => exact orderly.segment passed _
    | recv size =>
      change Orderly (tcb.recv size).1 history
      unfold recv
      split
      · exact orderly
      · refine orderly.of_sending rfl fun established => ?_
        have steady := orderly.steady established
        exact { steady with same := rfl }
    | send now data =>
      rw [Input.orderly, decide_eq_true_eq] at passed
      refine orderly.of_sending (congrArg Prod.fst (send_receiving data)) fun established => ?_
      have steady := orderly.steady established
      change Continues tcb (tcb.send now data).1 history.window
      unfold TcpControlBlock.send
      rw [if_neg fun other => other established]
      split
      · exact ⟨steady, rfl⟩
      · rename_i accepted
        -- More in the buffer changes no number by itself.
        have filled : Steady { tcb with txBuffer := tcb.txBuffer ++ data } history.window :=
          { steady with }
        have sends := filled.sendData now (passed ⟨established, accepted⟩)
        exact { sends with }
    | tick now =>
      rw [Input.orderly, decide_eq_true_eq] at passed
      refine orderly.of_sending (congrArg Prod.fst tick_receiving) fun established => ?_
      have steady := orderly.steady established
      change Continues tcb (tcb.tick now).1 history.window
      unfold TcpControlBlock.tick
      split
      · rename_i expired
        have sends := steady_rewind.sendData now (passed expired)
        exact { sends with }
      · exact ⟨steady, rfl⟩

end Steps

/-- The connection that a host has asked for, when it has been told. -/
def Connections.accepted (nextIsn : BitVec 32) (src : Ipv4Addr) (segment : Incoming) :
    TcpControlBlock :=
  { child nextIsn src segment with state := .established }

theorem orderly_accepted {nextIsn : BitVec 32} {src : Ipv4Addr} {segment : Incoming}
    {window : Nat} (open_ : 1 ≤ window) :
    Orderly (Connections.accepted nextIsn src segment) ⟨window, false, []⟩ := by
  have una : (nextIsn + 1 - (nextIsn + 1)).toNat = 0 := by bv_omega
  have flight : (nextIsn + 1 + 1 - (nextIsn + 1)).toNat = 1 := by bv_omega
  have opened : TcpState.established ≠ .synSent := by decide
  refine ⟨opened, fun _ => ⟨?_, ?_, ?_⟩, fun _ => iff_of_false ?_ Bool.false_ne_true, rfl⟩
  · change (nextIsn + 1 - (nextIsn + 1)).toNat ≤ _
    omega
  · change (nextIsn + 1 + 1 - (nextIsn + 1)).toNat ≤ min 2920 window
    omega
  · change (nextIsn + 1 + 1 - (nextIsn + 1)).toNat ≤ 65535
    omega
  · change ¬ 1 ≤ (nextIsn + 1 - (nextIsn + 1)).toNat
    omega

namespace Advertised

/--
What holds of the numbers of a connection.

Right after a handshake they are never in order. Those of a connection that a peer has asked for are
so in every orderly run from the first acknowledgement on, and its windows are obeyed all the time.
-/
theorem numbers_consistent (index : Nat) (conns : Connections) (nextIsn : BitVec 32)
    (src : Ipv4Addr) (segment : Incoming) (window : Nat) (ops : List Op) :
    (∀ isn remote remotePort localPort flags seq ack payload tcb,
      tcb = ((Connections.opened isn remote remotePort localPort).processSegment flags seq
        ack payload).1 →
      tcb.state = .established → ¬ tcb.InOrder) ∧
    (conns.at? index = some (Connections.accepted nextIsn src segment) → 1 ≤ window →
      Runs.everyStep (Watched.step index after)
        (Watched.given index fun history op tcb input => input.orderly history op tcb)
        ⟨conns, ⟨window, false, []⟩⟩ ops = true →
      ∃ final next, Runs.run (Watched.step index after) ⟨conns, ⟨window, false, []⟩⟩ ops =
          .ok final ∧
        final.conns.at? index = some next ∧
        (next.state = .established → (next.InOrder ↔ final.history.acked = true) ∧
          next.inFlight.toNat ≤ min next.cwnd.toNat final.history.window) ∧
        final.history.misjudged = []) := by
  constructor
  · intro isn remote remotePort localPort flags seq ack payload tcb made _ inOrder
    -- Nothing has been sent, so that no number is behind the first one and not behind the next.
    have unsent : tcb.sndNxt = tcb.iss := by
      rcases TcpControlBlock.processSegment_cases flags seq ack payload
        (Connections.opened isn remote remotePort localPort) with
        ⟨-, run⟩ | ⟨-, -, next, rfl, run⟩ | ⟨-, other, -⟩ | ⟨-, -, run⟩
      · rw [made, run]
        rfl
      · rw [made, run]
        rfl
      · cases other
      · rw [made, run]
        rfl
    have ordered := inOrder.ordered
    rw [unsent, BitVec.sub_self] at ordered
    exact absurd (Nat.le_trans inOrder.started ordered) (by decide)
  · intro occupied open_ orderly
    obtain ⟨final, next, run, slot, kept⟩ := Watched.run_keeps Orderly
      (fun _ _ op input orderly passed => orderly.step op input passed) occupied
      (orderly_accepted open_) ops orderly
    refine ⟨final, next, run, slot, fun established => ⟨?_, (kept.steady established).bounded⟩,
      kept.judged⟩
    rw [← kept.started established]
    exact ⟨fun inOrder => inOrder.started,
      fun started => ⟨started, (kept.steady established).ordered⟩⟩

/-- A segment without a payload from the port 1000 to the port 80. -/
def peerSegment (flags : BitVec 8) (seq ack : BitVec 32) (window : BitVec 16) : Bytes :=
  toBeBytes16 1000 ++ toBeBytes16 80 ++ toBeBytes32 seq ++ toBeBytes32 ack ++ [0x50, flags] ++
    toBeBytes16 window ++ List.replicate 4 0

/-- The table behind some operations. -/
def tableAfter (ops : List Op) : Connections :=
  ops.foldl (fun conns op => (conns.step op).1) .initial

/-- A peer has asked for a connection to a port on which the kernel waits. -/
def asked : List Op := [.createListener 80, .arrive .any (peerSegment tcpSyn 4 0 65535)]

/-- The kernel has asked for a connection, and the peer has answered. -/
def answered : List Op :=
  [.connect (.v4 .any) 1000 80, .arrive .any (peerSegment (tcpSyn ||| tcpAck) 4 0xA5A50001 65535)]

/-- The peer acknowledges the answer, and then two of three bytes; the last one is sent again. -/
theorem acknowledged_consistent :
    ∃ final next, Runs.run (Watched.step 1 after) ⟨tableAfter asked, ⟨65535, false, []⟩⟩
        [.arrive .any (peerSegment tcpAck 5 0xA5A50002 65535), .send 1 10 [1, 2, 3],
          .arrive .any (peerSegment tcpAck 5 0xA5A50004 4000), .tick 2000] = .ok final ∧
      final.conns.at? 1 = some next ∧
      (next.state = .established → (next.InOrder ↔ final.history.acked = true) ∧
        next.inFlight.toNat ≤ min next.cwnd.toNat final.history.window) ∧
      final.history.misjudged = [] :=
  (numbers_consistent 1 _ 0xA5A50000 .any ⟨1000, 80, 4, 0, tcpSyn, []⟩ 65535 _).2 (by decide)
    (by decide) (by decide)

/--
Neither side of a handshake leads to numbers that are in order, and an acknowledgement of bytes
that were never sent is taken.
-/
theorem handshake_inconsistent :
    (∃ tcb, (tableAfter asked).at? 1 = some tcb ∧ tcb.state = .established ∧ ¬ tcb.InOrder) ∧
    (∃ tcb, (tableAfter answered).at? 0 = some tcb ∧ tcb.state = .established ∧ ¬ tcb.InOrder) ∧
    ∃ final, Runs.run (Watched.step 1 after) ⟨tableAfter asked, ⟨65535, false, []⟩⟩
        [.arrive .any (peerSegment tcpAck 5 0xA5A50002 65535),
          .arrive .any (peerSegment tcpAck 5 0xB0000000 65535)] = .ok final ∧
      final.history.misjudged = [0xB0000000] := by
  refine ⟨⟨_, rfl, rfl, ?_⟩, ⟨_, rfl, rfl, ?_⟩, ⟨_, rfl, by decide⟩⟩
  · intro inOrder
    exact absurd inOrder.started (by decide)
  · intro inOrder
    exact absurd inOrder.ordered (by decide)

end Advertised

end TheoryKernel.Net.Tcp
