import TheoryKernel.Net.Ipv4RoundTrip
import TheoryKernel.Net.UdpPorts

/-! Which calls of the stack wait for a lock that they hold themselves. -/

namespace TheoryKernel.Net

open Locking (Held Stop)
open Locking.Code Tcp

section Sending

variable {rxPoll : Code Unit} {held : Held Lock} {stack : Stack} {dst : Ipv4Addr}
  {protocol : BitVec 8} {payload : Bytes}

/-- The hardware address that packets to a host are sent to, if it need not be asked for. -/
def known (stack : Stack) (dst : Ipv4Addr) : Option MacAddr :=
  if dst = .broadcast then some .broadcast else stack.host.cache (Arp.routeTarget dst stack)

/-- The stack behind a question for the hardware address of the next host. -/
def askedFor (stack : Stack) (dst : Ipv4Addr) : Stack :=
  let asked := stack.host.sendRequest (Arp.routeTarget dst stack)
  { stack with transmitted := stack.transmitted ++ asked }

variable {mac : MacAddr} {stop : Stop Fault}

theorem ethDstFor_known (found : known stack dst = some mac) :
    Arp.ethDstFor rxPoll dst held stack = .ok (mac, stack) := by
  unfold known at found
  unfold Arp.ethDstFor
  split at found
  · rename_i all
    rw [if_pos all]
    cases found
    rfl
  · rename_i single
    rw [if_neg single, read_bind]
    unfold Arp.resolveBlocking Arp.lookup
    rw [bind_run, read_bind, found]
    rfl

theorem transmit_long (long : 1500 < 20 + payload.length) :
    transmit rxPoll dst protocol payload held stack = .error (.fault .sliceOutOfRange) := by
  unfold transmit
  rw [read_bind, Ipv4Header.build_error (by rw [List.length_replicate]; decide)
    (by rw [List.length_replicate]; exact long)]
  rfl

/-- A packet to a known address is sent if there is a device. -/
theorem transmit_known (short : 20 + payload.length ≤ 1500) (found : known stack dst = some mac) :
    ∃ frames, transmit rxPoll dst protocol payload held stack =
      .ok ((), { stack with transmitted := frames }) := by
  unfold transmit
  rw [read_bind, Ipv4Header.build_eq (by rw [List.length_replicate]; exact short)]
  change ∃ frames, (Arp.ethDstFor rxPoll dst >>= _) held stack = _
  rw [bind_ok (ethDstFor_known found), read_bind]
  cases device : stack.host.mac with
  | none => exact ⟨stack.transmitted, rfl⟩
  | some srcMac =>
    dsimp only
    rw [slice_zero]
    · change ∃ frames, deviceSend _ held stack = _
      unfold deviceSend
      rw [modify_run, device]
      exact ⟨_, rfl⟩
    · rw [List.length_append, List.length_append]
      exact Nat.le_add_right _ _

/-- A packet to an unknown address stops where the first frames that come do. -/
theorem transmit_unknown (short : 20 + payload.length ≤ 1500) (missing : known stack dst = none)
    (stops : rxPoll held (askedFor stack dst) = .error stop) :
    transmit rxPoll dst protocol payload held stack = .error stop := by
  unfold transmit
  rw [read_bind, Ipv4Header.build_eq (by rw [List.length_replicate]; exact short)]
  change (Arp.ethDstFor rxPoll dst >>= _) held stack = _
  apply bind_error
  unfold known at missing
  unfold Arp.ethDstFor
  split at missing
  · cases missing
  · rename_i single
    rw [if_neg single, read_bind]
    apply bind_error
    unfold Arp.resolveBlocking Arp.lookup Arp.sendRequest
    rw [read_bind, missing]
    dsimp only
    rw [modify_bind]
    unfold Arp.resolveLoop
    exact bind_error stops

end Sending

namespace Tcp

section Faulty

variable {rxPoll : Code Unit} {held : Held Lock} {stack : Stack}

theorem sendOutgoing_windowBytes (out : Outgoing) :
    sendOutgoing windowBytes rxPoll out held stack = .error (.fault .lengthMismatch) := by
  have four : ¬ (windowBytes out.tcb).length = 2 := by
    change ¬ 4 = 2
    decide
  unfold sendOutgoing
  rw [buildSegmentWith_eq, if_neg four]
  rfl

theorem sendAll_windowBytes {α : Type} (sent : List (Nat × Outgoing)) (rest : Unit → Code α) :
    (sendAll windowBytes rxPoll sent >>= rest) held stack =
      if sent = [] then rest () held stack else .error (.fault .lengthMismatch) := by
  cases sent with
  | nil => rfl
  | cons entry others =>
    rw [if_neg (List.cons_ne_nil _ _), sendAll]
    exact bind_error (bind_error (sendOutgoing_windowBytes entry.2))

variable {inner : Held Lock} (taken : held.take .connections = some inner)
include taken

/-- A segment is taken in unless it must be answered. -/
theorem handleIncoming_windowBytes (src : Ipv4Addr) (data : Bytes) :
    handleIncoming windowBytes rxPoll src data held stack =
      if (stack.conns.handleIncoming src data).2 = [] then
        .ok ((), { stack with conns := (stack.conns.handleIncoming src data).1 })
      else .error (.fault .lengthMismatch) := by
  unfold handleIncoming
  cases parsed : Incoming.parse data with
  | none =>
    have same : stack.conns.handleIncoming src data = (stack.conns, []) := by
      rw [Connections.handleIncoming, parsed]
    rw [same, if_pos rfl]
    rfl
  | some segment =>
    dsimp only
    rw [withLock_run taken, read_bind]
    exact sendAll_windowBytes _ _

theorem connect_windowBytes (remote : IpAddr) (remotePort localPort : BitVec 16) :
    connect windowBytes rxPoll remote remotePort localPort held stack =
      if stack.conns.allocSlot = none then .ok (none, stack)
      else .error (.fault .lengthMismatch) := by
  unfold connect
  have slot : (withLock .connections (read fun stack => stack.conns.allocSlot) : Code (Option Nat))
      held stack = .ok (stack.conns.allocSlot, stack) := by
    rw [withLock_run taken]
    rfl
  rw [bind_ok slot]
  cases stack.conns.allocSlot with
  | none => rfl
  | some index =>
    rw [if_neg (by simp)]
    dsimp only
    rw [read_bind, modify_bind]
    exact bind_error (sendOutgoing_windowBytes _)

end Faulty

section Repaired

variable {window : TcpControlBlock → Bytes} {polls : Nat} {stack : Stack} {out : Outgoing}

theorem rxPoll_idle (idle : stack.polls = []) :
    rxPoll window (polls + 1) (.exclusive [.connections]) stack = .error .deadlock := by
  have none : pollRx (.exclusive [.connections]) stack = .ok (none, stack) := by
    unfold pollRx
    rw [read_bind, idle]
    rfl
  unfold rxPoll
  rw [bind_ok none]
  rfl

/-- Whether sending some segments comes to one whose next host is not known. -/
def stalls (stack : Stack) : List (Nat × Outgoing) → Bool
  | [] => false
  | (_, out) :: rest =>
    match out.tcb.remote with
    | .v6 _ => stalls stack rest
    | .v4 dst =>
      if 1480 < 20 + out.options.length + out.payload.length then false
      else if (known stack dst).isNone then true
      else stalls stack rest

theorem sendOutgoing_two (two : (window out.tcb).length = 2) (idle : stack.polls = []) :
    match out.tcb.remote with
    | .v6 _ => sendOutgoing window (rxPoll window (polls + 1)) out (.exclusive [.connections])
        stack = .ok ((), stack)
    | .v4 dst =>
      if 1480 < 20 + out.options.length + out.payload.length then
        sendOutgoing window (rxPoll window (polls + 1)) out (.exclusive [.connections]) stack =
          .error (.fault .sliceOutOfRange)
      else if (known stack dst).isNone then
        sendOutgoing window (rxPoll window (polls + 1)) out (.exclusive [.connections]) stack =
          .error .deadlock
      else
        ∃ frames, sendOutgoing window (rxPoll window (polls + 1)) out (.exclusive [.connections])
          stack = .ok ((), { stack with transmitted := frames }) := by
  -- The segment is built, and what is sent are its header, its options and its payload.
  obtain ⟨csum, sent⟩ := @serialize_eq (window out.tcb) out.options out.payload out.tcb out.flags
    out.seq out.ack stack.host.ourIp two
  have length : (fields out.tcb out.flags out.seq out.ack ++ window out.tcb ++ toBeBytes16 csum ++
      ([0, 0] ++ out.options ++ out.payload)).length =
        20 + out.options.length + out.payload.length := by
    simp only [List.length_append, two, toBeBytes16_length]
    change 14 + 2 + 2 + (2 + out.options.length + out.payload.length) = _
    omega
  unfold sendOutgoing
  rw [buildSegmentWith_eq, if_pos two]
  unfold transmit run
  simp only [pure_bind_run, read_bind, List.nil_append, sent]
  cases remote : out.tcb.remote with
  | v6 addr => rfl
  | v4 dst =>
    dsimp only
    split
    · exact transmit_long (by omega)
    · split
      · rename_i missing
        have waits : rxPoll window (polls + 1) (.exclusive [.connections]) (askedFor stack dst) =
            .error .deadlock := rxPoll_idle idle
        exact transmit_unknown (by omega) (Option.isNone_iff_eq_none.mp missing) waits
      · rename_i found
        obtain ⟨mac, found⟩ := Option.ne_none_iff_exists'.mp
          fun missing => found (Option.isNone_iff_eq_none.mpr missing)
        exact transmit_known (by omega) found

theorem stalls_transmitted (frames : List Bytes) (sent : List (Nat × Outgoing)) :
    stalls { stack with transmitted := frames } sent = stalls stack sent := by
  induction sent with
  | nil => rfl
  | cons entry rest ih =>
    unfold stalls
    rw [ih]
    rfl

theorem sendAll_deadlocks (two : ∀ tcb, (window tcb).length = 2) (sent : List (Nat × Outgoing))
    (idle : stack.polls = []) :
    (sendAll window (rxPoll window (polls + 1)) sent).Deadlocks (.exclusive [.connections]) stack ↔
      stalls stack sent = true := by
  induction sent generalizing stack with
  | nil => exact ⟨fun stuck => (by cases stuck), fun stuck => (by cases stuck)⟩
  | cons entry rest ih =>
    obtain ⟨index, out⟩ := entry
    have first := @sendOutgoing_two window polls stack out (two out.tcb) idle
    unfold sendAll stalls Deadlocks
    cases remote : out.tcb.remote with
    | v6 addr =>
      rw [remote] at first
      rw [bind_ok first]
      exact ih idle
    | v4 dst =>
      rw [remote] at first
      dsimp only at first ⊢
      split at first
      · rename_i long
        rw [bind_error first, if_pos long]
        exact ⟨fun stuck => (by cases stuck), fun stuck => (by cases stuck)⟩
      · rename_i short
        rw [if_neg short]
        split at first
        · rename_i missing
          rw [bind_error first, if_pos missing]
          exact ⟨fun _ => rfl, fun _ => rfl⟩
        · rename_i found
          obtain ⟨frames, done⟩ := first
          rw [bind_ok done, if_neg found, ← stalls_transmitted frames]
          exact ih idle

end Repaired

end Tcp

/-- The calls into the stack that need one of its locks. -/
inductive Call where
  | udpRecv (port : BitVec 16)
  | udpInput (src : Ipv4Addr) (data : Bytes)
  | tcpConnect (remote : IpAddr) (remotePort localPort : BitVec 16)
  | tcpSend (index : Nat) (data : Bytes)
  | tcpInput (src : Ipv4Addr) (data : Bytes)
  | tcpTick
  deriving DecidableEq, Repr

namespace Call

/-- The code of a call, with what is written for the window of a connection. -/
def code (window : TcpControlBlock → Bytes) (polls : Nat) : Call → Code Unit
  | .udpRecv port => (fun _ => ()) <$> Udp.recv port
  | .udpInput src data => Udp.handleIncoming src data
  | .tcpConnect remote remotePort localPort =>
    (fun _ => ()) <$> connect window (rxPoll window polls) remote remotePort localPort
  | .tcpSend index data => (fun _ => ()) <$> send window (rxPoll window polls) index data
  | .tcpInput src data => handleIncoming window (rxPoll window polls) src data
  | .tcpTick => tick window (rxPoll window polls)

/-- Whether a call needs the queues of the datagrams. -/
def touchesQueues : Call → Bool
  | .udpRecv _ => true
  | .udpInput src data => (Udp.parse src data).isSome
  | _ => false

/-- The segments that a call sends while it holds the table of the connections, if it does. -/
def sends (stack : Stack) : Call → List (Nat × Outgoing)
  | .tcpSend index data => (stack.conns.send index stack.now data).2.1
  | .tcpInput src data => (stack.conns.handleIncoming src data).2
  | .tcpTick => (stack.conns.tick stack.now).2
  | _ => []

/-- Whether a call holds the table of the connections while it sends. -/
def holdsTable : Call → Bool
  | .tcpSend _ _ => true
  | .tcpInput _ _ => true
  | .tcpTick => true
  | _ => false

variable {stack : Stack}

theorem not_deadlocks_of_ite {α : Type} {body : Code α} {held : Held Lock} {condition : Prop}
    [Decidable condition] {result : α × Stack} {stop : Fault}
    (outcome : body held stack = if condition then .ok result else .error (.fault stop)) :
    ¬ body.Deadlocks held stack := by
  unfold Deadlocks
  rw [outcome]
  split <;> exact nofun

theorem deadlocks_windowBytes (call : Call) (polls : Nat) :
    (call.code windowBytes polls).Deadlocks (.exclusive []) stack ↔
      call.touchesQueues = true := by
  have free : (Held.exclusive []).take Lock.connections = some (.exclusive [.connections]) := rfl
  cases call with
  | udpRecv port => exact ⟨fun _ => rfl, fun _ => rfl⟩
  | udpInput src data =>
    change Udp.handleIncoming src data (.exclusive []) stack = .error .deadlock ↔
      (Udp.parse src data).isSome = true
    rw [Udp.handleIncoming_exclusive]
    split
    · rename_i formed
      exact iff_of_true rfl formed
    · rename_i malformed
      exact iff_of_false nofun malformed
  | tcpConnect remote remotePort localPort =>
    refine iff_of_false ?_ nofun
    unfold code
    rw [deadlocks_map]
    exact not_deadlocks_of_ite (connect_windowBytes free remote remotePort localPort)
  | tcpSend index data =>
    refine iff_of_false ?_ nofun
    unfold code
    rw [deadlocks_map]
    unfold send Deadlocks
    rw [withLock_run free, read_bind, read_bind]
    exact not_deadlocks_of_ite (sendAll_windowBytes _ _)
  | tcpInput src data =>
    refine iff_of_false ?_ nofun
    exact not_deadlocks_of_ite (handleIncoming_windowBytes free src data)
  | tcpTick =>
    refine iff_of_false ?_ nofun
    rw [code, tick, Deadlocks, read_bind, withLock_run free, read_bind]
    exact not_deadlocks_of_ite (sendAll_windowBytes _ _)

end Call

/--
Which calls into the stack wait for themselves: those that touch the queues of the datagrams,
and, if segments could be built, those that come to one whose next host is not known.
-/
theorem deadlocks_iff (stack : Stack) (call : Call) (polls : Nat) :
    ((call.code windowBytes polls).Deadlocks (.exclusive []) stack ↔
      call.touchesQueues = true) ∧
    ∀ window : TcpControlBlock → Bytes, (∀ tcb, (window tcb).length = 2) → stack.polls = [] →
      call.holdsTable = true → ((call.code window (polls + 1)).Deadlocks (.exclusive []) stack ↔
        stalls stack (call.sends stack) = true) := by
  refine ⟨call.deadlocks_windowBytes polls, fun window two idle holds => ?_⟩
  cases call with
  | udpRecv port | udpInput src data | tcpConnect remote remotePort localPort => cases holds
  | tcpSend index data =>
    unfold Call.code
    rw [deadlocks_map, ← sendAll_deadlocks two _ idle]
    exact deadlocks_bind_left (α := Unit) fun _ _ wrong => by cases wrong
  | tcpInput src data =>
    change (handleIncoming window (rxPoll window (polls + 1)) src data).Deadlocks _ stack ↔
      stalls stack (stack.conns.handleIncoming src data).2 = true
    unfold handleIncoming
    cases parsed : Incoming.parse data with
    | none =>
      have nothing : (stack.conns.handleIncoming src data).2 = [] := by
        rw [Connections.handleIncoming, parsed]
      rw [nothing]
      exact iff_of_false not_deadlocks_pure Bool.false_ne_true
    | some segment =>
      rw [← sendAll_deadlocks two _ idle]
      exact deadlocks_bind_left (α := Unit) fun _ _ wrong => by cases wrong
  | tcpTick =>
    rw [← sendAll_deadlocks two _ idle]
    exact deadlocks_bind_left (α := Unit) fun _ _ wrong => by cases wrong

/-- A stack with one connection, whose next host is not known. -/
def connectedStack : Stack :=
  { Udp.newStack with
    conns := ⟨[some { TcpControlBlock.new 80 with
      remote := .v4 ⟨10, 0, 0, 2⟩, state := .established }], 0⟩ }

/-- If segments could be built, sending a byte would wait for the table that is held meanwhile. -/
theorem connected_deadlocks :
    ((Call.tcpSend 0 [1]).code (fun _ => [0xFF, 0xFF]) 1).Deadlocks (.exclusive []) connectedStack :=
  ((deadlocks_iff connectedStack (.tcpSend 0 [1]) 0).2 _ (fun _ => rfl) rfl rfl).mpr
    (by decide)

/-- A read of a port takes the lock of the queues twice. -/
theorem recv_deadlocks :
    ((Call.udpRecv 53).code windowBytes 1).Deadlocks (.exclusive []) Udp.newStack :=
  rfl

end TheoryKernel.Net
