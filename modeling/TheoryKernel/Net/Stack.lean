import TheoryKernel.Lib.Locking
import TheoryKernel.Net.Arp
import TheoryKernel.Net.Tcp.Table

/-! The network stack: how frames are taken in, answered and sent, and under which locks. -/

namespace TheoryKernel.Net

/--
The locks that are held while other code of the stack runs; those that are held for a single
access only are left out.
-/
inductive Lock where
  | rxQueues
  | connections
  deriving DecidableEq, Repr

/-- A datagram that waits for its reader. -/
structure UdpDatagram where
  src : IpAddr
  srcPort : BitVec 16
  dstPort : BitVec 16
  data : Bytes
  deriving DecidableEq, Repr

/-- What the device gives when it is asked for a frame, and the time it is then. -/
structure Poll where
  frame : Option Bytes
  now : BitVec 64
  deriving DecidableEq, Repr

/-- The state of the stack, with what its device is still going to receive. -/
structure Stack where
  host : Host
  gateway : Option Ipv4Addr
  queues : Nat → List UdpDatagram
  conns : Tcp.Connections
  polls : List Poll
  now : BitVec 64
  transmitted : List Bytes

/-- Code of the stack. -/
abbrev Code (α : Type) : Type := Locking.Code Lock Stack Fault α

open Locking.Code

/-- Code that does not touch the stack. -/
def run {α : Type} : Exec α → Code α
  | .ok value => pure value
  | .error stop => fault stop

/-- A frame is handed to the device, if there is one. -/
def deviceSend (frame : Bytes) : Code Unit :=
  modify fun stack =>
    if stack.host.mac.isSome then { stack with transmitted := stack.transmitted ++ [frame] }
    else stack

/-- The device is asked for a frame. -/
def pollRx : Code (Option Bytes) := do
  match ← read Stack.polls with
  | [] => pure none
  | poll :: rest =>
    modify fun stack => { stack with polls := rest, now := poll.now }
    read fun stack => if stack.host.mac.isSome then poll.frame else none

namespace Arp

/-- The hardware address of a host, if it is known. -/
def lookup (ip : Ipv4Addr) : Code (Option MacAddr) := read fun stack => stack.host.cache ip

/-- Asking for the hardware address of a host. -/
def sendRequest (target : Ipv4Addr) : Code Unit :=
  modify fun stack =>
    { stack with transmitted := stack.transmitted ++ stack.host.sendRequest target }

/-- What the stack does with a packet about addresses. -/
def handleIncoming (payload : Bytes) : Code Unit :=
  modify fun stack =>
    let (host, sent) := stack.host.handleIncomingWith Host.sentProtoType payload
    { stack with host := host, transmitted := stack.transmitted ++ sent }

/-- Whether two addresses are of one network. -/
def sameSubnet (a b : Ipv4Addr) : Bool := a.o0 = b.o0 && a.o1 = b.o1 && a.o2 = b.o2

/-- The host that a packet is sent to first. -/
def routeTarget (ip : Ipv4Addr) (stack : Stack) : Ipv4Addr :=
  if stack.host.ourIp = .any then ip
  else if sameSubnet stack.host.ourIp ip then ip
  else stack.gateway.getD ip

/-- Waiting for an answer, while all frames are taken in that come meanwhile. -/
def resolveLoop (rxPoll : Code Unit) (ip : Ipv4Addr) : Nat → Code (Option MacAddr)
  | 0 => pure none
  | rounds + 1 => do
    rxPoll
    match ← lookup ip with
    | some mac => pure (some mac)
    | none => resolveLoop rxPoll ip rounds

/-- The hardware address of a host, which is asked for if it is not known. -/
def resolveBlocking (rxPoll : Code Unit) (ip : Ipv4Addr) : Code (Option MacAddr) := do
  match ← lookup ip with
  | some mac => pure (some mac)
  | none =>
    sendRequest ip
    resolveLoop rxPoll ip 20000

/-- The hardware address that a packet is sent to. -/
def ethDstFor (rxPoll : Code Unit) (ip : Ipv4Addr) : Code MacAddr :=
  if ip = .broadcast then pure .broadcast
  else do
    let target ← read (routeTarget ip)
    let found ← resolveBlocking rxPoll target
    pure (found.getD .broadcast)

end Arp

/-- Sending a packet. -/
def transmit (rxPoll : Code Unit) (dst : Ipv4Addr) (protocol : BitVec 8) (payload : Bytes) :
    Code Unit := do
  let src ← read fun stack => stack.host.ourIp
  let (ipLen, ipBuf) ← run (Ipv4Header.build src dst protocol payload (List.replicate 1500 0))
  let dstMac ← Arp.ethDstFor rxPoll dst
  match ← read fun stack => stack.host.mac with
  | none => pure ()
  | some srcMac =>
    let packet ← run (slice ipBuf 0 ipLen)
    deviceSend (EthHeader.build dstMac srcMac ethertypeIpv4 packet)

namespace Icmp

/-- The bytes that answer an echo request. -/
def reply (data : Bytes) : Exec Bytes := do
  let reply : Bytes := List.replicate 576 0
  let reply ← copyFromSlice reply 0 data.length data
  let reply ← setAt reply 0 0
  let reply ← setAt reply 2 0
  let reply ← setAt reply 3 0
  let covered ← slice reply 0 data.length
  let reply ← copyFromSlice reply 2 4 (toBeBytes16 (checksum covered))
  slice reply 0 data.length

/-- What the stack does with a control message. -/
def handleIncoming (rxPoll : Code Unit) (src : Ipv4Addr) (data : Bytes) : Code Unit :=
  if data.length < 8 then pure ()
  else if byte data 0 = 8 then do
    let answer ← run (reply data)
    transmit rxPoll src ipProtoIcmp answer
  else pure ()

end Icmp

namespace Udp

/-- The queue of a port, which is found with the lock of the queues. -/
def portIndex (port : BitVec 16) : Code Nat := withLock .rxQueues (pure (port.toNat % 64))

/-- The first datagram of a queue is taken off. -/
def popFront (index : Nat) : Code (Option UdpDatagram) := do
  match ← read fun stack => stack.queues index with
  | [] => pure none
  | datagram :: rest =>
    modify fun stack => { stack with queues := Function.update stack.queues index rest }
    pure (some datagram)

/-- A datagram is put at the end of a queue. -/
def pushBack (index : Nat) (datagram : UdpDatagram) : Code Unit :=
  modify fun stack =>
    { stack with
      queues := Function.update stack.queues index (stack.queues index ++ [datagram]) }

/-- A datagram for a port, if there is one. -/
def recv (port : BitVec 16) : Code (Option UdpDatagram) :=
  -- The queues are locked before the place in them is computed.
  withLock .rxQueues do
    let index ← portIndex port
    popFront index

/-- The datagram in some bytes, unless its length is wrong. -/
def parse (src : Ipv4Addr) (data : Bytes) : Option UdpDatagram :=
  if data.length < 8 then none
  else
    let length := (be16 data 4).toNat
    if length < 8 ∨ data.length < length then none
    else
      some {
        src := .v4 src
        srcPort := be16 data 0
        dstPort := be16 data 2
        data := (data.drop 8).take (length - 8) }

/-- What the stack does with a datagram. -/
def handleIncoming (src : Ipv4Addr) (data : Bytes) : Code Unit :=
  match parse src data with
  | none => pure ()
  | some datagram =>
    withLock .rxQueues do
      let index ← portIndex datagram.dstPort
      pushBack index datagram

end Udp

namespace Tcp

/-- The bytes that the kernel writes for the window of a connection. -/
def windowBytes (tcb : TcpControlBlock) : Bytes := toBeBytes32 tcb.rcvWnd

section Window

variable (window : TcpControlBlock → Bytes) (rxPoll : Code Unit)

/-- A segment is sent to the other end of its connection. -/
def transmit (tcb : TcpControlBlock) (seg : TcpSegment) : Code Unit := do
  let ourIp ← read fun stack => stack.host.ourIp
  let buf ← run (serialize ourIp tcb seg)
  match tcb.remote with
  | .v4 dst => Net.transmit rxPoll dst ipProtoTcp buf
  | .v6 _ => pure ()

/-- A segment is built and sent. -/
def sendOutgoing (out : Outgoing) : Code Unit := do
  let seg ← run (buildSegmentWith (window out.tcb) out.tcb out.flags out.seq out.ack out.payload)
  transmit rxPoll out.tcb { seg with options := seg.options ++ out.options }

/-- Segments are built and sent, one behind the other. -/
def sendAll : List (Nat × Outgoing) → Code Unit
  | [] => pure ()
  | entry :: rest => do
    sendOutgoing window rxPoll entry.2
    sendAll rest

/-- What the stack does with a segment. -/
def handleIncoming (src : Ipv4Addr) (data : Bytes) : Code Unit :=
  match Incoming.parse data with
  | none => pure ()
  | some _ =>
    withLock .connections do
      let conns ← read Stack.conns
      let (next, sent) := conns.handleIncoming src data
      sendAll window rxPoll sent
      modify fun stack => { stack with conns := next }

/-- The timers of all connections. -/
def tick : Code Unit := do
  let now ← read Stack.now
  withLock .connections do
    let conns ← read Stack.conns
    let (next, sent) := conns.tick now
    sendAll window rxPoll sent
    modify fun stack => { stack with conns := next }

/-- Writing to a connection. -/
def send (index : Nat) (data : Bytes) : Code (Option Nat) :=
  withLock .connections do
    let conns ← read Stack.conns
    let now ← read Stack.now
    let (next, sent, accepted) := conns.send index now data
    sendAll window rxPoll sent
    modify fun stack => { stack with conns := next }
    pure accepted

/-- Opening a connection, whose slot is chosen before its first segment is sent. -/
def connect (remote : IpAddr) (remotePort localPort : BitVec 16) : Code (Option Nat) := do
  match ← withLock .connections (read fun stack => stack.conns.allocSlot) with
  | none => pure none
  | some index =>
    let isn ← read fun stack => stack.conns.nextIsn
    modify fun stack => { stack with conns := { stack.conns with nextIsn := isn + 64000 } }
    let tcb := Connections.opened isn remote remotePort localPort
    sendOutgoing window rxPoll (Connections.syn tcb)
    withLock .connections
      (modify fun stack => { stack with conns := stack.conns.put index tcb })
    pure (some index)

end Window

end Tcp

section Input

variable (window : Tcp.TcpControlBlock → Bytes)

/-- What the stack does with a packet of the older version. -/
def handleIncomingV4 (rxPoll : Code Unit) (payload : Bytes) : Code Unit :=
  match Ipv4Header.parse payload with
  | none => pure ()
  | some (hdr, offset) => do
    let ourIp ← read fun stack => stack.host.ourIp
    if hdr.dst ≠ ourIp ∧ hdr.dst ≠ .broadcast then pure ()
    else
      let data ← run (slice payload offset (min hdr.totalLen payload.length))
      if hdr.protocol = ipProtoIcmp then Icmp.handleIncoming rxPoll hdr.src data
      else if hdr.protocol = ipProtoUdp then Udp.handleIncoming hdr.src data
      else if hdr.protocol = ipProtoTcp then Tcp.handleIncoming window rxPoll hdr.src data
      else pure ()

/-- What the stack does with a packet of the newer version; all protocols behind it do nothing. -/
def handleIncomingV6 (payload : Bytes) : Code Unit :=
  if payload.length < 40 then pure ()
  else if byte payload 0 >>> 4 ≠ 6 then pure ()
  else do
    let _data ← run (slice payload 40 (40 + (be16 payload 4).toNat))
    pure ()

/-- What the stack does with a frame. -/
def dispatch (rxPoll : Code Unit) (buf : Bytes) : Code Unit :=
  match EthHeader.parse buf with
  | none => pure ()
  | some (hdr, offset) => do
    let payload ← run (slice buf offset buf.length)
    if hdr.ethertype = ethertypeArp then Arp.handleIncoming payload
    else if hdr.ethertype = ethertypeIpv4 then handleIncomingV4 window rxPoll payload
    else if hdr.ethertype = ethertypeIpv6 then handleIncomingV6 payload
    else pure ()

/-- Taking in all frames that the device has, with a bound on how often it is asked. -/
def rxPoll : Nat → Code Unit
  | 0 => fault .diverged
  | polls + 1 => do
    match ← pollRx with
    | some frame =>
      dispatch window (rxPoll polls) frame
      rxPoll polls
    | none => Tcp.tick window (rxPoll polls)

end Input

end TheoryKernel.Net
