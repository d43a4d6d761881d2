import Mathlib.Logic.Function.Basic
import TheoryKernel.Net.Eth

/-! How hosts learn the hardware addresses of each other. -/

namespace TheoryKernel.Net

open Function EthHeader

def arpHwEth : BitVec 16 := 1
def arpOpRequest : BitVec 16 := 1
def arpOpReply : BitVec 16 := 2

/-- A question for an address, or the answer to it. -/
structure ArpPacket where
  hwType : BitVec 16
  protoType : BitVec 16
  hwLen : BitVec 8
  protoLen : BitVec 8
  opcode : BitVec 16
  senderMac : MacAddr
  senderIp : Ipv4Addr
  targetMac : MacAddr
  targetIp : Ipv4Addr
  deriving DecidableEq, Repr

namespace ArpPacket

/-- The bytes of a packet in memory. -/
def bytes (packet : ArpPacket) : Bytes :=
  toBeBytes16 packet.hwType ++ toBeBytes16 packet.protoType ++ [packet.hwLen, packet.protoLen] ++
    toBeBytes16 packet.opcode ++ packet.senderMac.bytes ++ packet.senderIp.bytes ++
    packet.targetMac.bytes ++ packet.targetIp.bytes

/-- The packet at the start of some bytes. -/
def ofBytes (payload : Bytes) : ArpPacket where
  hwType := be16 payload 0
  protoType := be16 payload 2
  hwLen := byte payload 4
  protoLen := byte payload 5
  opcode := be16 payload 6
  senderMac := .ofBytes payload 8
  senderIp := .ofBytes payload 14
  targetMac := .ofBytes payload 18
  targetIp := .ofBytes payload 24

/-- A packet for some kind of addresses. -/
def make (protoType opcode : BitVec 16) (ourMac : MacAddr) (ourIp : Ipv4Addr)
    (targetMac : MacAddr) (targetIp : Ipv4Addr) : ArpPacket where
  hwType := arpHwEth
  protoType := protoType
  hwLen := 6
  protoLen := 4
  opcode := opcode
  senderMac := ourMac
  senderIp := ourIp
  targetMac := targetMac
  targetIp := targetIp

theorem ofBytes_bytes (packet : ArpPacket) : ofBytes packet.bytes = packet := by
  obtain ⟨hwType, protoType, hwLen, protoLen, opcode, senderMac, senderIp, targetMac, targetIp⟩ :=
    packet
  -- The numbers are put together from their bytes; everything else is read as single bytes.
  have hw : be16 (bytes ⟨hwType, protoType, hwLen, protoLen, opcode, senderMac, senderIp, targetMac,
      targetIp⟩) 0 = hwType := be16_written [] _ hwType
  have proto : be16 (bytes ⟨hwType, protoType, hwLen, protoLen, opcode, senderMac, senderIp,
      targetMac, targetIp⟩) 2 = protoType := be16_written (toBeBytes16 hwType) _ protoType
  have op : be16 (bytes ⟨hwType, protoType, hwLen, protoLen, opcode, senderMac, senderIp, targetMac,
      targetIp⟩) 6 = opcode :=
    be16_written (toBeBytes16 hwType ++ toBeBytes16 protoType ++ [hwLen, protoLen]) _ opcode
  rw [ofBytes, hw, proto, op]
  rfl

end ArpPacket

/-- A host, as far as it is about addresses. -/
structure Host where
  ourIp : Ipv4Addr
  mac : Option MacAddr
  cache : Ipv4Addr → Option MacAddr

namespace Host

/-- A frame with a packet, as it is handed to the device. -/
def transmit (host : Host) (dst : MacAddr) (packet : ArpPacket) : List Bytes :=
  match host.mac with
  | none => []
  | some src => [build dst src ethertypeArp packet.bytes]

/-- Asking for the hardware address of a host, with some kind of addresses. -/
def sendRequestWith (protoType : BitVec 16) (host : Host) (target : Ipv4Addr) : List Bytes :=
  match host.mac with
  | none => []
  | some ourMac =>
    host.transmit .broadcast
      (.make protoType arpOpRequest ourMac host.ourIp ⟨0, 0, 0, 0, 0, 0⟩ target)

/-- Answering a host, with some kind of addresses. -/
def sendReplyWith (protoType : BitVec 16) (host : Host) (targetIp : Ipv4Addr)
    (targetMac : MacAddr) : List Bytes :=
  match host.mac with
  | none => []
  | some ourMac =>
    host.transmit targetMac (.make protoType arpOpReply ourMac host.ourIp targetMac targetIp)

/-- What a host does with a packet, and the frames that it answers with. -/
def handleIncomingWith (protoType : BitVec 16) (host : Host) (payload : Bytes) :
    Host × List Bytes :=
  if payload.length < 28 then (host, [])
  else
    let arp := ArpPacket.ofBytes payload
    if arp.hwType ≠ arpHwEth ∨ arp.protoType ≠ ethertypeIpv4 then (host, [])
    else
      let next := { host with cache := update host.cache arp.senderIp (some arp.senderMac) }
      if arp.opcode = arpOpRequest ∧ arp.targetIp = next.ourIp then
        (next, next.sendReplyWith protoType arp.senderIp arp.senderMac)
      else (next, [])

/-- What a host does with a frame that may hold a packet. -/
def receiveWith (protoType : BitVec 16) (host : Host) (frame : Bytes) : Host × List Bytes :=
  match parse frame with
  | none => (host, [])
  | some (header, offset) =>
    if header.ethertype = ethertypeArp then host.handleIncomingWith protoType (frame.drop offset)
    else (host, [])

/-- The kind of addresses that the kernel writes into its packets. -/
def sentProtoType : BitVec 16 := ethertypeArp

/-- Asking for the hardware address of a host. -/
def sendRequest : Host → Ipv4Addr → List Bytes := sendRequestWith sentProtoType

variable {protoType opcode : BitVec 16} {host a b : Host} {mac dst src macA macB : MacAddr}
  {ip targetIp : Ipv4Addr} {targetMac : MacAddr}

/-- The host behind a packet that it takes. -/
def learn (host : Host) (ip : Ipv4Addr) (mac : MacAddr) : Host :=
  { host with cache := update host.cache ip (some mac) }

@[simp] theorem learn_cache : (host.learn ip mac).cache ip = some mac :=
  update_self _ _ _

theorem receiveWith_make :
    host.receiveWith protoType (build dst src ethertypeArp
      (ArpPacket.make protoType opcode mac ip targetMac targetIp).bytes) =
      if protoType ≠ ethertypeIpv4 then (host, [])
      else if opcode = arpOpRequest ∧ targetIp = host.ourIp then
        (host.learn ip mac, (host.learn ip mac).sendReplyWith protoType ip mac)
      else (host.learn ip mac, []) := by
  have short : (ArpPacket.make protoType opcode mac ip targetMac targetIp).bytes.length ≤ 2034 :=
    Nat.le_of_ble_eq_true rfl
  have enough : ¬ (ArpPacket.make protoType opcode mac ip targetMac targetIp).bytes.length < 28 :=
    Nat.lt_irrefl 28
  rw [receiveWith, parse_build short]
  dsimp only
  rw [if_pos rfl, drop_build short, handleIncomingWith, if_neg enough,
    ArpPacket.ofBytes_bytes]
  by_cases right : protoType = ethertypeIpv4
  · have taken : ¬ ((ArpPacket.make protoType opcode mac ip targetMac targetIp).hwType ≠ arpHwEth ∨
        (ArpPacket.make protoType opcode mac ip targetMac targetIp).protoType ≠ ethertypeIpv4) := by
      rintro (wrong | wrong)
      · exact wrong rfl
      · exact wrong right
    dsimp only
    rw [if_neg taken, if_neg (not_not.mpr right)]
    rfl
  · dsimp only
    rw [if_pos (.inr right), if_pos right]

/--
A host asks for the address of another one, is answered, and knows it afterwards; the other one
has learned its address as well.
-/
def ResolvesWith (protoType : BitVec 16) (a b : Host) : Prop :=
  ∃ request b' reply a', a.sendRequestWith protoType b.ourIp = [request] ∧
    b.receiveWith protoType request = (b', [reply]) ∧ b'.cache a.ourIp = a.mac ∧
    a.receiveWith protoType reply = (a', []) ∧ a'.cache b.ourIp = b.mac

/-- The exchange of two hosts that run this kernel. -/
def Resolves : Host → Host → Prop := ResolvesWith sentProtoType

theorem resolvesWith_iff (hasA : a.mac = some macA) (hasB : b.mac = some macB) :
    ResolvesWith protoType a b ↔ protoType = ethertypeIpv4 := by
  have asked : a.sendRequestWith protoType b.ourIp = [build .broadcast macA ethertypeArp
      (ArpPacket.make protoType arpOpRequest macA a.ourIp ⟨0, 0, 0, 0, 0, 0⟩ b.ourIp).bytes] := by
    rw [sendRequestWith, hasA]
    dsimp only
    rw [transmit, hasA]
  constructor
  · rintro ⟨request, b', reply, a', sent, taken, -⟩
    by_contra wrong
    rw [asked] at sent
    cases sent
    rw [receiveWith_make, if_pos wrong] at taken
    cases taken
  · intro right
    have wrong : ¬ protoType ≠ ethertypeIpv4 := not_not.mpr right
    -- The answer is a packet of the other host, which has learned the address before.
    have answered : (b.learn a.ourIp macA).sendReplyWith protoType a.ourIp macA =
        [build macA macB ethertypeArp
          (ArpPacket.make protoType arpOpReply macB b.ourIp macA a.ourIp).bytes] := by
      have same : (b.learn a.ourIp macA).mac = some macB := hasB
      rw [sendReplyWith, same]
      dsimp only
      rw [transmit, same]
      rfl
    refine ⟨_, b.learn a.ourIp macA, build macA macB ethertypeArp
      (ArpPacket.make protoType arpOpReply macB b.ourIp macA a.ourIp).bytes,
      a.learn b.ourIp macB, asked, ?_, ?_, ?_, ?_⟩
    · rw [receiveWith_make, if_neg wrong, if_pos ⟨rfl, rfl⟩, answered]
    · exact learn_cache.trans hasA.symm
    · rw [receiveWith_make, if_neg wrong, if_neg fun both => absurd both.1 (by decide)]
    · exact learn_cache.trans hasB.symm

end Host

/-- Two hosts, and all frames that were sent between them. -/
structure Network where
  hosts : Bool → Host
  frames : List Bytes

namespace Network

/-- What can happen between two hosts; frames may be lost, come late, and come more than once. -/
inductive Op where
  | request (side : Bool) (target : Ipv4Addr)
  | deliver (side : Bool) (index : Nat)

variable (protoType : BitVec 16)

/-- The two hosts behind one event. -/
def step (network : Network) : Op → Network
  | .request side target =>
    { network with
      frames := network.frames ++ (network.hosts side).sendRequestWith protoType target }
  | .deliver side index =>
    match network.frames[index]? with
    | none => network
    | some frame =>
      let (next, sent) := (network.hosts side).receiveWith protoType frame
      { hosts := update network.hosts side next, frames := network.frames ++ sent }

/-- The two hosts behind a sequence of events. -/
def run (network : Network) (ops : List Op) : Network := ops.foldl (step protoType) network

/-- Every address is mapped as at first, or to the hardware address of the host that has it. -/
def Owned (hosts : Bool → Host) (network : Network) : Prop :=
  ∀ side ip mac, (network.hosts side).cache ip = some mac →
    (hosts side).cache ip = some mac ∨ ∃ owner, (hosts owner).ourIp = ip ∧
      (hosts owner).mac = some mac

/-- Hosts keep their addresses, send frames about themselves, and learn nothing else. -/
structure Honest (hosts : Bool → Host) (network : Network) : Prop where
  address : ∀ side, (network.hosts side).ourIp = (hosts side).ourIp
  hardware : ∀ side, (network.hosts side).mac = (hosts side).mac
  frames : ∀ frame ∈ network.frames, ∃ side mac dst opcode targetMac targetIp,
    (hosts side).mac = some mac ∧ frame = build dst mac ethertypeArp
      (ArpPacket.make protoType opcode mac (hosts side).ourIp targetMac targetIp).bytes
  owned : Owned hosts network

variable {protoType} {hosts : Bool → Host} {network : Network}

variable {side : Bool} {frames : List Bytes}

section

variable (honest : Honest protoType hosts network)

include honest

theorem Honest.own {host : Host} (address : host.ourIp = (hosts side).ourIp)
    (hardware : host.mac = (hosts side).mac)
    (sent : (∃ target, frames = host.sendRequestWith protoType target) ∨ ∃ ip mac, frames =
      host.sendReplyWith protoType ip mac) :
    ∀ frame ∈ network.frames ++ frames, ∃ side mac dst opcode targetMac targetIp,
      (hosts side).mac = some mac ∧ frame = build dst mac ethertypeArp
        (ArpPacket.make protoType opcode mac (hosts side).ourIp targetMac targetIp).bytes := by
  intro frame member
  rcases List.mem_append.mp member with old | new
  · exact honest.frames frame old
  · -- Both kinds of frames are empty without a device, and about its address otherwise.
    cases has : host.mac with
    | none =>
      rcases sent with ⟨target, rfl⟩ | ⟨ip, mac, rfl⟩
      · rw [Host.sendRequestWith, has] at new
        cases new
      · rw [Host.sendReplyWith, has] at new
        cases new
    | some ourMac =>
      rcases sent with ⟨target, rfl⟩ | ⟨ip, mac, rfl⟩
      · rw [Host.sendRequestWith, has] at new
        dsimp only at new
        rw [Host.transmit, has, List.mem_singleton, address] at new
        exact ⟨side, ourMac, _, _, _, _, hardware.symm.trans has, new⟩
      · rw [Host.sendReplyWith, has] at new
        dsimp only at new
        rw [Host.transmit, has, List.mem_singleton, address] at new
        exact ⟨side, ourMac, _, _, _, _, hardware.symm.trans has, new⟩

theorem Honest.learn {sender : Bool} {mac : MacAddr} (has : (hosts sender).mac = some mac)
    (own : ∀ frame ∈ network.frames ++ frames, ∃ side mac dst opcode targetMac targetIp,
      (hosts side).mac = some mac ∧ frame = build dst mac ethertypeArp
        (ArpPacket.make protoType opcode mac (hosts side).ourIp targetMac targetIp).bytes) :
    Honest protoType hosts
      { hosts := update network.hosts side
          ((network.hosts side).learn (hosts sender).ourIp mac),
        frames := network.frames ++ frames } := by
  refine ⟨?_, ?_, own, ?_⟩
  · intro other
    dsimp only
    by_cases same : other = side
    · subst same
      rw [update_self]
      exact honest.address other
    · rw [update_of_ne same]
      exact honest.address other
  · intro other
    dsimp only
    by_cases same : other = side
    · subst same
      rw [update_self]
      exact honest.hardware other
    · rw [update_of_ne same]
      exact honest.hardware other
  · intro other ip found mapped
    dsimp only at mapped
    by_cases same : other = side
    · subst same
      rw [update_self] at mapped
      by_cases learned : ip = (hosts sender).ourIp
      · subst learned
        exact .inr ⟨sender, rfl, has.trans (Host.learn_cache.symm.trans mapped)⟩
      · exact honest.owned other ip found ((update_of_ne learned _ _).symm.trans mapped)
    · rw [update_of_ne same] at mapped
      exact honest.owned other ip found mapped

theorem Honest.step (op : Op) : Honest protoType hosts (network.step protoType op) := by
  cases op with
  | request side target =>
    exact ⟨honest.address, honest.hardware,
      honest.own (honest.address side) (honest.hardware side) (.inl ⟨target, rfl⟩), honest.owned⟩
  | deliver side index =>
    rw [Network.step]
    cases found : network.frames[index]? with
    | none => exact honest
    | some frame =>
      obtain ⟨sender, mac, dst, opcode, targetMac, targetIp, has, rfl⟩ :=
        honest.frames frame (List.mem_of_getElem? found)
      dsimp only
      rw [Host.receiveWith_make]
      by_cases wrong : protoType ≠ ethertypeIpv4
      · -- The frame is dropped, and everything is as before.
        rw [if_pos wrong]
        have same : update network.hosts side (network.hosts side) = network.hosts :=
          update_eq_self side network.hosts
        dsimp only
        rw [same, List.append_nil]
        exact honest
      · rw [if_neg wrong]
        split
        · exact honest.learn has (honest.own (honest.address side) (honest.hardware side)
            (.inr ⟨_, _, rfl⟩))
        · refine honest.learn has ?_
          rw [List.append_nil]
          exact honest.frames

end

end Network

/--
Hosts that run this kernel never resolve each other's addresses, which they would if their packets
were for the kind of addresses that they check; and no host learns what the owner has not sent.
-/
theorem resolves_iff (a b : Host) (macA macB : MacAddr) (protoType : BitVec 16)
    (hosts : Bool → Host) (ops : List Network.Op) :
    (a.mac = some macA → b.mac = some macB → a.ourIp ≠ b.ourIp → macA ≠ macB →
      (a.Resolves b ↔ False) ∧ (a.ResolvesWith protoType b ↔ protoType = ethertypeIpv4)) ∧
    Network.Owned hosts (Network.run protoType ⟨hosts, []⟩ ops) := by
  constructor
  · intro hasA hasB _ _
    refine ⟨?_, Host.resolvesWith_iff hasA hasB⟩
    rw [Host.Resolves, Host.resolvesWith_iff hasA hasB, iff_false]
    decide
  · have kept : ∀ network, Network.Honest protoType hosts network →
        Network.Honest protoType hosts (Network.run protoType network ops) := by
      induction ops with
      | nil => exact fun _ honest => honest
      | cons op ops ih => exact fun _ honest => ih _ (honest.step op)
    exact (kept _ ⟨fun _ => rfl, fun _ => rfl, fun _ member => (by cases member),
      fun _ _ _ mapped => .inl mapped⟩).owned

/-- A host with an address and a device, which knows no other one yet. -/
def Host.fresh (ip : Ipv4Addr) (mac : MacAddr) : Host := ⟨ip, some mac, fun _ => none⟩

/-- Two hosts would know each other if their packets were for the right kind of addresses. -/
theorem fresh_resolvesWith :
    (Host.fresh ⟨10, 0, 0, 1⟩ ⟨2, 0, 0, 0, 0, 1⟩).ResolvesWith ethertypeIpv4
      (Host.fresh ⟨10, 0, 0, 2⟩ ⟨2, 0, 0, 0, 0, 2⟩) :=
  ((resolves_iff _ _ _ _ ethertypeIpv4 (fun _ => ⟨⟨0, 0, 0, 0⟩, none, fun _ => none⟩) []).1
    rfl rfl (by decide) (by decide)).2.mpr rfl

/-- The question of a host is dropped by the other one, so neither of them learns anything. -/
theorem fresh_not_resolves :
    ¬ (Host.fresh ⟨10, 0, 0, 1⟩ ⟨2, 0, 0, 0, 0, 1⟩).Resolves
      (Host.fresh ⟨10, 0, 0, 2⟩ ⟨2, 0, 0, 0, 0, 2⟩) := by
  rw [Host.Resolves, Host.resolvesWith_iff rfl rfl]
  decide

end TheoryKernel.Net
