import TheoryKernel.Net.Ipv4

/-! The segments of a connection, as they are built, sent and read. -/

namespace TheoryKernel.Net.Tcp

def tcpFin : BitVec 8 := 0x01
def tcpSyn : BitVec 8 := 0x02
def tcpRst : BitVec 8 := 0x04
def tcpPsh : BitVec 8 := 0x08
def tcpAck : BitVec 8 := 0x10

/-- The states of a connection. -/
inductive TcpState where
  | closed
  | listen
  | synSent
  | synReceived
  | established
  | finWait1
  | finWait2
  | closeWait
  | closing
  | lastAck
  | timeWait
  deriving DecidableEq, Repr

/-- What is known about a connection. -/
structure TcpControlBlock where
  localPort : BitVec 16
  remote : IpAddr
  remotePort : BitVec 16
  state : TcpState
  iss : BitVec 32
  sndUna : BitVec 32
  sndNxt : BitVec 32
  rcvNxt : BitVec 32
  sndWnd : BitVec 32
  rcvWnd : BitVec 32
  mss : BitVec 32
  cwnd : BitVec 32
  ssthresh : BitVec 32
  wMax : BitVec 32
  rttMs : BitVec 32
  rtoMs : BitVec 32
  retransmitAt : BitVec 64
  rxQueue : List Bytes
  txBuffer : Bytes
  txSent : BitVec 32
  listenBacklog : BitVec 32
  deriving DecidableEq, Repr

namespace TcpControlBlock

/-- The window that a connection starts with. -/
def initWindow (tcb : TcpControlBlock) : TcpControlBlock :=
  let mss : BitVec 32 := 1460
  { tcb with mss := mss, cwnd := 2 * mss, ssthresh := 65535, wMax := 2 * mss }

/-- A connection of a port with nobody yet. -/
def new (localPort : BitVec 16) : TcpControlBlock :=
  initWindow {
    localPort := localPort
    remote := .v4 .any
    remotePort := 0
    state := .closed
    iss := 0x12345678
    sndUna := 0
    sndNxt := 0
    rcvNxt := 0
    sndWnd := 65535
    rcvWnd := 65535
    mss := 1460
    cwnd := 2920
    ssthresh := 65535
    wMax := 2920
    rttMs := 100
    rtoMs := 1000
    retransmitAt := 0
    rxQueue := []
    txBuffer := []
    txSent := 0
    listenBacklog := 8 }

end TcpControlBlock

/-- A segment that is about to be sent. -/
structure TcpSegment where
  header : Bytes
  options : Bytes
  payload : Bytes
  deriving DecidableEq, Repr

/-- The option of the first segment of either side, which says how large segments may be. -/
def mssOption : Bytes := [2, 4, 5, 0xB4]

/-- A segment with some bytes for its window. -/
def buildSegmentWith (window : Bytes) (tcb : TcpControlBlock) (flags : BitVec 8)
    (seq ack : BitVec 32) (payload : Bytes) : Exec TcpSegment := do
  let header : Bytes := List.replicate 20 0
  let header ← copyFromSlice header 0 2 (toBeBytes16 tcb.localPort)
  let header ← copyFromSlice header 2 4 (toBeBytes16 tcb.remotePort)
  let header ← copyFromSlice header 4 8 (toBeBytes32 seq)
  let header ← copyFromSlice header 8 12 (toBeBytes32 ack)
  let header ← setAt header 12 0x50
  let header ← setAt header 13 flags
  let header ← copyFromSlice header 14 16 window
  .ok { header := header, options := [], payload := payload }

/-- A segment of a connection, whose window has four bytes. -/
def buildSegment (tcb : TcpControlBlock) (flags : BitVec 8) (seq ack : BitVec 32)
    (payload : Bytes) : Exec TcpSegment :=
  buildSegmentWith (toBeBytes32 tcb.rcvWnd) tcb flags seq ack payload

/-- The part of the address header that is added up with a segment. -/
def pseudoHeader (ourIp : Ipv4Addr) (remote : IpAddr) (length : Nat) : Bytes :=
  match remote with
  | .v4 ip =>
    ourIp.bytes ++ ip.bytes ++ [0, ipProtoTcp] ++ toBeBytes16 (BitVec.ofNat 16 length)
  | .v6 _ => List.replicate 12 0

/-- The bytes of a segment, with their checksum. -/
def serialize (ourIp : Ipv4Addr) (tcb : TcpControlBlock) (seg : TcpSegment) : Exec Bytes :=
  let buf := seg.header ++ seg.options ++ seg.payload
  copyFromSlice buf 16 18
    (toBeBytes16 (checksum (pseudoHeader ourIp tcb.remote buf.length ++ buf)))

/-- What is read of a segment that arrives. -/
structure Incoming where
  srcPort : BitVec 16
  dstPort : BitVec 16
  seq : BitVec 32
  ack : BitVec 32
  flags : BitVec 8
  payload : Bytes
  deriving DecidableEq, Repr

/-- Reading a segment that arrives, unless it is too short. -/
def Incoming.parse (data : Bytes) : Option Incoming :=
  if data.length < 20 then none
  else
    let hdrLen := (byte data 12 >>> 4).toNat * 4
    if data.length < hdrLen then none
    else
      some {
        srcPort := be16 data 0
        dstPort := be16 data 2
        seq := be32 data 4
        ack := be32 data 8
        flags := byte data 13
        payload := data.drop hdrLen }

section RoundTrip

variable {window options payload : Bytes} {tcb : TcpControlBlock} {flags : BitVec 8}
  {seq ack : BitVec 32} {ourIp : Ipv4Addr}

/-- A segment with options is built, sent and read as what it was built from. -/
def RoundTripsWith (window : Bytes) (ourIp : Ipv4Addr) (tcb : TcpControlBlock) (flags : BitVec 8)
    (seq ack : BitVec 32) (options payload : Bytes) : Prop :=
  ∃ seg data, buildSegmentWith window tcb flags seq ack payload = .ok seg ∧
    serialize ourIp tcb { seg with options := seg.options ++ options } = .ok data ∧
    Incoming.parse data = some {
      srcPort := tcb.localPort
      dstPort := tcb.remotePort
      seq := seq
      ack := ack
      flags := flags
      payload := payload }

/-- A segment with options is built by the kernel, sent and read as what it was built from. -/
def RoundTrips (ourIp : Ipv4Addr) (tcb : TcpControlBlock) (flags : BitVec 8)
    (seq ack : BitVec 32) (options payload : Bytes) : Prop :=
  RoundTripsWith (toBeBytes32 tcb.rcvWnd) ourIp tcb flags seq ack options payload

/-- The fields of a header in front of its window. -/
def fields (tcb : TcpControlBlock) (flags : BitVec 8) (seq ack : BitVec 32) : Bytes :=
  toBeBytes16 tcb.localPort ++ toBeBytes16 tcb.remotePort ++ toBeBytes32 seq ++ toBeBytes32 ack ++
    [0x50] ++ [flags]

/-- A window of two bytes, and no other one, fits into the header. -/
theorem buildSegmentWith_eq :
    buildSegmentWith window tcb flags seq ack payload =
      if window.length = 2 then
        .ok ⟨fields tcb flags seq ack ++ window ++ [0, 0, 0, 0], [], payload⟩
      else .error .lengthMismatch := by
  -- The header is written from its first byte up to the window.
  obtain ⟨_, run0, filled⟩ := (Filled.nothing (List.replicate 20 (0 : BitVec 8))).copyFromSlice 0 2
    (toBeBytes16 tcb.localPort) rfl rfl (by decide)
  obtain ⟨_, run2, filled⟩ := filled.copyFromSlice 2 4 (toBeBytes16 tcb.remotePort) rfl rfl
    (by decide)
  obtain ⟨_, run4, filled⟩ := filled.copyFromSlice 4 8 (toBeBytes32 seq) rfl rfl (by decide)
  obtain ⟨_, run8, filled⟩ := filled.copyFromSlice 8 12 (toBeBytes32 ack) rfl rfl (by decide)
  obtain ⟨_, run12, filled⟩ := filled.setAt 12 0x50 rfl (by decide)
  obtain ⟨final, run13, filled⟩ := filled.setAt 13 flags rfl (by decide)
  have written : final = fields tcb flags seq ack ++ [0, 0] ++ [0, 0, 0, 0] := filled
  rw [buildSegmentWith]
  simp only [run0, run2, run4, run8, run12, run13, Exec.ok_bind]
  by_cases two : window.length = 2
  · -- The window takes the place of two blank bytes.
    rw [if_pos two, written,
      copyFromSlice_replace (show (fields tcb flags seq ack).length = 14 from rfl)
        (show 14 + window.length = 16 by omega) (show [0, 0].length = window.length from two.symm),
      Exec.ok_bind]
  · have inside : 14 ≤ 16 ∧ 16 ≤ final.length := by
      rw [written]
      exact ⟨by decide, Nat.le_of_ble_eq_true rfl⟩
    rw [if_neg two, copyFromSlice, if_pos inside, if_neg two]
    rfl

/-- A segment with its checksum. -/
theorem serialize_eq (two : window.length = 2) :
    ∃ csum, serialize ourIp tcb
      ⟨fields tcb flags seq ack ++ window ++ [0, 0, 0, 0], options, payload⟩ =
        .ok (fields tcb flags seq ack ++ window ++ toBeBytes16 csum ++
          ([0, 0] ++ options ++ payload)) := by
  have shape : fields tcb flags seq ack ++ window ++ [0, 0, 0, 0] ++ options ++ payload =
      fields tcb flags seq ack ++ window ++ [0, 0] ++ ([0, 0] ++ options ++ payload) := by
    simp only [List.append_assoc, List.cons_append, List.nil_append]
  have before : (fields tcb flags seq ack ++ window).length = 16 := by
    rw [List.length_append, two]
    rfl
  unfold serialize
  dsimp only
  rw [shape]
  exact ⟨_, copyFromSlice_replace before rfl rfl⟩

theorem parse_serialize (two : window.length = 2) :
    ∃ data, serialize ourIp tcb
      ⟨fields tcb flags seq ack ++ window ++ [0, 0, 0, 0], options, payload⟩ = .ok data ∧
      Incoming.parse data = some {
        srcPort := tcb.localPort
        dstPort := tcb.remotePort
        seq := seq
        ack := ack
        flags := flags
        payload := options ++ payload } := by
  obtain ⟨csum, sent⟩ := @serialize_eq window options payload tcb flags seq ack ourIp two
  have shape : fields tcb flags seq ack ++ window ++ toBeBytes16 csum ++
      ([0, 0] ++ options ++ payload) =
        fields tcb flags seq ack ++ (window ++ toBeBytes16 csum ++ [0, 0]) ++
          (options ++ payload) := by
    simp only [List.append_assoc]
  refine ⟨_, sent, ?_⟩
  rw [shape]
  have length : (window ++ toBeBytes16 csum ++ [0, 0]).length = 6 := by
    rw [List.length_append, List.length_append, two]
    rfl
  generalize window ++ toBeBytes16 csum ++ [0, 0] = behind at length
  generalize options ++ payload = rest
  have header : (fields tcb flags seq ack ++ behind).length = 20 := by
    rw [List.length_append, length]
    rfl
  have enough : ¬ (fields tcb flags seq ack ++ behind ++ rest).length < 20 := by
    rw [List.length_append, header]
    omega
  have offset : byte (fields tcb flags seq ack ++ behind ++ rest) 12 = 0x50 := rfl
  have twenty : ((0x50 : BitVec 8) >>> 4).toNat * 4 = 20 := by decide
  have behindHeader : (fields tcb flags seq ack ++ behind ++ rest).drop 20 = rest :=
    List.drop_left' header
  have flag : byte (fields tcb flags seq ack ++ behind ++ rest) 13 = flags := rfl
  have source : be16 (fields tcb flags seq ack ++ behind ++ rest) 0 = tcb.localPort :=
    be16_written [] _ tcb.localPort
  have target : be16 (fields tcb flags seq ack ++ behind ++ rest) 2 = tcb.remotePort :=
    be16_written (toBeBytes16 tcb.localPort) _ tcb.remotePort
  have number : be32 (fields tcb flags seq ack ++ behind ++ rest) 4 = seq :=
    be32_written (toBeBytes16 tcb.localPort ++ toBeBytes16 tcb.remotePort) _ seq
  have answer : be32 (fields tcb flags seq ack ++ behind ++ rest) 8 = ack :=
    be32_written (toBeBytes16 tcb.localPort ++ toBeBytes16 tcb.remotePort ++ toBeBytes32 seq) _ ack
  unfold Incoming.parse
  rw [if_neg enough, offset]
  simp only [twenty]
  rw [if_neg enough, behindHeader, flag, source, target, number, answer]

theorem roundTripsWith_iff :
    RoundTripsWith window ourIp tcb flags seq ack options payload ↔
      window.length = 2 ∧ options = [] := by
  unfold RoundTripsWith
  rw [buildSegmentWith_eq]
  by_cases two : window.length = 2
  · rw [if_pos two]
    obtain ⟨data, sent, read⟩ := @parse_serialize window options payload tcb flags seq ack ourIp two
    constructor
    · -- The options are read as a part of the payload.
      rintro ⟨seg, other, built, again, same⟩
      cases built
      cases sent.symm.trans again
      rw [read, Option.some.injEq, Incoming.mk.injEq] at same
      exact ⟨two, List.append_left_eq_self.mp same.2.2.2.2.2⟩
    · rintro ⟨-, rfl⟩
      exact ⟨_, data, rfl, sent, read⟩
  · rw [if_neg two]
    constructor
    · rintro ⟨seg, data, built, -⟩
      cases built
    · intro both
      exact absurd both.1 two

/--
No segment of the kernel is read back, and segments with a window of two bytes are exactly if
they have no options.
-/
theorem segment_roundTrips_iff (ourIp : Ipv4Addr) (tcb : TcpControlBlock) (flags : BitVec 8)
    (seq ack : BitVec 32) (options payload : Bytes) :
    (RoundTrips ourIp tcb flags seq ack options payload ↔ False) ∧
    ∀ window, RoundTripsWith window ourIp tcb flags seq ack options payload ↔
      window.length = 2 ∧ options = [] := by
  refine ⟨?_, fun window => roundTripsWith_iff⟩
  rw [RoundTrips, roundTripsWith_iff, iff_false]
  rintro ⟨two, -⟩
  cases two

/-- The acknowledgement of a new connection is not even built. -/
theorem buildSegment_mismatch :
    buildSegment (.new 80) tcpAck 1 1 [] = .error .lengthMismatch ∧
      ¬ RoundTrips .any (.new 80) tcpAck 1 1 [] [] := by
  refine ⟨by decide, ?_⟩
  rintro ⟨seg, data, built, -⟩
  cases built

end RoundTrip

end TheoryKernel.Net.Tcp
