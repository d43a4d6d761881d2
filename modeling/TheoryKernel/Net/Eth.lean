import TheoryKernel.Net.Addr

/-! The frames of the network, and the buffers they are put into. -/

namespace TheoryKernel.Net

def ethertypeIpv4 : BitVec 16 := 0x0800
def ethertypeArp : BitVec 16 := 0x0806
def ethertypeIpv6 : BitVec 16 := 0x86DD

/-- The length of the header of a frame. -/
def ethHdrLen : Nat := 14

/-- The most bytes that a buffer for packets holds. -/
def maxPacket : Nat := 2048

/-- Bytes are added to a buffer for packets, unless they do not fit. -/
def extendFromSlice (buf data : Bytes) : Bytes :=
  if buf.length + data.length > maxPacket then buf else buf ++ data

/-- The header of a frame. -/
structure EthHeader where
  dst : MacAddr
  src : MacAddr
  ethertype : BitVec 16
  deriving DecidableEq, Repr

namespace EthHeader

/-- The header of a frame, with its length. -/
def parse (buf : Bytes) : Option (EthHeader × Nat) :=
  if buf.length < ethHdrLen then none
  else some (⟨.ofBytes buf 0, .ofBytes buf 6, be16 buf 12⟩, ethHdrLen)

/-- A frame with a payload. -/
def build (dst src : MacAddr) (ethertype : BitVec 16) (payload : Bytes) : Bytes :=
  extendFromSlice (extendFromSlice (extendFromSlice (extendFromSlice [] dst.bytes) src.bytes)
    (toBeBytes16 ethertype)) payload

variable {dst src : MacAddr} {ethertype : BitVec 16} {payload : Bytes}

theorem build_eq (short : payload.length ≤ 2034) :
    build dst src ethertype payload =
      dst.bytes ++ src.bytes ++ toBeBytes16 ethertype ++ payload := by
  have header : extendFromSlice (extendFromSlice (extendFromSlice [] dst.bytes) src.bytes)
      (toBeBytes16 ethertype) = dst.bytes ++ src.bytes ++ toBeBytes16 ethertype := rfl
  have fits : ¬ (dst.bytes ++ src.bytes ++ toBeBytes16 ethertype).length + payload.length >
      maxPacket := by
    change ¬ 14 + payload.length > 2048
    omega
  rw [build, header, extendFromSlice, if_neg fits]

/-- The header of a frame is read as it was written. -/
theorem parse_build (short : payload.length ≤ 2034) :
    parse (build dst src ethertype payload) = some (⟨dst, src, ethertype⟩, 14) := by
  have enough : ¬ (dst.bytes ++ src.bytes ++ toBeBytes16 ethertype ++ payload).length < ethHdrLen := by
    rw [List.length_append]
    exact Nat.not_lt.mpr (Nat.le_add_right 14 _)
  have target : MacAddr.ofBytes (dst.bytes ++ src.bytes ++ toBeBytes16 ethertype ++ payload) 0 =
      dst := rfl
  have source : MacAddr.ofBytes (dst.bytes ++ src.bytes ++ toBeBytes16 ethertype ++ payload) 6 =
      src := rfl
  have kind : be16 (dst.bytes ++ src.bytes ++ toBeBytes16 ethertype ++ payload) 12 = ethertype :=
    be16_written (dst.bytes ++ src.bytes) payload ethertype
  rw [build_eq short, parse, if_neg enough, target, source, kind]
  rfl

/-- The payload of a frame is what was put into it. -/
theorem drop_build (short : payload.length ≤ 2034) :
    (build dst src ethertype payload).drop 14 = payload := by
  rw [build_eq short]
  exact List.drop_left' rfl

end EthHeader

end TheoryKernel.Net
