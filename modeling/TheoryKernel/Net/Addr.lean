import TheoryKernel.Base.Slice

/-! Addresses of the network, and numbers in the order of their bytes on it. -/

namespace TheoryKernel.Net

/-- A byte of a packet that is known to be long enough. -/
def byte (data : Bytes) (index : Nat) : BitVec 8 := data.getD index 0

/-- The bytes of a number of 16 bits, the most significant one first. -/
def toBeBytes16 (number : BitVec 16) : Bytes := [number.extractLsb' 8 8, number.extractLsb' 0 8]

/-- The bytes of a number of 32 bits, the most significant one first. -/
def toBeBytes32 (number : BitVec 32) : Bytes :=
  [number.extractLsb' 24 8, number.extractLsb' 16 8, number.extractLsb' 8 8, number.extractLsb' 0 8]

/-- The number of 16 bits at a place of a packet. -/
def be16 (data : Bytes) (index : Nat) : BitVec 16 := byte data index ++ byte data (index + 1)

/-- The number of 32 bits at a place of a packet. -/
def be32 (data : Bytes) (index : Nat) : BitVec 32 := be16 data index ++ be16 data (index + 2)

/-- The hardware address of a device. -/
structure MacAddr where
  o0 : BitVec 8
  o1 : BitVec 8
  o2 : BitVec 8
  o3 : BitVec 8
  o4 : BitVec 8
  o5 : BitVec 8
  deriving DecidableEq, Repr

namespace MacAddr

/-- The address that all devices listen to. -/
def broadcast : MacAddr := ⟨0xFF, 0xFF, 0xFF, 0xFF, 0xFF, 0xFF⟩

/-- The bytes of an address, as they are sent. -/
def bytes (addr : MacAddr) : Bytes := [addr.o0, addr.o1, addr.o2, addr.o3, addr.o4, addr.o5]

/-- The address at a place of a packet. -/
def ofBytes (data : Bytes) (index : Nat) : MacAddr where
  o0 := byte data index
  o1 := byte data (index + 1)
  o2 := byte data (index + 2)
  o3 := byte data (index + 3)
  o4 := byte data (index + 4)
  o5 := byte data (index + 5)

end MacAddr

/-- The address of a host. -/
structure Ipv4Addr where
  o0 : BitVec 8
  o1 : BitVec 8
  o2 : BitVec 8
  o3 : BitVec 8
  deriving DecidableEq, Repr

namespace Ipv4Addr

/-- The address of a host that has none yet. -/
def any : Ipv4Addr := ⟨0, 0, 0, 0⟩

/-- The address that all hosts listen to. -/
def broadcast : Ipv4Addr := ⟨255, 255, 255, 255⟩

/-- The bytes of an address, as they are sent. -/
def bytes (addr : Ipv4Addr) : Bytes := [addr.o0, addr.o1, addr.o2, addr.o3]

/-- The address at a place of a packet. -/
def ofBytes (data : Bytes) (index : Nat) : Ipv4Addr where
  o0 := byte data index
  o1 := byte data (index + 1)
  o2 := byte data (index + 2)
  o3 := byte data (index + 3)

end Ipv4Addr

/-- An address of either version; those of the newer one are never looked into. -/
inductive IpAddr where
  | v4 (addr : Ipv4Addr)
  | v6 (bytes : Bytes)
  deriving DecidableEq, Repr

section Words

variable {number : BitVec 16} {wide : BitVec 32} {before after : Bytes}

@[simp] theorem toBeBytes16_length : (toBeBytes16 number).length = 2 := rfl
@[simp] theorem Ipv4Addr.bytes_length (addr : Ipv4Addr) : addr.bytes.length = 4 := rfl
@[simp] theorem MacAddr.bytes_length (addr : MacAddr) : addr.bytes.length = 6 := rfl

theorem byte_append (offset : Nat) :
    byte (before ++ after) (before.length + offset) = byte after offset := by
  unfold byte
  rw [List.getD_eq_getElem?_getD, List.getD_eq_getElem?_getD,
    List.getElem?_append_right (Nat.le_add_right _ _), Nat.add_sub_cancel_left]

theorem be16_append (offset : Nat) :
    be16 (before ++ after) (before.length + offset) = be16 after offset := by
  rw [be16, be16, byte_append, Nat.add_assoc, byte_append]

theorem be32_append (offset : Nat) :
    be32 (before ++ after) (before.length + offset) = be32 after offset := by
  rw [be32, be32, be16_append, Nat.add_assoc, be16_append]

theorem be16_toBeBytes16 : be16 (toBeBytes16 number ++ after) 0 = number := by
  have whole : number.extractLsb' 8 8 ++ number.extractLsb' 0 8 = number.extractLsb' 0 16 :=
    BitVec.extractLsb'_append_extractLsb'_eq_extractLsb' (show 8 = 0 + 8 from rfl)
  exact whole.trans BitVec.extractLsb'_eq_self

/-- A number between other bytes is read as it was written. -/
theorem be16_written (before after : Bytes) (number : BitVec 16) :
    be16 (before ++ toBeBytes16 number ++ after) before.length = number := by
  rw [List.append_assoc]
  exact (be16_append 0).trans be16_toBeBytes16

theorem be32_toBeBytes32 : be32 (toBeBytes32 wide ++ after) 0 = wide := by
  -- The upper and the lower half are put together first.
  have upper : wide.extractLsb' 24 8 ++ wide.extractLsb' 16 8 = wide.extractLsb' 16 16 :=
    BitVec.extractLsb'_append_extractLsb'_eq_extractLsb' (show 24 = 16 + 8 from rfl)
  have lower : wide.extractLsb' 8 8 ++ wide.extractLsb' 0 8 = wide.extractLsb' 0 16 :=
    BitVec.extractLsb'_append_extractLsb'_eq_extractLsb' (show 8 = 0 + 8 from rfl)
  have whole : wide.extractLsb' 16 16 ++ wide.extractLsb' 0 16 = wide.extractLsb' 0 32 :=
    BitVec.extractLsb'_append_extractLsb'_eq_extractLsb' (show 16 = 0 + 16 from rfl)
  change (wide.extractLsb' 24 8 ++ wide.extractLsb' 16 8) ++
    (wide.extractLsb' 8 8 ++ wide.extractLsb' 0 8) = wide
  rw [upper, lower, whole, BitVec.extractLsb'_eq_self]

/-- A number between other bytes is read as it was written. -/
theorem be32_written (before after : Bytes) (wide : BitVec 32) :
    be32 (before ++ toBeBytes32 wide ++ after) before.length = wide := by
  rw [List.append_assoc]
  exact (be32_append 0).trans be32_toBeBytes32

end Words

end TheoryKernel.Net
