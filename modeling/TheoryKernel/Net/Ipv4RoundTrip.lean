import Mathlib.Tactic.Ring
import TheoryKernel.Net.Ipv4

/-! Which of the headers that are built can be parsed, and which parsed ones are valid. -/

namespace TheoryKernel.Net.Ipv4Header

open OnesComplement Exec

variable {src dst : Ipv4Addr} {protocol : BitVec 8} {payload out data : Bytes}

/-- The bytes of a header without options. -/
def bytes (src dst : Ipv4Addr) (protocol : BitVec 8) (total csum : BitVec 16) : Bytes :=
  [0x45, 0] ++ toBeBytes16 total ++ [0, 0] ++ [0x40, 0, 64, protocol] ++ toBeBytes16 csum ++
    src.bytes ++ dst.bytes

/-- The bytes of a header with its checksum. -/
def checked (src dst : Ipv4Addr) (protocol : BitVec 8) (total : BitVec 16) : Bytes :=
  bytes src dst protocol total (checksum (bytes src dst protocol total 0))

theorem setChecksum (total csum : BitVec 16) (rest : Bytes) :
    copyFromSlice (bytes src dst protocol total 0 ++ rest) 10 12 (toBeBytes16 csum) =
      .ok (bytes src dst protocol total csum ++ rest) := by
  -- The ten bytes before the field and those behind it stay.
  show copyFromSlice (([0x45, 0] ++ toBeBytes16 total ++ [0, 0] ++ [0x40, 0, 64, protocol]) ++
      [0, 0] ++ (src.bytes ++ dst.bytes ++ rest)) 10 12 (toBeBytes16 csum) =
    .ok (([0x45, 0] ++ toBeBytes16 total ++ [0, 0] ++ [0x40, 0, 64, protocol]) ++
      toBeBytes16 csum ++ (src.bytes ++ dst.bytes ++ rest))
  exact copyFromSlice_replace rfl rfl rfl

theorem build_run (fits : 20 ≤ out.length) :
    build src dst protocol payload out =
      (copyFromSlice
        (checked src dst protocol (BitVec.ofNat 16 (20 + payload.length)) ++ out.drop 20)
        20 (20 + payload.length) payload >>= fun written => .ok (20 + payload.length, written)) := by
  -- The header is written from its first byte to its last one, and then its checksum again.
  obtain ⟨_, run0, filled⟩ := (Filled.nothing out).setAt 0 0x45 rfl (by omega)
  obtain ⟨_, run1, filled⟩ := filled.setAt 1 0 rfl (by omega)
  obtain ⟨_, run2, filled⟩ := filled.copyFromSlice 2 4
    (toBeBytes16 (BitVec.ofNat 16 (20 + payload.length))) rfl rfl (by omega)
  obtain ⟨_, run4, filled⟩ := filled.copyFromSlice 4 6 [0, 0] rfl rfl (by omega)
  obtain ⟨_, run6, filled⟩ := filled.setAt 6 0x40 rfl (by omega)
  obtain ⟨_, run7, filled⟩ := filled.setAt 7 0 rfl (by omega)
  obtain ⟨_, run8, filled⟩ := filled.setAt 8 64 rfl (by omega)
  obtain ⟨_, run9, filled⟩ := filled.setAt 9 protocol rfl (by omega)
  obtain ⟨_, run10, filled⟩ := filled.setAt 10 0 rfl (by omega)
  obtain ⟨_, run11, filled⟩ := filled.setAt 11 0 rfl (by omega)
  obtain ⟨_, run12, filled⟩ := filled.copyFromSlice 12 16 src.bytes rfl rfl (by omega)
  obtain ⟨final, run16, filled⟩ := filled.copyFromSlice 16 20 dst.bytes rfl rfl (by omega)
  generalize total_eq : BitVec.ofNat 16 (20 + payload.length) = total at *
  have blank : final = bytes src dst protocol total 0 ++ out.drop 20 := filled
  have header : slice final 0 20 = .ok (bytes src dst protocol total 0) := by
    rw [slice_zero (by rw [blank, List.length_append]; exact Nat.le_add_right _ _), blank]
    exact congrArg Except.ok (List.take_left' rfl)
  unfold build
  dsimp only
  rw [total_eq]
  refine (bind_of_ok run0).trans ?_
  refine (bind_of_ok run1).trans ?_
  refine (bind_of_ok run2).trans ?_
  refine (bind_of_ok run4).trans ?_
  refine (bind_of_ok run6).trans ?_
  refine (bind_of_ok run7).trans ?_
  refine (bind_of_ok run8).trans ?_
  refine (bind_of_ok run9).trans ?_
  refine (bind_of_ok run10).trans ?_
  refine (bind_of_ok run11).trans ?_
  refine (bind_of_ok run12).trans ?_
  refine (bind_of_ok run16).trans ?_
  refine (bind_of_ok header).trans ?_
  rw [blank]
  exact bind_of_ok (setChecksum total _ _)

/-- A buffer that is large enough holds the header and the payload afterwards. -/
theorem build_eq (room : 20 + payload.length ≤ out.length) :
    build src dst protocol payload out = .ok (20 + payload.length,
      checked src dst protocol (BitVec.ofNat 16 (20 + payload.length)) ++ payload ++
        out.drop (20 + payload.length)) := by
  have ready : Filled out (checked src dst protocol (BitVec.ofNat 16 (20 + payload.length)))
      (checked src dst protocol (BitVec.ofNat 16 (20 + payload.length)) ++ out.drop 20) := rfl
  obtain ⟨_, copied, filled⟩ := ready.copyFromSlice 20 (20 + payload.length) payload rfl rfl room
  rw [build_run (by omega), copied, ok_bind, filled, List.length_append]
  rfl

/-- A payload that does not fit into the buffer is not copied. -/
theorem build_error (fits : 20 ≤ out.length) (long : out.length < 20 + payload.length) :
    build src dst protocol payload out = .error .sliceOutOfRange := by
  have outside : ¬ (20 ≤ 20 + payload.length ∧ 20 + payload.length ≤
      (checked src dst protocol (BitVec.ofNat 16 (20 + payload.length)) ++ out.drop 20).length) := by
    rw [List.length_append, List.length_drop]
    change ¬ (20 ≤ 20 + payload.length ∧ 20 + payload.length ≤ 20 + (out.length - 20))
    omega
  rw [build_run fits, copyFromSlice, if_neg outside]
  rfl

/-- The sum of the words of a header whose checksum is blank. -/
def headerSum (src dst : Ipv4Addr) (protocol : BitVec 8) (total : Nat) : Nat :=
  0x4500 + total + 0x4000 + (0x4000 + protocol.toNat) +
    (src.o0.toNat * 2 ^ 8 + src.o1.toNat) + (src.o2.toNat * 2 ^ 8 + src.o3.toNat) +
    (dst.o0.toNat * 2 ^ 8 + dst.o1.toNat) + (dst.o2.toNat * 2 ^ 8 + dst.o3.toNat)

theorem wordSum_bytes (total csum : BitVec 16) :
    wordSum (bytes src dst protocol total csum) =
      headerSum src dst protocol total.toNat + csum.toNat := by
  have length := wordSum_toBeBytes16 total
  have field := wordSum_toBeBytes16 csum
  unfold toBeBytes16 at length field
  simp only [wordSum] at length field
  simp only [bytes, toBeBytes16, Ipv4Addr.bytes, List.cons_append, List.nil_append, wordSum,
    headerSum, BitVec.reduceToNat]
  rw [← length, ← field]
  ring

theorem wordSum_bytes_lt (total csum : BitVec 16) :
    wordSum (bytes src dst protocol total csum) < 2 ^ 32 := by
  have bound : 2 * wordSum (bytes src dst protocol total csum) ≤ 65535 * (20 + 1) := wordSum_le
  omega

theorem checksum_checked (total : BitVec 16) :
    checksum (checked src dst protocol total) = 0 := by
  -- The field is behind the first ten bytes, and blank while the checksum is computed.
  have filled : checksum (([0x45, 0] ++ toBeBytes16 total ++ [0, 0] ++ [0x40, 0, 64, protocol]) ++
      _ ++ (src.bytes ++ dst.bytes)) = 0 :=
    checksum_filled (by simp) (by simp [Ipv4Addr.bytes])
  exact filled

/-- The field of a packet in which the checksum is. -/
def checksumField (data : Bytes) : BitVec 16 := be16 data 10

/-- The words of a header, its checksum included, add up to all ones. -/
def Valid (header : Bytes) : Prop := checksum header = 0

/-- What was built is parsed as the header that it was built from. -/
def RoundTrips (src dst : Ipv4Addr) (protocol : BitVec 8) (payload out : Bytes) : Prop :=
  ∃ total written, build src dst protocol payload out = .ok (total, written) ∧
    parse (written.take total) = some ({
      src := src
      dst := dst
      protocol := protocol
      ttl := 64
      totalLen := 20 + payload.length
      headerLen := 20 }, 20)

theorem parse_bytes (total csum : BitVec 16) :
    parse (bytes src dst protocol total csum ++ payload) =
      if csum ≠ 0 ∧ checksum (bytes src dst protocol total csum) ≠ csum then none
      else some ({
        src := src
        dst := dst
        protocol := protocol
        ttl := 64
        totalLen := total.toNat
        headerLen := 20 }, 20) := by
  have enough : 20 ≤ (bytes src dst protocol total csum ++ payload).length := by
    rw [List.length_append]
    exact Nat.le_add_right _ _
  have header : (bytes src dst protocol total csum ++ payload).take 20 =
      bytes src dst protocol total csum := List.take_left' rfl
  have field : be16 (bytes src dst protocol total csum ++ payload) 10 = csum := by
    have shape : bytes src dst protocol total csum ++ payload =
        ([0x45, 0] ++ toBeBytes16 total ++ [0, 0] ++ [0x40, 0, 64, protocol]) ++
          toBeBytes16 csum ++ (src.bytes ++ dst.bytes ++ payload) := rfl
    rw [shape]
    exact be16_written _ _ csum
  have length : be16 (bytes src dst protocol total csum ++ payload) 2 = total := by
    have shape : bytes src dst protocol total csum ++ payload =
        [0x45, 0] ++ toBeBytes16 total ++ ([0, 0] ++ [0x40, 0, 64, protocol] ++
          toBeBytes16 csum ++ src.bytes ++ dst.bytes ++ payload) := rfl
    rw [shape]
    exact be16_written [0x45, 0] _ total
  have first : byte (bytes src dst protocol total csum ++ payload) 0 = 0x45 := rfl
  have version : ¬ ((0x45 : BitVec 8) >>> 4 ≠ 4) := by decide
  have ihl : ((0x45 : BitVec 8) &&& 0x0F).toNat * 4 = 20 := by decide
  unfold parse
  rw [if_neg (Nat.not_lt.mpr enough), first, if_neg version]
  simp only [ihl]
  rw [if_neg (Nat.not_lt.mpr enough), header, field, length]
  rfl

theorem roundTrips_of_room (small : payload.length ≤ 65515)
    (room : 20 + payload.length ≤ out.length) :
    RoundTrips src dst protocol payload out ↔
      headerSum src dst protocol (20 + payload.length) % 65535 = 0 := by
  have total : (BitVec.ofNat 16 (20 + payload.length)).toNat = 20 + payload.length := by
    rw [BitVec.toNat_ofNat]
    exact Nat.mod_eq_of_lt (by omega)
  have whole : (checked src dst protocol (BitVec.ofNat 16 (20 + payload.length)) ++ payload ++
      out.drop (20 + payload.length)).take (20 + payload.length) =
        checked src dst protocol (BitVec.ofNat 16 (20 + payload.length)) ++ payload :=
    List.take_left' (List.length_append)
  -- The checksum of the header without its field is what decides.
  have vanishes : checksum (bytes src dst protocol (BitVec.ofNat 16 (20 + payload.length)) 0) = 0 ↔
      headerSum src dst protocol (20 + payload.length) % 65535 = 0 := by
    rw [checksum_eq_zero (wordSum_bytes_lt _ _), wordSum_bytes, total]
    change headerSum src dst protocol (20 + payload.length) + 0 ≠ 0 ∧
      (headerSum src dst protocol (20 + payload.length) + 0) % 65535 = 0 ↔ _
    have positive : 0x4500 ≤ headerSum src dst protocol (20 + payload.length) := by
      unfold headerSum
      omega
    omega
  rw [← vanishes]
  constructor
  · rintro ⟨number, written, run, parsed⟩
    rw [build_eq room] at run
    cases run
    rw [whole, checked, parse_bytes] at parsed
    split at parsed
    · cases parsed
    · rename_i accepted
      by_contra nonzero
      refine accepted ⟨nonzero, ?_⟩
      rw [← checked, checksum_checked]
      exact Ne.symm nonzero
  · intro zero
    refine ⟨_, _, build_eq room, ?_⟩
    rw [whole, checked, parse_bytes, if_neg fun refused => refused.1 zero, total]

/--
Packets are read back only if the sum of their header needs no checksum, and what is read with
a checksum is never valid.
-/
theorem roundTrips_iff (src dst : Ipv4Addr) (protocol : BitVec 8) (payload out data : Bytes)
    (header : Ipv4Header) (length : Nat) :
    (payload.length ≤ 65515 → 20 + payload.length ≤ out.length →
      (RoundTrips src dst protocol payload out ↔
        headerSum src dst protocol (20 + payload.length) % 65535 = 0)) ∧
    (parse data = some (header, length) →
      ((checksumField data ≠ 0 → Valid (data.take length)) ↔ checksumField data = 0)) := by
  refine ⟨roundTrips_of_room, fun parsed => ⟨fun valid => ?_, absurd⟩⟩
  by_contra nonzero
  -- The checksum of the header is the field itself, and not zero.
  have same : checksum (data.take length) = checksumField data := by
    unfold parse at parsed
    split at parsed
    · cases parsed
    · split at parsed
      · cases parsed
      · dsimp only at parsed
        split at parsed
        · cases parsed
        · split at parsed
          · cases parsed
          · rename_i accepted
            cases parsed
            by_contra differ
            exact accepted ⟨nonzero, differ⟩
  exact nonzero (same.symm.trans (valid nonzero))

/-- The words of this header add up to all ones without a checksum, so it is read back. -/
theorem roundTrips_multiple :
    RoundTrips ⟨10, 0, 0, 1⟩ ⟨10, 0, 38, 217⟩ 17 [] (List.replicate 20 0) :=
  ((roundTrips_iff _ _ _ _ _ [] ⟨⟨0, 0, 0, 0⟩, ⟨0, 0, 0, 0⟩, 0, 0, 0, 0⟩ 0).1 (by decide)
    (by decide)).mpr (by decide)

/--
An empty datagram of one host to another is not read back, and a header that is all zero but
for its version and its checksum is read though it is not valid.
-/
theorem not_roundTrips :
    ¬ RoundTrips ⟨10, 0, 0, 1⟩ ⟨10, 0, 0, 2⟩ 17 [] (List.replicate 20 0) ∧
    ∃ data header length, parse data = some (header, length) ∧ checksumField data ≠ 0 ∧
      ¬ Valid (data.take length) := by
  constructor
  · rw [roundTrips_of_room (by decide) (by decide)]
    decide
  · refine ⟨[0x40, 0, 0, 0, 0, 0, 0, 0, 0, 0, 0xFF, 0xFF, 0, 0, 0, 0, 0, 0, 0, 0], _, _, rfl, ?_, ?_⟩
    · decide
    · unfold Valid
      decide

end TheoryKernel.Net.Ipv4Header
