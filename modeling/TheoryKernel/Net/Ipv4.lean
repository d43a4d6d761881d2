import TheoryKernel.Lib.OnesComplement
import TheoryKernel.Net.Addr

/-! The header of an IPv4 packet, and the checksum over it. -/

namespace TheoryKernel.Net

open OnesComplement

def ipProtoIcmp : BitVec 8 := 1
def ipProtoTcp : BitVec 8 := 6
def ipProtoUdp : BitVec 8 := 17

/-- What a header says. -/
structure Ipv4Header where
  src : Ipv4Addr
  dst : Ipv4Addr
  protocol : BitVec 8
  ttl : BitVec 8
  totalLen : Nat
  headerLen : Nat
  deriving DecidableEq, Repr

/-- The sum of the words of a string of bytes, which has 32 bits. -/
def sumWords : Bytes → Nat → Nat
  | high :: low :: rest, sum => sumWords rest ((sum + (high ++ low).toNat) % 2 ^ 32)
  | [high], sum => (sum + high.toNat * 2 ^ 8) % 2 ^ 32
  | [], sum => sum

/-- The checksum of a string of bytes. -/
def checksum (data : Bytes) : BitVec 16 := ~~~BitVec.ofNat 16 (folded 3 (sumWords data 0))

/-- The header of a packet, with its length. -/
def Ipv4Header.parse (data : Bytes) : Option (Ipv4Header × Nat) :=
  if data.length < 20 then none
  else if byte data 0 >>> 4 ≠ 4 then none
  else
    let ihl := (byte data 0 &&& 0x0F).toNat * 4
    if data.length < ihl then none
    else
      let csum := be16 data 10
      -- The field itself is part of what is added up.
      if csum ≠ 0 ∧ checksum (data.take ihl) ≠ csum then none
      else
        some ({
          src := .ofBytes data 12
          dst := .ofBytes data 16
          protocol := byte data 9
          ttl := byte data 8
          totalLen := (be16 data 2).toNat
          headerLen := ihl }, ihl)

/-- Writing a packet to a buffer, with its length. -/
def Ipv4Header.build (src dst : Ipv4Addr) (protocol : BitVec 8) (payload out : Bytes) :
    Exec (Nat × Bytes) := do
  let total := 20 + payload.length
  let out ← setAt out 0 0x45
  let out ← setAt out 1 0
  let out ← copyFromSlice out 2 4 (toBeBytes16 (BitVec.ofNat 16 total))
  let out ← copyFromSlice out 4 6 [0, 0]
  let out ← setAt out 6 0x40
  let out ← setAt out 7 0
  let out ← setAt out 8 64
  let out ← setAt out 9 protocol
  let out ← setAt out 10 0
  let out ← setAt out 11 0
  let out ← copyFromSlice out 12 16 src.bytes
  let out ← copyFromSlice out 16 20 dst.bytes
  let header ← slice out 0 20
  let out ← copyFromSlice out 10 12 (toBeBytes16 (checksum header))
  let out ← copyFromSlice out 20 total payload
  .ok (total, out)

variable {data before after : Bytes} {sum : Nat}

theorem sumWords_eq (small : sum + wordSum data < 2 ^ 32) :
    sumWords data sum = sum + wordSum data := by
  -- No partial sum reaches the limit, since the whole does not.
  induction data using wordSum.induct generalizing sum with
  | case1 high low rest ih =>
    rw [wordSum] at small ⊢
    have below : sum + (high.toNat * 2 ^ 8 + low.toNat) < 2 ^ 32 :=
      Nat.lt_of_le_of_lt (Nat.add_le_add_left (Nat.le_add_right _ _) sum) small
    rw [sumWords, toNat_word, Nat.mod_eq_of_lt below, ih (by omega)]
    omega
  | case2 high =>
    rw [wordSum] at small ⊢
    rw [sumWords, Nat.mod_eq_of_lt small]
  | case3 => rfl

/-- The checksum and the folded sum of the words add up to all ones. -/
theorem checksum_toNat (small : wordSum data < 2 ^ 32) :
    (checksum data).toNat = 65535 - folded 3 (wordSum data) := by
  have bounded := folded_lt small
  rw [checksum, sumWords_eq (by omega), Nat.zero_add, BitVec.toNat_not, BitVec.toNat_ofNat,
    Nat.mod_eq_of_lt bounded]

/-- The checksum vanishes exactly if the sum of the words is a multiple of 65535. -/
theorem checksum_eq_zero (small : wordSum data < 2 ^ 32) :
    checksum data = 0 ↔ wordSum data ≠ 0 ∧ wordSum data % 65535 = 0 := by
  have bounded := folded_lt small
  have number := checksum_toNat small
  rw [← folded_eq_ones small]
  constructor
  · intro zero
    rw [zero] at number
    change 0 = 65535 - _ at number
    omega
  · intro ones
    apply BitVec.eq_of_toNat_eq
    rw [number, ones]
    rfl

/-- The bytes of a number add up to it. -/
theorem wordSum_toBeBytes16 (number : BitVec 16) : wordSum (toBeBytes16 number) = number.toNat := by
  have small := number.isLt
  simp only [toBeBytes16, wordSum, BitVec.extractLsb'_toNat, Nat.shiftRight_eq_div_pow]
  omega

/-- A string of zero bytes at an even place may be replaced by the checksum, which then vanishes. -/
theorem checksum_filled (even : before.length % 2 = 0)
    (short : (before ++ [0, 0] ++ after).length ≤ 65536) :
    checksum (before ++ toBeBytes16 (checksum (before ++ [0, 0] ++ after)) ++ after) = 0 := by
  have parts : ∀ word : Bytes, word.length = 2 → wordSum (before ++ word ++ after) =
      wordSum before + wordSum word + wordSum after := by
    intro word two
    rw [wordSum_append (by rw [List.length_append]; omega), wordSum_append even]
  have bound : 2 * wordSum (before ++ [0, 0] ++ after) ≤ _ := wordSum_le
  have small : wordSum (before ++ [0, 0] ++ after) < 2 ^ 31 := by omega
  have blank : wordSum [0, 0] = 0 := rfl
  have below := Nat.lt_trans small (by decide : 2 ^ 31 < 2 ^ 32)
  have field := checksum_toNat below
  have bounded := folded_lt below
  have ones := folded_eq_ones below
  have modulo : folded 3 (wordSum (before ++ [0, 0] ++ after)) % 65535 = _ := folded_mod
  generalize checksum (before ++ [0, 0] ++ after) = csum at field ⊢
  rw [parts [0, 0] rfl, blank] at field bounded ones modulo small
  -- The field holds what is missing from a multiple of 65535.
  rw [checksum_eq_zero] <;> rw [parts _ rfl, wordSum_toBeBytes16, field] <;> omega

/--
The checksum of up to 65536 bytes is the complement of the one's-complement sum of their words.

No sum on the way overflows, and no carries are left after three rounds.
Written to two zero bytes at an even place, the checksum makes the checksum of the whole vanish.
-/
theorem checksum_correct (short : data.length ≤ 65536) :
    wordSum data < 2 ^ 32 ∧ sumWords data 0 = wordSum data ∧
      folded 3 (sumWords data 0) < 2 ^ 16 ∧ checksum data = ~~~onesSum data ∧
      ∀ before after, data = before ++ [0, 0] ++ after → before.length % 2 = 0 →
        checksum (before ++ toBeBytes16 (checksum data) ++ after) = 0 := by
  have bound : 2 * wordSum data ≤ 65535 * (data.length + 1) := wordSum_le
  have small : wordSum data < 2 ^ 32 := by omega
  have sum : sumWords data 0 = wordSum data := by
    rw [sumWords_eq (by omega), Nat.zero_add]
  refine ⟨small, sum, sum ▸ folded_lt small, ?_, ?_⟩
  · rw [checksum, sum, folded_wordSum small, BitVec.ofNat_toNat, BitVec.setWidth_eq]
  · rintro before after rfl even
    exact checksum_filled even short

/-- The checksum of three bytes, written to the first two of them. -/
theorem checksum_correct_three : checksum (toBeBytes16 (checksum [0, 0, 69]) ++ [69]) = 0 :=
  (checksum_correct (by decide : [0, 0, (69 : BitVec 8)].length ≤ 65536)).2.2.2.2 [] [69] rfl rfl

end TheoryKernel.Net
