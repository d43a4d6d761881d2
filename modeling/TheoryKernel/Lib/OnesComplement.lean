import Mathlib.Algebra.Group.Nat.Defs
import Mathlib.Tactic.Common

/-! Sums of 16-bit words whose carries are added back, which are sums modulo 65535. -/

namespace OnesComplement

/-- The carries of a sum, added back to its low half until there are none. -/
def folded : Nat → Nat → Nat
  | 0, sum => sum
  | rounds + 1, sum =>
    if sum / 2 ^ 16 = 0 then sum else folded rounds (sum % 2 ^ 16 + sum / 2 ^ 16)

/-- The sum of the words of a string of bytes, whose last byte may be the upper half of a word. -/
def wordSum : List (BitVec 8) → Nat
  | high :: low :: rest => (high.toNat * 2 ^ 8 + low.toNat) + wordSum rest
  | [high] => high.toNat * 2 ^ 8
  | [] => 0

/-- The sum of two words, with the carry added at the other end. -/
def endAround (a b : BitVec 16) : BitVec 16 :=
  if a.toNat + b.toNat < 2 ^ 16 then a + b else a + b + 1

/-- The one's-complement sum of the words of a string of bytes, padded with a zero byte. -/
def onesSum : List (BitVec 8) → BitVec 16
  | high :: low :: rest => endAround (high ++ low) (onesSum rest)
  | [high] => high ++ 0#8
  | [] => 0

variable {rounds sum : Nat} {before after bytes : List (BitVec 8)}

/-- Adding the carries back keeps the sum modulo 65535. -/
theorem folded_mod : folded rounds sum % 65535 = sum % 65535 := by
  induction rounds generalizing sum with
  | zero => rfl
  | succ rounds ih =>
    rw [folded]
    split
    · rfl
    · rw [ih]
      omega

private theorem folded_eq_zero : folded rounds sum = 0 ↔ sum = 0 := by
  induction rounds generalizing sum with
  | zero => rfl
  | succ rounds ih =>
    rw [folded]
    split
    · rfl
    · rw [ih]
      omega

/-- A sum of 32 bits has no carries left after three rounds. -/
theorem folded_lt (small : sum < 2 ^ 32) : folded 3 sum < 2 ^ 16 := by
  simp only [folded]
  split
  · omega
  · split
    · omega
    · split <;> omega

/-- A sum is folded to all ones exactly if it is a multiple of 65535. -/
theorem folded_eq_ones (small : sum < 2 ^ 32) :
    folded 3 sum = 65535 ↔ sum ≠ 0 ∧ sum % 65535 = 0 := by
  have bounded := folded_lt small
  have same : folded 3 sum % 65535 = sum % 65535 := folded_mod
  have empty : folded 3 sum = 0 ↔ sum = 0 := folded_eq_zero
  omega

/-- The number that two bytes stand for. -/
theorem toNat_word (high low : BitVec 8) : (high ++ low).toNat = high.toNat * 2 ^ 8 + low.toNat := by
  rw [BitVec.toNat_append, ← Nat.shiftLeft_add_eq_or_of_lt low.isLt, Nat.shiftLeft_eq]

private theorem toNat_endAround (a b : BitVec 16) : (endAround a b).toNat =
    if a.toNat + b.toNat < 2 ^ 16 then a.toNat + b.toNat else a.toNat + b.toNat - 65535 := by
  have one : (1 : BitVec 16).toNat = 1 := rfl
  unfold endAround
  split
  · rw [BitVec.toNat_add]
    omega
  · rw [BitVec.toNat_add, BitVec.toNat_add, one]
    omega

/-- Folding the sum of the words gives their one's-complement sum. -/
theorem folded_wordSum (small : wordSum bytes < 2 ^ 32) :
    folded 3 (wordSum bytes) = (onesSum bytes).toNat := by
  -- Both are the one number of 16 bits with this remainder, which is zero only for no sum at all.
  have agree : (onesSum bytes).toNat % 65535 = wordSum bytes % 65535 ∧
      ((onesSum bytes).toNat = 0 ↔ wordSum bytes = 0) := by
    clear small
    induction bytes using wordSum.induct with
    | case1 high low rest ih =>
      rw [onesSum, wordSum, toNat_endAround, toNat_word]
      split <;> omega
    | case2 high => simp [onesSum, wordSum, toNat_word]
    | case3 => exact ⟨rfl, Iff.rfl⟩
  have bounded := folded_lt small
  have same : folded 3 (wordSum bytes) % 65535 = wordSum bytes % 65535 := folded_mod
  have empty : folded 3 (wordSum bytes) = 0 ↔ wordSum bytes = 0 := folded_eq_zero
  have word := (onesSum bytes).isLt
  omega

/-- The words before an even place are added up on their own. -/
theorem wordSum_append (even : before.length % 2 = 0) :
    wordSum (before ++ after) = wordSum before + wordSum after := by
  induction before using wordSum.induct with
  | case1 high low rest ih =>
    rw [List.length_cons, List.length_cons] at even
    rw [List.cons_append, List.cons_append, wordSum, wordSum, ih (by omega)]
    omega
  | case2 high => cases even
  | case3 => exact (Nat.zero_add _).symm

/-- Every two bytes add less than a word can hold. -/
theorem wordSum_le : 2 * wordSum bytes ≤ 65535 * (bytes.length + 1) := by
  induction bytes using wordSum.induct with
  | case1 high low rest ih =>
    have upper := high.isLt
    have lower := low.isLt
    rw [wordSum, List.length_cons, List.length_cons]
    omega
  | case2 high =>
    have upper := high.isLt
    rw [wordSum, List.length_singleton]
    omega
  | case3 => rw [wordSum]; omega

end OnesComplement
