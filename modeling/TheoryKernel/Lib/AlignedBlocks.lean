import Mathlib.Data.Set.Basic
import Mathlib.Data.Nat.Bitwise
import Mathlib.Tactic.Ring

/-! Blocks of a power-of-two size at multiples of their size, and sets tiled by such blocks. -/

namespace AlignedBlocks

open List

/-- A block of `2 ^ order` numbers. -/
structure Block where
  start : Nat
  order : Nat
  deriving DecidableEq, Repr

namespace Block

/-- The numbers in a block. -/
def Covers (block : Block) (number : Nat) : Prop :=
  block.start ≤ number ∧ number < block.start + 2 ^ block.order

/-- A block starts at a multiple of its size. -/
def Aligned (block : Block) : Prop := 2 ^ block.order ∣ block.start

/-- Two blocks have no number in common. -/
def Disjoint (first second : Block) : Prop := ∀ number, first.Covers number → ¬ second.Covers number

theorem Disjoint.symm {first second : Block} (apart : first.Disjoint second) :
    second.Disjoint first := fun number inSecond inFirst => apart number inFirst inSecond

end Block

private theorem covers_halves {start order number : Nat} :
    (Block.mk start (order + 1)).Covers number ↔
      (Block.mk start order).Covers number ∨ (Block.mk (start + 2 ^ order) order).Covers number := by
  -- Doubling the size puts the boundary between the halves in the middle.
  simp only [Block.Covers, Nat.pow_succ]
  omega

/-- Aligned, pairwise disjoint blocks that together hold exactly the numbers of a set. -/
structure Tiling (blocks : List Block) (numbers : Set Nat) : Prop where
  aligned : ∀ block ∈ blocks, block.Aligned
  disjoint : blocks.Pairwise Block.Disjoint
  covers : ∀ number, number ∈ numbers ↔ ∃ block ∈ blocks, block.Covers number

variable {blocks blocks' rest : List Block} {numbers numbers' : Set Nat} {block : Block}
  {start order : Nat}

/-- No blocks tile the empty set. -/
theorem tiling_nil : Tiling [] ∅ := ⟨by simp, List.Pairwise.nil, by simp⟩

/-- The order in which blocks are listed does not matter. -/
theorem Tiling.perm (tiling : Tiling blocks numbers) (same : blocks.Perm blocks') :
    Tiling blocks' numbers where
  aligned := fun block member => tiling.aligned block (same.mem_iff.mpr member)
  disjoint := (same.pairwise_iff Block.Disjoint.symm).mp tiling.disjoint
  covers := fun number => by simp only [tiling.covers number, same.mem_iff]

/-- One more block, disjoint from the others, tiles a larger set. -/
theorem Tiling.cons (tiling : Tiling rest numbers) (aligned : block.Aligned)
    (fresh : ∀ number, block.Covers number → number ∉ numbers)
    (grown : ∀ number, number ∈ numbers' ↔ block.Covers number ∨ number ∈ numbers) :
    Tiling (block :: rest) numbers' where
  aligned := forall_mem_cons.mpr ⟨aligned, tiling.aligned⟩
  disjoint := by
    refine pairwise_cons.mpr ⟨fun other member number inBlock inOther => ?_, tiling.disjoint⟩
    exact fresh number inBlock ((tiling.covers number).mpr ⟨other, member, inOther⟩)
  covers := fun number => by simp [grown number, tiling.covers number]

/-- Leaving out a block tiles what the block did not cover. -/
theorem Tiling.tail (tiling : Tiling (block :: rest) numbers) :
    Tiling rest {number | number ∈ numbers ∧ ¬ block.Covers number} where
  aligned := fun other member => tiling.aligned other (mem_cons_of_mem block member)
  disjoint := (pairwise_cons.mp tiling.disjoint).2
  covers := by
    intro number
    have apart := (pairwise_cons.mp tiling.disjoint).1
    constructor
    · rintro ⟨inside, outside⟩
      obtain ⟨other, member, covered⟩ := (tiling.covers number).mp inside
      rcases mem_cons.mp member with rfl | member
      · exact absurd covered outside
      · exact ⟨other, member, covered⟩
    · rintro ⟨other, member, covered⟩
      refine ⟨(tiling.covers number).mpr ⟨other, mem_cons_of_mem block member, covered⟩, ?_⟩
      exact fun inBlock => apart other member number inBlock covered

private theorem aligned_halves (aligned : (Block.mk start (order + 1)).Aligned) :
    (Block.mk start order).Aligned ∧ (Block.mk (start + 2 ^ order) order).Aligned := by
  have finer : 2 ^ order ∣ start := (Nat.pow_dvd_pow 2 (Nat.le_succ order)).trans aligned
  exact ⟨finer, Nat.dvd_add finer (Nat.dvd_refl _)⟩

/-- A block may be replaced by its halves, and its halves by the block. -/
theorem tiling_halves (aligned : (Block.mk start (order + 1)).Aligned) :
    Tiling (⟨start, order⟩ :: ⟨start + 2 ^ order, order⟩ :: rest) numbers ↔
      Tiling (⟨start, order + 1⟩ :: rest) numbers := by
  constructor
  · rintro ⟨alignedAll, disjoint, covers⟩
    rw [pairwise_cons, pairwise_cons] at disjoint
    obtain ⟨lower, upper, others⟩ := disjoint
    refine ⟨fun other member => ?_, pairwise_cons.mpr ⟨fun other member number inside => ?_,
      others⟩, fun number => ?_⟩
    · rcases mem_cons.mp member with rfl | member
      · exact aligned
      · exact alignedAll other (by simp [member])
    · -- A number of the whole block lies in one of the halves.
      rcases covers_halves.mp inside with inLower | inUpper
      · exact lower other (by simp [member]) number inLower
      · exact upper other member number inUpper
    · simp only [covers, mem_cons, exists_eq_or_imp, covers_halves, or_assoc]
  · rintro ⟨alignedAll, disjoint, covers⟩
    rw [pairwise_cons] at disjoint
    obtain ⟨whole, others⟩ := disjoint
    obtain ⟨alignedLower, alignedUpper⟩ := aligned_halves aligned
    refine ⟨fun other member => ?_, pairwise_cons.mpr ⟨fun other member number inside => ?_,
      pairwise_cons.mpr ⟨fun other member number inside => ?_, others⟩⟩, fun number => ?_⟩
    · simp only [mem_cons] at member
      rcases member with rfl | rfl | member
      · exact alignedLower
      · exact alignedUpper
      · exact alignedAll other (by simp [member])
    · rcases mem_cons.mp member with rfl | member
      · -- The halves themselves meet nowhere.
        simp only [Block.Covers] at inside ⊢
        omega
      · exact whole other member number (covers_halves.mpr (.inl inside))
    · exact whole other member number (covers_halves.mpr (Or.inr inside))
    · simp only [covers, mem_cons, exists_eq_or_imp, covers_halves, or_assoc]

private theorem xor_two_pow (order quotient : Nat) :
    (2 ^ order * quotient) ^^^ 2 ^ order = 2 ^ order * (quotient ^^^ 1) := by
  have shifted := Nat.shiftLeft_xor_distrib (a := quotient) (b := 1) (i := order)
  simpa [Nat.shiftLeft_eq, Nat.mul_comm] using shifted.symm

/-- The start of the buddy of the block of a given order that contains a number. -/
def buddyStart (number order : Nat) : Nat := 2 ^ order * ((number / 2 ^ order) ^^^ 1)

/-- The buddy of an aligned block starts at its start with one bit flipped. -/
theorem buddyStart_of_aligned (aligned : 2 ^ order ∣ start) :
    start ^^^ 2 ^ order = buddyStart start order := by
  obtain ⟨quotient, rfl⟩ := aligned
  rw [buddyStart, Nat.mul_div_cancel_left _ (Nat.two_pow_pos order), xor_two_pow]

/-- A buddy lies outside the block it is the buddy of. -/
theorem buddyStart_ne {number other : Nat} (same : other / 2 ^ order = number / 2 ^ order) :
    buddyStart number order ≠ other := by
  intro equal
  have quotient : other / 2 ^ order = (number / 2 ^ order) ^^^ 1 := by
    rw [← equal, buddyStart, Nat.mul_div_cancel_left _ (Nat.two_pow_pos order)]
  have flipped := quotient.symm.trans same
  -- Flipping the lowest bit changes the parity.
  rcases Nat.even_or_odd (number / 2 ^ order) with even | odd
  · rw [Nat.xor_one_of_even even] at flipped
    omega
  · rw [Nat.xor_one_of_odd odd] at flipped
    obtain ⟨half, value⟩ := odd
    omega

/--
The buddy of an aligned block is the other half of the block of the next order.

Flipping the bit of the block's size goes from one half to the other, and the smaller start is that of
the whole.
-/
theorem buddy_halves (aligned : 2 ^ order ∣ start) :
    (Block.mk (min start (start ^^^ 2 ^ order)) (order + 1)).Aligned ∧
      (min start (start ^^^ 2 ^ order) = start ∧ start ^^^ 2 ^ order = start + 2 ^ order ∨
        min start (start ^^^ 2 ^ order) = start ^^^ 2 ^ order ∧
          start = (start ^^^ 2 ^ order) + 2 ^ order) := by
  -- In units of the block size, the flipped bit is the lowest one.
  obtain ⟨quotient, rfl⟩ := aligned
  rw [xor_two_pow]
  rcases Nat.even_or_odd quotient with even | odd
  · rw [Nat.xor_one_of_even even]
    obtain ⟨half, rfl⟩ := even
    have smaller : min (2 ^ order * (half + half)) (2 ^ order * (half + half + 1)) =
        2 ^ order * (half + half) := Nat.min_eq_left (Nat.mul_le_mul_left _ (Nat.le_succ _))
    rw [smaller]
    refine ⟨⟨half, ?_⟩, Or.inl ⟨rfl, by ring⟩⟩
    ring
  · rw [Nat.xor_one_of_odd odd]
    obtain ⟨half, rfl⟩ := odd
    have smaller : min (2 ^ order * (2 * half + 1)) (2 ^ order * (2 * half + 1 - 1)) =
        2 ^ order * (2 * half) := by
      rw [Nat.add_sub_cancel]
      exact Nat.min_eq_right (Nat.mul_le_mul_left _ (Nat.le_succ _))
    rw [smaller]
    refine ⟨⟨half, ?_⟩, Or.inr ⟨by rw [Nat.add_sub_cancel], ?_⟩⟩
    · ring
    · rw [Nat.add_sub_cancel]
      ring

/-- A block and the block it merges into lie in the same block of every larger order. -/
theorem merged_div {level : Nat} (aligned : 2 ^ order ∣ start) (above : order < level) :
    min start (start ^^^ 2 ^ order) / 2 ^ level = start / 2 ^ level := by
  obtain ⟨whole, halves⟩ := buddy_halves aligned
  obtain ⟨quotient, begins⟩ := whole
  obtain ⟨gap, rfl⟩ : ∃ gap, level = order + 1 + gap := ⟨level - (order + 1), by omega⟩
  rw [Nat.pow_add, ← Nat.div_div_eq_div_mul, ← Nat.div_div_eq_div_mul]
  congr 1
  -- Both starts lie in the merged block, which is aligned to its size.
  have positive : 0 < 2 ^ order := Nat.two_pow_pos order
  have size : 2 ^ (order + 1) = 2 ^ order + 2 ^ order := by rw [Nat.pow_succ]; omega
  dsimp only at begins
  rw [begins, Nat.mul_div_cancel_left _ (Nat.two_pow_pos _)]
  symm
  apply Nat.div_eq_of_lt_le
  · rw [Nat.mul_comm]
    omega
  · rw [Nat.add_mul, Nat.one_mul, Nat.mul_comm]
    omega

end AlignedBlocks
