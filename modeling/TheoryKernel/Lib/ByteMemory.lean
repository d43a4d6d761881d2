import Mathlib.Tactic.Common

/-! Memories of bytes, and the 64-bit words in them, with the lowest byte first. -/

namespace ByteMemory

/-- A byte of a word. -/
def byte (word : BitVec 64) (index : Nat) : BitVec 8 := word.extractLsb' (8 * index) 8

/-- The word made of eight bytes. -/
def assemble (bytes : Nat → BitVec 8) : BitVec 64 :=
  bytes 7 ++ (bytes 6 ++ (bytes 5 ++ (bytes 4 ++ (bytes 3 ++ (bytes 2 ++ (bytes 1 ++ bytes 0))))))

/-- A memory with a byte at every address. -/
abbrev Memory : Type := Nat → BitVec 8

/-- Storing bytes at an address and the addresses behind it. -/
def store (memory : Memory) (addr length : Nat) (bytes : Nat → BitVec 8) : Memory :=
  fun other => if addr ≤ other ∧ other < addr + length then bytes (other - addr) else memory other

/-- The word at an address. -/
def loadWord (memory : Memory) (addr : Nat) : BitVec 64 := assemble fun index => memory (addr + index)

/-- Storing a word at an address. -/
def storeWord (memory : Memory) (addr : Nat) (word : BitVec 64) : Memory :=
  store memory addr 8 (byte word)

variable {memory memory' : Memory} {bytes : Nat → BitVec 8} {word : BitVec 64}
  {addr length other index : Nat}

private theorem getLsbD_assemble {bit : Nat} (inside : index < 8) (small : bit < 8) :
    (assemble bytes).getLsbD (8 * index + bit) = (bytes index).getLsbD bit := by
  have cases : index = 0 ∨ index = 1 ∨ index = 2 ∨ index = 3 ∨ index = 4 ∨ index = 5 ∨
      index = 6 ∨ index = 7 := by omega
  -- Each byte is followed to its place in the word.
  unfold assemble
  rcases cases with rfl | rfl | rfl | rfl | rfl | rfl | rfl | rfl <;>
    simp only [BitVec.getLsbD_append] <;> grind

/-- The bytes of an assembled word are those it was made of. -/
theorem byte_assemble (bytes : Nat → BitVec 8) (inside : index < 8) :
    byte (assemble bytes) index = bytes index := by
  apply BitVec.eq_of_getLsbD_eq
  intro bit small
  rw [byte, BitVec.getLsbD_extractLsb', getLsbD_assemble inside small, decide_eq_true small,
    Bool.true_and]

/-- A word is made of its bytes. -/
theorem assemble_byte (word : BitVec 64) : assemble (byte word) = word := by
  apply BitVec.eq_of_getLsbD_eq
  intro position small
  have split : position = 8 * (position / 8) + position % 8 := by omega
  rw [split, getLsbD_assemble (by omega) (by omega), byte, BitVec.getLsbD_extractLsb',
    decide_eq_true (by omega), Bool.true_and]

/-- Words made of the same bytes are the same. -/
theorem assemble_congr {bytes' : Nat → BitVec 8} (same : ∀ index < 8, bytes index = bytes' index) :
    assemble bytes = assemble bytes' := by
  unfold assemble
  rw [same 0 (by omega), same 1 (by omega), same 2 (by omega), same 3 (by omega),
    same 4 (by omega), same 5 (by omega), same 6 (by omega), same 7 (by omega)]

/-- A word depends on its eight bytes alone. -/
theorem loadWord_congr (same : ∀ index < 8, memory (addr + index) = memory' (addr + index)) :
    loadWord memory addr = loadWord memory' addr := assemble_congr same

/-- Inside the stored range, the memory holds what was stored. -/
theorem store_inside (inside : index < length) :
    store memory addr length bytes (addr + index) = bytes index := by
  rw [store, if_pos ⟨by omega, by omega⟩]
  congr 1
  omega

/-- Outside the stored range, the memory is as before. -/
theorem store_outside (outside : other < addr ∨ addr + length ≤ other) :
    store memory addr length bytes other = memory other := by
  rw [store, if_neg (by omega)]

/-- A stored word can be loaded. -/
theorem loadWord_storeWord : loadWord (storeWord memory addr word) addr = word := by
  rw [← assemble_byte word, loadWord]
  apply assemble_congr
  intro index inside
  rw [storeWord, store_inside inside, assemble_byte]

/-- A word in the stored range is made of the stored bytes. -/
theorem loadWord_store_inside (inside : index + 8 ≤ length) :
    loadWord (store memory addr length bytes) (addr + index) =
      assemble fun position => bytes (index + position) := by
  apply assemble_congr
  intro position small
  rw [Nat.add_assoc, store_inside (by omega)]

end ByteMemory
