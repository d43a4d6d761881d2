import TheoryKernel.Lib.ByteMemory
import TheoryKernel.Mm.Paging

/-! The bytes of physical memory, which the kernel reaches through a linear alias. -/

namespace TheoryKernel.Mm.Machine

open ByteMemory

variable {machine : Machine} {addr length other frame : Nat} {bytes : Nat → BitVec 8}

/-- The byte at a physical address. -/
def physByte (machine : Machine) (addr : Nat) : BitVec 8 :=
  byte (machine.memory (addr / pageSize) (addr % pageSize / 8)) (addr % 8)

/-- The word of a frame after a store to a range of physical addresses. -/
def storedSlot (machine : Machine) (addr length : Nat) (bytes : Nat → BitVec 8)
    (frame slot : Nat) : BitVec 64 :=
  let start := frame * pageSize + 8 * slot
  if slot < 512 ∧ start < addr + length ∧ addr < start + 8 then
    assemble fun index =>
      if addr ≤ start + index ∧ start + index < addr + length then bytes (start + index - addr)
      else byte (machine.memory frame slot) index
  else machine.memory frame slot

/-- Storing bytes at a physical address and behind it, in whatever frames that is. -/
def storePhys (machine : Machine) (addr length : Nat) (bytes : Nat → BitVec 8) : Machine :=
  { machine with memory := machine.storedSlot addr length bytes }

/-- A store changes the bytes of its range and no other. -/
theorem physByte_storePhys :
    (machine.storePhys addr length bytes).physByte other =
      if addr ≤ other ∧ other < addr + length then bytes (other - addr)
      else machine.physByte other := by
  have place : other / pageSize * pageSize + 8 * (other % pageSize / 8) + other % 8 = other := by
    rw [pageSize]
    omega
  have small : other % pageSize / 8 < 512 := by
    rw [pageSize]
    omega
  have within : other % 8 < 8 := Nat.mod_lt _ (by decide)
  have slotEq : (machine.storePhys addr length bytes).memory (other / pageSize)
      (other % pageSize / 8) =
      machine.storedSlot addr length bytes (other / pageSize) (other % pageSize / 8) := rfl
  rw [physByte, slotEq, storedSlot]
  -- Either some byte of the word is stored, or the word is as before.
  by_cases touched : other / pageSize * pageSize + 8 * (other % pageSize / 8) < addr + length ∧
      addr < other / pageSize * pageSize + 8 * (other % pageSize / 8) + 8
  · rw [if_pos ⟨small, touched⟩, byte_assemble _ within, place]
    rfl
  · rw [if_neg fun both => touched both.2, if_neg (by omega)]
    rfl

/-- A store leaves the frames that it does not reach as they are. -/
theorem storePhys_memory
    (apart : (frame + 1) * pageSize ≤ addr ∨ addr + length ≤ frame * pageSize) :
    (machine.storePhys addr length bytes).memory frame = machine.memory frame := by
  funext slot
  unfold storePhys storedSlot
  apply if_neg
  rw [pageSize] at *
  omega

end TheoryKernel.Mm.Machine
