import TheoryKernel.Mm.Elf.Load
import TheoryKernel.Proc.ExecStart

/-! Bytes that the kernel writes to a program and reads back. -/

namespace TheoryKernel.Proc

open Mm Mm.Elf ByteMemory

variable {table : PageTable} {machine : Machine} {start stop addr length : Nat}
  {bytes buf : Nat → BitVec 8}

theorem readUserLoop_reads {done budget : Nat} (small : addr + length < 2 ^ 64)
    (mapped : ∀ index < length, table.userByte (addr + index) machine = some (bytes index))
    (enough : length - done ≤ budget) (read : ∀ index < done, buf index = bytes index) :
    ∃ final, readUserLoop table machine addr length budget done buf = some final ∧
      ∀ index < length, final index = bytes index := by
  induction budget generalizing done buf with
  | zero => exact ⟨buf, rfl, fun index inside => read index (by omega)⟩
  | succ budget ih =>
    rw [readUserLoop]
    by_cases more : done < length
    · -- The rest of a page follows the bytes that were read, and the loop goes on behind it.
      have here : wrapAdd addr done = addr + done := wrapAdd_eq (by omega)
      obtain ⟨phys, found, -⟩ := Option.map_eq_some_iff.mp (mapped done more)
      obtain ⟨target, resolved, rfl⟩ := Option.map_eq_some_iff.mp found
      have offset : addr + done - alignDown (addr + done) pageSize = (addr + done) % pageSize := by
        unfold alignDown pageSize
        omega
      have inPage : (addr + done) % pageSize < pageSize := Nat.mod_lt _ (by decide)
      rw [if_pos more]
      simp only [here, offset, PageTable.resolve_alignDown, resolved]
      refine ih (by omega) fun index inside => ?_
      by_cases early : index < done
      · rw [store_outside (Or.inl early)]
        exact read index early
      · obtain ⟨later, rfl⟩ := Nat.exists_eq_add_of_le (Nat.le_of_not_lt early)
        have isHere := mapped (done + later) (by omega)
        rw [← Nat.add_assoc, PageTable.userByte, PageTable.translate_add found (by omega)] at isHere
        rw [store_inside (by omega)]
        exact Option.some.inj isHere
    · rw [if_neg more]
      exact ⟨buf, rfl, fun index inside => read index (by omega)⟩

/--
The bytes that are written to a range of a program are read back, whatever pages they cross.

The pages of the range are mapped to frames of their own, and all other bytes stay as they are.
-/
theorem read_sees_write (backed : Backed table start stop machine) (user : stop ≤ userAddrMax + 1)
    (low : start ≤ addr) (high : addr + length ≤ stop) (bytes : Nat → BitVec 8) :
    ∃ changed, writeUserRegion table addr length bytes machine = (.ok (), changed) ∧
      (∀ buf, ∃ read, readUserBytes table changed addr length buf = some read ∧
        ∀ index < length, read index = bytes index) ∧
      ∀ phys, (∀ index < length, table.translate (addr + index) machine ≠ some phys) →
        changed.physByte phys = machine.physByte phys := by
  have small : addr + length < 2 ^ 64 := by
    unfold userAddrMax at user
    omega
  obtain ⟨changed, run, wrote⟩ := writeUserRegion_wrote bytes (backed.mono low high) small
  refine ⟨changed, run, fun buf => ?_, wrote.outside⟩
  exact readUserLoop_reads small wrote.inside (Nat.le_refl _) fun _ impossible => by omega

/-- Bytes are written to two pages of a stack and read back. -/
theorem stack_read_sees_write : ∃ changed,
    writeUserRegion stackSpace.2.1.pageTable (userStackTop - 5000) 4500 (BitVec.ofNat 8)
      stackSpace.2.2 = (.ok (), changed) ∧
    ∃ read, readUserBytes stackSpace.2.1.pageTable changed (userStackTop - 5000) 4500 (fun _ => 0) =
      some read ∧ ∀ index < 4500, read index = BitVec.ofNat 8 index := by
  obtain ⟨changed, run, reads, -⟩ :=
    read_sees_write backed_stackSpace (by decide) (by decide)
      (by decide : userStackTop - 5000 + 4500 ≤ userStackTop) (BitVec.ofNat 8)
  exact ⟨changed, run, reads _⟩

end TheoryKernel.Proc
