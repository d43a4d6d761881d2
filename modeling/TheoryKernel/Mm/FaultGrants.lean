import TheoryKernel.Mm.Fault

/-! The accesses that the handling of page faults grants, and those that an area allows. -/

namespace TheoryKernel.Mm.Fault

open Machine

variable {space : AddressSpace} {machine changed : Machine} {roots : Set Nat} {addr page : Nat}
  {write user : Bool} {outcome : PageFaultOutcome}

/-- Whether an entry of a page table permits an access. -/
def permits (entry : BitVec 64) (write user : Bool) : Bool :=
  contains entry PageFlags.present && (!write || contains entry PageFlags.writable) &&
    (!user || contains entry PageFlags.user)

/-- The right that an access needs besides the one of the user. -/
def needed (write : Bool) : ProtFlags := if write then ProtFlags.write else ProtFlags.read

/-- The area of an address allows an access, and the entry of its page permits it. -/
def Granted (space : AddressSpace) (addr : Nat) (write user : Bool) (machine : Machine) : Prop :=
  ∃ vma, space.vma.find addr = some vma ∧ contains vma.prot (needed write) = true ∧
    (user = true → contains vma.prot ProtFlags.user = true) ∧
    permits (machine.entry space.pageTable.root addr) write user = true

/-- The area of an address is that of the start of its page, or it allows the access as well. -/
def Housed (space : AddressSpace) (addr : Nat) (write user : Bool) (vma : Vma) : Prop :=
  space.vma.find (alignDown addr pageSize) = some vma ∨
    (write = true → contains vma.prot ProtFlags.write = true) ∧
      (user = true → contains vma.prot ProtFlags.user = true)

/--
What the handling of faults does not check: the area of the address, which the start of the page
stands for, the right to read, and the entry of a page that is present.
-/
def Grantable (space : AddressSpace) (addr : Nat) (write user : Bool) (machine : Machine) : Prop :=
  (∃ vma, space.vma.find addr = some vma ∧ Housed space addr write user vma ∧
    (write = false → contains vma.prot ProtFlags.read = true)) ∧
  (contains (machine.entry space.pageTable.root addr) PageFlags.present = true →
    permits (machine.entry space.pageTable.root addr) write user = true)

theorem permits_fresh {frame : Nat} {prot : ProtFlags} (small : frame < 2 ^ 22)
    (allowed : write = true → contains prot ProtFlags.write = true) :
    permits (physOf frame ||| PageFlags.fromProt prot true) write user = true := by
  -- The address in the entry has no part in its flags.
  have isPhys : IsPhys (physOf frame) := isPhys_physOf (by unfold physFrames; omega)
  unfold permits
  rw [contains_entry isPhys (by unfold IsFlags; decide),
    contains_entry isPhys (by unfold IsFlags; decide),
    contains_entry isPhys (by unfold IsFlags; decide), PageFlags.fromProt_present,
    PageFlags.fromProt_user, PageFlags.fromProt_writable]
  cases write with
  | false => simp
  | true =>
    rw [allowed rfl]
    simp

theorem tablePath_alignDown : tablePath (alignDown addr pageSize) = tablePath addr := by
  simp only [tablePath, alignDown, pageSize, List.cons.injEq, and_true]
  omega

theorem entry_alignDown (machine : Machine) (root : Nat) :
    machine.entry root (alignDown addr pageSize) = machine.entry root addr := by
  apply entry_congr
  unfold pageNumber alignDown pageSize
  omega

theorem Allows.rights_iff {vma : Vma}
    (allows : Allows space vma (alignDown addr pageSize) write user machine) (other : Vma) :
    contains other.prot (needed write) = true ∧
        (user = true → contains other.prot ProtFlags.user = true) ↔
      Housed space addr write user other ∧
        (write = false → contains other.prot ProtFlags.read = true) := by
  constructor
  · rintro ⟨right, isUser⟩
    cases write with
    | false => exact ⟨.inr ⟨nofun, isUser⟩, fun _ => right⟩
    | true => exact ⟨.inr ⟨fun _ => right, isUser⟩, nofun⟩
  · rintro ⟨housed, reads⟩
    -- The rights to write and of the user have been checked for the area of the page.
    have checked : (write = true → contains other.prot ProtFlags.write = true) ∧
        (user = true → contains other.prot ProtFlags.user = true) := by
      rcases housed with same | checked
      · cases same.symm.trans allows.found
        exact ⟨allows.writeAllowed, allows.userAllowed⟩
      · exact checked
    cases write with
    | false => exact ⟨reads rfl, checked.2⟩
    | true => exact ⟨checked.1 rfl, checked.2⟩

/--
What a successful handling of a fault leaves behind is what the area of the address allows, exactly
if that area has the rights that are not checked and a present page permits the access already.

A write is never successful if the area of the address does not allow it and contains the start of
the page.
-/
theorem resolveFault_granted_iff (settled : machine.Settled space.pageTable.root (tablePath addr))
    (run : resolveFault space addr write user machine = (outcome, changed)) :
    (outcome.succeeds = true →
      (Granted space addr write user changed ↔ Grantable space addr write user machine)) ∧
    (∀ vma, space.vma.find addr = some vma →
      space.vma.find (alignDown addr pageSize) = some vma → write = true →
        contains vma.prot ProtFlags.write = false → outcome.succeeds = false) := by
  rw [← tablePath_alignDown] at settled
  obtain failed | ⟨vma, allows, served⟩ := resolveFault_cases settled run
  · rw [failed]
    exact ⟨Bool.noConfusion, fun _ _ _ _ _ => rfl⟩
  · have permitted : permits (changed.entry space.pageTable.root addr) write user = true ↔
        (contains (machine.entry space.pageTable.root addr) PageFlags.present = true →
          permits (machine.entry space.pageTable.root addr) write user = true) := by
      rw [← entry_alignDown changed, ← entry_alignDown machine]
      obtain ⟨rfl, present⟩ | ⟨frame, demanded⟩ := served
      · -- A page that is present stays as it is.
        simp only [present, forall_const]
      · rw [demanded.entry, permits_fresh demanded.wasFree.lt allows.writeAllowed, demanded.absent]
        simp
    refine ⟨fun _ => ⟨?_, ?_⟩, ?_⟩
    · rintro ⟨other, found, right, isUser, holds⟩
      obtain ⟨housed, reads⟩ := (allows.rights_iff other).mp ⟨right, isUser⟩
      exact ⟨⟨other, found, housed, reads⟩, permitted.mp holds⟩
    · rintro ⟨⟨other, found, housed, reads⟩, ready⟩
      obtain ⟨right, isUser⟩ := (allows.rights_iff other).mpr ⟨housed, reads⟩
      exact ⟨other, found, right, isUser, permitted.mpr ready⟩
    · intro other _ found isWrite forbidden
      cases found.symm.trans allows.found
      rw [allows.writeAllowed isWrite] at forbidden
      cases forbidden

/-- A private area of one page. -/
def area (start : Nat) (prot : ProtFlags) : Vma :=
  Vma.new start pageSize prot MmapFlags.private_ .anonymous

/-- A new address space with one page of a given protection, which has no frame yet. -/
def onePage (prot : ProtFlags) : AddressSpace :=
  { newSpace.1 with vma := (newSpace.1.vma.insert (area userAddrMin prot)).2 }

/-- A read that the area allows is granted. -/
theorem read_granted :
    ∃ outcome changed, resolveFault (onePage (ProtFlags.read ||| ProtFlags.user)) 0x10ABC
        false true newSpace.2 = (outcome, changed) ∧ outcome.succeeds = true ∧
      Granted (onePage (ProtFlags.read ||| ProtFlags.user)) 0x10ABC false true changed := by
  rcases run : resolveFault (onePage (ProtFlags.read ||| ProtFlags.user)) 0x10ABC false true
    newSpace.2 with ⟨outcome, changed⟩
  have succeeds : outcome.succeeds = true := by
    have known : (resolveFault (onePage (ProtFlags.read ||| ProtFlags.user)) 0x10ABC false true
        newSpace.2).1.succeeds = true := by decide
    rwa [run] at known
  have settled : newSpace.2.Settled (onePage (ProtFlags.read ||| ProtFlags.user)).pageTable.root
      (tablePath 0x10ABC) :=
    newSpace_exclusive.paged.settled (Set.mem_singleton newSpace.1.pageTable.root) _
  have granted := (resolveFault_granted_iff settled run).1 succeeds
  refine ⟨outcome, changed, rfl, succeeds, granted.mpr ⟨⟨area userAddrMin
    (ProtFlags.read ||| ProtFlags.user), by decide, .inl (by decide), by decide⟩, ?_⟩⟩
  intro present
  exact absurd present (by decide)

/-- Two areas that do not start at a page, of which only the first one may be written. -/
def unaligned : AddressSpace :=
  let first := area 0x1F800 (ProtFlags.read ||| ProtFlags.write ||| ProtFlags.user)
  let second := area 0x20800 (ProtFlags.read ||| ProtFlags.user)
  { newSpace.1 with vma := ((newSpace.1.vma.insert first).2.insert second).2 }

/-- A read and a write that the area of the address does not allow are granted as well. -/
theorem forbidden_access_succeeds :
    ((resolveFault (onePage ProtFlags.user) userAddrMin false true newSpace.2).1.succeeds = true ∧
      ¬ Granted (onePage ProtFlags.user) userAddrMin false true
        (resolveFault (onePage ProtFlags.user) userAddrMin false true newSpace.2).2) ∧
    (resolveFault unaligned 0x20900 true true newSpace.2).1.succeeds = true ∧
      ¬ Granted unaligned 0x20900 true true
        (resolveFault unaligned 0x20900 true true newSpace.2).2 := by
  refine ⟨⟨by decide, ?_⟩, by decide, ?_⟩
  · rintro ⟨vma, found, right, -⟩
    have known : (onePage ProtFlags.user).vma.find userAddrMin =
        some (area userAddrMin ProtFlags.user) := by decide
    cases found.symm.trans known
    exact absurd right (by decide)
  · rintro ⟨vma, found, right, -⟩
    have known : unaligned.vma.find 0x20900 =
        some (area 0x20800 (ProtFlags.read ||| ProtFlags.user)) := by decide
    cases found.symm.trans known
    exact absurd right (by decide)

end TheoryKernel.Mm.Fault
