import TheoryKernel.Mm.Cow

/-! What the kernel does about an access that the page table does not permit. -/

namespace TheoryKernel.Mm

open Machine

/-- How the handling of a page fault ends. -/
inductive PageFaultOutcome where
  | handled
  | cowBroken
  | demandPaged
  | protectionViolation
  | badAddress
  deriving DecidableEq, Repr

/-- Whether the access is tried again. -/
def PageFaultOutcome.succeeds : PageFaultOutcome → Bool
  | .handled | .cowBroken | .demandPaged => true
  | .protectionViolation | .badAddress => false

namespace Fault

/-- A new frame of zeros for a page. -/
def demandPage (table : PageTable) (virt : Nat) (prot : ProtFlags) (machine : Machine) :
    PageFaultOutcome × Machine :=
  match machine.allocFrame with
  | none => (.protectionViolation, machine)
  | some (frame, allocated) =>
    match table.mapPage virt (physOf frame) (PageFlags.fromProt prot true)
        (allocated.zeroFrame frame) with
    | (.ok _, mapped) => (.demandPaged, mapped)
    | (.error _, mapped) => (.protectionViolation, mapped.freeFrame frame)

/-- The handling of a fault on a page of an area that allows the access. -/
def servePage (table : PageTable) (page : Nat) (write : Bool) (prot : ProtFlags)
    (machine : Machine) : PageFaultOutcome × Machine :=
  match table.getFlags page machine with
  | some flags =>
    if contains flags PageFlags.cow && write then
      match Cow.breakCow table page flags machine with
      | (some _, machine) => (.cowBroken, machine)
      | (none, machine) => (.protectionViolation, machine)
    else if contains flags PageFlags.softwareDemand || !contains flags PageFlags.present then
      demandPage table page prot machine
    else if contains flags PageFlags.present then (.handled, machine)
    else demandPage table page prot machine
  | none => demandPage table page prot machine

/-- The handling of a page fault. -/
def resolveFault (space : AddressSpace) (addr : Nat) (write user : Bool) (machine : Machine) :
    PageFaultOutcome × Machine :=
  let page := alignDown addr pageSize
  match space.vma.find page with
  | none => (.badAddress, machine)
  | some vma =>
    if user && !contains vma.prot ProtFlags.user then (.protectionViolation, machine)
    else if write && !contains vma.prot ProtFlags.write &&
        !Cow.isCow ((space.pageTable.getFlags page machine).getD 0) then
      (.protectionViolation, machine)
    else servePage space.pageTable page write vma.prot machine

end Fault

namespace PageFlags

variable (prot : ProtFlags)

/-- The pages of an area are present. -/
@[simp] theorem fromProt_present : contains (fromProt prot true) present = true := by
  simp only [fromProt, Bool.true_or, if_true]
  cases contains prot ProtFlags.write <;> cases contains prot ProtFlags.exec <;> decide

/-- The pages of an area can be reached by the user. -/
@[simp] theorem fromProt_user : contains (fromProt prot true) user = true := by
  simp only [fromProt, Bool.true_or, if_true]
  cases contains prot ProtFlags.write <;> cases contains prot ProtFlags.exec <;> decide

/-- The pages of an area can be written if its protection says so. -/
@[simp] theorem fromProt_writable :
    contains (fromProt prot true) writable = contains prot ProtFlags.write := by
  simp only [fromProt, Bool.true_or, if_true]
  cases contains prot ProtFlags.write <;> cases contains prot ProtFlags.exec <;> decide

/-- The pages of an area can be executed if its protection says so. -/
@[simp] theorem fromProt_noExecute :
    contains (fromProt prot true) noExecute = !contains prot ProtFlags.exec := by
  simp only [fromProt, Bool.true_or, if_true]
  cases contains prot ProtFlags.write <;> cases contains prot ProtFlags.exec <;> decide

end PageFlags

namespace Fault

variable {space : AddressSpace} {table : PageTable} {machine changed : Machine}
  {virt page addr : Nat} {prot : ProtFlags} {write user : Bool} {outcome : PageFaultOutcome}

/-- A page that was not present has got a frame that was free. -/
structure Demanded (machine changed : Machine) (root virt : Nat) (prot : ProtFlags) (frame : Nat) :
    Prop where
  absent : contains (machine.entry root virt) PageFlags.present = false
  wasFree : machine.Free frame
  entry : changed.entry root virt = physOf frame ||| PageFlags.fromProt prot true

theorem demandPage_cases (settled : machine.Settled table.root (tablePath virt))
    (run : demandPage table virt prot machine = (outcome, changed)) :
    (∃ frame, Demanded machine changed table.root virt prot frame) ∨
      outcome = .protectionViolation := by
  unfold demandPage at run
  cases served : machine.allocFrame with
  | none =>
    rw [served] at run
    cases run
    exact .inr rfl
  | some found =>
    obtain ⟨frame, allocated⟩ := found
    rw [served] at run
    dsimp only at run
    -- Clearing the new frame changes nothing on the way to the entry.
    have alloc := allocFrame_some served
    obtain ⟨still, same⟩ := settled.fill alloc
      (show (allocated.zeroFrame frame).frames = allocated.frames from rfl) alloc.cleared.memory
    cases mapping : table.mapPage virt (physOf frame) (PageFlags.fromProt prot true)
        (allocated.zeroFrame frame) with
    | mk result mapped =>
      rw [mapping] at run
      cases result with
      | ok value =>
        cases run
        obtain ⟨absent, entry⟩ := PageTable.mapPage_settled still mapping
        rw [same] at absent
        exact .inl ⟨frame, absent, alloc.wasFree, entry⟩
      | error error =>
        cases run
        exact Or.inr rfl

theorem breakCow_none (settled : machine.Settled table.root (tablePath virt)) (flags : PageFlags) :
    (Cow.breakCow table virt flags machine).1 = none := by
  unfold Cow.breakCow
  rw [PageTable.resolve_eq]
  by_cases present : contains (machine.entry table.root virt) PageFlags.present = true
  · rw [if_pos present]
    dsimp only
    cases served : machine.allocFrame with
    | none => rfl
    | some found =>
      obtain ⟨frame, allocated⟩ := found
      dsimp only
      have alloc := allocFrame_some served
      -- The copy goes to a free frame, so the page is still present afterwards.
      generalize filling : allocated.copyFrame
        ((machine.entry table.root virt &&& physMask).toNat / pageSize) frame = filled
      have others : ∀ other, other ≠ frame → filled.memory other = machine.memory other := by
        intro other apart
        rw [← alloc.memory, ← filling]
        exact Function.update_of_ne apart _ _
      have frames : filled.frames = allocated.frames := by rw [← filling]; rfl
      obtain ⟨still, same⟩ := settled.fill alloc frames others
      cases mapping : table.mapPage virt (physOf frame) (Cow.brokenFlags flags) filled with
      | mk result mapped =>
        cases result with
        | ok value =>
          have absent := (PageTable.mapPage_settled still mapping).1
          rw [same, present] at absent
          cases absent
        | error error => rfl
  · rw [if_neg present]

theorem servePage_of_cow (prot : ProtFlags)
    (settled : machine.Settled table.root (tablePath page))
    (cow : contains (machine.entry table.root page) PageFlags.cow = true) :
    (servePage table page true prot machine).1 = .protectionViolation := by
  have nonzero : machine.entry table.root page ≠ 0 := by
    intro blank
    rw [blank] at cow
    exact absurd cow (by decide)
  have flags : contains (PageFlags.fromBitsTruncate (machine.entry table.root page))
      PageFlags.cow = true := by
    rwa [contains_truncate (by decide)]
  have broken := breakCow_none settled
    (PageFlags.fromBitsTruncate (machine.entry table.root page))
  rw [servePage, PageTable.getFlags_eq, if_neg nonzero]
  dsimp only
  rw [flags, Bool.and_true, if_pos rfl]
  split
  · rename_i run
    rw [run] at broken
    cases broken
  · rfl

theorem servePage_of_plain
    (plain : write = true → contains (machine.entry table.root page) PageFlags.cow = false) :
    servePage table page write prot machine =
      if contains (machine.entry table.root page) PageFlags.present &&
          !contains (machine.entry table.root page) PageFlags.softwareDemand then
        (.handled, machine)
      else demandPage table page prot machine := by
  rw [servePage, PageTable.getFlags_eq]
  by_cases blank : machine.entry table.root page = 0
  · rw [if_pos blank, blank]
    rfl
  · rw [if_neg blank]
    dsimp only
    rw [contains_truncate (by decide), contains_truncate (by decide),
      contains_truncate (by decide)]
    have other : (contains (machine.entry table.root page) PageFlags.cow && write) = false := by
      cases write with
      | false => rw [Bool.and_false]
      | true => rw [plain rfl, Bool.false_and]
    rw [other, if_neg Bool.false_ne_true]
    cases contains (machine.entry table.root page) PageFlags.softwareDemand with
    | true => simp
    | false => cases contains (machine.entry table.root page) PageFlags.present <;> simp

theorem isCow_getFlags :
    Cow.isCow ((table.getFlags page machine).getD 0) =
      contains (machine.entry table.root page) PageFlags.cow := by
  rw [PageTable.getFlags_eq]
  split
  · rename_i blank
    rw [blank]
    rfl
  · exact contains_truncate (by decide)

/-- An area allows an access that is not a write to a shared page. -/
structure Allows (space : AddressSpace) (vma : Vma) (page : Nat) (write user : Bool)
    (machine : Machine) : Prop where
  found : space.vma.find page = some vma
  userAllowed : user = true → contains vma.prot ProtFlags.user = true
  writeAllowed : write = true → contains vma.prot ProtFlags.write = true
  plain : write = true → contains (machine.entry space.pageTable.root page) PageFlags.cow = false

/-- An access that is not allowed is refused. -/
theorem resolveFault_of_refused
    (settled : machine.Settled space.pageTable.root (tablePath (alignDown addr pageSize)))
    (refused : ∀ vma, ¬ Allows space vma (alignDown addr pageSize) write user machine) :
    (resolveFault space addr write user machine).1.succeeds = false := by
  unfold resolveFault
  dsimp only
  cases found : space.vma.find (alignDown addr pageSize) with
  | none => rfl
  | some vma =>
    dsimp only
    split
    · rfl
    · rename_i userAllowed
      split
      · rfl
      · rename_i writeAllowed
        -- All that is left is a write to a shared page.
        by_cases cow : write = true ∧
            contains (machine.entry space.pageTable.root (alignDown addr pageSize))
              PageFlags.cow = true
        · rw [cow.1, servePage_of_cow vma.prot settled cow.2]
          rfl
        · have plain : write = true →
              contains (machine.entry space.pageTable.root (alignDown addr pageSize))
                PageFlags.cow = false :=
            fun isWrite => Bool.eq_false_iff.mpr fun isCow => cow ⟨isWrite, isCow⟩
          rw [isCow_getFlags] at writeAllowed
          refine absurd ⟨found, ?_, ?_, plain⟩ (refused vma)
          · intro isUser
            simpa [isUser] using userAllowed
          · intro isWrite
            simpa [isWrite, plain isWrite] using writeAllowed

/-- What the handling of a fault can do. -/
theorem resolveFault_cases
    (settled : machine.Settled space.pageTable.root (tablePath (alignDown addr pageSize)))
    (run : resolveFault space addr write user machine = (outcome, changed)) :
    outcome.succeeds = false ∨
      ∃ vma, Allows space vma (alignDown addr pageSize) write user machine ∧
        ((changed = machine ∧
            contains (machine.entry space.pageTable.root (alignDown addr pageSize))
              PageFlags.present = true) ∨
          ∃ frame, Demanded machine changed space.pageTable.root (alignDown addr pageSize)
            vma.prot frame) := by
  by_cases allowed : ∃ vma, Allows space vma (alignDown addr pageSize) write user machine
  · obtain ⟨vma, allows⟩ := allowed
    have isUser : (user && !contains vma.prot ProtFlags.user) = false := by
      cases user with
      | false => rfl
      | true => rw [allows.userAllowed rfl]; rfl
    have isWrite : (write && !contains vma.prot ProtFlags.write) = false := by
      cases write with
      | false => rfl
      | true => rw [allows.writeAllowed rfl]; rfl
    rw [resolveFault, allows.found] at run
    dsimp only at run
    rw [isUser, isWrite, if_neg Bool.false_ne_true, Bool.false_and, if_neg Bool.false_ne_true,
      servePage_of_plain allows.plain] at run
    split at run
    · rename_i ready
      rw [Bool.and_eq_true] at ready
      cases run
      exact .inr ⟨vma, allows, .inl ⟨rfl, ready.1⟩⟩
    · obtain demanded | rfl := demandPage_cases settled run
      · exact .inr ⟨vma, allows, .inr demanded⟩
      · exact .inl rfl
  · have refused := resolveFault_of_refused settled (not_exists.mp allowed)
    rw [run] at refused
    exact .inl refused

end Fault

end TheoryKernel.Mm
