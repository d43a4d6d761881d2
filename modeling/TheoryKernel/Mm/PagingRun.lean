import TheoryKernel.Mm.PagingMap

/-! Sequences of table operations, and what the last successful one on a page stored. -/

namespace TheoryKernel.Mm

open Machine PageTable

/-- A physical address that is page aligned and below 2^52. -/
abbrev PhysAddr : Type := {phys : BitVec 64 // IsPhys phys}

/-- Flags that all have a meaning. -/
abbrev KnownFlags : Type := {flags : PageFlags // PageFlags.fromBitsTruncate flags = flags}

/-- The flags of a page that is to be mapped on its first use. -/
def KnownFlags.demand (flags : KnownFlags) : KnownFlags where
  val := (flags.val ||| PageFlags.softwareDemand) &&& ~~~PageFlags.present
  property := by
    have known : flags.val &&& PageFlags.all = flags.val := flags.property
    have demand : PageFlags.softwareDemand &&& PageFlags.all = PageFlags.softwareDemand := by decide
    unfold PageFlags.fromBitsTruncate
    rw [BitVec.and_assoc, BitVec.and_comm (~~~PageFlags.present), ← BitVec.and_assoc,
      BitVec.and_or_distrib_right, known, demand]

/-- What is stored for a page. -/
structure Stored where
  phys : PhysAddr
  flags : KnownFlags

namespace Stored

/-- The entry that holds an address and flags. -/
def word (stored : Stored) : BitVec 64 := stored.phys.val ||| stored.flags.val

/-- What a translation of the page returns: the address and the flags of a present page. -/
def resolve (stored : Stored) : Option (BitVec 64 × PageFlags) :=
  if contains stored.flags.val PageFlags.present then some (stored.phys.val, stored.flags.val)
  else none

/-- What a request for the flags returns, where an entry without any bit is none. -/
def getFlags (stored : Stored) : Option PageFlags :=
  if stored.phys.val = 0 ∧ stored.flags.val = 0 then none else some stored.flags.val

variable (stored : Stored)

theorem isFlags : IsFlags stored.flags.val := by
  have truncated := isFlags_truncate stored.flags.val
  rwa [stored.flags.property] at truncated

theorem word_phys : stored.word &&& physMask = stored.phys.val :=
  and_physMask_entry stored.phys.property stored.isFlags

theorem word_flags : PageFlags.fromBitsTruncate stored.word = stored.flags.val := by
  have known : stored.flags.val &&& PageFlags.all = stored.flags.val := stored.flags.property
  have isPhys : stored.phys.val &&& physMask = stored.phys.val := stored.phys.property
  have apart : physMask &&& PageFlags.all = 0#64 := by decide
  -- The address has no bit in common with the flags.
  have none : stored.phys.val &&& PageFlags.all = 0#64 := by
    rw [← isPhys, BitVec.and_assoc, apart, BitVec.and_zero]
  unfold PageFlags.fromBitsTruncate word
  rw [BitVec.and_or_distrib_right, known, none, BitVec.zero_or]

theorem word_present :
    contains stored.word PageFlags.present = contains stored.flags.val PageFlags.present :=
  contains_entry stored.phys.property (by unfold IsFlags; decide)

theorem word_eq_zero : stored.word = 0 ↔ stored.phys.val = 0 ∧ stored.flags.val = 0 := by
  constructor
  · intro blank
    have phys := stored.word_phys
    have flags := stored.word_flags
    rw [blank] at phys flags
    exact ⟨phys.symm.trans (by decide), flags.symm.trans (by decide)⟩
  · rintro ⟨phys, flags⟩
    rw [word, phys, flags]
    rfl

end Stored

/-- The entry of a page for which something or nothing is stored. -/
def storedWord : Option Stored → BitVec 64
  | some stored => stored.word
  | none => 0

/-- The operations that change a page table. -/
inductive TableOp where
  | map (virt : Nat) (phys : PhysAddr) (flags : KnownFlags)
  | mapDemand (virt : Nat) (flags : KnownFlags)
  | unmap (virt : Nat)
  | setFlags (virt : Nat) (flags : KnownFlags)

namespace TableOp

/-- The address that an operation is about. -/
def virt : TableOp → Nat
  | .map virt _ _ => virt
  | .mapDemand virt _ => virt
  | .unmap virt => virt
  | .setFlags virt _ => virt

/-- What a successful operation stores, given what was stored before. -/
def effect : TableOp → Option Stored → Option Stored
  | .map _ phys flags, _ => some ⟨phys, flags⟩
  | .mapDemand _ flags, _ => some ⟨⟨0, by unfold IsPhys; decide⟩, flags.demand⟩
  | .unmap _, _ => none
  | .setFlags _ flags, before => before.map fun stored => ⟨stored.phys, flags⟩

/-- An operation on a table, with whether it succeeded. -/
def apply (table : PageTable) : TableOp → Machine → Bool × Machine
  | .map virt phys flags, machine =>
    let (outcome, changed) := table.mapPage virt phys.val flags.val machine
    (outcome.isOk, changed)
  | .mapDemand virt flags, machine =>
    let (outcome, changed) := table.mapPageDemand virt flags.val machine
    (outcome.isOk, changed)
  | .unmap virt, machine =>
    let (outcome, changed) := table.unmapPage virt machine
    (outcome.isOk, changed)
  | .setFlags virt flags, machine =>
    let (outcome, changed) := table.setFlags virt flags.val machine
    (outcome.isOk, changed)

theorem apply_cases {op : TableOp} {table : PageTable} {machine changed : Machine}
    {roots : Set Nat} {succeeded : Bool} {before : Option Stored} (paged : machine.Paged roots)
    (inRoots : table.root ∈ roots) (holds : machine.entry table.root op.virt = storedWord before)
    (applied : op.apply table machine = (succeeded, changed)) :
    (succeeded = true ∧
        Stores machine changed roots table.root op.virt (storedWord (op.effect before))) ∨
      (succeeded = false ∧ Keeps machine changed roots) := by
  cases op with
  | map virt phys flags =>
    cases run : table.mapPage virt phys.val flags.val machine with
    | mk outcome after =>
      rw [apply, run] at applied
      cases applied
      obtain ⟨rfl, -, stores⟩ | ⟨⟨_, rfl⟩, keeps⟩ := mapPage_cases paged inRoots run
      · exact .inl ⟨rfl, stores⟩
      · exact .inr ⟨rfl, keeps⟩
  | mapDemand virt flags =>
    cases run : table.mapPageDemand virt flags.val machine with
    | mk outcome after =>
      rw [apply, run] at applied
      cases applied
      obtain ⟨rfl, stores⟩ | ⟨rfl, keeps⟩ := mapPageDemand_cases paged inRoots run
      · -- The address of a reserved page is zero.
        refine .inl ⟨rfl, ?_⟩
        have noAddress : storedWord (effect (.mapDemand virt flags) before) = flags.demand.val :=
          BitVec.zero_or
        rw [noAddress]
        exact stores
      · exact .inr ⟨rfl, keeps⟩
  | unmap virt =>
    cases run : table.unmapPage virt machine with
    | mk outcome after =>
      rw [apply, run] at applied
      cases applied
      obtain ⟨rfl, stores⟩ | ⟨rfl, rfl⟩ := unmapPage_cases paged inRoots run
      · exact .inl ⟨rfl, stores⟩
      · exact .inr ⟨rfl, .refl paged⟩
  | setFlags virt flags =>
    cases run : table.setFlags virt flags.val machine with
    | mk outcome after =>
      rw [apply, run] at applied
      cases applied
      obtain ⟨rfl, occupied, stores⟩ | ⟨rfl, -, rfl⟩ := setFlags_cases paged inRoots run
      · refine .inl ⟨rfl, ?_⟩
        cases before with
        | none => exact absurd holds occupied
        | some stored =>
          have address : machine.entry table.root virt &&& physMask = stored.phys.val := by
            rw [← stored.word_phys]
            exact congrArg (· &&& physMask) holds
          rw [address] at stores
          exact stores
      · exact .inr ⟨rfl, .refl paged⟩

end TableOp

/-- What the last successful operation on a page stored, where the log has the latest first. -/
def lastStored (page : Nat) : List (TableOp × Bool) → Option Stored
  | [] => none
  | (op, succeeded) :: earlier =>
    if succeeded = true ∧ pageNumber op.virt = page then op.effect (lastStored page earlier)
    else lastStored page earlier

/-- Other code leaves the frames of a page table alone: it neither frees nor writes them. -/
def Undisturbed (table : PageTable) (machine changed : Machine) : Prop :=
  ∀ frame ∈ machine.tables {table.root},
    changed.Used frame ∧ changed.memory frame = machine.memory frame

/-- Operations on a table, one after another, with other code running in between. -/
inductive TableRun (table : PageTable) (start : Machine) :
    List (TableOp × Bool) → Machine → Prop where
  | start : TableRun table start [] start
  | other {log machine changed} : TableRun table start log machine →
      Undisturbed table machine changed → TableRun table start log changed
  | step {log machine} (op : TableOp) : TableRun table start log machine →
      TableRun table start ((op, (op.apply table machine).1) :: log) (op.apply table machine).2

/-- The entries are those that the last successful operations stored. -/
structure Recorded (table : PageTable) (log : List (TableOp × Bool)) (machine : Machine) :
    Prop where
  paged : machine.Paged {table.root}
  entries : ∀ virt, machine.entry table.root virt = storedWord (lastStored (pageNumber virt) log)

namespace Recorded

variable {table : PageTable} {log : List (TableOp × Bool)} {machine changed : Machine}

variable (recorded : Recorded table log machine)

include recorded

theorem other (undisturbed : Undisturbed table machine changed) : Recorded table log changed := by
  have same : ∀ frame ∈ machine.tables {table.root},
      changed.memory frame = machine.memory frame := fun frame inside => (undisturbed frame inside).2
  have tables : changed.tables {table.root} = machine.tables {table.root} :=
    (RadixTable.sameWalks_outside same).tables
  refine ⟨⟨(RadixTable.sameWalks_outside same).forest recorded.paged.forest, ?_⟩, ?_⟩
  · rw [tables]
    exact fun frame inside => (undisturbed frame inside).1
  · intro virt
    rw [← recorded.entries virt]
    exact RadixTable.lookup_outside same rfl (Nat.le_refl 3)

theorem step (op : TableOp) :
    Recorded table ((op, (op.apply table machine).1) :: log) (op.apply table machine).2 := by
  generalize applied : op.apply table machine = result
  obtain ⟨succeeded, changed⟩ := result
  obtain ⟨rfl, stores⟩ | ⟨rfl, keeps⟩ :=
    TableOp.apply_cases recorded.paged rfl (recorded.entries op.virt) applied
  · refine ⟨stores.paged, ?_⟩
    intro virt
    rw [stores.entries table.root rfl virt, lastStored]
    by_cases here : pageNumber virt = pageNumber op.virt
    · rw [if_pos ⟨rfl, here⟩, if_pos ⟨rfl, here.symm⟩, here]
    · rw [if_neg fun both => here both.2, if_neg fun both => here both.2.symm]
      exact recorded.entries virt
  · refine ⟨keeps.paged, ?_⟩
    intro virt
    rw [keeps.entries table.root rfl virt, lastStored, if_neg (by simp)]
    exact recorded.entries virt

theorem resolve (virt : Nat) :
    table.resolve virt machine = (lastStored (pageNumber virt) log).bind Stored.resolve := by
  rw [resolve_eq, recorded.entries virt]
  cases lastStored (pageNumber virt) log with
  | none => rfl
  | some stored =>
    rw [storedWord, stored.word_present, stored.word_phys, stored.word_flags]
    rfl

theorem getFlags (virt : Nat) :
    table.getFlags virt machine = (lastStored (pageNumber virt) log).bind Stored.getFlags := by
  rw [getFlags_eq, recorded.entries virt]
  cases lastStored (pageNumber virt) log with
  | none => rfl
  | some stored =>
    simp only [storedWord, stored.word_eq_zero, stored.word_flags]
    rfl

end Recorded

/--
A page table is a finite map.

A page reads as what the last successful operation on it stored, and an operation changes
nothing for other pages, and nothing at all if it fails.
-/
theorem table_is_finite_map {table : PageTable} {before start machine : Machine}
    {log : List (TableOp × Bool)} (created : newEmpty before = some (table, start))
    (run : TableRun table start log machine) :
    (∀ virt,
      table.resolve virt machine = (lastStored (pageNumber virt) log).bind Stored.resolve ∧
      table.getFlags virt machine = (lastStored (pageNumber virt) log).bind Stored.getFlags) ∧
    ∀ (op : TableOp) (virt : Nat),
      pageNumber virt ≠ pageNumber op.virt ∨ (op.apply table machine).1 = false →
      table.resolve virt (op.apply table machine).2 = table.resolve virt machine ∧
      table.getFlags virt (op.apply table machine).2 = table.getFlags virt machine := by
  have recorded : Recorded table log machine := by
    induction run with
    | start =>
      have nothing : before.Paged ∅ :=
        ⟨fun _ inRoots => inRoots.elim, fun _ ⟨_, inRoots, _⟩ => inRoots.elim⟩
      obtain ⟨paged, blank⟩ := newEmpty_some nothing created
      rw [insert_empty_eq] at paged
      exact ⟨paged, blank⟩
    | other run undisturbed recorded => exact recorded.other undisturbed
    | step op run recorded => exact recorded.step op
  refine ⟨fun virt => ⟨recorded.resolve virt, recorded.getFlags virt⟩, ?_⟩
  intro op virt elsewhere
  have next := recorded.step op
  -- The record of the page is the same with and without the operation.
  have same : lastStored (pageNumber virt) ((op, (op.apply table machine).1) :: log) =
      lastStored (pageNumber virt) log := by
    rw [lastStored, if_neg]
    rintro ⟨succeeded, here⟩
    rcases elsewhere with apart | failed
    · exact apart here.symm
    · rw [succeeded] at failed
      cases failed
  constructor
  · rw [next.resolve virt, recorded.resolve virt, same]
  · rw [next.getFlags virt, recorded.getFlags virt, same]

/-- A machine with 64 free frames that hold arbitrary words. -/
def dirtyMachine : Machine where
  frames := ⟨Phys.FrameBitmap.new 1 64, Nat.le_refl 64, by decide⟩
  memory := fun frame slot => BitVec.ofNat 64 (4096 * frame + slot + 1)

/-- A page is mapped, its flags are changed, and a second mapping of it fails. -/
theorem table_is_finite_map_remapped :
    ∃ table start log machine, newEmpty dirtyMachine = some (table, start) ∧
      TableRun table start log machine ∧ log.map Prod.snd = [false, true, true] ∧
      table.resolve 0x400FFF machine = some (0x9000, 0x5) ∧
      table.resolve 0x401000 machine = none := by
  have enough : (newEmpty dirtyMachine).isSome = true := by decide +kernel
  let created := (newEmpty dirtyMachine).getD (⟨0⟩, dirtyMachine)
  have isCreated : newEmpty dirtyMachine = some created := by
    obtain ⟨served, attempt⟩ := Option.isSome_iff_exists.mp enough
    simp only [created, attempt, Option.getD_some]
  let first : PhysAddr := ⟨0x9000, by unfold IsPhys; decide⟩
  have blank : TableRun created.1 created.2 [] created.2 := .start
  have run := ((blank.step (.map 0x400000 first ⟨0x7, by decide⟩)).step
    (.setFlags 0x400123 ⟨0x5, by decide⟩)).step (.map 0x400000 first ⟨0x3, by decide⟩)
  obtain ⟨reads, -⟩ := table_is_finite_map isCreated run
  refine ⟨_, _, _, _, isCreated, run, by decide +kernel, ?_, ?_⟩
  · exact (reads 0x400FFF).1.trans (by decide +kernel)
  · exact (reads 0x401000).1.trans (by decide +kernel)

end TheoryKernel.Mm
