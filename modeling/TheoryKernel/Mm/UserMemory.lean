import TheoryKernel.Mm.PagingMap
import TheoryKernel.Mm.PhysBytes

/-! The bytes of a program, which its page table spreads over physical memory. -/

namespace TheoryKernel.Mm

open Machine ByteMemory PageTable

namespace PageTable

variable {table : PageTable} {machine changed : Machine} {virt other phys count : Nat}
  {bytes : Nat → BitVec 8}

/-- The physical address behind a virtual one. -/
def translate (table : PageTable) (virt : Nat) (machine : Machine) : Option Nat :=
  (table.resolve virt machine).map fun found => found.1.toNat + virt % pageSize

/-- The byte at a virtual address. -/
def userByte (table : PageTable) (virt : Nat) (machine : Machine) : Option (BitVec 8) :=
  (table.translate virt machine).map machine.physByte

/-- The memory as a program sees it, where what is not mapped reads as zero. -/
def userMemory (table : PageTable) (machine : Machine) : Memory :=
  fun virt => (table.userByte virt machine).getD 0

theorem resolve_congr (same : virt / pageSize = other / pageSize) :
    table.resolve virt machine = table.resolve other machine := by
  have samePage : pageNumber virt = pageNumber other := by
    unfold pageNumber
    unfold pageSize at same
    omega
  rw [resolve_eq, resolve_eq, entry_congr samePage]

/-- The address of a page translates like the addresses on it. -/
theorem resolve_alignDown :
    table.resolve (alignDown virt pageSize) machine = table.resolve virt machine := by
  apply resolve_congr
  unfold alignDown pageSize
  omega

theorem resolve_aligned {found : BitVec 64 × PageFlags}
    (resolved : table.resolve virt machine = some found) : found.1.toNat % pageSize = 0 := by
  rw [resolve_eq] at resolved
  split at resolved
  · cases resolved
    generalize machine.entry table.root virt = value
    have cleared : (value &&& physMask) &&& 4095#64 = 0#64 := by
      have low : physMask &&& 4095#64 = 0#64 := by decide
      rw [BitVec.and_assoc, low, BitVec.and_zero]
    have number : (value &&& physMask).toNat &&& (2 ^ 12 - 1) = 0 := by
      have whole := congrArg BitVec.toNat cleared
      rwa [BitVec.toNat_and] at whole
    rwa [Nat.and_two_pow_sub_one_eq_mod] at number
  · cases resolved

variable (found : table.translate virt machine = some phys)

include found

/-- The bytes behind an address up to the end of its page follow each other in memory. -/
theorem translate_add (within : virt % pageSize + count < pageSize) :
    table.translate (virt + count) machine = some (phys + count) := by
  obtain ⟨target, resolved, rfl⟩ := Option.map_eq_some_iff.mp found
  have same : (virt + count) / pageSize = virt / pageSize := by
    unfold pageSize at *
    omega
  have offset : (virt + count) % pageSize = virt % pageSize + count := by
    unfold pageSize at *
    omega
  rw [translate, resolve_congr same, resolved, Option.map_some, offset, Nat.add_assoc]

/-- An address and its translation have the same place on their page and in their frame. -/
theorem translate_mod : phys % pageSize = virt % pageSize := by
  obtain ⟨target, resolved, rfl⟩ := Option.map_eq_some_iff.mp found
  have aligned := resolve_aligned resolved
  unfold pageSize at *
  omega

/-- A frame is behind a page of the table. -/
def Maps (table : PageTable) (frame : Nat) (machine : Machine) : Prop :=
  ∃ virt, table.translate virt machine = some (frame * pageSize)

/-- The frame of an address that is mapped is behind a page. -/
theorem maps_of_translate : table.Maps (phys / pageSize) machine := by
  obtain ⟨target, resolved, rfl⟩ := Option.map_eq_some_iff.mp found
  have aligned := resolve_aligned resolved
  refine ⟨alignDown virt pageSize, ?_⟩
  rw [translate, resolve_alignDown, resolved, Option.map_some]
  unfold alignDown pageSize at *
  congr 1
  omega

end PageTable

namespace Machine

variable {machine : Machine} {roots : Set Nat} {root virt addr length : Nat}
  {bytes : Nat → BitVec 8}

/-- A range of physical addresses that no page table reaches into. -/
def ClearOf (machine : Machine) (roots : Set Nat) (addr length : Nat) : Prop :=
  ∀ frame ∈ machine.tables roots, (frame + 1) * pageSize ≤ addr ∨ addr + length ≤ frame * pageSize

/-- A range is clear of the tables if none of its bytes is in one. -/
theorem clearOf (solid : 0 < length ∨ addr % pageSize = 0)
    (outside : ∀ phys, addr ≤ phys → phys < addr + length →
      phys / pageSize ∉ machine.tables roots) : machine.ClearOf roots addr length := by
  intro frame isTable
  by_contra overlaps
  -- The first byte that the range and the table share would be outside the tables.
  have first := outside (max addr (frame * pageSize))
  have inside : max addr (frame * pageSize) / pageSize = frame := by
    unfold pageSize at *
    omega
  rw [inside] at first
  unfold pageSize at *
  exact first (by omega) (by omega) isTable

variable (clear : machine.ClearOf roots addr length)

include clear

theorem storePhys_table :
    ∀ frame ∈ machine.tables roots,
      (machine.storePhys addr length bytes).memory frame = machine.memory frame :=
  fun frame isTable => storePhys_memory (clear frame isTable)

end Machine

/--
The pages of a range are mapped to frames of their own.

No byte of the range is in a page table, and no byte is reached from two addresses of the range.
-/
structure Backed (table : PageTable) (start stop : Nat) (machine : Machine) : Prop where
  mapped : ∀ virt, start ≤ virt → virt < stop → ∃ phys, table.translate virt machine = some phys ∧
    phys / pageSize ∉ machine.tables {table.root}
  apart : ∀ virt other, start ≤ virt → virt < stop → start ≤ other → other < stop → ∀ phys,
    table.translate virt machine = some phys → table.translate other machine = some phys →
      virt = other

/-- Bytes were written to a range of the program, and nothing else has changed. -/
structure Wrote (table : PageTable) (addr length : Nat) (bytes : Nat → BitVec 8)
    (machine changed : Machine) : Prop where
  frames : changed.frames = machine.frames
  tables : changed.tables {table.root} = machine.tables {table.root}
  translate : ∀ virt, table.translate virt changed = table.translate virt machine
  inside : ∀ index < length, table.userByte (addr + index) changed = some (bytes index)
  outside : ∀ phys, (∀ index < length, table.translate (addr + index) machine ≠ some phys) →
    changed.physByte phys = machine.physByte phys

section Write

variable {table : PageTable} {machine changed final : Machine}
  {start stop addr length more phys count : Nat} {bytes : Nat → BitVec 8}

/-- Part of a range is backed if the range is. -/
theorem Backed.mono {start' stop' : Nat} (backed : Backed table start stop machine)
    (low : start ≤ start') (high : stop' ≤ stop) : Backed table start' stop' machine where
  mapped := fun virt above below => backed.mapped virt (by omega) (by omega)
  apart := fun virt other above below above' below' =>
    backed.apart virt other (by omega) (by omega) (by omega) (by omega)

/-- What was backed before a write is backed after it. -/
theorem Backed.wrote (backed : Backed table start stop machine)
    (wrote : Wrote table addr length bytes machine changed) : Backed table start stop changed where
  mapped := by
    intro virt above below
    rw [wrote.translate virt, wrote.tables]
    exact backed.mapped virt above below
  apart := by
    intro virt other above below above' below' phys
    rw [wrote.translate virt, wrote.translate other]
    exact backed.apart virt other above below above' below' phys

/-- Writing nothing changes nothing. -/
theorem Wrote.nothing (table : PageTable) (addr : Nat) (bytes : Nat → BitVec 8)
    (machine : Machine) : Wrote table addr 0 bytes machine machine :=
  ⟨rfl, rfl, fun _ => rfl, fun _ impossible => absurd impossible (Nat.not_lt_zero _),
    fun _ _ => rfl⟩

/-- A write may be continued behind its end. -/
theorem Wrote.append (backed : Backed table addr (addr + (length + more)) machine)
    (first : Wrote table addr length bytes machine changed)
    (second : Wrote table (addr + length) more (fun index => bytes (length + index)) changed
      final) : Wrote table addr (length + more) bytes machine final where
  frames := second.frames.trans first.frames
  tables := second.tables.trans first.tables
  translate := fun virt => (second.translate virt).trans (first.translate virt)
  inside := by
    intro index within
    by_cases early : index < length
    · -- The second part does not reach the bytes of the first one.
      have written := first.inside index early
      obtain ⟨phys, found, kept⟩ := Option.map_eq_some_iff.mp written
      have missed : ∀ later < more, table.translate (addr + length + later) changed ≠ some phys := by
        intro later inRest again
        rw [first.translate] at found again
        have same := backed.apart (addr + index) (addr + length + later) (by omega) (by omega)
          (by omega) (by omega) phys found again
        omega
      rw [userByte, second.translate, found, Option.map_some,
        second.outside phys missed, kept]
    · have written := second.inside (index - length) (by omega)
      have place : addr + length + (index - length) = addr + index := by omega
      have offset : length + (index - length) = index := by omega
      rwa [place, offset] at written
  outside := by
    intro phys missed
    have early := first.outside phys fun index within => missed index (by omega)
    have late := second.outside phys fun index within => by
      rw [first.translate, Nat.add_assoc]
      exact missed (length + index) (by omega)
    rw [late, early]

/-- Bytes are written with a single store to addresses that follow each other in memory. -/
theorem wrote_row (bytes : Nat → BitVec 8) (positive : 0 < count)
    (row : ∀ index < count, table.translate (addr + index) machine = some (phys + index))
    (outside : ∀ index < count, (phys + index) / pageSize ∉ machine.tables {table.root}) :
    Wrote table addr count bytes machine (machine.storePhys phys count bytes) := by
  have clear : machine.ClearOf {table.root} phys count := by
    apply clearOf (.inl positive)
    intro other low high
    have missed := outside (other - phys) (by omega)
    rwa [Nat.add_sub_cancel' low] at missed
  have translate : ∀ virt,
      table.translate virt (machine.storePhys phys count bytes) = table.translate virt machine := by
    intro virt
    have same : (machine.storePhys phys count bytes).entry table.root virt =
        machine.entry table.root virt :=
      RadixTable.lookup_outside (storePhys_table clear) rfl (Nat.le_refl 3)
    rw [PageTable.translate, PageTable.translate, resolve_eq, resolve_eq, same]
  refine ⟨rfl, (RadixTable.sameWalks_outside (storePhys_table clear)).tables, translate, ?_, ?_⟩
  · intro index inside
    rw [userByte, translate, row index inside, Option.map_some, physByte_storePhys,
      if_pos (by omega), Nat.add_sub_cancel_left]
  · intro other missed
    rw [physByte_storePhys, if_neg]
    rintro ⟨low, high⟩
    apply missed (other - phys) (by omega)
    rw [row (other - phys) (by omega)]
    congr 1
    omega

/-- Bytes are written to one page with a single store. -/
theorem wrote_page (bytes : Nat → BitVec 8) (backed : Backed table addr (addr + count) machine)
    (positive : 0 < count) (found : table.translate addr machine = some phys)
    (within : addr % pageSize + count ≤ pageSize) :
    Wrote table addr count bytes machine (machine.storePhys phys count bytes) := by
  have row : ∀ index < count, table.translate (addr + index) machine = some (phys + index) :=
    fun index inside => translate_add found (by omega)
  apply wrote_row bytes positive row
  intro index inside
  obtain ⟨phys', found', outside⟩ := backed.mapped (addr + index) (by omega) (by omega)
  cases (row index inside).symm.trans found'
  exact outside

end Write

/--
The pages of a table are mapped to used frames of their own.

The frames hold no tables, and no frame is mapped to two pages.
-/
structure Exclusive (table : PageTable) (roots : Set Nat) (machine : Machine) : Prop where
  paged : machine.Paged roots
  inRoots : table.root ∈ roots
  used : ∀ virt phys, table.translate virt machine = some phys →
    machine.Used (phys / pageSize) ∧ phys / pageSize ∉ machine.tables roots
  apart : ∀ virt other phys, table.translate virt machine = some phys →
    table.translate other machine = some phys → pageNumber virt = pageNumber other

namespace Exclusive

variable {table : PageTable} {roots : Set Nat} {machine changed final : Machine}
  {virt frame : Nat} {flags : PageFlags}

/-- The entry decides about the translation. -/
theorem translate_eq (table : PageTable) (virt : Nat) (machine : Machine) :
    table.translate virt machine =
      if contains (machine.entry table.root virt) PageFlags.present then
        some ((machine.entry table.root virt &&& physMask).toNat + virt % pageSize)
      else none := by
  rw [PageTable.translate, resolve_eq]
  split <;> rfl

/-- Equal entries give equal translations. -/
theorem translate_congr (same : changed.entry table.root virt = machine.entry table.root virt) :
    table.translate virt changed = table.translate virt machine := by
  rw [translate_eq, translate_eq, same]

theorem translate_fresh (small : frame < 2 ^ 22) (isFlags : IsFlags flags)
    (present : contains flags PageFlags.present = true)
    (entry : machine.entry table.root virt = physOf frame ||| flags) :
    table.translate virt machine = some (frame * pageSize + virt % pageSize) := by
  have limited : frame < physFrames := by
    unfold physFrames
    omega
  have isPhys := isPhys_physOf limited
  have value : (physOf frame).toNat = frame * pageSize := by
    rw [physOf, BitVec.toNat_ofNat, pageSize]
    omega
  rw [translate_eq, entry, contains_entry isPhys (by unfold IsFlags; decide), present, if_pos rfl,
    and_physMask_entry isPhys isFlags, value]

/-- Frames that keep their pages keep them apart. -/
theorem grow (exclusive : Exclusive table roots machine) (grows : Grows machine changed roots)
    (same : ∀ virt, table.translate virt changed = table.translate virt machine) :
    Exclusive table roots changed where
  paged := grows.paged
  inRoots := exclusive.inRoots
  used := by
    intro virt phys found
    rw [same virt] at found
    obtain ⟨used, outside⟩ := exclusive.used virt phys found
    exact ⟨grows.used _ used, grows.not_table used outside⟩
  apart := by
    intro virt other phys found found'
    rw [same virt] at found
    rw [same other] at found'
    exact exclusive.apart virt other phys found found'

/-- A new table has no pages. -/
theorem of_newEmpty (paged : machine.Paged roots)
    (created : newEmpty machine = some (table, changed)) :
    Exclusive table (insert table.root roots) changed := by
  obtain ⟨paged', blank⟩ := newEmpty_some paged created
  have nothing : ∀ virt, table.translate virt changed = none := by
    intro virt
    have absent : contains (0 : BitVec 64) PageFlags.present = false := by decide
    rw [translate_eq, blank virt, absent]
    rfl
  refine ⟨paged', Set.mem_insert _ _, ?_, ?_⟩
  · intro virt phys found
    rw [nothing virt] at found
    cases found
  · intro virt other phys found
    rw [nothing virt] at found
    cases found

/-- A new frame is mapped, and all other pages keep their frames. -/
theorem mapFresh (exclusive : Exclusive table roots machine)
    (served : machine.allocFrame = some (frame, changed)) (isFlags : IsFlags flags)
    (present : contains flags PageFlags.present = true)
    (mapped : table.mapPage virt (physOf frame) flags changed = (.ok (), final)) :
    Exclusive table roots final ∧ Grows machine final roots ∧
      table.translate virt machine = none ∧ ∀ other, table.translate other final =
        if pageNumber other = pageNumber virt then some (frame * pageSize + other % pageSize)
        else table.translate other machine := by
  have alloc := allocFrame_some served
  obtain ⟨keeps, sameTables⟩ := exclusive.paged.alloc alloc
  obtain ⟨-, absent, stores⟩ | ⟨⟨_, refused⟩, -⟩ :=
    mapPage_cases keeps.paged exclusive.inRoots mapped
  case inr => cases refused
  have usedNew : changed.Used frame := (alloc.used frame).mpr (.inl rfl)
  have outside : frame ∉ changed.tables roots := by
    rw [sameTables]
    exact exclusive.paged.not_table alloc.wasFree
  have sameOld : ∀ other, table.translate other changed = table.translate other machine :=
    fun other => translate_congr (keeps.entries table.root exclusive.inRoots other)
  -- The page is new, and so is its frame.
  have grows : Grows machine final roots := keeps.toGrows.trans stores.toGrows
  have free : table.translate virt machine = none := by
    rw [← sameOld virt, translate_eq, absent]
    rfl
  have translate : ∀ other, table.translate other final =
      if pageNumber other = pageNumber virt then some (frame * pageSize + other % pageSize)
      else table.translate other machine := by
    intro other
    by_cases here : pageNumber other = pageNumber virt
    · rw [if_pos here]
      apply translate_fresh alloc.wasFree.lt isFlags present
      rw [stores.entries table.root exclusive.inRoots other, if_pos ⟨rfl, here⟩]
    · rw [if_neg here, ← sameOld other]
      apply translate_congr
      rw [stores.entries table.root exclusive.inRoots other, if_neg fun both => here both.2]
  have frameOfNew : ∀ other, (frame * pageSize + other % pageSize) / pageSize = frame := by
    intro other
    unfold pageSize
    omega
  have distinct : ∀ other phys, table.translate other machine = some phys →
      phys / pageSize ≠ frame := by
    rintro other phys found rfl
    exact (exclusive.used other phys found).1.not_free alloc.wasFree
  refine ⟨⟨stores.paged, exclusive.inRoots, ?_, ?_⟩, grows, free, translate⟩
  · intro other phys found
    rw [translate other] at found
    split at found
    · cases found
      rw [frameOfNew other]
      exact ⟨stores.used frame usedNew, stores.toGrows.not_table usedNew outside⟩
    · obtain ⟨used, noTable⟩ := exclusive.used other phys found
      exact ⟨grows.used _ used, grows.not_table used noTable⟩
  · intro first second phys found found'
    rw [translate first] at found
    rw [translate second] at found'
    split at found
    · rename_i here
      split at found'
      · rename_i here'
        rw [here, here']
      · cases found
        exact absurd (frameOfNew first) (distinct second _ found')
    · split at found'
      · cases found'
        exact absurd (frameOfNew second) (distinct first _ found)
      · exact exclusive.apart first second phys found found'

/-- Pages of their own back a range of addresses that tables tell apart. -/
theorem backed {start stop : Nat} (exclusive : Exclusive table roots machine)
    (small : stop ≤ 2 ^ 48)
    (mapped : ∀ virt, start ≤ virt → virt < stop → table.translate virt machine ≠ none) :
    Backed table start stop machine where
  mapped := by
    intro virt above below
    obtain ⟨phys, found⟩ := Option.ne_none_iff_exists'.mp (mapped virt above below)
    refine ⟨phys, found, ?_⟩
    rintro ⟨root, rfl, path, short, reached⟩
    exact (exclusive.used virt phys found).2
      ⟨table.root, exclusive.inRoots, path, short, reached⟩
  apart := by
    intro virt other above below above' below' phys found found'
    have samePage := exclusive.apart virt other phys found found'
    have place := translate_mod found
    have place' := translate_mod found'
    unfold pageNumber at samePage
    unfold pageSize at place place'
    omega

end Exclusive

end TheoryKernel.Mm
