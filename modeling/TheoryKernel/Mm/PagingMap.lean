import TheoryKernel.Mm.Paging

/-! A page table stands for a finite map from pages to entries. -/

namespace TheoryKernel.Mm

open RadixTable (descend lookup Tables Forest)

/-- A word that holds an address and nothing else. -/
def IsPhys (word : BitVec 64) : Prop := word &&& physMask = word

/-- A word that holds flags and no part of an address. -/
def IsFlags (word : BitVec 64) : Prop := word &&& physMask = 0#64

/-- The frames whose addresses fit into an entry. -/
def physFrames : Nat := 2 ^ 40

section Words

variable {phys flags bits value : BitVec 64} {frame : Nat}

/-- The address in an entry is an address. -/
theorem isPhys_and (value : BitVec 64) : IsPhys (value &&& physMask) := by
  unfold IsPhys
  rw [BitVec.and_assoc, BitVec.and_self]

/-- The address of a frame in range fits into the address bits. -/
theorem isPhys_physOf (small : frame < physFrames) : IsPhys (physOf frame) := by
  have limited : frame < 2 ^ 40 := small
  apply BitVec.eq_of_toNat_eq
  have mask : physMask.toNat = (2 ^ 40 - 1) * 2 ^ 12 := by decide
  have value : (physOf frame).toNat = frame * 2 ^ 12 := by
    rw [physOf, BitVec.toNat_ofNat, pageSize]
    omega
  rw [BitVec.toNat_and, mask, value]
  -- Both numbers are multiples of the page size, and the frame fits below the mask.
  apply Nat.eq_of_testBit_eq
  intro position
  rw [Nat.testBit_and, Nat.testBit_mul_two_pow, Nat.testBit_mul_two_pow,
    Nat.testBit_two_pow_sub_one]
  by_cases inside : position - 12 < 40
  · rw [decide_eq_true inside, Bool.and_true]
    cases decide (12 ≤ position) <;> cases frame.testBit (position - 12) <;> rfl
  · have beyond : frame.testBit (position - 12) = false :=
      Nat.testBit_lt_two_pow (Nat.lt_of_lt_of_le limited
        (Nat.pow_le_pow_right (by decide) (by omega)))
    simp [beyond]

/-- Flags can be read from an entry as if the address were not there. -/
theorem contains_entry (isPhys : IsPhys phys) (isFlags : IsFlags bits) :
    contains (phys ||| flags) bits = contains flags bits := by
  have none : phys &&& bits = 0#64 := by
    unfold IsFlags at isFlags
    rw [← isPhys, BitVec.and_assoc, BitVec.and_comm physMask, isFlags, BitVec.and_zero]
  unfold contains
  rw [BitVec.and_or_distrib_right, none, BitVec.zero_or]

/-- Flags survive the removal of the address. -/
theorem contains_truncate (known : PageFlags.all &&& bits = bits) :
    contains (PageFlags.fromBitsTruncate value) bits = contains value bits := by
  unfold contains PageFlags.fromBitsTruncate
  rw [BitVec.and_assoc, known]

/-- The address of an entry can be read as if the flags were not there. -/
theorem and_physMask_entry (isPhys : IsPhys phys) (isFlags : IsFlags flags) :
    (phys ||| flags) &&& physMask = phys := by
  rw [BitVec.and_or_distrib_right, isPhys, isFlags, BitVec.or_zero]

/-- The flags of an entry have no part of an address. -/
theorem isFlags_truncate (value : BitVec 64) : IsFlags (PageFlags.fromBitsTruncate value) := by
  have none : PageFlags.all &&& physMask = 0#64 := by decide
  unfold IsFlags PageFlags.fromBitsTruncate
  rw [BitVec.and_assoc, none, BitVec.and_zero]

/-- Flags may be joined. -/
theorem IsFlags.or (first : IsFlags flags) (second : IsFlags bits) : IsFlags (flags ||| bits) := by
  unfold IsFlags at *
  rw [BitVec.and_or_distrib_right, first, second, BitVec.or_zero]

/-- Some of the bits of a flag word have no part of an address. -/
theorem IsFlags.and (isFlags : IsFlags flags) (mask : BitVec 64) : IsFlags (flags &&& mask) := by
  unfold IsFlags at *
  rw [BitVec.and_assoc, BitVec.and_comm mask, ← BitVec.and_assoc, isFlags, BitVec.zero_and]

/-- The flags of a protection have no part of an address. -/
theorem isFlags_fromProt (prot : ProtFlags) (forUser : Bool) :
    IsFlags (PageFlags.fromProt prot forUser) := by
  unfold PageFlags.fromProt
  split <;> split <;> split <;> (unfold IsFlags; decide)

end Words

/-- The entries of a page table in memory. -/
def pageFormat : RadixTable.Format Nat (BitVec 64) where
  present := fun value => contains value PageFlags.present
  child := frameOf
  empty := 0
  empty_absent := by decide

/-- The number of the page of an address, among those that page tables tell apart. -/
def pageNumber (virt : Nat) : Nat := virt / 2 ^ 12 % 2 ^ 36

theorem slots_eq_iff {first second : Nat} :
    tablePath first = tablePath second ∧ tableSlot first = tableSlot second ↔
      pageNumber first = pageNumber second := by
  -- The slots are the digits of the page number in base 512.
  simp only [tablePath, tableSlot, pageNumber, List.cons.injEq, and_true]
  omega

namespace Machine

variable {machine changed : Machine} {roots : Set Nat} {root virt other frame : Nat}

/-- The frames that hold page tables. -/
def tables (machine : Machine) (roots : Set Nat) : Set Nat :=
  Tables pageFormat machine.memory roots 3

/-- The entry of a page, zero if there is none. -/
def entry (machine : Machine) (root virt : Nat) : BitVec 64 :=
  lookup pageFormat machine.memory root (tablePath virt) (tableSlot virt)

/-- The entry belongs to the page and not to the single address. -/
theorem entry_congr (same : pageNumber virt = pageNumber other) :
    machine.entry root virt = machine.entry root other := by
  obtain ⟨path, slot⟩ := slots_eq_iff.mpr same
  rw [entry, entry, path, slot]

/-- The page tables below some roots share no frame, and their frames are in use. -/
structure Paged (machine : Machine) (roots : Set Nat) : Prop where
  forest : Forest pageFormat machine.memory roots 3
  used : ∀ table ∈ machine.tables roots, machine.Used table

/-- No table along a path is in a frame that can be handed out. -/
def Settled (machine : Machine) (root : Nat) (path : List Nat) : Prop :=
  ∀ before after table, path = before ++ after →
    descend pageFormat machine.memory root before = some table → ¬ machine.Free table

/-- The paths below the roots are settled. -/
theorem Paged.settled (paged : machine.Paged roots) (inRoots : root ∈ roots) (virt : Nat) :
    machine.Settled root (tablePath virt) := by
  intro before after table split reached
  have short : before.length ≤ 3 := by
    have whole := congrArg List.length split
    rw [List.length_append, show (tablePath virt).length = 3 from rfl] at whole
    omega
  exact (paged.used table (RadixTable.mem_tables inRoots short reached)).not_free

/-- What a table operation may do besides changing entries: free frames may become tables. -/
structure Grows (machine changed : Machine) (roots : Set Nat) : Prop where
  paged : changed.Paged roots
  used : ∀ frame, machine.Used frame → changed.Used frame
  free : ∀ frame, changed.Free frame → machine.Free frame
  tables : ∀ table ∈ changed.tables roots, table ∈ machine.tables roots ∨ machine.Free table
  kept : ∀ frame, machine.Used frame → frame ∉ machine.tables roots →
    changed.memory frame = machine.memory frame

/-- Nothing grows if nothing changes. -/
theorem Grows.refl (paged : machine.Paged roots) : Grows machine machine roots :=
  ⟨paged, fun _ used => used, fun _ free => free, fun _ inside => .inl inside,
    fun _ _ _ => rfl⟩

/-- A used frame that is no table does not become one. -/
theorem Grows.not_table (grows : Grows machine changed roots) (used : machine.Used frame)
    (outside : frame ∉ machine.tables roots) : frame ∉ changed.tables roots := by
  intro inside
  rcases grows.tables frame inside with before | free
  · exact outside before
  · exact used.not_free free

variable {final allocated : Machine}

/-- Growth may go on. -/
theorem Grows.trans (first : Grows machine changed roots) (second : Grows changed final roots) :
    Grows machine final roots where
  paged := second.paged
  used := fun frame used => second.used frame (first.used frame used)
  free := fun frame free => first.free frame (second.free frame free)
  tables := by
    intro table inside
    rcases second.tables table inside with before | free
    · exact first.tables table before
    · exact Or.inr (first.free table free)
  kept := by
    intro frame used outside
    rw [second.kept frame (first.used frame used) (first.not_table used outside),
      first.kept frame used outside]

/-- Growth that leaves every entry as it is. -/
structure Keeps (machine changed : Machine) (roots : Set Nat) : Prop
    extends Grows machine changed roots where
  entries : ∀ root ∈ roots, ∀ virt, changed.entry root virt = machine.entry root virt

/-- Growth that stores a word as the entry of one page. -/
structure Stores (machine changed : Machine) (roots : Set Nat) (root virt : Nat)
    (word : BitVec 64) : Prop extends Grows machine changed roots where
  entries : ∀ other ∈ roots, ∀ page, changed.entry other page =
    if other = root ∧ pageNumber page = pageNumber virt then word else machine.entry other page

/-- Nothing is stored if nothing changes. -/
theorem Keeps.refl (paged : machine.Paged roots) : Keeps machine machine roots :=
  ⟨.refl paged, fun _ _ _ => rfl⟩

/-- Entries that are kept twice are kept. -/
theorem Keeps.trans (first : Keeps machine changed roots) (second : Keeps changed final roots) :
    Keeps machine final roots where
  toGrows := first.toGrows.trans second.toGrows
  entries := fun root inRoots virt =>
    (second.entries root inRoots virt).trans (first.entries root inRoots virt)

/-- Entries may be kept before one is stored. -/
theorem Keeps.stores {word : BitVec 64} (first : Keeps machine changed roots)
    (second : Stores changed final roots root virt word) :
    Stores machine final roots root virt word where
  toGrows := first.toGrows.trans second.toGrows
  entries := by
    intro other inRoots page
    rw [second.entries other inRoots page, first.entries other inRoots page]

theorem Paged.of_free (paged : machine.Paged roots)
    (used : ∀ frame, machine.Used frame → changed.Used frame)
    (free : ∀ frame, changed.Free frame → machine.Free frame)
    (same : ∀ frame, ¬ machine.Free frame → changed.memory frame = machine.memory frame) :
    Keeps machine changed roots ∧ changed.tables roots = machine.tables roots := by
  -- The frame of a table is used, so it is not free.
  have agree : ∀ table ∈ machine.tables roots, changed.memory table = machine.memory table :=
    fun table inside => same table (paged.used table inside).not_free
  have walks := RadixTable.sameWalks_outside agree
  have tables : changed.tables roots = machine.tables roots := walks.tables
  refine ⟨⟨⟨⟨walks.forest paged.forest, ?_⟩, used, free, ?_, ?_⟩, ?_⟩, tables⟩
  · rw [tables]
    exact fun table inside => used table (paged.used table inside)
  · rw [tables]
    exact fun table inside => .inl inside
  · exact fun frame inUse _ => same frame inUse.not_free
  · exact fun root inRoots virt => RadixTable.lookup_outside agree inRoots (Nat.le_refl 3)

/-- An allocated frame may be filled with anything. -/
theorem Paged.fill (paged : machine.Paged roots) (alloc : Allocated machine frame allocated)
    (frames : changed.frames = allocated.frames)
    (same : ∀ other, other ≠ frame → changed.memory other = machine.memory other) :
    Keeps machine changed roots ∧ changed.tables roots = machine.tables roots := by
  have used : ∀ other, changed.Used other ↔ allocated.Used other := by
    intro other
    rw [Used, Used, frames]
  have free : ∀ other, changed.Free other ↔ allocated.Free other := by
    intro other
    rw [Free, Free, frames]
  apply paged.of_free
  · exact fun other inUse => (used other).mpr ((alloc.used other).mpr (.inr inUse))
  · exact fun other isFree => ((alloc.free other).mp ((free other).mp isFree)).2
  · exact fun other taken => same other fun isFrame => taken (isFrame ▸ alloc.wasFree)

/-- A settled path leads to the same entry when an allocated frame is filled with anything. -/
theorem Settled.fill (settled : machine.Settled root (tablePath virt))
    (alloc : Allocated machine frame allocated) (frames : changed.frames = allocated.frames)
    (same : ∀ other, other ≠ frame → changed.memory other = machine.memory other) :
    changed.Settled root (tablePath virt) ∧ changed.entry root virt = machine.entry root virt := by
  have apart : ∀ before after table, tablePath virt = before ++ after →
      descend pageFormat machine.memory root before = some table → table ≠ frame :=
    fun before after table split reached isFrame =>
      settled before after table split reached (isFrame ▸ alloc.wasFree)
  have walks : ∀ before after, tablePath virt = before ++ after →
      descend pageFormat changed.memory root before =
        descend pageFormat machine.memory root before := by
    intro before after split
    apply RadixTable.descend_congr
    intro first index rest table whole reached
    rw [same table (apart first _ table (by rw [split, whole, List.append_assoc]) reached)]
  constructor
  · intro before after table split reached free
    rw [walks before after split] at reached
    rw [Free, frames] at free
    exact settled before after table split reached ((alloc.free table).mp free).2
  · have whole := walks (tablePath virt) [] (List.append_nil _).symm
    unfold entry lookup
    rw [whole]
    cases reached : descend pageFormat machine.memory root (tablePath virt) with
    | none => rfl
    | some last =>
      have other := apart (tablePath virt) [] last (List.append_nil _).symm reached
      rw [Option.map_some, Option.map_some, same last other]

/-- Allocating a frame changes no table. -/
theorem Paged.alloc (paged : machine.Paged roots) (alloc : Allocated machine frame allocated) :
    Keeps machine allocated roots ∧ allocated.tables roots = machine.tables roots :=
  paged.fill alloc rfl fun other _ => by rw [alloc.memory]

/-- A free frame is not a table. -/
theorem Paged.not_table (paged : machine.Paged roots) (free : machine.Free frame) :
    frame ∉ machine.tables roots := fun inside => (paged.used frame inside).not_free free

/-- A cleared frame that was free. -/
structure Cleared (machine : Machine) (frame : Nat) (changed : Machine) : Prop where
  wasFree : machine.Free frame
  used : ∀ other, changed.Used other ↔ other = frame ∨ machine.Used other
  free : ∀ other, changed.Free other ↔ other ≠ frame ∧ machine.Free other
  blank : ∀ slot, changed.memory frame slot = 0
  memory : ∀ other, other ≠ frame → changed.memory other = machine.memory other

/-- An allocated frame may be cleared. -/
theorem Allocated.cleared (alloc : Allocated machine frame allocated) :
    Cleared machine frame (allocated.zeroFrame frame) where
  wasFree := alloc.wasFree
  used := alloc.used
  free := alloc.free
  blank := fun slot => congrFun (Function.update_self frame _ allocated.memory) slot
  memory := by
    intro other apart
    rw [← alloc.memory]
    exact Function.update_of_ne apart _ _

/-- A cleared frame is outside the tables, which are as before. -/
theorem Paged.clear (paged : machine.Paged roots) (cleared : Cleared machine frame changed) :
    Keeps machine changed roots ∧ changed.tables roots = machine.tables roots := by
  apply paged.of_free
  · exact fun other inUse => (cleared.used other).mpr (.inr inUse)
  · exact fun other isFree => ((cleared.free other).mp isFree).2
  · exact fun other taken => cleared.memory other fun isFrame => taken (isFrame ▸ cleared.wasFree)

theorem present_link (small : frame < physFrames) :
    pageFormat.present (physOf frame ||| tableFlags) = true ∧
      pageFormat.child (physOf frame ||| tableFlags) = frame := by
  have noAddress : IsFlags tableFlags := by unfold IsFlags; decide
  constructor
  · exact (contains_entry (isPhys_physOf small) (by unfold IsFlags; decide)).trans (by decide)
  · have limited : frame < 2 ^ 40 := small
    change frameOf (physOf frame ||| tableFlags) = frame
    rw [frameOf, and_physMask_entry (isPhys_physOf small) noAddress, physOf, BitVec.toNat_ofNat,
      pageSize]
    omega

/-- A new table is blank, and the map is as before. -/
theorem addTable_some {table index : Nat} {path : List Nat} (paged : machine.Paged roots)
    (inRoots : root ∈ roots) (inner : path.length < 3)
    (reached : descend pageFormat machine.memory root path = some table)
    (absent : contains (machine.memory table index) PageFlags.present = false)
    (added : PageTable.addTable machine table index = some (frame, changed)) :
    Keeps machine changed roots ∧
      descend pageFormat changed.memory root (path ++ [index]) = some frame := by
  unfold PageTable.addTable at added
  split at added
  · rename_i fresh allocated attempt
    cases added
    have cleared := (allocFrame_some attempt).cleared
    generalize allocated.zeroFrame frame = blankFrame at cleared ⊢
    -- Taking and clearing the frame touches a free frame only.
    obtain ⟨keeps, sameTables⟩ := paged.clear cleared
    have isTable : table ∈ machine.tables roots :=
      RadixTable.mem_tables inRoots (Nat.le_of_lt inner) reached
    have apart : ∀ other ∈ machine.tables roots, other ≠ frame :=
      fun other inside same => paged.not_table cleared.wasFree (same ▸ inside)
    have reached' : descend pageFormat blankFrame.memory root path = some table := by
      rw [← reached]
      exact RadixTable.sameWalks_outside
        (fun other inside => cleared.memory other (apart other inside)) root inRoots path
        (Nat.le_of_lt inner)
    have absent' : pageFormat.present (blankFrame.memory table index) = false := by
      rw [cleared.memory table (apart table isTable)]
      exact absent
    have isFresh : frame ∉ blankFrame.tables roots := by
      rw [sameTables]
      exact paged.not_table cleared.wasFree
    -- The cleared frame becomes a table below the slot that had none.
    obtain ⟨links, leads⟩ := present_link (Nat.lt_trans cleared.wasFree.lt (by decide))
    have attaches : RadixTable.Attaches pageFormat blankFrame.memory roots 3 root path table index
        frame (physOf frame ||| tableFlags) :=
      ⟨keeps.paged.forest, inRoots, inner, reached', absent', isFresh, cleared.blank, links, leads⟩
    have tables : (blankFrame.write table index (physOf frame ||| tableFlags)).tables roots =
        insert frame (blankFrame.tables roots) := attaches.tables
    refine ⟨⟨⟨⟨?_, ?_⟩, keeps.used, keeps.free, ?_, ?_⟩, ?_⟩, ?_⟩
    · exact attaches.keeps_forest
    · rw [tables]
      rintro other (rfl | inside)
      · exact (cleared.used other).mpr (.inl rfl)
      · exact keeps.paged.used other inside
    · rw [tables, sameTables]
      rintro other (rfl | inside)
      · exact .inr cleared.wasFree
      · exact Or.inl inside
    · intro other inUse outside
      have notTable : other ≠ table := fun same => outside (same ▸ isTable)
      rw [← keeps.kept other inUse outside]
      exact Function.update_of_ne notTable _ _
    · intro other inRoots' virt
      rw [← keeps.entries other inRoots' virt]
      exact attaches.lookup inRoots' rfl
    · have short : (path ++ [index]).length ≤ 3 := by
        rw [List.length_append, List.length_singleton]
        exact inner
      exact (attaches.descend inRoots short).trans (if_pos ⟨rfl, rfl⟩)
  · cases added

theorem Paged.write_leaf {last : Nat} (paged : machine.Paged roots) (inRoots : root ∈ roots)
    (reached : descend pageFormat machine.memory root (tablePath virt) = some last)
    (word : BitVec 64) :
    Stores machine (machine.write last (tableSlot virt) word) roots root virt word := by
  have full : (tablePath virt).length = 3 := rfl
  have walks := RadixTable.sameWalks_write_leaf paged.forest inRoots full reached (tableSlot virt) word
  have tables : (machine.write last (tableSlot virt) word).tables roots = machine.tables roots :=
    walks.tables
  have isTable : last ∈ machine.tables roots := RadixTable.mem_tables inRoots (by rw [full]) reached
  refine ⟨⟨⟨?_, ?_⟩, fun _ used => used, fun _ free => free, ?_, ?_⟩, ?_⟩
  · exact walks.forest paged.forest
  · rw [tables]
    exact paged.used
  · rw [tables]
    exact fun _ inside => .inl inside
  · intro other _ outside
    have notLast : other ≠ last := fun same => outside (same ▸ isTable)
    exact Function.update_of_ne notLast _ _
  · intro other inRoots' page
    have written : (machine.write last (tableSlot virt) word).entry other page =
        if other = root ∧ tablePath page = tablePath virt ∧ tableSlot page = tableSlot virt
        then word else machine.entry other page :=
      RadixTable.lookup_write_leaf paged.forest inRoots full reached word inRoots' rfl
    -- Equal slots on all levels are equal page numbers.
    have place : (other = root ∧ tablePath page = tablePath virt ∧ tableSlot page = tableSlot virt)
        ↔ (other = root ∧ pageNumber page = pageNumber virt) := by
      rw [slots_eq_iff]
    simp only [place] at written
    exact written

end Machine

namespace PageTable

open Machine RadixTable

variable {machine changed : Machine} {roots : Set Nat} {table : PageTable} {virt : Nat}

variable {first last : Nat} {flags : PageFlags} {outcome : Except MapError Unit}

theorem walkLoop_find (path : List Nat) (first : Nat) (machine : Machine) :
    walkLoop false path first machine =
      match descend pageFormat machine.memory first path with
      | some last => (.ok last, machine)
      | none => (.error .notMapped, machine) := by
  induction path generalizing first with
  | nil => rfl
  | cons index rest ih =>
    rw [walkLoop, descend]
    by_cases present : contains (machine.memory first index) PageFlags.present = true
    · rw [if_pos present, if_pos (show pageFormat.present _ = true from present)]
      exact ih _
    · rw [if_neg present, if_neg (show ¬ pageFormat.present _ = true from present)]
      rfl

/-- The end of a walk that may create tables: the last table, or the lack of a frame. -/
def Walked (table : PageTable) (path : List Nat) (changed : Machine) : Except MapError Nat → Prop
  | .ok last => descend pageFormat changed.memory table.root path = some last
  | .error error => error = .noMemory

theorem walkLoop_create {before rest : List Nat} {outcome : Except MapError Nat}
    (paged : machine.Paged roots) (inRoots : table.root ∈ roots)
    (whole : before.length + rest.length = 3)
    (reached : descend pageFormat machine.memory table.root before = some first)
    (walked : walkLoop true rest first machine = (outcome, changed)) :
    Keeps machine changed roots ∧ Walked table (before ++ rest) changed outcome := by
  induction rest generalizing before first machine with
  | nil =>
    cases walked
    rw [List.append_nil]
    exact ⟨.refl paged, reached⟩
  | cons index rest ih =>
    have longer : (before ++ [index]).length + rest.length = 3 := by
      rw [List.length_append, List.length_singleton]
      rw [List.length_cons] at whole
      omega
    have regroup : before ++ index :: rest = (before ++ [index]) ++ rest := by simp
    rw [regroup]
    rw [walkLoop] at walked
    by_cases present : contains (machine.memory first index) PageFlags.present = true
    · -- The table exists, and the walk goes on below it.
      rw [if_pos present] at walked
      refine ih paged longer ?_ walked
      rw [descend_concat, reached]
      exact if_pos present
    · rw [if_neg present] at walked
      simp only [if_true] at walked
      cases attempt : addTable machine first index with
      | none =>
        rw [attempt] at walked
        cases walked
        exact ⟨.refl paged, rfl⟩
      | some served =>
        -- A new table has been put there.
        obtain ⟨frame, grown⟩ := served
        rw [attempt] at walked
        have inner : before.length < 3 := by
          rw [List.length_cons] at whole
          omega
        obtain ⟨keeps, further⟩ := addTable_some paged inRoots inner reached
          (Bool.eq_false_iff.mpr present) attempt
        obtain ⟨later, result⟩ := ih keeps.paged longer further walked
        exact ⟨keeps.trans later, result⟩

/-- A blank table in a frame that was free has been put into a slot. -/
structure Added (machine : Machine) (first index frame : Nat) (grown : Machine) : Prop where
  wasFree : machine.Free frame
  free : ∀ other, grown.Free other → other ≠ frame ∧ machine.Free other
  blank : ∀ slot, grown.memory frame slot = 0
  links : pageFormat.present (grown.memory first index) = true
  leads : pageFormat.child (grown.memory first index) = frame
  others : ∀ other slot, other ≠ frame → ¬ (other = first ∧ slot = index) →
    grown.memory other slot = machine.memory other slot

theorem addTable_added {index frame : Nat} {grown : Machine} (taken : ¬ machine.Free first)
    (added : addTable machine first index = some (frame, grown)) :
    Added machine first index frame grown := by
  unfold addTable at added
  split at added
  · rename_i fresh allocated attempt
    cases added
    have cleared := (allocFrame_some attempt).cleared
    have apart : frame ≠ first := fun same => taken (same ▸ cleared.wasFree)
    have link := present_link (Nat.lt_trans cleared.wasFree.lt (by decide))
    have written : ((allocated.zeroFrame frame).write first index
        (physOf frame ||| tableFlags)).memory first index = physOf frame ||| tableFlags :=
      write_self
    refine ⟨cleared.wasFree, fun other => (cleared.free other).mp, ?_, ?_, ?_, ?_⟩
    · intro slot
      exact (write_of_ne fun same => apart same.1).trans (cleared.blank slot)
    · rw [written]
      exact link.1
    · rw [written]
      exact link.2
    · intro other slot notFrame elsewhere
      exact (write_of_ne elsewhere).trans
        (congrFun (cleared.memory other notFrame) slot)
  · cases added

/-- What a walk that may create tables does to memory, whatever else the tables are used for. -/
theorem walkLoop_settled {path : List Nat} (settled : machine.Settled first path)
    (walked : walkLoop true path first machine = (.ok last, changed)) :
    descend pageFormat changed.memory first path = some last ∧
      (∀ frame slot, ¬ machine.Free frame → pageFormat.present (machine.memory frame slot) = true →
        changed.memory frame slot = machine.memory frame slot) ∧
      (changed = machine ∨ descend pageFormat machine.memory first path = none) := by
  induction path generalizing first machine with
  | nil =>
    cases walked
    exact ⟨rfl, fun _ _ _ _ => rfl, .inl rfl⟩
  | cons index rest ih =>
    have taken : ¬ machine.Free first := settled [] _ first rfl rfl
    rw [walkLoop] at walked
    by_cases present : pageFormat.present (machine.memory first index) = true
    · -- The table exists, and the walk goes on below it.
      rw [if_pos (show contains _ PageFlags.present = true from present)] at walked
      have below : machine.Settled (pageFormat.child (machine.memory first index)) rest := by
        intro before after table split reached
        refine settled (index :: before) after table (by rw [split]; rfl) ?_
        rwa [descend, if_pos present]
      obtain ⟨reached, kept, how⟩ := ih below walked
      rw [descend, descend, kept first index taken present, if_pos present, if_pos present]
      exact ⟨reached, kept, how⟩
    · rw [if_neg (show ¬ contains _ PageFlags.present = true from present)] at walked
      simp only [if_true] at walked
      cases attempt : addTable machine first index with
      | none =>
        rw [attempt] at walked
        cases walked
      | some served =>
        -- The new table is the only one below the slot, and what led somewhere is as before.
        obtain ⟨frame, grown⟩ := served
        rw [attempt] at walked
        have added := addTable_added taken attempt
        have below : grown.Settled frame rest := by
          intro before after table split reached free
          rw [descend_blank added.blank] at reached
          split at reached
          · cases reached
            exact (added.free frame free).1 rfl
          · cases reached
        obtain ⟨reached, kept, -⟩ := ih below walked
        have here : changed.memory first index = grown.memory first index :=
          kept first index (fun free => taken (added.free first free).2) added.links
        refine ⟨?_, ?_, .inr (by rw [descend, if_neg present])⟩
        · rw [descend, here, if_pos added.links, added.leads]
          exact reached
        · intro other slot settled leads
          have same := added.others other slot (fun isFrame => settled (isFrame ▸ added.wasFree))
            (by rintro ⟨rfl, rfl⟩; exact present leads)
          rw [← same] at leads ⊢
          exact kept other slot (fun free => settled (added.free other free).2) leads

theorem memory_of_descend
    (reached : descend pageFormat machine.memory table.root (tablePath virt) = some last) :
    machine.memory last (tableSlot virt) = machine.entry table.root virt := by
  rw [entry, lookup, reached]
  rfl

theorem walkMut_find (table : PageTable) (virt : Nat) (machine : Machine) :
    (∃ last, table.walkMut virt false machine = (.ok (last, tableSlot virt), machine) ∧
      descend pageFormat machine.memory table.root (tablePath virt) = some last) ∨
    table.walkMut virt false machine = (.error .notMapped, machine) ∧
      machine.entry table.root virt = 0 := by
  rw [walkMut, walkLoop_find, entry, lookup]
  cases descend pageFormat machine.memory table.root (tablePath virt) with
  | none => exact .inr ⟨rfl, rfl⟩
  | some last => exact .inl ⟨last, rfl, rfl⟩

/-- A walk that may create tables reaches the slot of the page in an unchanged map. -/
theorem walkMut_create {outcome : Except MapError (Nat × Nat)} (paged : machine.Paged roots)
    (inRoots : table.root ∈ roots) (walked : table.walkMut virt true machine = (outcome, changed)) :
    Keeps machine changed roots ∧
      ((∃ last, outcome = .ok (last, tableSlot virt) ∧
        descend pageFormat changed.memory table.root (tablePath virt) = some last) ∨
      outcome = .error .noMemory) := by
  rw [walkMut] at walked
  cases loop : walkLoop true (tablePath virt) table.root machine with
  | mk reached grown =>
    have looped : Keeps machine grown roots ∧ Walked table ([] ++ tablePath virt) grown reached :=
      walkLoop_create paged inRoots rfl rfl loop
    obtain ⟨keeps, ends⟩ := looped
    rw [loop] at walked
    cases reached with
    | ok last =>
      cases walked
      exact ⟨keeps, .inl ⟨last, rfl, ends⟩⟩
    | error error =>
      cases walked
      exact ⟨keeps, .inr (congrArg _ ends)⟩

/-- The physical address and the flags are those of the entry, if it is present. -/
theorem resolve_eq (table : PageTable) (virt : Nat) (machine : Machine) :
    table.resolve virt machine =
      if contains (machine.entry table.root virt) PageFlags.present then
        some (machine.entry table.root virt &&& physMask,
          PageFlags.fromBitsTruncate (machine.entry table.root virt))
      else none := by
  unfold resolve
  obtain ⟨last, walked, reached⟩ | ⟨walked, blank⟩ := walkMut_find table virt machine
  · rw [walked, ← memory_of_descend reached]
  · rw [walked, blank]
    rfl

/-- The flags of a page are those of its entry. -/
theorem getFlags_eq (table : PageTable) (virt : Nat) (machine : Machine) :
    table.getFlags virt machine =
      if machine.entry table.root virt = 0 then none
      else some (PageFlags.fromBitsTruncate (machine.entry table.root virt)) := by
  unfold getFlags
  obtain ⟨last, walked, reached⟩ | ⟨walked, blank⟩ := walkMut_find table virt machine
  · rw [walked, ← memory_of_descend reached]
  · rw [walked, blank]
    rfl

/-- A page that could be mapped was not present, and it has the new entry. -/
theorem mapPage_settled {phys : BitVec 64} (settled : machine.Settled table.root (tablePath virt))
    (mapped : table.mapPage virt phys flags machine = (.ok (), changed)) :
    contains (machine.entry table.root virt) PageFlags.present = false ∧
      changed.entry table.root virt = phys ||| flags := by
  unfold mapPage walkMut at mapped
  rcases walked : walkLoop true (tablePath virt) table.root machine with ⟨error | last, grown⟩
  · rw [walked] at mapped
    cases mapped
  · rw [walked] at mapped
    dsimp only at mapped
    obtain ⟨reached, -, how⟩ := walkLoop_settled settled walked
    split at mapped
    · cases mapped
    · rename_i present
      cases mapped
      have absent : pageFormat.present (grown.memory last (tableSlot virt)) = false :=
        Bool.eq_false_iff.mpr present
      constructor
      · rcases how with rfl | broken
        · rwa [memory_of_descend reached] at absent
        · rw [entry, lookup, broken]
          exact pageFormat.empty_absent
      · -- The slots on the way lead somewhere, and the one that is written did not.
        have still : descend pageFormat (grown.write last (tableSlot virt) (phys ||| flags)).memory
            table.root (tablePath virt) = some last :=
          descend_write_absent reached absent
        rw [← memory_of_descend still]
        exact write_self

section

variable (paged : machine.Paged roots) (inRoots : table.root ∈ roots)

include paged inRoots

/-- A page is mapped unless it is present or a table cannot be created. -/
theorem mapPage_cases {phys : BitVec 64}
    (mapped : table.mapPage virt phys flags machine = (outcome, changed)) :
    (outcome = .ok () ∧ contains (machine.entry table.root virt) PageFlags.present = false ∧
        Stores machine changed roots table.root virt (phys ||| flags)) ∨
      ((∃ error, outcome = .error error) ∧ Keeps machine changed roots) := by
  unfold mapPage at mapped
  cases walked : table.walkMut virt true machine with
  | mk found grown =>
    rw [walked] at mapped
    obtain ⟨keeps, ⟨last, rfl, reached⟩ | rfl⟩ := walkMut_create paged inRoots walked
    · simp only [memory_of_descend reached, keeps.entries table.root inRoots virt] at mapped
      by_cases present : contains (machine.entry table.root virt) PageFlags.present = true
      · rw [if_pos present] at mapped
        cases mapped
        exact .inr ⟨⟨_, rfl⟩, keeps⟩
      · rw [if_neg present] at mapped
        cases mapped
        exact .inl ⟨rfl, Bool.eq_false_iff.mpr present,
          keeps.stores (keeps.paged.write_leaf inRoots reached _)⟩
    · cases mapped
      exact .inr ⟨⟨_, rfl⟩, keeps⟩

/-- A page is reserved unless a table cannot be created. -/
theorem mapPageDemand_cases (mapped : table.mapPageDemand virt flags machine = (outcome, changed)) :
    (outcome = .ok () ∧ Stores machine changed roots table.root virt
        ((flags ||| PageFlags.softwareDemand) &&& ~~~PageFlags.present)) ∨
      (outcome = .error .noMemory ∧ Keeps machine changed roots) := by
  unfold mapPageDemand at mapped
  cases walked : table.walkMut virt true machine with
  | mk found grown =>
    rw [walked] at mapped
    obtain ⟨keeps, ⟨last, rfl, reached⟩ | rfl⟩ := walkMut_create paged inRoots walked
    · cases mapped
      exact .inl ⟨rfl, keeps.stores (keeps.paged.write_leaf inRoots reached _)⟩
    · cases mapped
      exact .inr ⟨rfl, keeps⟩

/-- A page is unmapped, or nothing changes. -/
theorem unmapPage_cases {outcome : Except MapError (BitVec 64)}
    (unmapped : table.unmapPage virt machine = (outcome, changed)) :
    (outcome = .ok (machine.entry table.root virt &&& physMask) ∧
        Stores machine changed roots table.root virt 0) ∨
      (outcome = .error .notMapped ∧ changed = machine) := by
  unfold unmapPage at unmapped
  obtain ⟨last, walked, reached⟩ | ⟨walked, blank⟩ := walkMut_find table virt machine
  · simp only [walked, memory_of_descend reached] at unmapped
    by_cases present : contains (machine.entry table.root virt) PageFlags.present = true
    · rw [if_pos present] at unmapped
      cases unmapped
      exact .inl ⟨rfl, paged.write_leaf inRoots reached 0⟩
    · rw [if_neg present] at unmapped
      cases unmapped
      exact .inr ⟨rfl, rfl⟩
  · rw [walked] at unmapped
    cases unmapped
    exact .inr ⟨rfl, rfl⟩

/-- The flags of a page are changed exactly if it has an entry. -/
theorem setFlags_cases (updated : table.setFlags virt flags machine = (outcome, changed)) :
    (outcome = .ok () ∧ machine.entry table.root virt ≠ 0 ∧
        Stores machine changed roots table.root virt
          ((machine.entry table.root virt &&& physMask) ||| flags)) ∨
      (outcome = .error .notMapped ∧ machine.entry table.root virt = 0 ∧ changed = machine) := by
  unfold setFlags at updated
  obtain ⟨last, walked, reached⟩ | ⟨walked, blank⟩ := walkMut_find table virt machine
  · simp only [walked, memory_of_descend reached] at updated
    by_cases blank : machine.entry table.root virt = 0
    · rw [if_pos blank] at updated
      cases updated
      exact .inr ⟨rfl, blank, rfl⟩
    · rw [if_neg blank] at updated
      cases updated
      exact .inl ⟨rfl, blank, paged.write_leaf inRoots reached _⟩
  · rw [walked] at updated
    cases updated
    exact .inr ⟨rfl, blank, rfl⟩

end

/-- A new table is one more root, without entries. -/
theorem newEmpty_some (paged : machine.Paged roots)
    (created : newEmpty machine = some (table, changed)) :
    changed.Paged (insert table.root roots) ∧ ∀ virt, changed.entry table.root virt = 0 := by
  obtain ⟨⟨frame, allocated⟩, attempt, same⟩ := Option.map_eq_some_iff.mp created
  cases same
  have cleared := (allocFrame_some attempt).cleared
  obtain ⟨keeps, sameTables⟩ := paged.clear cleared
  have isFresh : frame ∉ (allocated.zeroFrame frame).tables roots := by
    rw [sameTables]
    exact paged.not_table cleared.wasFree
  have tables : (allocated.zeroFrame frame).tables (insert frame roots) =
      insert frame ((allocated.zeroFrame frame).tables roots) :=
    tables_insert cleared.blank
  refine ⟨⟨keeps.paged.forest.insert isFresh cleared.blank, ?_⟩,
    fun virt => lookup_blank cleared.blank⟩
  rw [tables]
  rintro other (rfl | inside)
  · exact (cleared.used other).mpr (.inl rfl)
  · exact keeps.paged.used other inside

end PageTable

end TheoryKernel.Mm
