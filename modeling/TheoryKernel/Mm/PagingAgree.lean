import TheoryKernel.Mm.UserMemory

/-! Machines with the same frames and the same page tables serve table operations alike. -/

namespace TheoryKernel.Mm

open Machine RadixTable PageTable

/-- Two machines with the same frames in use and the same words in their page tables. -/
structure Agree (roots : Set Nat) (machine machine' : Machine) : Prop where
  frames : machine'.frames = machine.frames
  tables : ∀ table ∈ machine.tables roots, machine'.memory table = machine.memory table

namespace Agree

variable {roots : Set Nat} {machine machine' changed : Machine} {table : PageTable}
  {frame index virt addr length : Nat} {word : BitVec 64} {bytes : Nat → BitVec 8}

/-- A machine agrees with itself. -/
theorem refl (machine : Machine) : Agree roots machine machine := ⟨rfl, fun _ _ => rfl⟩

variable (agree : Agree roots machine machine')

include agree

/-- Machines that agree have the same tables. -/
theorem tables_eq :
    machine'.tables roots = machine.tables roots := (sameWalks_outside agree.tables).tables

omit agree in
/-- Agreement may go on. -/
theorem trans {final : Machine} (first : Agree roots machine machine')
    (second : Agree roots machine' final) : Agree roots machine final where
  frames := second.frames.trans first.frames
  tables := fun table isTable => (second.tables table (first.tables_eq ▸ isTable)).trans
    (first.tables table isTable)

theorem paged (paged : machine.Paged roots) : machine'.Paged roots := by
  refine ⟨(sameWalks_outside agree.tables).forest paged.forest, ?_⟩
  rw [agree.tables_eq]
  intro table isTable
  have used := paged.used table isTable
  rwa [Used, ← agree.frames] at used

/-- Machines that agree have the same entries, and so the same translations. -/
theorem translate (inRoots : table.root ∈ roots) :
    table.translate virt machine' = table.translate virt machine :=
  Exclusive.translate_congr (lookup_outside agree.tables inRoots (Nat.le_refl 3))

/-- Pages have frames of their own on machines that agree. -/
theorem exclusive (exclusive : Exclusive table roots machine) : Exclusive table roots machine' where
  paged := agree.paged exclusive.paged
  inRoots := exclusive.inRoots
  used := by
    intro virt phys found
    rw [agree.translate exclusive.inRoots] at found
    rw [agree.tables_eq, Used, agree.frames]
    exact exclusive.used virt phys found
  apart := by
    intro virt other phys found found'
    rw [agree.translate exclusive.inRoots] at found found'
    exact exclusive.apart virt other phys found found'

omit agree in
/-- A store outside the tables does not matter. -/
theorem storePhys (clear : machine.ClearOf roots addr length) :
    Agree roots machine (machine.storePhys addr length bytes) :=
  ⟨rfl, fun table isTable => storePhys_memory (clear table isTable)⟩

/-- The next frame is the same. -/
theorem allocFrame (served : machine.allocFrame = some (frame, changed)) :
    ∃ changed', machine'.allocFrame = some (frame, changed') ∧ Agree roots changed changed' := by
  obtain ⟨⟨found, frames⟩, run, same⟩ := Option.map_eq_some_iff.mp served
  cases same
  refine ⟨{ machine' with frames }, ?_, rfl, agree.tables⟩
  rw [Machine.allocFrame, agree.frames, run]
  rfl

/-- If one machine has no frame left, so has the other. -/
theorem allocFrame_none (refused : machine.allocFrame = none) : machine'.allocFrame = none := by
  rw [Machine.allocFrame, Option.map_eq_none_iff] at refused ⊢
  rwa [agree.frames]

omit agree in
theorem write_memory {first other : Nat} {memory memory' : Nat → Nat → BitVec 64}
    (here : memory' first = memory first) (there : memory' other = memory other) :
    RadixTable.write memory' first index word other =
      RadixTable.write memory first index word other := by
  unfold RadixTable.write
  by_cases same : other = first
  · subst same
    rw [Function.update_self, Function.update_self, here]
  · rw [Function.update_of_ne same, Function.update_of_ne same, there]

theorem addTable {first : Nat} {path : List Nat} (paged : machine.Paged roots)
    (inRoots : table.root ∈ roots) (inner : path.length < 3)
    (reached : descend pageFormat machine.memory table.root path = some first)
    (absent : contains (machine.memory first index) PageFlags.present = false)
    (added : addTable machine first index = some (frame, changed)) :
    ∃ changed', addTable machine' first index = some (frame, changed') ∧
      Agree roots changed changed' := by
  obtain ⟨keeps, -⟩ := addTable_some paged inRoots inner reached absent added
  have isTable : first ∈ machine.tables roots := mem_tables inRoots (Nat.le_of_lt inner) reached
  unfold PageTable.addTable at added ⊢
  split at added
  · rename_i served allocated attempt
    cases added
    have alloc := allocFrame_some attempt
    obtain ⟨allocated', attempt', agree'⟩ := agree.allocFrame attempt
    have memory' : allocated'.memory = machine'.memory := (allocFrame_some attempt').memory
    rw [attempt']
    refine ⟨_, rfl, agree'.frames, ?_⟩
    -- The blank frame is the only new table, and the old tables agree.
    have blanked : ∀ other, other = frame ∨ other ∈ machine.tables roots →
        (allocated'.zeroFrame frame).memory other = (allocated.zeroFrame frame).memory other := by
      intro other known
      by_cases isNew : other = frame
      · subst isNew
        simp only [zeroFrame, Function.update_self]
      · have old : other ∈ machine.tables roots := known.resolve_left isNew
        simp only [zeroFrame, Function.update_of_ne isNew]
        rw [memory', alloc.memory, agree.tables other old]
    intro other isTable'
    apply write_memory (blanked first (.inr isTable))
    apply blanked
    rcases keeps.tables other isTable' with old | free
    · exact .inr old
    · -- A frame that is still free is no table.
      refine .inl ?_
      by_contra another
      have stillFree := (alloc.free other).mpr ⟨another, free⟩
      exact (keeps.paged.used other isTable').not_free stillFree
  · cases added

theorem walkLoop {before rest : List Nat} {first : Nat} {outcome : Except MapError Nat}
    (paged : machine.Paged roots) (inRoots : table.root ∈ roots)
    (whole : before.length + rest.length = 3)
    (reached : descend pageFormat machine.memory table.root before = some first)
    (walked : walkLoop true rest first machine = (outcome, changed)) :
    ∃ changed', walkLoop true rest first machine' = (outcome, changed') ∧
      Agree roots changed changed' := by
  induction rest generalizing before first machine machine' with
  | nil =>
    cases walked
    exact ⟨machine', rfl, agree⟩
  | cons index rest ih =>
    rw [List.length_cons] at whole
    have longer : (before ++ [index]).length + rest.length = 3 := by
      rw [List.length_append, List.length_singleton]
      omega
    have same : machine'.memory first = machine.memory first :=
      agree.tables first (mem_tables inRoots (by omega) reached)
    rw [walkLoop] at walked ⊢
    simp only [same]
    by_cases present : contains (machine.memory first index) PageFlags.present = true
    · rw [if_pos present] at walked ⊢
      refine ih agree paged longer ?_ walked
      rw [descend_concat, reached]
      exact if_pos present
    · rw [if_neg present] at walked ⊢
      simp only [if_true] at walked ⊢
      cases attempt : PageTable.addTable machine first index with
      | none =>
        rw [attempt] at walked
        cases walked
        have refused : PageTable.addTable machine' first index = none := by
          unfold PageTable.addTable at attempt ⊢
          split at attempt
          · cases attempt
          · rename_i empty
            rw [agree.allocFrame_none empty]
        rw [refused]
        exact ⟨machine', rfl, agree⟩
      | some served =>
        obtain ⟨frame, grown⟩ := served
        rw [attempt] at walked
        have absent := Bool.eq_false_iff.mpr present
        obtain ⟨keeps, further⟩ :=
          addTable_some paged inRoots (by omega) reached absent attempt
        obtain ⟨grown', attempt', agree'⟩ :=
          agree.addTable paged inRoots (by omega) reached absent attempt
        rw [attempt']
        exact ih agree' keeps.paged longer further walked

/-- Pages are mapped alike. -/
theorem mapPage {phys : BitVec 64} {flags : PageFlags} {outcome : Except MapError Unit}
    (paged : machine.Paged roots) (inRoots : table.root ∈ roots)
    (mapped : table.mapPage virt phys flags machine = (outcome, changed)) :
    ∃ changed', table.mapPage virt phys flags machine' = (outcome, changed') ∧
      Agree roots changed changed' := by
  unfold PageTable.mapPage PageTable.walkMut at mapped ⊢
  cases loop : PageTable.walkLoop true (tablePath virt) table.root machine with
  | mk found grown =>
    have start : descend pageFormat machine.memory table.root [] = some table.root := rfl
    obtain ⟨grown', loop', agree'⟩ := agree.walkLoop paged inRoots rfl start loop
    have walked : table.walkMut virt true machine =
        (found.map fun last => (last, tableSlot virt), grown) := by
      rw [walkMut, loop]
      cases found <;> rfl
    rw [loop] at mapped
    rw [loop']
    obtain ⟨keeps, ⟨last, isLast, reached⟩ | failed⟩ :=
      walkMut_create paged inRoots walked
    · cases found with
      | error error => cases isLast
      | ok last' =>
        cases isLast
        have isTable : last ∈ grown.tables roots := mem_tables inRoots (Nat.le_refl (tablePath virt).length) reached
        simp only [agree'.tables last isTable] at mapped ⊢
        split at mapped
        · rename_i present
          cases mapped
          rw [if_pos present]
          exact ⟨grown', rfl, agree'⟩
        · rename_i absent
          cases mapped
          rw [if_neg absent]
          refine ⟨_, rfl, agree'.frames, ?_⟩
          have tables : (grown.write last (tableSlot virt) (phys ||| flags)).tables roots =
              grown.tables roots :=
            (sameWalks_write_leaf keeps.paged.forest inRoots rfl reached _ _).tables
          rw [tables]
          intro other isTable'
          exact write_memory (agree'.tables last isTable) (agree'.tables other isTable')
    · cases found with
      | error error =>
        cases mapped
        exact ⟨grown', rfl, agree'⟩
      | ok last => cases failed

end Agree

end TheoryKernel.Mm
