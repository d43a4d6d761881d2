import TheoryKernel.Mm.PagingRun
import TheoryKernel.Mm.UserMemory
import TheoryKernel.Mm.VmaList

/-! The address space of a program: its areas and its page table. -/

namespace TheoryKernel.Mm

/-- The slots for areas, of which the first ones are in use and no other. -/
structure AreaTree where
  tree : VmaTree
  holds : tree.Holds tree.iter

namespace AreaTree

variable {areas changed : AreaTree} {vma : Vma}

/-- The areas that are held. -/
def list (areas : AreaTree) : List Vma := areas.tree.iter

/-- No slot is in use. -/
def new : AreaTree := ⟨.new, ⟨rfl, Nat.zero_le _, fun _ => rfl⟩⟩

/-- The area that contains an address. -/
def find (areas : AreaTree) (addr : Nat) : Option Vma := areas.tree.find addr

/-- Whether some area shares an address with a range. -/
def overlaps (areas : AreaTree) (start stop : Nat) : Bool := areas.tree.overlaps start stop

theorem holds_iter {tree : VmaTree} {vmas : List Vma} (holds : tree.Holds vmas) :
    tree.Holds tree.iter := by
  rwa [holds.iter_eq]

theorem length_le (areas : AreaTree) : areas.list.length ≤ maxVmas := areas.holds.room

/-- An area can be added if a slot is left and no address is shared. -/
def Accepts (areas : AreaTree) (vma : Vma) : Prop :=
  areas.list.length < maxVmas ∧ ∀ other ∈ areas.list, ¬ other.Overlaps vma.start vma.stop

theorem insert_cases (areas : AreaTree) (vma : Vma) :
    (areas.Accepts vma ∧ ∃ changed, areas.tree.insert vma = .ok (.ok (), changed) ∧
        changed.Holds changed.iter ∧ changed.iter.Perm (vma :: areas.list)) ∨
      (¬ areas.Accepts vma ∧ areas.tree.insert vma = .ok (.error .noSpace, areas.tree)) := by
  have room := areas.length_le
  by_cases accepts : areas.Accepts vma
  · obtain ⟨changed, sorted, run, holds, perm, -⟩ :=
      areas.holds.insert_returns accepts.1 accepts.2
    refine .inl ⟨accepts, changed, run, holds_iter holds, ?_⟩
    rwa [holds.iter_eq]
  · refine .inr ⟨accepts, areas.holds.insert_refused ?_⟩
    by_cases full : areas.list.length = maxVmas
    · exact .inl full
    · by_contra neither
      rw [not_or] at neither
      refine accepts ⟨by omega, ?_⟩
      intro other inside shares
      exact neither.2 ⟨other, inside, shares⟩

/-- Adding an area, which never faults. -/
def insert (areas : AreaTree) (vma : Vma) : Except VmaError Unit × AreaTree :=
  match run : areas.tree.insert vma with
  | .ok (outcome, tree) => (outcome, ⟨tree, by
      obtain ⟨-, changed, run', holds, -⟩ | ⟨-, run'⟩ := areas.insert_cases vma
      · cases run.symm.trans run'
        exact holds
      · cases run.symm.trans run'
        exact areas.holds⟩)
  | .error _ => (.error .noSpace, areas)

/-- An area that can be added is one more area. -/
theorem insert_accepted (accepts : areas.Accepts vma) :
    ∃ changed, areas.insert vma = (.ok (), changed) ∧ changed.list.Perm (vma :: areas.list) := by
  obtain ⟨-, tree, run, holds, perm⟩ | ⟨rejects, -⟩ := areas.insert_cases vma
  · refine ⟨⟨tree, holds⟩, ?_, perm⟩
    unfold insert
    split
    · rename_i run'
      cases run'.symm.trans run
      rfl
    · rename_i run'
      cases run'.symm.trans run
  · exact absurd accepts rejects

/-- An area that cannot be added changes nothing. -/
theorem insert_rejected (rejects : ¬ areas.Accepts vma) :
    areas.insert vma = (.error .noSpace, areas) := by
  obtain ⟨accepts, -⟩ | ⟨-, run⟩ := areas.insert_cases vma
  · exact absurd accepts rejects
  · unfold insert
    split
    · rename_i run'
      cases run'.symm.trans run
      rfl
    · rename_i run'
      cases run'.symm.trans run

/-- A change of protection reaches the first area with the range, if there is one. -/
theorem updateProt_cases (areas : AreaTree) (start length : Nat) (prot : ProtFlags) :
    (∃ before vma after changed, areas.list = before ++ vma :: after ∧ vma.start = start ∧
        vma.stop = wrapAdd start length ∧
        (∀ other ∈ before, ¬ (other.start = vma.start ∧ other.stop = vma.stop)) ∧
        areas.tree.updateProt start length prot = (.ok (), changed) ∧
        changed.Holds (before ++ { vma with prot } :: after)) ∨
      ((∀ vma ∈ areas.list, ¬ (vma.start = start ∧ vma.stop = wrapAdd start length)) ∧
        areas.tree.updateProt start length prot = (.error .notFound, areas.tree)) := by
  cases found : areas.list.find? fun vma =>
      decide (vma.start = start ∧ vma.stop = wrapAdd start length) with
  | none =>
    have missing : ∀ vma ∈ areas.list, ¬ (vma.start = start ∧ vma.stop = wrapAdd start length) := by
      intro vma inside same
      exact List.find?_eq_none.mp found vma inside (decide_eq_true same)
    exact Or.inr ⟨missing, areas.holds.updateProtLoop_missing missing⟩
  | some vma =>
    obtain ⟨isFirst, before, after, split, earlier⟩ := List.find?_eq_some_iff_append.mp found
    obtain ⟨sameStart, sameStop⟩ := of_decide_eq_true isFirst
    have holds : areas.tree.Holds (before ++ vma :: after) := split ▸ areas.holds
    have first : ∀ other ∈ before, ¬ (other.start = vma.start ∧ other.stop = vma.stop) := by
      intro other inside same
      have passed := earlier other inside
      rw [← sameStop, ← sameStart, decide_eq_true same] at passed
      cases passed
    obtain ⟨changed, run, holds'⟩ : ∃ changed,
        areas.tree.updateProtLoop vma.start vma.stop prot (List.range areas.tree.len) =
          (.ok (), changed) ∧ changed.Holds (before ++ { vma with prot } :: after) :=
      holds.updateProtLoop_found first
    rw [sameStart, sameStop] at run
    exact Or.inl ⟨before, vma, after, changed, split, sameStart, sameStop, first, run, holds'⟩

/-- Changing the protection of the area with exactly the given range. -/
def updateProt (areas : AreaTree) (start length : Nat) (prot : ProtFlags) :
    Except VmaError Unit × AreaTree :=
  ((areas.tree.updateProt start length prot).1, ⟨(areas.tree.updateProt start length prot).2, by
    obtain ⟨before, vma, after, changed, -, -, -, -, run, holds⟩ | ⟨-, run⟩ :=
      areas.updateProt_cases start length prot
    · rw [run]
      exact holds_iter holds
    · rw [run]
      exact areas.holds⟩)

end AreaTree

/-- The address space of a program. -/
structure AddressSpace where
  pageTable : PageTable
  vma : AreaTree

namespace AddressSpace

/-- An address space without areas and without pages. -/
def newUser (machine : Machine) : Option (AddressSpace × Machine) :=
  (PageTable.newEmpty machine).map fun created => (⟨created.1, .new⟩, created.2)

end AddressSpace

/-- A new address space on a machine with 64 frames. -/
def newSpace : AddressSpace × Machine :=
  (AddressSpace.newUser dirtyMachine).getD (⟨⟨0⟩, .new⟩, dirtyMachine)

/-- The new address space has no pages. -/
theorem newSpace_exclusive :
    Exclusive newSpace.1.pageTable {newSpace.1.pageTable.root} newSpace.2 := by
  have enough : (PageTable.newEmpty dirtyMachine).isSome = true := by decide
  obtain ⟨⟨table, start⟩, created⟩ := Option.isSome_iff_exists.mp enough
  have nothing : dirtyMachine.Paged ∅ :=
    ⟨fun _ inRoots => inRoots.elim, fun _ ⟨_, inRoots, _⟩ => inRoots.elim⟩
  have same : newSpace = (⟨table, .new⟩, start) := by
    rw [newSpace, AddressSpace.newUser, created]
    rfl
  have exclusive := Exclusive.of_newEmpty nothing created
  rw [same]
  rwa [insert_empty_eq] at exclusive

end TheoryKernel.Mm
