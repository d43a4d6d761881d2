import TheoryKernel.Sched.RbTree

/-! Reading and writing single slots of the run-queue tree. -/

namespace TheoryKernel.Sched

open RbNodeId

namespace RbNodeId

/-- Different identifiers stand for different array positions. -/
theorem asUsize_inj {first second : RbNodeId} :
    first.asUsize = second.asUsize ↔ first = second := by
  constructor
  · intro same
    cases first
    cases second
    exact congrArg mk (UInt16.toNat_inj.mp same)
  · rintro rfl
    rfl

theorem not_inside_invalid : ¬ invalid.asUsize < maxRbNodes := by decide

/-- An identifier is valid exactly when it is not the absent one. -/
theorem isValid_iff {id : RbNodeId} : id.isValid = true ↔ id ≠ invalid := by
  cases id
  simp [isValid, invalid]

/-- The absent identifier names no slot. -/
@[simp] theorem isValid_invalid : invalid.isValid = false := rfl

/-- Only the absent identifier is not valid. -/
theorem eq_invalid {id : RbNodeId} (absent : ¬ id.isValid = true) : id = invalid :=
  not_not.mp (mt isValid_iff.mpr absent)

/-- An array position below the slot count is the position of its own identifier. -/
theorem asUsize_new {position : Nat} (inside : position < maxRbNodes) :
    (new (UInt16.ofNat position)).asUsize = position := by
  have small : position < 65536 := Nat.lt_trans inside (by decide)
  simpa [new, asUsize] using small

end RbNodeId

namespace RedBlackTree

variable {tree : RedBlackTree} {id other : RbNodeId} {held : RbNode}

/-- The contents of a slot, if the array has such a slot. -/
def cell (tree : RedBlackTree) (id : RbNodeId) : Option RbNode :=
  if inside : id.asUsize < maxRbNodes then some (tree.nodes ⟨id.asUsize, inside⟩) else none

/-- Changing one slot and leaving every other slot alone. -/
def adjust (tree : RedBlackTree) (id : RbNodeId) (change : RbNode → RbNode) : RedBlackTree :=
  { tree with nodes := fun i => if i.val = id.asUsize then change (tree.nodes i) else tree.nodes i }

@[simp] theorem root_adjust (change : RbNode → RbNode) :
    (tree.adjust id change).root = tree.root := rfl

@[simp] theorem freeHead_adjust (change : RbNode → RbNode) :
    (tree.adjust id change).freeHead = tree.freeHead := rfl

/-- Only the changed slot reads differently. -/
theorem cell_adjust (change : RbNode → RbNode) :
    (tree.adjust id change).cell other =
      if other = id then (tree.cell other).map change else tree.cell other := by
  by_cases inside : other.asUsize < maxRbNodes
  · by_cases same : other = id
    · subst same
      simp [cell, adjust, inside]
    · have apart : ¬ other.asUsize = id.asUsize := fun equal =>
        same (asUsize_inj.mp equal)
      simp [cell, adjust, inside, same, apart]
  · simp [cell, inside]

@[simp] theorem cell_adjust_self (change : RbNode → RbNode) :
    (tree.adjust id change).cell id = (tree.cell id).map change := by
  rw [cell_adjust, if_pos rfl]

/-- A slot other than the changed one reads as before. -/
theorem cell_adjust_of_ne (change : RbNode → RbNode) (apart : other ≠ id) :
    (tree.adjust id change).cell other = tree.cell other := by
  rw [cell_adjust, if_neg apart]

@[simp] theorem cell_with_root (root : RbNodeId) :
    { tree with root := root }.cell id = tree.cell id := rfl

@[simp] theorem cell_with_freeHead (head : RbNodeId) :
    { tree with freeHead := head }.cell id = tree.cell id := rfl

/-- No slot stands behind the absent identifier. -/
@[simp] theorem cell_invalid : tree.cell invalid = none := by
  rw [cell, dif_neg not_inside_invalid]

/-- An identifier that names no node has no slot. -/
theorem cell_of_not_valid (absent : ¬ id.isValid = true) : tree.cell id = none := by
  rw [eq_invalid absent, cell_invalid]

section

variable (found : tree.cell id = some held)

include found

/-- A slot has a position in the array. -/
theorem inside_of_cell : id.asUsize < maxRbNodes := by
  unfold cell at found
  split at found
  · assumption
  · cases found

/-- The array never changes its size, so a slot of one state exists in every state. -/
theorem exists_cell_of_cell (other : RedBlackTree) : ∃ before, other.cell id = some before :=
  ⟨_, dif_pos (inside_of_cell found)⟩

/-- Every identifier with a slot is valid. -/
theorem isValid_of_cell : id.isValid = true := by
  rw [isValid_iff]
  rintro rfl
  simp at found

/-- Reading an existing slot returns its contents. -/
theorem node_of_cell : tree.node id = .ok held := by
  unfold cell at found
  split at found
  · rename_i inside
    cases found
    simp [node, inside]
  · cases found

/-- Changing an existing slot succeeds. -/
theorem modify_of_cell (change : RbNode → RbNode) :
    tree.modify id change = .ok (tree.adjust id change) := by
  unfold cell at found
  split at found
  · rename_i inside
    rw [modify, dif_pos inside, adjust]
    congr
    funext i
    -- The changed slot is the one at the position of the identifier.
    by_cases same : i = ⟨id.asUsize, inside⟩
    · subst same
      simp
    · have apart : ¬ i.val = id.asUsize := fun equal => same (Fin.ext equal)
      simp [Function.update_of_ne same, apart]
  · cases found

theorem adjust_congr {first second : RbNode → RbNode} (same : first held = second held) :
    tree.adjust id first = tree.adjust id second := by
  simp only [adjust]
  congr 1
  funext i
  split
  · rename_i here
    have inside : id.asUsize < maxRbNodes := here ▸ i.isLt
    have position : i = ⟨id.asUsize, inside⟩ := Fin.ext here
    simp only [cell, inside, dif_pos, Option.some.injEq] at found
    rw [position, found, same]
  · rfl

/-- Painting an existing slot succeeds. -/
theorem setColor_of_cell (color : Color) :
    tree.setColor id color = .ok (tree.adjust id fun n => { n with color := color }) :=
  modify_of_cell found _

end

/-- Changing the slot of the absent identifier changes nothing. -/
@[simp] theorem adjust_invalid (change : RbNode → RbNode) : tree.adjust invalid change = tree := by
  -- No array position is as large as the absent identifier.
  unfold adjust
  congr 1
  funext i
  refine if_neg fun here => not_inside_invalid ?_
  rw [← here]
  exact i.isLt

theorem adjust_of_not_valid (absent : ¬ id.isValid = true) (change : RbNode → RbNode) :
    tree.adjust id change = tree := by
  rw [eq_invalid absent, adjust_invalid]

/-- A read is decided by the contents of the slot. -/
theorem node_eq : tree.node id = (tree.cell id).elim (.error .indexOutOfBounds) .ok := by
  cases found : tree.cell id with
  | none =>
    unfold cell at found
    split at found
    · cases found
    · rename_i outside
      simp [node, outside]
  | some held => simp [node_of_cell found]

/-- A change is decided by whether its slot exists. -/
theorem modify_eq (change : RbNode → RbNode) : tree.modify id change =
    (tree.cell id).elim (.error .indexOutOfBounds) fun _ => .ok (tree.adjust id change) := by
  cases found : tree.cell id with
  | none =>
    unfold cell at found
    split at found
    · cases found
    · rename_i outside
      simp [modify, outside]
  | some held => simp [modify_of_cell found]

/-- Changing an optional slot succeeds when the slot exists in case it is named. -/
theorem modifyIfValid_of_cell (present : id.isValid = true → ∃ held, tree.cell id = some held)
    (change : RbNode → RbNode) : tree.modifyIfValid id change = .ok (tree.adjust id change) := by
  unfold modifyIfValid
  split
  · rename_i valid
    obtain ⟨held, found⟩ := present valid
    exact modify_of_cell found change
  · rename_i absent
    rw [adjust_of_not_valid absent]

/-- Redirecting one child link of a node. -/
def relink (old new : RbNodeId) (n : RbNode) : RbNode :=
  if n.left = old then { n with left := new } else { n with right := new }

/-- Redirecting the link to a node from above, as one change of the state. -/
def redirect (tree : RedBlackTree) (parent old new : RbNodeId) : RedBlackTree :=
  if parent.isValid then tree.adjust parent (relink old new) else { tree with root := new }

@[simp] theorem freeHead_redirect (parent old new : RbNodeId) :
    (tree.redirect parent old new).freeHead = tree.freeHead := by
  unfold redirect
  split <;> rfl

theorem root_redirect (parent old new : RbNodeId) :
    (tree.redirect parent old new).root = if parent.isValid then tree.root else new := by
  unfold redirect
  split <;> rfl

/-- Redirecting changes at most the slot of the parent. -/
theorem cell_redirect (parent old new : RbNodeId) :
    (tree.redirect parent old new).cell other =
      if other = parent then (tree.cell other).map (relink old new) else tree.cell other := by
  by_cases valid : parent.isValid = true
  · simp [redirect, valid, cell_adjust]
  · have absent := eq_invalid valid
    by_cases same : other = parent
    · simp [redirect, absent, same]
    · simp [redirect, valid, same]

/-- Redirecting the link from above succeeds when the named parent exists. -/
theorem replaceChild_of_cell {parent : RbNodeId} (old new : RbNodeId)
    (present : parent.isValid = true → ∃ held, tree.cell parent = some held) :
    tree.replaceChild parent old new = .ok (tree.redirect parent old new) := by
  by_cases valid : parent.isValid = true
  · obtain ⟨held, found⟩ := present valid
    simp only [replaceChild, valid, Bool.not_true, Bool.false_eq_true, if_false,
      node_of_cell found, Exec.ok_bind, modify_of_cell found, redirect, if_true]
    by_cases left : held.left = old
    · rw [if_pos left]
      exact congrArg Except.ok (adjust_congr found (by simp [relink, left]))
    · rw [if_neg left]
      exact congrArg Except.ok (adjust_congr found (by simp [relink, left]))
  · simp [replaceChild, redirect, valid]

end RedBlackTree

end TheoryKernel.Sched
