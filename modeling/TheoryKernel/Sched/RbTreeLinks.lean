import TheoryKernel.Sched.RbTreeCells
import TheoryKernel.Lib.LinkedTree
import Mathlib.Data.List.Perm.Subperm

/-! What it means for the slots of the run-queue tree to form a binary tree. -/

namespace TheoryKernel.Sched

open LinkedTree BinaryTree

/-- One entry of the tree: its slot, and what the slot holds besides links. -/
structure Entry where
  id : RbNodeId
  key : UInt64
  tid : Tid
  color : Color
  deriving DecidableEq, Repr

namespace Entry

/-- The entry in another colour. -/
def paint (color : Color) (entry : Entry) : Entry := { entry with color := color }

/-- What the run queue stores in an entry, without its colour. -/
def item (entry : Entry) : RbNodeId × UInt64 × Tid := (entry.id, entry.key, entry.tid)

@[simp] theorem id_paint (color : Color) (entry : Entry) : (entry.paint color).id = entry.id := rfl

@[simp] theorem item_paint (color : Color) (entry : Entry) :
    (entry.paint color).item = entry.item := rfl

@[simp] theorem color_paint (color : Color) (entry : Entry) :
    (entry.paint color).color = color := rfl

end Entry

/-- Which parent link a slot may hold, given the slot and its parent in the tree. -/
abbrev ParentRule := RbNodeId → RbNodeId → RbNodeId → Prop

/-- Every parent link names the parent. -/
def exactParent : ParentRule := fun _ expected actual => actual = expected

/-- Every parent link names the parent, except perhaps the link of one slot. -/
def exactParentExcept (id : RbNodeId) : ParentRule :=
  fun slot expected actual => slot = id ∨ actual = expected

/-- A parent rule under which one slot's link must name its parent. -/
def ParentRule.Fixes (rule : ParentRule) (slot : RbNodeId) : Prop :=
  ∀ expected actual, rule slot expected actual → actual = expected

theorem exactParent_fixes (slot : RbNodeId) : ParentRule.Fixes exactParent slot := fun _ _ same =>
    same

variable {id : RbNodeId}

/-- How entries are laid out in slots, under a rule for the parent links. -/
def slotLayout (rule : ParentRule) : Layout Entry RbNodeId RbNode where
  ident := Entry.id
  absent := RbNodeId.invalid
  fits := fun entry parent left right held =>
    held.key = entry.key ∧ held.tid = entry.tid ∧ held.color = entry.color ∧ held.inUse = true ∧
      held.left = left ∧ held.right = right ∧ rule entry.id parent held.parent

/-- The slot at the root of a tree of entries. -/
abbrev rootSlot : BinaryTree Entry → RbNodeId := (slotLayout exactParent).rootId

/-- The slot above the end of a path. -/
abbrev slotAbove : Path Entry → RbNodeId := (slotLayout exactParent).above

/-- The slots of a tree from left to right. -/
def slots (shape : BinaryTree Entry) : List RbNodeId := shape.inorder.map Entry.id

/-- The slots beside the subtree at the end of a path. -/
def slotsBeside (path : Path Entry) : List RbNodeId := (before path ++ after path).map Entry.id

@[simp] theorem slots_nil : slots .nil = [] := rfl

@[simp] theorem slots_node (entry : Entry) (left right : BinaryTree Entry) :
    slots (.node entry left right) = slots left ++ entry.id :: slots right := by
  simp [slots]

/-- The slots of a tree are those beside a path together with those below it. -/
theorem slots_plug_perm (path : Path Entry) (shape : BinaryTree Entry) :
    (slots (plug path shape)).Perm (slotsBeside path ++ slots shape) := by
  simp only [slots, slotsBeside, inorder_plug, List.map_append, List.append_assoc]
  exact List.Perm.append_left _ List.perm_append_comm

/-- A slot of a tree is beside a path or below it. -/
@[simp] theorem mem_slots_plug {id : RbNodeId} {path : Path Entry} {shape : BinaryTree Entry} :
    id ∈ slots (plug path shape) ↔ id ∈ slotsBeside path ∨ id ∈ slots shape :=
  (slots_plug_perm path shape).mem_iff.trans List.mem_append

/-- The slots beside a longer path add one step's own slot and its sibling's. -/
theorem slotsBeside_cons_perm (step : Step Entry) (path : Path Entry) :
    (slotsBeside (step :: path)).Perm
      (step.value.id :: (slots step.sibling ++ slotsBeside path)) := by
  cases step with
  | left entry sibling =>
    simp only [slotsBeside, slots, before, after, List.map_append, List.map_cons, Step.value,
      Step.sibling, List.cons_append]
    refine List.perm_middle.trans (List.Perm.cons _ ?_)
    rw [← List.append_assoc, ← List.append_assoc]
    exact List.Perm.append_right _ List.perm_append_comm
  | right entry sibling =>
    simp only [slotsBeside, slots, before, after, List.map_append, List.map_cons,
      Step.value, Step.sibling, List.append_assoc, List.cons_append, List.nil_append]
    refine (List.Perm.append_left _ List.perm_middle).trans (List.perm_middle.trans ?_)
    refine List.Perm.cons _ ?_
    rw [← List.append_assoc, ← List.append_assoc]
    exact List.Perm.append_right _ List.perm_append_comm

/-- The root of a tree is one of its slots. -/
theorem rootSlot_mem {shape : BinaryTree Entry} (nonempty : shape ≠ .nil) :
    rootSlot shape ∈ slots shape := by
  cases shape with
  | nil => exact absurd rfl nonempty
  | node entry left right => simp [slotLayout]

theorem slotAbove_mem (step : Step Entry) (path : Path Entry) :
    slotAbove (step :: path) ∈ slotsBeside (step :: path) := by
  cases step with
  | left value sibling | right value sibling => simp [slotsBeside, slotLayout, before, after]

/-- The root of a tree is not the root of a subtree below it. -/
theorem rootSlot_plug_ne {step : Step Entry} {path : Path Entry} {entry : Entry}
    {left right : BinaryTree Entry}
    (nodup : (slots (plug (step :: path) (.node entry left right))).Nodup) :
    rootSlot (plug (step :: path) (.node entry left right)) ≠ entry.id := by
  rw [(slots_plug_perm _ _).nodup_iff, List.nodup_append] at nodup
  -- The root is seen through the path alone, whatever subtree stands at its end.
  have nonempty : plug (step :: path) .nil ≠ .nil := by
    cases step <;> exact plug_node_ne_nil _ _ _ _
  have member := rootSlot_mem nonempty
  rw [(slots_plug_perm _ _).mem_iff, slots_nil, List.append_nil] at member
  have seen : rootSlot (plug (step :: path) (.node entry left right)) =
      rootSlot (plug (step :: path) .nil) := Layout.rootId_plug_cons step path _ _
  rw [seen]
  exact nodup.2.2 _ member entry.id (by simp)

/-- The root slot of a tree is valid only if the tree has a node. -/
theorem mem_of_rootSlot_valid {shape : BinaryTree Entry} (valid : (rootSlot shape).isValid = true) :
    rootSlot shape ∈ slots shape := by
  cases shape with
  | nil => simp [slotLayout] at valid
  | node entry left right => exact rootSlot_mem (by simp)

/-- The slot above a path is valid only if it lies beside the path. -/
theorem mem_of_slotAbove_valid {path : Path Entry} (valid : (slotAbove path).isValid = true) :
    slotAbove path ∈ slotsBeside path := by
  cases path with
  | nil => simp [slotLayout] at valid
  | cons step path => exact slotAbove_mem step path

/-- A valid slot outside a tree is not its root. -/
theorem rootSlot_ne {shape : BinaryTree Entry} (valid : id.isValid = true)
    (outside : id ∉ slots shape) : rootSlot shape ≠ id := by
  rintro rfl
  exact outside (mem_of_rootSlot_valid valid)

/-- A valid slot that does not lie beside a path is not the slot above it. -/
theorem slotAbove_ne {path : Path Entry} (valid : id.isValid = true)
    (outside : id ∉ slotsBeside path) : slotAbove path ≠ id := by
  rintro rfl
  exact outside (mem_of_slotAbove_valid valid)

namespace RedBlackTree

variable {rule : ParentRule} {tree changed : RedBlackTree} {shape : BinaryTree Entry}
  {path : Path Entry}

/-- The slots of a state form the given tree, with parent links that obey the rule. -/
structure Represents (rule : ParentRule) (tree : RedBlackTree) (shape : BinaryTree Entry) :
    Prop where
  root : tree.root = rootSlot shape
  stored : (slotLayout rule).Stored tree.cell RbNodeId.invalid shape
  nodup : (slots shape).Nodup

/-- The slots of a state form the given tree, with all links in agreement. -/
abbrev Linked : RedBlackTree → BinaryTree Entry → Prop := Represents exactParent

variable {entry : Entry} {left right shape' : BinaryTree Entry} {rule' : ParentRule} {id : RbNodeId}
  {step : Step Entry}

theorem stored_mono {parent : RbNodeId}
    (weaker : ∀ slot expected held, tree.cell slot = some held → rule slot expected held.parent →
      rule' slot expected held.parent)
    (stored : (slotLayout rule).Stored tree.cell parent shape) :
    (slotLayout rule').Stored tree.cell parent shape := by
  induction shape generalizing parent with
  | nil => trivial
  | node entry left right ihLeft ihRight =>
    obtain ⟨⟨held, found, key, tid, color, used, leftLink, rightLink, up⟩, storedLeft,
      storedRight⟩ := stored
    exact ⟨⟨held, found, key, tid, color, used, leftLink, rightLink, weaker _ _ _ found up⟩,
      ihLeft storedLeft, ihRight storedRight⟩

/-- A state that represents a tree under a rule also does so under a weaker one. -/
theorem Represents.mono
    (weaker : ∀ slot expected held, tree.cell slot = some held → rule slot expected held.parent →
      rule' slot expected held.parent)
    (rep : Represents rule tree shape) : Represents rule' tree shape :=
  ⟨rep.root, stored_mono weaker rep.stored, rep.nodup⟩

/-- The child links of a state determine the tree, whatever rule its parent links obey. -/
theorem Represents.unique (rep : Represents rule tree shape)
    (other : Represents rule' tree shape') : shape = shape' := by
  refine Layout.Stored.unique (fun same fit fit' => ?_) cell_invalid rep.stored other.stored
    (rep.root.symm.trans other.root)
  rename_i a b p q l r l' r' held
  obtain ⟨key, tid, color, -, left, right, -⟩ := fit
  obtain ⟨key', tid', color', -, left', right', -⟩ := fit'
  refine ⟨?_, left.symm.trans left', right.symm.trans right'⟩
  cases a
  cases b
  simp only [slotLayout] at same key tid color key' tid' color'
  simp [same, ← key, ← tid, ← color, key', tid', color']

/-- The parts of a represented tree around and below a path. -/
theorem Represents.parts (rep : Represents rule tree (plug path shape)) :
    (slotLayout rule).StoredPath tree.cell path (rootSlot shape) ∧
      (slotLayout rule).Stored tree.cell (slotAbove path) shape ∧
      (slotsBeside path).Nodup ∧ (slots shape).Nodup ∧
      ∀ id ∈ slotsBeside path, id ∉ slots shape := by
  have stored : (slotLayout rule).Stored tree.cell (slotLayout rule).absent (plug path shape) :=
    rep.stored
  obtain ⟨around, below⟩ := Layout.stored_plug.mp stored
  have nodup := (slots_plug_perm path shape).nodup_iff.mp rep.nodup
  rw [List.nodup_append] at nodup
  obtain ⟨beside, inside, apart⟩ := nodup
  exact ⟨around, below, beside, inside, fun id member below => apart id member id below rfl⟩

/-- Every slot of a represented tree exists. -/
theorem Represents.exists_cell (rep : Represents rule tree shape) (member : id ∈ slots shape) :
    ∃ held, tree.cell id = some held ∧ held.inUse = true := by
  obtain ⟨entry, inside, rfl⟩ := List.mem_map.mp member
  obtain ⟨held, found, _, _, _, fit⟩ := rep.stored.exists_cell inside
  exact ⟨held, found, fit.2.2.2.1⟩

/-- Every slot of a represented tree is valid. -/
theorem Represents.isValid (rep : Represents rule tree shape) (member : id ∈ slots shape) :
    id.isValid = true := by
  obtain ⟨held, found, -⟩ := rep.exists_cell member
  exact isValid_of_cell found

/-- The root slot of a subtree is absent only for an empty subtree. -/
theorem Represents.rootSlot_valid (rep : Represents rule tree (plug path shape)) :
    (rootSlot shape).isValid = true ↔ shape ≠ .nil := by
  constructor
  · rintro valid rfl
    simp [slotLayout] at valid
  · intro nonempty
    apply rep.isValid
    simp [rootSlot_mem nonempty]

section

variable (rep : Represents rule tree (plug path (.node entry left right)))

include rep

/-- What the slot at the end of a path holds. -/
theorem Represents.cell_node :
    ∃ held, tree.cell entry.id = some held ∧ held.key = entry.key ∧ held.tid = entry.tid ∧
      held.color = entry.color ∧ held.inUse = true ∧ held.left = rootSlot left ∧
      held.right = rootSlot right ∧ rule entry.id (slotAbove path) held.parent := by
  obtain ⟨-, ⟨⟨held, found, fit⟩, -, -⟩, -⟩ := rep.parts
  exact ⟨held, found, fit⟩

/-- The left subtree of a node stands at the end of a longer path. -/
theorem Represents.inLeft : Represents rule tree (plug (.left entry right :: path) left) := rep

/-- The right subtree of a node stands at the end of a longer path. -/
theorem Represents.inRight : Represents rule tree (plug (.right entry left :: path) right) := rep

end

/-- What the slot above the end of a path holds. -/
theorem Represents.cell_step (rep : Represents rule tree (plug (step :: path) shape)) :
    ∃ held, tree.cell step.value.id = some held ∧ held.color = step.value.color ∧
      rule step.value.id (slotAbove path) held.parent ∧
      match step with
      | .left _ sibling => held.left = rootSlot shape ∧ held.right = rootSlot sibling
      | .right _ sibling => held.left = rootSlot sibling ∧ held.right = rootSlot shape := by
  cases step with
  | left entry sibling =>
    have whole : Represents rule tree (plug path (.node entry shape sibling)) := rep
    obtain ⟨held, found, -, -, color, -, left, right, up⟩ := whole.cell_node
    exact ⟨held, found, color, up, left, right⟩
  | right entry sibling =>
    have whole : Represents rule tree (plug path (.node entry sibling shape)) := rep
    obtain ⟨held, found, -, -, color, -, left, right, up⟩ := whole.cell_node
    exact ⟨held, found, color, up, left, right⟩

/-- A slot that a node links to on the side of a step. -/
def hang (id : RbNodeId) : Step Entry → RbNode → RbNode
  | .left _ _, n => { n with left := id }
  | .right _ _, n => { n with right := id }

/-- The nearest step of a path may be linked to another slot. -/
theorem Represents.storedPath_hang (rep : Represents rule tree (plug (step :: path) shape))
    (above : changed.cell step.value.id = (tree.cell step.value.id).map (hang id step))
    (rest : ∀ other ∈ slotsBeside (step :: path), other ≠ step.value.id → changed.cell other =
      tree.cell other) : (slotLayout rule).StoredPath changed.cell (step :: path) id := by
  obtain ⟨around, -, nodup, -, -⟩ := rep.parts
  have perm := slotsBeside_cons_perm step path
  have cells : ∀ id ∈ slots step.sibling ++ slotsBeside path, changed.cell id = tree.cell id := by
    intro id member
    refine rest id (perm.mem_iff.mpr (List.mem_cons_of_mem _ member)) ?_
    rintro rfl
    exact (List.nodup_cons.mp (perm.nodup_iff.mp nodup)).1 member
  have sibling : ∀ entry ∈ step.sibling.inorder, changed.cell entry.id = tree.cell entry.id :=
    fun entry member => cells _ (List.mem_append_left _ (List.mem_map_of_mem member))
  have farther : ∀ entry ∈ before path ++ after path,
      changed.cell entry.id = tree.cell entry.id :=
    fun entry member => cells _ (List.mem_append_right _ (List.mem_map_of_mem member))
  cases step with
  | left entry other =>
    obtain ⟨⟨held, found, key, tid, color, used, -, right, up⟩, storedOther, storedPath⟩ := around
    exact ⟨⟨_, above.trans (congrArg _ found), key, tid, color, used, rfl, right, up⟩,
      storedOther.congr sibling, storedPath.congr farther⟩
  | right entry other =>
    obtain ⟨⟨held, found, key, tid, color, used, left, -, up⟩, storedOther, storedPath⟩ := around
    exact ⟨⟨_, above.trans (congrArg _ found), key, tid, color, used, left, rfl, up⟩,
      storedOther.congr sibling, storedPath.congr farther⟩

/--
Replacing the subtree at the end of a path.

The new subtree must be stored below the same parent, the parent's link must have been redirected to
its root, and nothing else beside the path may have changed.
-/
theorem Represents.replace (rep : Represents rule tree (plug path shape))
    (nonempty : shape ≠ .nil)
    (stored : (slotLayout rule).Stored changed.cell (slotAbove path) shape')
    (beside : ∀ id ∈ slotsBeside path, id ≠ slotAbove path → changed.cell id = tree.cell id)
    (above : changed.cell (slotAbove path) =
      (tree.cell (slotAbove path)).map (relink (rootSlot shape) (rootSlot shape')))
    (root : changed.root = if (slotAbove path).isValid then tree.root else rootSlot shape')
    (nodup : (slots shape').Nodup) (fresh : ∀ id ∈ slots shape', id ∉ slotsBeside path) :
    Represents rule changed (plug path shape') := by
  have rootValid : (rootSlot shape).isValid = true := rep.rootSlot_valid.mpr nonempty
  obtain ⟨around, below, besideNodup, insideNodup, apart⟩ := rep.parts
  have allNodup : (slots (plug path shape')).Nodup := by
    rw [(slots_plug_perm path shape').nodup_iff, List.nodup_append]
    exact ⟨besideNodup, nodup, fun id member other inside same =>
      fresh id (same ▸ inside) member⟩
  cases path with
  | nil =>
    refine ⟨?_, stored, allNodup⟩
    rw [root, if_neg (by simp [slotLayout])]
    rfl
  | cons step path =>
    refine ⟨?_, Layout.stored_plug.mpr ⟨?_, stored⟩, allNodup⟩
    · have valid := rep.isValid (mem_slots_plug.mpr (Or.inl (slotAbove_mem step path)))
      rw [root, if_pos valid, rep.root]
      exact Layout.rootId_plug_cons step path shape shape'
    -- Only the cell of the nearest step changed, and only its link into the subtree.
    refine rep.storedPath_hang ?_ beside
    obtain ⟨held, found, -, -, links⟩ := rep.cell_step
    change changed.cell step.value.id = (tree.cell step.value.id).map _ at above
    rw [above, found, Option.map_some, Option.map_some, relink]
    have siblingApart : rootSlot step.sibling ≠ rootSlot shape :=
      rootSlot_ne rootValid fun member => apart _
        ((slotsBeside_cons_perm step path).mem_iff.mpr (by simp [member])) (rootSlot_mem nonempty)
    cases step with
    | left entry other => exact congrArg some (if_pos links.1)
    | right entry other => exact congrArg some (if_neg (links.1 ▸ siblingApart))

/-- The subtree on the other side of a step has another root. -/
theorem Represents.sibling_ne
    (rep : Represents rule tree (plug (step :: path) (.node entry left right))) :
    rootSlot step.sibling ≠ entry.id := by
  obtain ⟨held, found, -⟩ := rep.cell_node
  obtain ⟨-, -, -, -, apart⟩ := rep.parts
  refine rootSlot_ne (isValid_of_cell found) fun member => apart entry.id ?_ (by simp)
  rw [(slotsBeside_cons_perm _ _).mem_iff]
  exact List.mem_cons_of_mem _ (List.mem_append_left _ member)

/-- A represented tree has no more nodes than the array has slots. -/
theorem Represents.length_le (rep : Represents rule tree shape) :
    (slots shape).length ≤ maxRbNodes := by
  -- Distinct slots have distinct positions below the slot count.
  have distinct : ((slots shape).map RbNodeId.asUsize).Nodup :=
    rep.nodup.map fun _ _ same => RbNodeId.asUsize_inj.mp same
  have inside : (slots shape).map RbNodeId.asUsize ⊆ List.range maxRbNodes := by
    intro position member
    obtain ⟨id, known, rfl⟩ := List.mem_map.mp member
    obtain ⟨held, found, -⟩ := rep.exists_cell known
    exact List.mem_range.mpr (inside_of_cell found)
  simpa using (List.subperm_of_subset distinct inside).length_le

theorem length_path_le (path : Path Entry) (shape : BinaryTree Entry) :
    path.length + (slots shape).length ≤ (slots (plug path shape)).length := by
  induction path generalizing shape with
  | nil => simp
  | cons step path ih =>
    have bound := ih (step.attach shape)
    have grown : (slots (step.attach shape)).length ≥ (slots shape).length + 1 := by
      cases step <;> simp
    simp only [List.length_cons, plug_cons]
    omega

theorem height_le_slots (shape : BinaryTree Entry) : shape.height ≤ (slots shape).length := by
  induction shape with
  | nil => simp
  | node entry left right ihLeft ihRight =>
    simp only [height, slots_node, List.length_append, List.length_cons]
    omega

/-- A loop that takes one round for each step above a subtree ends in time. -/
theorem Represents.path_lt (rep : Represents rule tree (plug path shape)) :
    path.length + (slots shape).length < loopBudget :=
  Nat.lt_succ_of_le (Nat.le_trans (length_path_le path shape) rep.length_le)

/-- A loop that goes down a subtree ends in time. -/
theorem Represents.height_le (rep : Represents rule tree (plug path shape)) :
    shape.height ≤ loopBudget := by
  have deep := height_le_slots shape
  have room := rep.path_lt
  omega

/-- Changing one slot keeps the tree when the slot keeps its links and becomes its new entry. -/
theorem Represents.update {entry' : Entry} {change : RbNode → RbNode}
    (sameSlot : entry'.id = entry.id)
    (becomes : ∀ held, tree.cell entry.id = some held →
      (slotLayout rule).fits entry (slotAbove path) (rootSlot left) (rootSlot right) held →
      (slotLayout rule).fits entry' (slotAbove path) (rootSlot left) (rootSlot right) (change held))
    (rep : Represents rule tree (plug path (.node entry left right))) :
    Represents rule (tree.adjust entry.id change) (plug path (.node entry' left right)) := by
  obtain ⟨around, ⟨⟨held, found, fit⟩, storedLeft, storedRight⟩, -, nodup, apart⟩ := rep.parts
  rw [slots_node, List.nodup_append, List.nodup_cons] at nodup
  obtain ⟨-, ⟨outsideRight, -⟩, apartLeft⟩ := nodup
  have sameSlots : slots (plug path (.node entry' left right)) =
      slots (plug path (.node entry left right)) := by
    simp [slots, inorder_plug, sameSlot]
  refine ⟨?_, Layout.stored_plug.mpr ⟨?_, ?_⟩, by rw [sameSlots]; exact rep.nodup⟩
  · rw [root_adjust, rep.root]
    cases path with
    | nil => exact sameSlot.symm
    | cons step path => exact Layout.rootId_plug_cons step path _ _
  · change (slotLayout rule).StoredPath _ _ entry'.id
    rw [sameSlot]
    refine around.congr fun value member => cell_adjust_of_ne _ ?_
    intro same
    refine apart value.id (List.mem_map_of_mem member) ?_
    rw [slots_node]
    exact List.mem_append_right _ (by rw [show value.id = entry.id from same]; simp)
  · change tree.cell entry.id = some held at found
    refine ⟨⟨change held, ?_, becomes held found fit⟩, ?_, ?_⟩
    · change (tree.adjust entry.id change).cell entry'.id = _
      rw [sameSlot, cell_adjust_self, found, Option.map_some]
    · change (slotLayout rule).Stored _ entry'.id left
      rw [sameSlot]
      refine storedLeft.congr fun value member => cell_adjust_of_ne _ ?_
      exact fun same => apartLeft value.id (List.mem_map_of_mem member) entry.id (by simp) same
    · change (slotLayout rule).Stored _ entry'.id right
      rw [sameSlot]
      refine storedRight.congr fun value member => cell_adjust_of_ne _ ?_
      intro same
      exact outsideRight (by
        rw [← show value.id = entry.id from same]
        exact List.mem_map_of_mem member)

/-- Painting one entry of a represented tree. -/
theorem Represents.setColor (rep : Represents rule tree (plug path (.node entry left right)))
    (color : Color) :
    ∃ painted, tree.setColor entry.id color = .ok painted ∧
      painted = tree.adjust entry.id (fun n => { n with color := color }) ∧
      Represents rule painted (plug path (.node (entry.paint color) left right)) := by
  obtain ⟨held, found, -⟩ := rep.cell_node
  refine ⟨_, setColor_of_cell found color, rfl, rep.update rfl fun held _ fit => ?_⟩
  exact ⟨fit.1, fit.2.1, rfl, fit.2.2.2⟩

end RedBlackTree

end TheoryKernel.Sched
