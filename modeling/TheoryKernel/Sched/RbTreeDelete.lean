import TheoryKernel.Sched.RbTreeRepair

/-! Removal from the run-queue tree: right for a node with at most one child, wrong for any other. -/

namespace TheoryKernel.Sched

open LinkedTree LinkedList BinaryTree RedBlack List Exec

namespace RedBlackTree

variable {tree changed : RedBlackTree} {shape : BinaryTree Entry} {path : Path Entry}
  {z y : Entry} {left right child : BinaryTree Entry}

/-- Giving a slot another parent, and redirecting the link from above one slot to another. -/
def rehang (tree : RedBlackTree) (child parent above old new : RbNodeId) : RedBlackTree :=
  (tree.adjust child fun n => { n with parent := parent }).redirect above old new

theorem cell_rehang {child parent above old new : RbNodeId}
    (apart : above ≠ child ∨ above = .invalid) (id : RbNodeId) :
    (tree.rehang child parent above old new).cell id =
      if id = above then (tree.cell id).map (relink old new)
      else if id = child then (tree.cell id).map fun n => { n with parent := parent }
      else tree.cell id := by
  rw [rehang, cell_redirect]
  split
  · rename_i same
    rcases apart with away | absent
    · rw [cell_adjust_of_ne _ (same ▸ away)]
    · rw [same, absent, cell_invalid, cell_invalid]
  · rw [cell_adjust]

/-- Unlinking a node that has the given subtree as its only child. -/
def spliced (tree : RedBlackTree) (above id child : RbNodeId) : RedBlackTree :=
  tree.rehang child above above id child

theorem slotAbove_ne_rootSlot (beside : ∀ id ∈ slots child, id ∉ slotsBeside path) :
    slotAbove path ≠ rootSlot child ∨ slotAbove path = .invalid := by
  by_cases valid : (slotAbove path).isValid = true
  · refine .inl fun same => ?_
    exact beside _ (mem_of_rootSlot_valid (same ▸ valid)) (same ▸ mem_of_slotAbove_valid valid)
  · exact Or.inr (RbNodeId.eq_invalid valid)

theorem cell_rehang_beside {parent old new id : RbNodeId}
    (apart : ∀ id ∈ slots child, id ∉ slotsBeside path) (member : id ∈ slotsBeside path)
    (away : id ≠ slotAbove path) :
    (tree.rehang (rootSlot child) parent (slotAbove path) old new).cell id = tree.cell id := by
  rw [cell_rehang (slotAbove_ne_rootSlot apart), if_neg away]
  split
  · rename_i same
    by_cases valid : id.isValid = true
    · exact absurd member (apart id (same ▸ mem_of_rootSlot_valid (same ▸ valid)))
    · rw [cell_of_not_valid valid, Option.map_none]
  · rfl

theorem Represents.rehang_run {sub : BinaryTree Entry} (rep : Linked tree (plug path sub))
    (first : RedBlackTree) (inside : ∀ id ∈ slots child, id ∈ slots sub)
    (parent old new : RbNodeId) :
    ∃ middle, first.modifyIfValid (rootSlot child) (fun n => { n with parent := parent }) =
        .ok middle ∧
      middle.replaceChild (slotAbove path) old new =
        .ok (first.rehang (rootSlot child) parent (slotAbove path) old new) := by
  -- The child's slot and the slot above exist whenever they are named.
  have present : ∀ id ∈ slotsBeside path ++ slots sub, ∀ other : RedBlackTree,
      ∃ held, other.cell id = some held := by
    intro id member other
    obtain ⟨held, found, -⟩ := rep.exists_cell (mem_slots_plug.mpr (mem_append.mp member))
    exact exists_cell_of_cell found other
  refine ⟨first.adjust (rootSlot child) fun n => { n with parent := parent }, ?_, ?_⟩
  · refine modifyIfValid_of_cell (fun valid => ?_) _
    exact present _ (mem_append_right _ (inside _ (mem_of_rootSlot_valid valid))) first
  · refine replaceChild_of_cell _ _ fun valid => ?_
    exact present _ (mem_append_left _ (mem_of_slotAbove_valid valid)) _

/-- A node with at most one child is unlinked by putting its child in its place. -/
theorem Represents.splice (rep : Linked tree (plug path (.node z left right)))
    (only : left = .nil ∧ child = right ∨ right = .nil ∧ child = left) :
    Linked (tree.spliced (slotAbove path) z.id (rootSlot child)) (plug path child) ∧
      ∀ id, id ∉ slots (plug path child) →
        (tree.spliced (slotAbove path) z.id (rootSlot child)).cell id = tree.cell id := by
  obtain ⟨-, below, -, nodup, apart⟩ := rep.parts
  -- The child is one of the two subtrees, and the node's slots are those of the child and its own.
  have parts : (slotLayout exactParent).Stored tree.cell z.id child ∧
      (slots (.node z left right)).Perm (z.id :: slots child) := by
    rcases only with ⟨rfl, rfl⟩ | ⟨rfl, rfl⟩
    · exact ⟨below.2.2, by simp⟩
    · exact ⟨below.2.1, by simp⟩
  obtain ⟨storedChild, perm⟩ := parts
  obtain ⟨-, nodupChild⟩ := nodup_cons.mp (perm.nodup_iff.mp nodup)
  have inside : ∀ id ∈ slots child, id ∈ slots (.node z left right) := fun id member =>
    perm.mem_iff.mpr (mem_cons_of_mem _ member)
  have fresh : ∀ id ∈ slots child, id ∉ slotsBeside path := fun id member beside =>
    apart id beside (inside id member)
  have childAbove : ∀ id ∈ slots child, id ≠ slotAbove path := by
    intro id member
    have valid := rep.isValid (mem_slots_plug.mpr (.inr (inside id member)))
    exact (slotAbove_ne valid (fresh id member)).symm
  have cells : ∀ id, (tree.spliced (slotAbove path) z.id (rootSlot child)).cell id = _ :=
    cell_rehang (slotAbove_ne_rootSlot fresh)
  refine ⟨rep.replace (by simp) ?_ ?_ ?_ ?_ nodupChild fresh, ?_⟩
  · refine stored_below (fun _ _ _ => rfl) nodupChild storedChild ?_ fun id member away => ?_
    · rw [cells]
      split
      · rename_i same
        -- Only an absent child can coincide with the slot above.
        cases child with
        | nil => simp [slotLayout]
        | node entry inner outer => exact absurd same (childAbove _ (rootSlot_mem (by simp)))
      · rw [if_pos rfl]
    · rw [cells, if_neg (childAbove id member), if_neg away]
  · exact fun id member away => cell_rehang_beside fresh member away
  · rw [cells, if_pos rfl]
    rfl
  · rw [spliced, rehang, root_redirect, root_adjust]
  · intro id away
    rw [mem_slots_plug, not_or] at away
    by_cases valid : id.isValid = true
    · rw [cells, if_neg (slotAbove_ne valid away.1).symm, if_neg (rootSlot_ne valid away.2).symm]
    · rw [cell_of_not_valid valid, cell_of_not_valid valid]

/-- A node of which one subtree is empty has at most one child, which takes its place. -/
theorem only_child (atMostOne : left = .nil ∨ right = .nil) :
    ∃ child, (left = .nil ∧ child = right ∨ right = .nil ∧ child = left) ∧
      (if !(rootSlot left).isValid then rootSlot right else rootSlot left) = rootSlot child ∧
      items left ++ items right = items child := by
  cases left with
  | nil => exact ⟨right, .inl ⟨rfl, rfl⟩, by simp [slotLayout], by simp⟩
  | node entry inner outer =>
    cases right with
    | nil =>
      refine ⟨_, .inr ⟨rfl, rfl⟩, ?_, by simp⟩
      by_cases valid : (rootSlot (.node entry inner outer)).isValid = true
      · rw [valid]
        rfl
      · rw [RbNodeId.eq_invalid valid]
        simp [slotLayout]
    | node other near far => exact absurd atMostOne (by simp)

section

variable (rep : Linked tree (plug path (.node z left right)))

include rep

theorem Represents.splice_run (only : left = .nil ∧ child = right ∨ right = .nil ∧ child = left) :
    ∃ first, tree.modifyIfValid (rootSlot child) (fun n => { n with parent := slotAbove path }) =
        .ok first ∧
      first.replaceChild (slotAbove path) z.id (rootSlot child) =
        .ok (tree.spliced (slotAbove path) z.id (rootSlot child)) := by
  refine rep.rehang_run tree (fun id member => ?_) (slotAbove path) z.id (rootSlot child)
  rcases only with ⟨-, rfl⟩ | ⟨-, rfl⟩ <;> simp [member]

/-- The deletion of a node with at most one child is a splice and, for a black node, a repair. -/
theorem Represents.deleteNode_eq
    (only : left = .nil ∧ child = right ∨ right = .nil ∧ child = left)
    (pick : (if !(rootSlot left).isValid then rootSlot right else rootSlot left) = rootSlot child) :
    tree.deleteNode z.id =
      if z.color = .black then
        (tree.spliced (slotAbove path) z.id (rootSlot child)).fixDelete (rootSlot child)
      else .ok (tree.spliced (slotAbove path) z.id (rootSlot child)) := by
  obtain ⟨held, found, -, -, color, -, leftLink, rightLink, up⟩ := rep.cell_node
  have up : held.parent = slotAbove path := up
  have single : (!(rootSlot left).isValid || !(rootSlot right).isValid) = true := by
    rcases only with ⟨rfl, -⟩ | ⟨rfl, -⟩ <;> simp [slotLayout]
  obtain ⟨first, setParent, redirected⟩ := rep.splice_run only
  rw [deleteNode, node_of_cell found, ok_bind]
  simp only [leftLink, rightLink, single, if_true, ok_bind, node_of_cell found, pick, up,
    setParent, redirected, ne_eq, not_true_eq_false, if_false, color]
  rfl

theorem Represents.deleteNode_one (atMostOne : left = .nil ∨ right = .nil) :
    ∃ changed shape', tree.deleteNode z.id = .ok changed ∧ Linked changed shape' ∧
      items shape' = (before path).map Entry.item ++
        (items left ++ items right ++ (after path).map Entry.item) ∧
      changed.freeHead = tree.freeHead ∧
      ∀ id, id ∉ slots shape' → changed.cell id = tree.cell id := by
  obtain ⟨child, only, pick, same⟩ := only_child atMostOne
  obtain ⟨linked, outside⟩ := rep.splice only
  have freeHead : (tree.spliced (slotAbove path) z.id (rootSlot child)).freeHead = tree.freeHead := by
    rw [spliced, rehang, freeHead_redirect, freeHead_adjust]
  rw [rep.deleteNode_eq only pick, same]
  split
  · obtain ⟨changed, shape', run, kept⟩ := linked.fixDelete
    refine ⟨changed, shape', run, kept.represents, ?_, kept.freeHead.trans freeHead, ?_⟩
    · rw [kept.items, items_plug]
    · intro id away
      have before := mt kept.sameSlots.mem_iff.mpr away
      rw [kept.outside id before, outside id before]
  · exact ⟨_, _, rfl, linked, items_plug path child, freeHead, outside⟩

end

/-- The walk along left links ends at the leftmost node, below nothing but left steps. -/
theorem Represents.leftmost_eq {rule : ParentRule} {rounds : Nat} {entry : Entry}
    (rep : Represents rule tree (plug path (.node entry left right)))
    (enough : (BinaryTree.node entry left right).height ≤ rounds) :
    ∃ lefts first beyond, plug lefts (.node first .nil beyond) = .node entry left right ∧
      before lefts = [] ∧ leftmost rounds tree entry.id = .ok first.id := by
  induction left generalizing entry right path rounds with
  | nil =>
    obtain ⟨held, found, -, -, -, -, link, -⟩ := rep.cell_node
    refine ⟨[], entry, right, rfl, rfl, ?_⟩
    cases rounds with
    | zero => simp [height] at enough
    | succ rounds => simp [leftmost, node_of_cell found, link, slotLayout]
  | node inner below beside ih _ =>
    obtain ⟨held, found, -, -, -, -, link, -⟩ := rep.cell_node
    obtain ⟨innerHeld, foundInner, -⟩ := rep.inLeft.cell_node
    cases rounds with
    | zero => simp [height] at enough
    | succ rounds =>
      rw [height, Nat.add_le_add_iff_right] at enough
      obtain ⟨lefts, first, beyond, joined, none, run⟩ :=
        ih rep.inLeft ((le_max_left _ _).trans enough)
      refine ⟨lefts ++ [.left entry right], first, beyond, ?_, ?_, ?_⟩
      · rw [plug_append, joined]
        rfl
      · rw [before_append, none]
        rfl
      · change held.left = inner.id at link
        rw [leftmost, node_of_cell found, ok_bind, link, if_pos (isValid_of_cell foundInner)]
        exact run

theorem Represents.transplant {below beyond : BinaryTree Entry} {held : RbNode} {up : RbNodeId}
    (rep : Linked tree (plug path (.node z left below))) (found : tree.cell y.id = some held)
    (key : held.key = y.key) (tid : held.tid = y.tid) (color : held.color = y.color)
    (noLeft : held.left = .invalid) (rightLink : held.right = rootSlot beyond)
    (stored : (slotLayout exactParent).Stored tree.cell up beyond) (nodup : (slots beyond).Nodup)
    (fresh : y.id ∉ slots (plug path (.node z left below)))
    (inside : ∀ id ∈ slots beyond, id ∈ slots below) :
    ∃ changed, tree.transplant z.id y.id = .ok changed ∧
      Linked changed (plug path (.node y .nil beyond)) := by
  obtain ⟨-, -, -, -, apart⟩ := rep.parts
  obtain ⟨zHeld, foundZ, -, -, -, used, -, -, zUp⟩ := rep.cell_node
  have zUp : zHeld.parent = slotAbove path := zUp
  rw [mem_slots_plug, not_or, slots_node, mem_append, mem_cons, not_or, not_or] at fresh
  obtain ⟨yBeside, -, yz, yBelow⟩ := fresh
  have validY := isValid_of_cell found
  have yAbove : y.id ≠ slotAbove path := (slotAbove_ne validY yBeside).symm
  have yBeyond : y.id ∉ slots beyond := fun member => yBelow (inside _ member)
  have yRoot : y.id ≠ rootSlot beyond := (rootSlot_ne validY yBeyond).symm
  have beyondBeside : ∀ id ∈ slots beyond, id ∉ slotsBeside path := fun id member beside =>
    apart id beside (by simp [inside id member])
  have apartAbove := slotAbove_ne_rootSlot beyondBeside
  let installed : RbNode := { zHeld with
    left := held.left, right := held.right, color := held.color, tid := held.tid, key := held.key }
  let first := tree.adjust y.id fun _ => installed
  let third := first.rehang (rootSlot beyond) y.id (slotAbove path) z.id y.id
  let final := third.adjust y.id fun n => { n with parent := slotAbove path }
  have foundFirst : first.cell y.id = some installed := by
    rw [cell_adjust_self, found, Option.map_some]
  have foundThird : third.cell y.id = some installed := by
    rw [cell_rehang apartAbove, if_neg yAbove, if_neg yRoot, foundFirst]
  have foundFinal : final.cell y.id = some { installed with parent := slotAbove path } := by
    rw [cell_adjust_self, foundThird, Option.map_some]
  have cells : ∀ id, id ≠ y.id → final.cell id =
      if id = slotAbove path then (tree.cell id).map (relink z.id y.id)
      else if id = rootSlot beyond then (tree.cell id).map fun n => { n with parent := y.id }
      else tree.cell id := by
    intro id away
    rw [cell_adjust_of_ne _ away, cell_rehang apartAbove, cell_adjust_of_ne _ away]
  refine ⟨final, ?_, rep.replace (by simp) ⟨⟨_, foundFinal, key, tid, color, used, noLeft, rightLink,
    rfl⟩, trivial, ?_⟩ ?_ ?_ ?_ ?_ ?_⟩
  · -- Every slot the source writes exists.
    obtain ⟨middle, setParent, redirected⟩ := rep.rehang_run first (fun id member => by
      simp [inside id member]) y.id z.id y.id
    have skip : first.modifyIfValid installed.left (fun n => { n with parent := y.id }) =
        .ok first := by
      rw [modifyIfValid, show installed.left = .invalid from noLeft]
      rfl
    rw [RedBlackTree.transplant, node_of_cell foundZ, ok_bind, node_of_cell found, ok_bind,
      modify_of_cell found, ok_bind]
    change (first.node y.id >>= _) = _
    rw [node_of_cell foundFirst, ok_bind]
    change (first.modifyIfValid installed.left _ >>= _) = _
    rw [skip, ok_bind, node_of_cell foundFirst, ok_bind]
    change (first.modifyIfValid held.right _ >>= _) = _
    rw [rightLink, setParent, ok_bind, zUp, redirected, ok_bind,
      modify_of_cell foundThird]
  · refine stored_below (fun _ _ _ => rfl) nodup stored ?_ fun id member away => ?_
    · by_cases valid : (rootSlot beyond).isValid = true
      · have member := mem_of_rootSlot_valid valid
        rw [cells _ yRoot.symm, if_neg (slotAbove_ne valid (beyondBeside _ member)).symm, if_pos rfl]
        rfl
      · rw [cell_of_not_valid valid, cell_of_not_valid valid]
        rfl
    · have valid : id.isValid = true := rep.isValid (by simp [inside id member])
      rw [cells id fun same => yBeyond (same ▸ member),
        if_neg (slotAbove_ne valid (beyondBeside id member)).symm, if_neg away]
  · intro id member away
    have other : id ≠ y.id := fun same => yBeside (same ▸ member)
    rw [cell_adjust_of_ne _ other, cell_rehang_beside beyondBeside member away,
      cell_adjust_of_ne _ other]
  · rw [cells _ yAbove.symm, if_pos rfl]
    rfl
  · simp only [final, third, first, root_adjust, rehang, root_redirect]
    rfl
  · rw [slots_node, slots_nil, nil_append, nodup_cons]
    exact ⟨yBeyond, nodup⟩
  · intro id member
    rw [slots_node, slots_nil, nil_append, mem_cons] at member
    rcases member with rfl | member
    · exact yBeside
    · exact beyondBeside id member

section

variable (rep : Linked tree (plug path (.node z left right)))

include rep

theorem Represents.deleteNode_two {lefts : Path Entry} {beyond : BinaryTree Entry}
    (nonempty : left ≠ .nil) (joined : plug lefts (.node y .nil beyond) = right)
    (walk : leftmost loopBudget tree (rootSlot right) = .ok y.id) :
    ∃ changed, Linked changed (plug path (.node y .nil beyond)) ∧
      tree.deleteNode z.id =
        if y.color = .black then changed.fixDelete (rootSlot beyond) else .ok changed := by
  subst joined
  have inside : Linked tree (plug (lefts ++ .right z left :: path) (.node y .nil beyond)) := by
    rw [plug_append]
    exact rep
  generalize whole : lefts ++ .right z left :: path = around at inside
  obtain ⟨linked, outside⟩ := inside.splice (Or.inl ⟨rfl, rfl⟩)
  obtain ⟨first, setParent, redirected⟩ := inside.splice_run (Or.inl ⟨rfl, rfl⟩)
  obtain ⟨held, found, key, tid, color, -, leftLink, rightLink, up⟩ := inside.cell_node
  have up : held.parent = slotAbove around := up
  change held.left = .invalid at leftLink
  obtain ⟨-, -, -, nodup, apart⟩ := inside.parts
  rw [slots_node, slots_nil, nil_append, nodup_cons] at nodup
  have fresh : y.id ∉ slots (plug around beyond) := by
    rw [mem_slots_plug, not_or]
    exact ⟨fun member => apart y.id member (by simp), nodup.1⟩
  obtain ⟨-, storedBeyond, -⟩ := linked.parts
  have same := outside y.id fresh
  generalize state : tree.spliced (slotAbove around) y.id (rootSlot beyond) = spliced at *
  have back : plug around beyond = plug path (.node z left (plug lefts beyond)) := by
    rw [← whole, plug_append]
    rfl
  rw [back] at linked fresh
  obtain ⟨changed, run, result⟩ := linked.transplant (same.trans found) key tid color leftLink
    rightLink storedBeyond nodup.2 fresh fun id member => by simp [member]
  refine ⟨changed, result, ?_⟩
  -- The source reaches the successor because both children are present.
  obtain ⟨zHeld, foundZ, -, -, -, -, zLeft, zRight, -⟩ := rep.cell_node
  have both : (!(rootSlot left).isValid || !(rootSlot (plug lefts (.node y .nil beyond))).isValid) =
      false := by
    rw [rep.inLeft.rootSlot_valid.mpr nonempty,
      rep.inRight.rootSlot_valid.mpr (plug_node_ne_nil _ _ _ _)]
    rfl
  have away : y.id ≠ z.id := by
    rintro same
    simp [same] at fresh
  rw [deleteNode, node_of_cell foundZ, ok_bind]
  simp only [zLeft, zRight, both, Bool.false_eq_true, if_false, walk, ok_bind,
    node_of_cell found, leftLink, RbNodeId.isValid_invalid, Bool.not_false, if_true, rightLink, up,
    setParent, redirected, ne_eq, away, not_false_eq_true, run, color]
  rfl

/-- A removal deletes the node and then gives its slot back to the free list. -/
theorem Represents.remove_of_delete {shape' : BinaryTree Entry}
    (run : tree.deleteNode z.id = .ok changed) (result : Linked changed shape')
    (away : z.id ∉ slots shape') :
    ∃ final, tree.remove z.id = .ok (some z.tid, final) ∧ Linked final shape' ∧
      final.freeHead = z.id ∧
      (∃ held, final.cell z.id = some held ∧ held.left = changed.freeHead ∧ held.inUse = false) ∧
      ∀ id, id ≠ z.id → final.cell id = changed.cell id := by
  obtain ⟨held, found, -, tid, -, used, -⟩ := rep.cell_node
  obtain ⟨later, foundLater⟩ := exists_cell_of_cell found changed
  let final : RedBlackTree :=
    { changed.adjust z.id fun n => { n with inUse := false, left := changed.freeHead } with
      freeHead := z.id }
  have cells : ∀ id, id ≠ z.id → final.cell id = changed.cell id := fun id other =>
    (cell_with_freeHead _).trans (cell_adjust_of_ne _ other)
  refine ⟨final, ?_, result.congr rfl fun id member => cells id fun same => away (same ▸ member), rfl,
    ⟨{ later with inUse := false, left := changed.freeHead }, ?_, rfl, rfl⟩, cells⟩
  · have freed : changed.freeNode z.id = .ok final := by
      rw [freeNode, modify_of_cell foundLater]
      rfl
    rw [remove, isValid_of_cell found, node_of_cell found]
    simp only [Bool.not_true, Bool.false_eq_true, if_false, ok_bind, used, run, freed, tid]
    rfl
  · rw [cell_with_freeHead, cell_adjust_self, foundLater, Option.map_some]

/-- The tree holds keys and threads in order, with consistent links and correct colours. -/
structure WellFormed (tree : RedBlackTree) (shape : BinaryTree Entry) : Prop where
  linked : Linked tree shape
  ordered : shape.inorder.Pairwise fun first second => first.key ≤ second.key
  rules : Rules isRed shape

/-- The keys and threads of a tree from left to right. -/
def sequence (shape : BinaryTree Entry) : List (UInt64 × Tid) := (items shape).map (·.2)

/-- The keys and threads of a tree from left to right, without the entry of one slot. -/
def sequenceWithout (id : RbNodeId) (shape : BinaryTree Entry) : List (UInt64 × Tid) :=
  ((items shape).filter fun item => item.1 ≠ id).map (·.2)

/-- Whether a slot has two children. -/
def hasTwoChildren (tree : RedBlackTree) (id : RbNodeId) : Bool :=
  (tree.cell id).any fun held => held.left.isValid && held.right.isValid

/-- A slot has two children exactly when both of its subtrees have a node. -/
theorem Represents.hasTwoChildren_iff :
    tree.hasTwoChildren z.id = true ↔ left ≠ .nil ∧ right ≠ .nil := by
  obtain ⟨held, found, -, -, -, -, leftLink, rightLink, -⟩ := rep.cell_node
  rw [hasTwoChildren, found, Option.any_some, leftLink, rightLink, Bool.and_eq_true,
    rep.inLeft.rootSlot_valid, rep.inRight.rootSlot_valid]

end

theorem filter_name_ne {α β : Type} [DecidableEq α] {first second : List (α × β)} {item : α × β}
    (nodup : ((first ++ item :: second).map (·.1)).Nodup) :
    (first ++ item :: second).filter (fun other => other.1 ≠ item.1) = first ++ second := by
  rw [map_append, map_cons, nodup_append, nodup_cons] at nodup
  obtain ⟨-, ⟨later, -⟩, earlier⟩ := nodup
  rw [filter_append, filter_cons, if_neg (by simp)]
  refine congrArg₂ _ (filter_eq_self.mpr fun other member => ?_)
    (filter_eq_self.mpr fun other member => ?_)
  · simpa using earlier other.1 (mem_map_of_mem member) item.1 (by simp)
  · refine decide_eq_true fun same => later ?_
    rw [← same]
    exact mem_map_of_mem member

/-- Without the slot at the end of a path, a tree reads as its subtrees side by side. -/
theorem Represents.items_without (rep : Linked tree (plug path (.node z left right))) :
    (items (plug path (.node z left right))).filter (fun item => item.1 ≠ z.id) =
      (before path).map Entry.item ++
        (items left ++ items right ++ (after path).map Entry.item) := by
  have nodup := rep.nodup
  have split : items (plug path (.node z left right)) =
      ((before path).map Entry.item ++ items left) ++
        z.item :: (items right ++ (after path).map Entry.item) := by
    simp [items_plug]
  rw [slots_eq_map_items, split] at nodup
  rw [split]
  refine (filter_name_ne nodup).trans ?_
  simp

/--
A removal of a node with at most one child deletes its entry and keeps all links.

The slot goes to the head of the free list, and nothing outside the tree changes.
-/
theorem Represents.remove_one (rep : Linked tree (plug path (.node z left right)))
    (atMostOne : left = .nil ∨ right = .nil) :
    ∃ final shape', tree.remove z.id = .ok (some z.tid, final) ∧ Linked final shape' ∧
      items shape' = (items (plug path (.node z left right))).filter (fun item => item.1 ≠ z.id) ∧
      final.freeHead = z.id ∧
      (∃ held, final.cell z.id = some held ∧ held.left = tree.freeHead ∧ held.inUse = false) ∧
      ∀ id, id ∉ slots (plug path (.node z left right)) → final.cell id = tree.cell id := by
  obtain ⟨changed, shape', run, linked, same, freeHead, outside⟩ := rep.deleteNode_one atMostOne
  rw [← rep.items_without] at same
  have away : ∀ id, id ∈ slots shape' →
      id ∈ slots (plug path (.node z left right)) ∧ id ≠ z.id := by
    intro id member
    rw [slots_eq_map_items, same] at member
    obtain ⟨item, inside, rfl⟩ := mem_map.mp member
    rw [mem_filter] at inside
    refine ⟨?_, by simpa using inside.2⟩
    rw [slots_eq_map_items]
    exact mem_map_of_mem inside.1
  obtain ⟨final, removed, result, head, ⟨held, found, link, unused⟩, cells⟩ :=
    rep.remove_of_delete run linked fun member => (away _ member).2 rfl
  refine ⟨final, shape', removed, result, same, head, ⟨held, found, link.trans freeHead, unused⟩,
    fun id missing => ?_⟩
  have other : id ≠ z.id := by
    rintro rfl
    simp at missing
  rw [cells id other, outside id fun member => missing (away id member).1]

/-- The child that takes a removed node's place is absent or red, and red only below a black node. -/
theorem spare_of_rules (rules : Rules isRed (plug path (.node z left right)))
    (only : left = .nil ∧ child = right ∨ right = .nil ∧ child = left) :
    child = .nil ∨ rootRed isRed child = true ∧ isRed z = false := by
  obtain ⟨height, balanced, noPair, -⟩ := rules_plug.mp rules
  obtain ⟨below, -, balancedLeft, balancedRight⟩ := blackHeight_node.mp balanced
  have colours := (noRedPair_node.mp noPair).1
  have spare : BlackHeight isRed child 0 ∧ (isRed z = true → rootRed isRed child = false) := by
    rcases only with ⟨rfl, rfl⟩ | ⟨rfl, rfl⟩
    · rw [← blackHeight_nil.mp balancedLeft]
      exact ⟨balancedRight, fun red => (colours red).2⟩
    · rw [← blackHeight_nil.mp balancedRight]
      exact ⟨balancedLeft, fun red => (colours red).1⟩
  rcases spare.1.zero with empty | red
  · exact Or.inl empty
  · refine Or.inr ⟨red, ?_⟩
    by_contra other
    rw [Bool.not_eq_false] at other
    rw [spare.2 other] at red
    cases red

/-- The repair after a black node made way for an absent or red child only paints that child. -/
theorem Represents.fixDelete_spare (rep : Linked tree (plug path child))
    (spare : child = .nil ∨ rootRed isRed child = true ∧ isRed z = false) :
    ∃ changed, (if z.color = .black then tree.fixDelete (rootSlot child) else .ok tree) =
        .ok changed ∧
      Linked changed (plug path (if z.color = .black then paintRoot .black child else child)) := by
  split
  · rcases spare with rfl | ⟨red, -⟩
    · exact ⟨tree, fixDelete_invalid, rep⟩
    · obtain ⟨changed, run, kept⟩ := rep.fixDelete_red red
      exact ⟨changed, run, kept.represents⟩
  · exact ⟨tree, rfl, rep⟩

/--
A removal of a node with two children from a tree that obeys the rules.

Only the successor and its right subtree take the removed node's place.
-/
theorem Represents.remove_two (rep : Linked tree (plug path (.node z left right)))
    (rules : Rules isRed (plug path (.node z left right))) (leftThere : left ≠ .nil)
    (rightThere : right ≠ .nil) :
    ∃ final lefts y beyond, plug lefts (.node y .nil beyond) = right ∧ before lefts = [] ∧
      leftmost loopBudget tree (rootSlot right) = .ok y.id ∧
      tree.remove z.id = .ok (some z.tid, final) ∧
      Linked final (plug path (.node y .nil (if y.color = .black then paintRoot .black beyond
        else beyond))) := by
  cases right with
  | nil => exact absurd rfl rightThere
  | node entry inner outer =>
    obtain ⟨lefts, y, beyond, joined, none, walk⟩ := rep.inRight.leftmost_eq rep.inRight.height_le
    obtain ⟨changed, linked, run⟩ := rep.deleteNode_two leftThere joined walk
    have spare : beyond = .nil ∨ rootRed isRed beyond = true ∧ isRed y = false := by
      rw [← joined] at rules
      have whole : Rules isRed (plug (lefts ++ .right z left :: path) (.node y .nil beyond)) := by
        rw [plug_append]
        exact rules
      exact spare_of_rules whole (Or.inl ⟨rfl, rfl⟩)
    have atChild : Linked changed (plug (.right y .nil :: path) beyond) := linked
    obtain ⟨state, repair, linkedState⟩ := atChild.fixDelete_spare spare
    -- The removed slot is neither beside the path nor among the slots that took its place.
    have away : z.id ∉ slots (plug path
        (.node y .nil (if y.color = .black then paintRoot .black beyond else beyond))) := by
      obtain ⟨-, -, -, nodup, apart⟩ := rep.parts
      rw [← joined, slots_node, nodup_append, nodup_cons] at nodup
      have outside := nodup.2.1.1
      have samePainted : slots (if y.color = .black then paintRoot .black beyond else beyond) =
          slots beyond := by split <;> simp
      rw [mem_slots_plug, not_or, slots_node, samePainted]
      refine ⟨fun beside => apart z.id beside (by simp), fun member => outside ?_⟩
      exact mem_slots_plug.mpr (Or.inr (by simpa using member))
    obtain ⟨final, removed, linkedFinal, -⟩ :=
      rep.remove_of_delete (run.trans repair) linkedState away
    exact ⟨final, lefts, y, beyond, joined, none, walk, removed, linkedFinal⟩

theorem Represents.remove_two_loses (rep : Linked tree (plug path (.node z left right)))
    (rules : Rules isRed (plug path (.node z left right))) (leftThere : left ≠ .nil)
    (rightThere : right ≠ .nil) :
    ∃ final, tree.remove z.id = .ok (some z.tid, final) ∧
      ∀ shape', Linked final shape' →
        sequence shape' ≠ sequenceWithout z.id (plug path (.node z left right)) := by
  obtain ⟨final, lefts, y, beyond, joined, -, -, removed, linked⟩ :=
    rep.remove_two rules leftThere rightThere
  refine ⟨final, removed, fun shape' other same => ?_⟩
  obtain rfl := linked.unique other
  -- The left subtree is not empty, and none of it is left, so the lengths differ.
  have lengths := congrArg List.length same
  have painted : items (if y.color = .black then paintRoot .black beyond else beyond) =
      items beyond := by split <;> simp
  have leftSome : 0 < (items left).length := by
    cases left with
    | nil => exact absurd rfl leftThere
    | node entry inner outer =>
      rw [items_node, length_append, length_cons]
      omega
  have rightMore : (items right).length ≥ (items beyond).length + 1 := by
    rw [← joined, items_plug, items_node, items_nil]
    simp only [length_append, length_cons, length_nil]
    omega
  rw [sequence, sequenceWithout, rep.items_without, items_plug] at lengths
  simp only [items_node, items_nil, painted, length_map, length_append, length_nil,
    length_cons] at lengths
  omega

/--
A removal deletes exactly one entry, unless the node has two children.

A well-formed tree then holds the old sequence without that entry, with all links in agreement; with
two children there is no such tree in the state left behind.
-/
theorem remove_deletes_one_entry_iff (formed : WellFormed tree shape) {id : RbNodeId}
    (live : id ∈ slots shape) :
    ∃ tid final, tree.remove id = .ok (some tid, final) ∧
      ((∃ shape', Linked final shape' ∧ sequence shape' = sequenceWithout id shape) ↔
        tree.hasTwoChildren id = false) := by
  obtain ⟨z, member, rfl⟩ := mem_map.mp live
  obtain ⟨path, left, right, rfl⟩ := exists_path_of_mem member
  have rep := formed.linked
  by_cases both : left ≠ .nil ∧ right ≠ .nil
  · obtain ⟨final, removed, loses⟩ := rep.remove_two_loses formed.rules both.1 both.2
    refine ⟨z.tid, final, removed, fun ⟨shape', linked, same⟩ => absurd same (loses shape' linked),
      fun single => ?_⟩
    rw [rep.hasTwoChildren_iff.mpr both] at single
    cases single
  · have atMostOne : left = .nil ∨ right = .nil := by tauto
    obtain ⟨final, shape', removed, linked, same, -⟩ := rep.remove_one atMostOne
    refine ⟨z.tid, final, removed, fun _ => ?_, fun _ => ⟨shape', linked, ?_⟩⟩
    · rw [← Bool.not_eq_true, rep.hasTwoChildren_iff]
      exact both
    · rw [sequence, sequenceWithout, same]

/-- The entries of a tree that is built by three insertions, none of which needs a rotation. -/
def threeEntries : BinaryTree Entry :=
  .node ⟨slotAt 0, 2, ⟨20⟩, .black⟩ (.node ⟨slotAt 1, 1, ⟨10⟩, .red⟩ .nil .nil)
    (.node ⟨slotAt 2, 3, ⟨30⟩, .red⟩ .nil .nil)

theorem rules_threeEntries : Rules isRed threeEntries := by
  refine ⟨rfl, by simp [threeEntries, noRedPair_node, isRed], 1, ?_⟩
  simp [threeEntries, blackHeight_node, blackHeight_nil, weight, isRed]

theorem pooled_threeEntries :
    ∃ one two tree, RedBlackTree.new.init.insert 2 ⟨20⟩ = .ok (some (slotAt 0), one) ∧
      one.insert 1 ⟨10⟩ = .ok (some (slotAt 1), two) ∧
      two.insert 3 ⟨30⟩ = .ok (some (slotAt 2), tree) ∧
      Pooled exactParent tree threeEntries ((List.range' 3 1021).map slotAt) := by
  have free : (List.range' 0 maxRbNodes).map slotAt =
      slotAt 0 :: slotAt 1 :: slotAt 2 :: (List.range' 3 1021).map slotAt := rfl
  have start := pooled_init RedBlackTree.new
  rw [free] at start
  obtain ⟨one, runOne, poolOne⟩ := start.insert 2 ⟨20⟩
  obtain ⟨two, runTwo, poolTwo⟩ := Pooled.insert poolOne 1 ⟨10⟩
  obtain ⟨three, runThree, poolThree⟩ := Pooled.insert poolTwo 3 ⟨30⟩
  exact ⟨one, two, three, runOne, runTwo, runThree, poolThree⟩

/-- Removing one of the leaves of the tree is decided by what is below it. -/
theorem remove_leaf_of_three :
    ∃ one two tree tid final, RedBlackTree.new.init.insert 2 ⟨20⟩ = .ok (some (slotAt 0), one) ∧
      one.insert 1 ⟨10⟩ = .ok (some (slotAt 1), two) ∧
      two.insert 3 ⟨30⟩ = .ok (some (slotAt 2), tree) ∧
      tree.remove (slotAt 1) = .ok (some tid, final) ∧
      ((∃ shape', Linked final shape' ∧
          sequence shape' = sequenceWithout (slotAt 1) threeEntries) ↔
        tree.hasTwoChildren (slotAt 1) = false) := by
  obtain ⟨one, two, tree, runOne, runTwo, runThree, pool⟩ := pooled_threeEntries
  obtain ⟨tid, final, removed, exactly⟩ := remove_deletes_one_entry_iff
    ⟨pool.represents, by decide, rules_threeEntries⟩ (by decide : slotAt 1 ∈ slots threeEntries)
  exact ⟨one, two, tree, tid, final, runOne, runTwo, runThree, removed, exactly⟩

/--
Removing the middle one of three entries loses another one.

The tree is built by three insertions that need no rotation, and its root has two children.
-/
theorem remove_root_of_three :
    ∃ tree shape final, (do
        let (_, tree) ← RedBlackTree.new.init.insert 2 ⟨20⟩
        let (_, tree) ← tree.insert 1 ⟨10⟩
        let (_, tree) ← tree.insert 3 ⟨30⟩
        return tree) = .ok tree ∧
      WellFormed tree shape ∧ slotAt 0 ∈ slots shape ∧
      tree.remove (slotAt 0) = .ok (some ⟨20⟩, final) ∧
      ¬ ∃ shape', Linked final shape' ∧ sequence shape' = sequenceWithout (slotAt 0) shape := by
  obtain ⟨one, two, tree, runOne, runTwo, runThree, pool⟩ := pooled_threeEntries
  have rep : Linked tree (plug [] threeEntries) := pool.represents
  obtain ⟨final, removed, loses⟩ := rep.remove_two_loses rules_threeEntries (by simp) (by simp)
  refine ⟨tree, threeEntries, final, ?_, ⟨rep, by decide, rules_threeEntries⟩, by decide, removed, ?_⟩
  · rw [runOne]
    simp [runTwo, runThree]
  · rintro ⟨shape', linked, same⟩
    exact loses shape' linked same

end RedBlackTree

end TheoryKernel.Sched
