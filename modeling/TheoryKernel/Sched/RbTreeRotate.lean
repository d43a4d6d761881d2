import TheoryKernel.Sched.RbTreeMirror

/-! Rotations of the run-queue tree, first as changes of single slots and then as changes of the tree. -/

namespace TheoryKernel.Sched

open LinkedTree BinaryTree List

namespace RedBlackTree

variable {tree : RedBlackTree} {x y : RbNodeId} {nx ny : RbNode}

/-- The slots that a left rotation about `x` needs, and how they must differ. -/
structure LeftRotatable (tree : RedBlackTree) (x y : RbNodeId) (nx ny : RbNode) : Prop where
  cell_x : tree.cell x = some nx
  cell_y : tree.cell y = some ny
  link : nx.right = y
  apart : x ≠ y
  middle : ny.left.isValid = true → ∃ held, tree.cell ny.left = some held
  middle_x : ny.left ≠ x
  middle_y : ny.left ≠ y
  parent : nx.parent.isValid = true → ∃ held, tree.cell nx.parent = some held
  parent_x : nx.parent ≠ x
  parent_y : nx.parent ≠ y
  parent_middle : nx.parent.isValid = true → nx.parent ≠ ny.left

theorem LeftRotatable.away (ready : LeftRotatable tree x y nx ny) :
    y ≠ x ∧ x ≠ ny.left ∧ y ≠ ny.left ∧ x ≠ nx.parent ∧ y ≠ nx.parent :=
  ⟨ready.apart.symm, ready.middle_x.symm, ready.middle_y.symm, ready.parent_x.symm,
    ready.parent_y.symm⟩

theorem rotateLeft_eq (ready : LeftRotatable tree x y nx ny) :
    tree.rotateLeft x = .ok
      ((((((tree.adjust x fun n => { n with right := ny.left }).adjust ny.left
        fun n => { n with parent := x }).adjust y fun n => { n with parent := nx.parent }).redirect
          nx.parent x y).adjust y fun n => { n with left := x }).adjust x
            fun n => { n with parent := y }) := by
  have away := ready.away
  obtain ⟨cell_x, cell_y, link, apart, middle, middle_x, middle_y, parent, parent_x, parent_y,
    parent_middle⟩ := ready
  -- Every slot written exists in every state, so no write of the source can fault.
  have setMiddle : ∀ (state : RedBlackTree) change, state.modifyIfValid ny.left change =
      .ok (state.adjust ny.left change) := by
    refine fun state => modifyIfValid_of_cell fun valid => ?_
    obtain ⟨held, found⟩ := middle valid
    exact exists_cell_of_cell found state
  have setAbove : ∀ state : RedBlackTree, state.replaceChild nx.parent x y =
      .ok (state.redirect nx.parent x y) := by
    refine fun state => replaceChild_of_cell x y fun valid => ?_
    obtain ⟨held, found⟩ := parent valid
    exact exists_cell_of_cell found state
  simp [rotateLeft, node_eq, modify_eq, cell_adjust, cell_redirect, *]

theorem rotateLeft_effect (ready : LeftRotatable tree x y nx ny) :
    ∃ rotated, tree.rotateLeft x = .ok rotated ∧ rotated.freeHead = tree.freeHead ∧
      rotated.root = (if nx.parent.isValid then tree.root else y) ∧
      rotated.cell x = some { nx with right := ny.left, parent := y } ∧
      rotated.cell y = some { ny with left := x, parent := nx.parent } ∧
      (rotated.cell ny.left = (tree.cell ny.left).map fun n => { n with parent := x }) ∧
      (rotated.cell nx.parent = (tree.cell nx.parent).map (relink x y)) ∧
      ∀ id, id ≠ x → id ≠ y → id ≠ ny.left → id ≠ nx.parent → rotated.cell id = tree.cell id := by
  refine ⟨_, rotateLeft_eq ready, ?_⟩
  have away := ready.away
  obtain ⟨cell_x, cell_y, link, apart, middle, middle_x, middle_y, parent, parent_x, parent_y,
    parent_middle⟩ := ready
  -- Only an absent parent can coincide with the middle subtree, and then nothing is stored there.
  have absent : nx.parent = ny.left → nx.parent = RbNodeId.invalid := by
    intro same
    by_contra present
    exact parent_middle (RbNodeId.isValid_iff.mpr present) same
  refine ⟨by simp, by simp [root_redirect], by simp [cell_adjust, cell_redirect, *],
    by simp [cell_adjust, cell_redirect, *], ?_, ?_, ?_⟩
  · by_cases same : nx.parent = ny.left
    · simp [← same, absent same]
    · simp [cell_adjust, cell_redirect, Ne.symm same, *]
  · by_cases same : nx.parent = ny.left
    · simp [absent same]
    · simp [cell_adjust, cell_redirect, *]
  · intro id awayX awayY awayMiddle awayParent
    simp [cell_adjust, cell_redirect, *]

variable {rule : ParentRule} {path : Path Entry} {a b : Entry} {left middle right : BinaryTree Entry}

/-- Moving a subtree below another parent only needs its root's parent link to follow. -/
theorem stored_below {parent parent' : RbNodeId} {shape : BinaryTree Entry}
    {changed : RedBlackTree} (accepts : ∀ id ∈ slots shape, ∀ parent, rule id parent parent)
    (nodup : (slots shape).Nodup) (stored : (slotLayout rule).Stored tree.cell parent shape)
    (root : changed.cell (rootSlot shape) =
      (tree.cell (rootSlot shape)).map fun n => { n with parent := parent' })
    (rest : ∀ id ∈ slots shape, id ≠ rootSlot shape → changed.cell id = tree.cell id) :
    (slotLayout rule).Stored changed.cell parent' shape := by
  cases shape with
  | nil => trivial
  | node entry below beside =>
    obtain ⟨⟨held, found, key, tid, color, used, leftLink, rightLink, -⟩, storedLeft,
      storedRight⟩ := stored
    rw [slots_node, nodup_append, nodup_cons] at nodup
    obtain ⟨-, ⟨notRight, -⟩, apart⟩ := nodup
    change changed.cell entry.id = (tree.cell entry.id).map _ at root
    change tree.cell entry.id = some held at found
    rw [found, Option.map_some] at root
    refine ⟨⟨_, root, key, tid, color, used, leftLink, rightLink,
      accepts entry.id (by simp) parent'⟩, ?_, ?_⟩
    · refine storedLeft.congr fun inner member => rest inner.id ?_ ?_
      · rw [slots_node]
        exact mem_append_left _ (mem_map_of_mem member)
      · exact fun same => apart inner.id (mem_map_of_mem member) entry.id (by simp) same
    · refine storedRight.congr fun inner member => rest inner.id ?_ ?_
      · rw [slots_node]
        exact mem_append_right _ (mem_cons_of_mem _ (mem_map_of_mem member))
      · intro same
        refine notRight ?_
        rw [show entry.id = inner.id from same.symm]
        exact mem_map_of_mem member

/--
A state turned into another that represents a second tree with the same slots.

Nothing outside the tree changes, so neither the free list nor any unused slot is touched.
-/
structure Rebuilt (rule : ParentRule) (tree : RedBlackTree) (shape : BinaryTree Entry)
    (changed : RedBlackTree) (shape' : BinaryTree Entry) : Prop where
  represents : Represents rule changed shape'
  sameSlots : (slots shape').Perm (slots shape)
  freeHead : changed.freeHead = tree.freeHead
  outside : ∀ id, id ∉ slots shape → changed.cell id = tree.cell id

/-- A state is rebuilt by leaving it alone. -/
theorem Rebuilt.refl {shape : BinaryTree Entry} (rep : Represents rule tree shape) :
    Rebuilt rule tree shape tree shape := ⟨rep, List.Perm.refl _, rfl, fun _ _ => rfl⟩

/-- Two rebuilding steps in a row. -/
theorem Rebuilt.trans {rule rule' : ParentRule} {first second third : RedBlackTree}
    {shape shape' shape'' : BinaryTree Entry} (one : Rebuilt rule first shape second shape')
    (two : Rebuilt rule' second shape' third shape'') :
    Rebuilt rule' first shape third shape'' where
  represents := two.represents
  sameSlots := two.sameSlots.trans one.sameSlots
  freeHead := two.freeHead.trans one.freeHead
  outside := fun id away =>
    (two.outside id fun member => away (one.sameSlots.mem_iff.mp member)).trans
      (one.outside id away)

/-- A rebuilt state is rebuilt in the mirror too. -/
theorem Rebuilt.mirror {shape shape' : BinaryTree Entry} {changed : RedBlackTree}
    (rebuilt : Rebuilt rule tree shape changed shape') :
    Rebuilt rule tree.mirror shape.mirror changed.mirror shape'.mirror where
  represents := rebuilt.represents.mirror
  sameSlots := by
    simp only [slots, inorder_mirror, map_reverse]
    exact (reverse_perm _).trans (rebuilt.sameSlots.trans (reverse_perm _).symm)
  freeHead := rebuilt.freeHead
  outside := by
    intro id away
    rw [cell_mirror, cell_mirror, rebuilt.outside id]
    simpa [slots, inorder_mirror] using away

/-- A left rotation moves the right child above its parent and writes to no other slots. -/
theorem Represents.rebuiltLeft (exact : ParentRule.Fixes rule a.id)
    (accepts : ∀ id ∈ a.id :: b.id :: slots middle, ∀ parent, rule id parent parent)
    (rep : Represents rule tree (plug path (.node a left (.node b middle right)))) :
    ∃ rotated, tree.rotateLeft a.id = .ok rotated ∧
      Rebuilt rule tree (plug path (.node a left (.node b middle right)))
        rotated (plug path (.node b (.node a left middle) right)) ∧
      ∀ id, id ≠ a.id → id ≠ b.id → id ≠ rootSlot middle → id ≠ slotAbove path →
        rotated.cell id = tree.cell id := by
  have present : ∀ id ∈ slotsBeside path ++ slots (.node a left (.node b middle right)),
      ∃ held, tree.cell id = some held := fun id member =>
    (rep.exists_cell (mem_slots_plug.mpr (mem_append.mp member))).imp fun _ found => found.1
  obtain ⟨-, ⟨⟨na, cellA, keyA, tidA, colorA, usedA, leftA, rightA, upA⟩, storedLeft,
    ⟨nb, cellB, keyB, tidB, colorB, usedB, leftB, rightB, upB⟩, storedMiddle, storedRight⟩, -,
    nodup, apart⟩ := rep.parts
  change tree.cell a.id = some na at cellA
  change tree.cell b.id = some nb at cellB
  have upA : na.parent = slotAbove path := exact _ _ upA
  change na.right = b.id at rightA
  change nb.left = rootSlot middle at leftB
  -- The slots of the five parts are pairwise different.
  simp only [slots_node, mem_append, mem_cons, not_or] at present apart
  rw [slots_node, slots_node, nodup_append, nodup_cons, nodup_append,
    nodup_cons] at nodup
  obtain ⟨nodupLeft, ⟨aOutside, nodupMiddle, ⟨bOutside, nodupRight⟩, apartMiddle⟩, apartLeft⟩ :=
    nodup
  simp only [mem_append, mem_cons, not_or] at aOutside apartLeft apartMiddle
  obtain ⟨aMiddle, ab, aRight⟩ := aOutside
  have validA := isValid_of_cell cellA
  have validB := isValid_of_cell cellB
  have bMiddle : b.id ∉ slots middle := fun member => apartMiddle _ member _ (.inl rfl) rfl
  have bLeft : b.id ∉ slots left := fun member =>
    apartLeft _ member _ (.inr (.inr (.inl rfl))) rfl
  have aLeft : a.id ∉ slots left := fun member => apartLeft _ member _ (.inl rfl) rfl
  have middleA := rootSlot_ne validA aMiddle
  have middleB := rootSlot_ne validB bMiddle
  have aboveA : slotAbove path ≠ a.id :=
    slotAbove_ne validA fun member => (apart _ member).2.1 rfl
  have aboveB : slotAbove path ≠ b.id :=
    slotAbove_ne validB fun member => (apart _ member).2.2.2.1 rfl
  have aboveMiddle : (slotAbove path).isValid = true → slotAbove path ≠ rootSlot middle := by
    intro valid same
    exact (apart _ (mem_of_slotAbove_valid valid)).2.2.1
      (same ▸ mem_of_rootSlot_valid (same ▸ valid))
  have ready : LeftRotatable tree a.id b.id na nb := by
    refine ⟨cellA, cellB, rightA, ab, ?_, leftB ▸ middleA, leftB ▸ middleB, ?_, upA ▸ aboveA,
      upA ▸ aboveB, ?_⟩
    · rw [leftB]
      exact fun valid => present _ (.inr (.inr (.inr (.inl (mem_of_rootSlot_valid valid)))))
    · rw [upA]
      exact fun valid => present _ (.inl (mem_of_slotAbove_valid valid))
    · rw [upA, leftB]
      exact aboveMiddle
  obtain ⟨rotated, run, free, root, newA, newB, newMiddle, newAbove, rest⟩ :=
    rotateLeft_effect ready
  rw [upA] at newB newAbove root rest
  rw [leftB] at newA newMiddle rest
  -- Slots outside the rotation keep their contents, apart from the root of the middle subtree.
  have keep : ∀ id, id ≠ a.id → id ≠ b.id → id ∉ slots middle → id ∉ slotsBeside path →
      rotated.cell id = tree.cell id := by
    intro id awayA awayB inMiddle beside
    by_cases valid : id.isValid = true
    · exact rest id awayA awayB (rootSlot_ne valid inMiddle).symm (slotAbove_ne valid beside).symm
    · -- An identifier without a slot reads as nothing in every state.
      rw [cell_of_not_valid valid, cell_of_not_valid valid]
  refine ⟨rotated, run, ⟨?_, by simp [slots, inorder_plug], free, ?outside⟩, rest⟩
  case outside =>
    intro id away
    simp only [mem_slots_plug, slots_node, mem_append, mem_cons, not_or] at away
    exact keep id away.2.2.1 away.2.2.2.2.1 away.2.2.2.1 away.1
  have keepLeft : ∀ id ∈ slots left, rotated.cell id = tree.cell id := fun id member =>
    keep id (fun same => aLeft (same ▸ member)) (fun same => bLeft (same ▸ member))
      (fun inMiddle => apartLeft id member id (.inr (.inl inMiddle)) rfl)
      fun beside => (apart id beside).1 member
  have keepRight : ∀ id ∈ slots right, rotated.cell id = tree.cell id := fun id member =>
    keep id (fun same => aRight (same ▸ member)) (fun same => bOutside (same ▸ member))
      (fun inMiddle => apartMiddle id inMiddle id (.inr member) rfl)
      fun beside => (apart id beside).2.2.2.2 member
  refine rep.replace (by simp)
    ⟨⟨_, newB, keyB, tidB, colorB, usedB, rfl, rightB, accepts _ (by simp) _⟩,
      ⟨⟨_, newA, keyA, tidA, colorA, usedA, leftA, rfl, accepts _ (by simp) _⟩, ?_, ?_⟩, ?_⟩
    ?_ newAbove root ?_ ?_
  · exact storedLeft.congr fun entry member => keepLeft _ (mem_map_of_mem member)
  · refine stored_below (fun id member => accepts id (by simp [member])) nodupMiddle storedMiddle
      newMiddle fun id member away => ?_
    obtain ⟨held, found⟩ := present id (by simp [member])
    refine rest id (fun same => aMiddle (same ▸ member)) (fun same => bMiddle (same ▸ member)) away
      (slotAbove_ne (isValid_of_cell found) fun beside => ?_).symm
    exact (apart id beside).2.2.1 member
  · exact storedRight.congr fun entry member => keepRight _ (mem_map_of_mem member)
  · intro id member away
    obtain ⟨held, found⟩ := present id (by simp [member])
    exact rest id (apart id member).2.1 (apart id member).2.2.2.1
      (rootSlot_ne (isValid_of_cell found) (apart id member).2.2.1).symm away
  · have perm : (slots (.node b (.node a left middle) right)).Perm
        (slots (.node a left (.node b middle right))) := by simp
    exact perm.nodup_iff.mpr rep.parts.2.2.2.1
  · intro id member beside
    refine rep.parts.2.2.2.2 id beside ?_
    simpa [or_assoc] using member

/-- A right rotation moves the left child above its parent and writes to no other slots. -/
theorem Represents.rebuiltRight (exact : ParentRule.Fixes rule b.id)
    (accepts : ∀ id ∈ b.id :: a.id :: slots middle, ∀ parent, rule id parent parent)
    (rep : Represents rule tree (plug path (.node b (.node a left middle) right))) :
    ∃ rotated, tree.rotateRight b.id = .ok rotated ∧
      Rebuilt rule tree (plug path (.node b (.node a left middle) right))
        rotated (plug path (.node a left (.node b middle right))) ∧
      ∀ id, id ≠ b.id → id ≠ a.id → id ≠ rootSlot middle → id ≠ slotAbove path →
        rotated.cell id = tree.cell id := by
  -- In the mirror this is a left rotation.
  have mirrored := rep.mirror
  rw [mirror_plug, mirror_node, mirror_node] at mirrored
  obtain ⟨rotated, run, rebuilt, rest⟩ := mirrored.rebuiltLeft exact
    (by simpa [slots, inorder_mirror] using accepts)
  have above : slotAbove (mirrorPath path) = slotAbove path := by
    rcases path with _ | ⟨_ | _, _⟩ <;> rfl
  refine ⟨rotated.mirror, ?_, ?_, fun id awayB awayA awayMiddle awayAbove => ?_⟩
  · rw [rotateRight_eq_mirror, run]
    rfl
  · have back := rebuilt.mirror
    simpa [mirror_plug] using back
  · rw [cell_mirror, rest id awayB awayA (by rwa [rootSlot_mirror]) (by rwa [above]), ← cell_mirror,
      mirror_mirror]

/-- Painting an entry rebuilds the tree. -/
theorem Represents.rebuiltPaint (rep : Represents rule tree (plug path (.node a left right)))
    (color : Color) :
    ∃ painted, tree.setColor a.id color = .ok painted ∧
      painted = tree.adjust a.id (fun n => { n with color := color }) ∧
      Rebuilt rule tree (plug path (.node a left right))
        painted (plug path (.node (a.paint color) left right)) := by
  obtain ⟨painted, run, rfl, result⟩ := rep.setColor color
  refine ⟨_, run, rfl, result, ?_, rfl, fun id away => cell_adjust_of_ne _ ?_⟩
  · simp [slots, inorder_plug]
  · rintro rfl
    simp at away

/--
A rotation keeps the entries with their colours in order and all links in agreement.

It writes to no slots but the given ones, and the rotation back restores the state.
-/
def Turns (turn back : RedBlackTree → Exec RedBlackTree) (touched : List RbNodeId)
    (tree : RedBlackTree) (shape : BinaryTree Entry) : Prop :=
  ∃ rotated shape', turn tree = .ok rotated ∧ Linked rotated shape' ∧
    shape'.inorder = shape.inorder ∧ (∀ id, id ∉ touched → rotated.cell id = tree.cell id) ∧
    back rotated = .ok tree

variable {shape shape' : BinaryTree Entry} {changed final : RedBlackTree}

theorem Rebuilt.eq_self (linked : Linked tree shape)
    (rebuilt : Rebuilt exactParent tree shape changed shape) : changed = tree := by
  -- The tree says all that its slots hold, and the other slots are left alone.
  have cells : ∀ id, changed.cell id = tree.cell id := by
    intro id
    by_cases member : id ∈ slots shape
    · obtain ⟨entry, inside, rfl⟩ := mem_map.mp member
      obtain ⟨path, left, right, rfl⟩ := exists_path_of_mem inside
      obtain ⟨held, found, fits⟩ := linked.cell_node
      obtain ⟨held', found', fits'⟩ := rebuilt.represents.cell_node
      rw [found, found']
      cases held
      cases held'
      simp_all [exactParent]
    · exact rebuilt.outside id member
  have nodes : changed.nodes = tree.nodes := by
    funext position
    have small : position.val < 1024 := position.isLt
    have slot : (⟨UInt16.ofNat position⟩ : RbNodeId).asUsize = position.val := by
      simp [RbNodeId.asUsize]
      omega
    have same := cells ⟨UInt16.ofNat position⟩
    simp only [cell, slot, position.isLt, dif_pos, Option.some.injEq] at same
    exact same
  have root := rebuilt.represents.root.trans linked.root.symm
  have free := rebuilt.freeHead
  cases tree
  cases changed
  simp_all

theorem Rebuilt.turns {turn back : RedBlackTree → Exec RedBlackTree} {z w : RbNodeId}
    (linked : Linked tree shape) (run : turn tree = .ok changed)
    (rebuilt : Rebuilt exactParent tree shape changed shape')
    (rest : ∀ id, id ≠ x → id ≠ y → id ≠ z → id ≠ w → changed.cell id = tree.cell id)
    (order : shape'.inorder = shape.inorder) (undo : back changed = .ok final)
    (again : Rebuilt exactParent changed shape' final shape) :
    Turns turn back [x, y, z, w] tree shape := by
  refine ⟨changed, shape', run, rebuilt.represents, order, fun id away => ?_, ?_⟩
  · simp only [mem_cons, not_mem_nil, or_false, not_or] at away
    exact rest id away.1 away.2.1 away.2.2.1 away.2.2.2
  · rw [undo, (rebuilt.trans again).eq_self linked]

/-- A node with a child on one side can be rotated to the other side, and back. -/
theorem rotations_sound (linked : Linked tree shape) (member : x ∈ slots shape)
    (held : tree.cell x = some nx) :
    (∀ ny, tree.cell nx.right = some ny → Turns (rotateLeft · x) (rotateRight · nx.right)
      [x, nx.right, ny.left, nx.parent] tree shape) ∧
    ∀ ny, tree.cell nx.left = some ny → Turns (rotateRight · x) (rotateLeft · nx.left)
      [x, nx.left, ny.right, nx.parent] tree shape := by
  obtain ⟨a, inside, rfl⟩ := mem_map.mp member
  obtain ⟨path, left, right, rfl⟩ := exists_path_of_mem inside
  obtain ⟨na, cellA, -, -, -, -, toLeft, toRight, up⟩ := linked.cell_node
  cases held.symm.trans cellA
  rw [toLeft, toRight, exactParent_fixes _ _ _ up]
  constructor
  · intro ny found
    cases right with
    | nil => cases cell_invalid.symm.trans found
    | node b middle right =>
      obtain ⟨nb, cellB, -, -, -, -, toMiddle, -⟩ := linked.inRight.cell_node
      cases found.symm.trans cellB
      rw [toMiddle]
      obtain ⟨rotated, run, rebuilt, rest⟩ :=
        linked.rebuiltLeft (exactParent_fixes _) fun _ _ _ => rfl
      obtain ⟨final, undo, again, -⟩ :=
        rebuilt.represents.rebuiltRight (exactParent_fixes _) fun _ _ _ => rfl
      exact rebuilt.turns linked run rest (by simp [inorder_plug]) undo again
  · intro ny found
    cases left with
    | nil => cases cell_invalid.symm.trans found
    | node b left middle =>
      obtain ⟨nb, cellB, -, -, -, -, -, toMiddle, -⟩ := linked.inLeft.cell_node
      cases found.symm.trans cellB
      rw [toMiddle]
      obtain ⟨rotated, run, rebuilt, rest⟩ :=
        linked.rebuiltRight (exactParent_fixes _) fun _ _ _ => rfl
      obtain ⟨final, undo, again, -⟩ :=
        rebuilt.represents.rebuiltLeft (exactParent_fixes _) fun _ _ _ => rfl
      exact rebuilt.turns linked run rest (by simp [inorder_plug]) undo again

/-- A tree of two entries, the second of which is the right child of the first. -/
def twoEntries : RedBlackTree where
  nodes := fun position =>
    if position.val = 0 then ⟨2, ⟨20⟩, .invalid, .invalid, .new 1, .black, true⟩
    else if position.val = 1 then ⟨3, ⟨30⟩, .new 0, .invalid, .invalid, .red, true⟩
    else .empty
  root := .new 0
  freeHead := .invalid

/-- The tree of two entries can be rotated to the left, and back. -/
theorem twoEntries_turns : ∃ shape, Linked twoEntries shape ∧
    Turns (rotateLeft · (.new 0)) (rotateRight · (.new 1)) [.new 0, .new 1, .invalid, .invalid]
      twoEntries shape := by
  have linked : Linked twoEntries (.node ⟨.new 0, 2, ⟨20⟩, .black⟩ .nil
      (.node ⟨.new 1, 3, ⟨30⟩, .red⟩ .nil .nil)) :=
    ⟨rfl, ⟨⟨_, rfl, rfl, rfl, rfl, rfl, rfl, rfl, rfl⟩, trivial,
      ⟨_, rfl, rfl, rfl, rfl, rfl, rfl, rfl, rfl⟩, trivial, trivial⟩, by decide⟩
  exact ⟨_, linked, (rotations_sound linked mem_cons_self rfl).1 _ rfl⟩

end RedBlackTree

end TheoryKernel.Sched
