import TheoryKernel.Sched.RbTreeRotate
import TheoryKernel.Sched.RbTreeShape
import TheoryKernel.Sched.RbTreePool

/-! Insertion into the run-queue tree, and the one parent link it gets wrong when it rotates. -/

namespace TheoryKernel.Sched

open LinkedTree LinkedList BinaryTree RedBlack Exec List

namespace RedBlackTree

variable {rule : ParentRule} {tree changed : RedBlackTree} {shape : BinaryTree Entry}
  {path : Path Entry} {entry : Entry} {left right : BinaryTree Entry}

variable {shape' : BinaryTree Entry} {rounds : Nat} {parent step grand : Step Entry} {id : RbNodeId}
  {rotated : Bool}

theorem Represents.attachLeaf {leaf : RbNode} (rep : Linked tree (plug (step :: path) .nil))
    (fresh : entry.id ∉ slots (plug (step :: path) .nil))
    (new : changed.cell entry.id = some leaf)
    (content : leaf = ⟨entry.key, entry.tid, step.value.id, RbNodeId.invalid, RbNodeId.invalid,
      entry.color, true⟩)
    (above : changed.cell step.value.id = (tree.cell step.value.id).map (hang entry.id step))
    (rest : ∀ id, id ≠ entry.id → id ≠ step.value.id → changed.cell id = tree.cell id)
    (root : changed.root = tree.root) :
    Linked changed (plug (step :: path) (.node entry .nil .nil)) := by
  obtain ⟨-, -, beside, -, -⟩ := rep.parts
  rw [mem_slots_plug, slots_nil, mem_nil_iff, or_false] at fresh
  refine ⟨?_, Layout.stored_plug.mpr ⟨?_, ?_⟩, ?_⟩
  · rw [root, rep.root]
    exact Layout.rootId_plug_cons step path _ _
  · exact rep.storedPath_hang above fun id member away =>
      rest id (fun same => fresh (same ▸ member)) away
  · subst content
    exact ⟨⟨_, new, rfl, rfl, rfl, rfl, rfl, rfl, rfl⟩, trivial, trivial⟩
  · rw [(slots_plug_perm (step :: path) _).nodup_iff]
    simp only [slots_node, slots_nil, nil_append]
    exact nodup_append.mpr ⟨beside, by simp, by
      rintro id member other same rfl
      rw [mem_singleton] at same
      exact fresh (same ▸ member)⟩

theorem attach_eq (key : UInt64) (id : RbNodeId)
    (rep : Represents rule tree (plug path (.node entry left right)))
    (enough : (BinaryTree.node entry left right).height ≤ rounds) :
    ∃ step rest, descend key (.node entry left right) path = step :: rest ∧
      attach rounds tree key id entry.id =
        .ok (tree.adjust step.value.id (hang id step), step.value.id) := by
  -- The descent recurses into one child, whose path is one step longer.
  induction rounds generalizing path entry left right with
  | zero => simp [height] at enough
  | succ rounds ih =>
    obtain ⟨held, found, heldKey, -, -, -, leftLink, rightLink, -⟩ := rep.cell_node
    simp only [height, Nat.add_le_add_iff_right] at enough
    rw [attach, node_of_cell found, ok_bind, heldKey, leftLink, rightLink, descend]
    by_cases less : key < entry.key
    · rw [if_pos less, if_pos less]
      cases left with
      | nil =>
        exact ⟨_, _, rfl, by simp [modify_of_cell found, slotLayout]; rfl⟩
      | node child inner outer =>
        have valid := rep.inLeft.rootSlot_valid.mpr (by simp)
        obtain ⟨step, rest, steps, run⟩ := ih rep.inLeft (le_trans (le_max_left _ _) enough)
        exact ⟨step, rest, steps, by rw [valid]; exact run⟩
    · rw [if_neg less, if_neg less]
      cases right with
      | nil =>
        exact ⟨_, _, rfl, by simp [modify_of_cell found, slotLayout]; rfl⟩
      | node child inner outer =>
        have valid := rep.inRight.rootSlot_valid.mpr (by simp)
        obtain ⟨step, rest, steps, run⟩ := ih rep.inRight (le_trans (le_max_right _ _) enough)
        exact ⟨step, rest, steps, by rw [valid]; exact run⟩

/-- Some slot of the tree is linked from above, but its parent link names another slot. -/
def Misparented (tree : RedBlackTree) (shape : BinaryTree Entry) : Prop :=
  ∃ above ∈ slots shape, ∃ id up child, tree.cell above = some up ∧ (up.left = id ∨ up.right = id) ∧
    tree.cell id = some child ∧ child.parent ≠ above

theorem Represents.parent_eq {child : RbNode} (rep : Linked tree (plug (step :: path) shape))
    (found : tree.cell (rootSlot shape) = some child) : child.parent = step.value.id := by
  cases shape with
  | nil => simp [slotLayout] at found
  | node entry left right =>
    obtain ⟨held, here, -, -, -, -, -, -, up⟩ := rep.cell_node
    cases found.symm.trans here
    exact up

/-- A state with a misparented slot holds no tree whose links all agree. -/
theorem Misparented.not_linked (rep : Represents rule tree shape) (wrong : Misparented tree shape) :
    ¬ Linked tree shape' := by
  intro linked
  obtain rfl := rep.unique linked
  obtain ⟨above, member, id, up, child, found, link, below, other⟩ := wrong
  apply other
  obtain ⟨value, inside, rfl⟩ := mem_map.mp member
  obtain ⟨path, left, right, rfl⟩ := exists_path_of_mem inside
  obtain ⟨held, same, -, -, -, -, leftLink, rightLink, -⟩ := linked.cell_node
  cases found.symm.trans same
  rcases link with rfl | rfl
  · rw [leftLink] at below
    exact linked.inLeft.parent_eq below
  · rw [rightLink] at below
    exact linked.inRight.parent_eq below

theorem Misparented.paint {color : Color} (wrong : Misparented tree shape)
    (same : ∀ id, id ∈ slots shape → id ∈ slots shape') :
    Misparented (tree.adjust id fun n => { n with color := color }) shape' := by
  obtain ⟨above, member, slot, up, child, found, link, below, other⟩ := wrong
  have keep : ∀ slot held, tree.cell slot = some held → ∃ painted,
      (tree.adjust id fun n => { n with color := color }).cell slot = some painted ∧
        painted.left = held.left ∧ painted.right = held.right ∧ painted.parent = held.parent := by
    intro slot held here
    rw [cell_adjust, here]
    split <;> exact ⟨_, rfl, rfl, rfl, rfl⟩
  obtain ⟨up', found', left, right, -⟩ := keep above up found
  obtain ⟨child', below', -, -, parent⟩ := keep slot child below
  exact ⟨above, same above member, slot, up', child', found', by rwa [left, right], below',
    by rwa [parent]⟩

/-- Reading the colour of the root of a subtree, where an absent root is not red. -/
theorem Represents.read_red (rep : Represents rule tree (plug path shape)) :
    tree.isRedIfValid (rootSlot shape) = .ok (rootRed isRed shape) := by
  cases shape with
  | nil => simp [isRedIfValid, slotLayout]
  | node entry left right =>
    obtain ⟨held, found, -, -, color, -⟩ := rep.cell_node
    change tree.isRedIfValid entry.id = _
    rw [isRedIfValid, if_pos (isValid_of_cell found), node_of_cell found]
    simp [isRed, color, Functor.map, Except.map]

/-- The root of a tree lies beside every subtree at the end of a path. -/
theorem Represents.root_ne
    (rep : Represents rule tree (plug (step :: path) (.node entry left right))) :
    entry.id ≠ tree.root := by
  rw [rep.root]
  exact (rootSlot_plug_ne rep.nodup).symm

/-- The step with the root of its sibling painted. -/
def paintSibling (color : Color) : Step Entry → Step Entry
  | .left value other => .left value (paintRoot color other)
  | .right value other => .right value (paintRoot color other)

theorem Represents.rebuiltRoot (rep : Represents rule tree (plug path shape))
    (nonempty : shape ≠ .nil) (color : Color) :
    ∃ painted, tree.setColor (rootSlot shape) color = .ok painted ∧
      Rebuilt rule tree (plug path shape) painted (plug path (paintRoot color shape)) := by
  cases shape with
  | nil => exact absurd rfl nonempty
  | node entry left right =>
    obtain ⟨painted, run, -, rebuilt⟩ := rep.rebuiltPaint color
    exact ⟨painted, run, rebuilt⟩

section

variable (rep : Represents rule tree (plug (step :: path) shape))

include rep

theorem Represents.rebuiltStep (color : Color) :
    ∃ painted, tree.setColor step.value.id color = .ok painted ∧
      Rebuilt rule tree (plug (step :: path) shape)
        painted (plug (paintValue color step :: path) shape) := by
  rw [plug_cons] at rep
  cases step with
  | left value other | right value other => exact rep.rebuiltRoot nofun color

theorem Represents.rebuiltSibling (nonempty : step.sibling ≠ .nil) (color : Color) :
    ∃ painted, tree.setColor (rootSlot step.sibling) color = .ok painted ∧
      Rebuilt rule tree (plug (step :: path) shape)
        painted (plug (paintSibling color step :: path) shape) := by
  cases step with
  | left value other =>
    have beside : Represents rule tree (plug (.right value shape :: path) other) := rep
    exact beside.rebuiltRoot nonempty color
  | right value other =>
    have beside : Represents rule tree (plug (.left value shape :: path) other) := rep
    exact beside.rebuiltRoot nonempty color

theorem Represents.beside : ∃ other, Represents rule tree (plug (other :: path) step.sibling) := by
  cases step with
  | left value sibling => exact ⟨.right value shape, rep⟩
  | right value sibling => exact ⟨.left value shape, rep⟩

end

theorem Represents.cell_grand (rep : Linked tree (plug (parent :: grand :: path) shape)) :
    ∃ parentHeld grandHeld, tree.cell parent.value.id = some parentHeld ∧
      tree.cell grand.value.id = some grandHeld ∧ parentHeld.parent = grand.value.id ∧
      parentHeld.color = parent.value.color ∧ grandHeld.parent = slotAbove path ∧
      match grand with
      | .left _ uncle => grandHeld.left = parent.value.id ∧ grandHeld.right = rootSlot uncle
      | .right _ uncle => grandHeld.left = rootSlot uncle ∧ rootSlot uncle ≠ parent.value.id ∧
          grandHeld.right = parent.value.id := by
  obtain ⟨parentHeld, foundParent, color, parentUp, -⟩ := rep.cell_step
  have outer : Linked tree (plug (grand :: path) (parent.attach shape)) := rep
  obtain ⟨grandHeld, foundGrand, -, grandUp, links⟩ := outer.cell_step
  refine ⟨parentHeld, grandHeld, foundParent, foundGrand, parentUp, color, grandUp, ?_⟩
  have rootParent : rootSlot (parent.attach shape) = parent.value.id := by
    cases parent <;> rfl
  rw [rootParent] at links
  cases grand with
  | left value uncle => exact links
  | right value uncle =>
    refine ⟨links.1, ?_, links.2⟩
    cases parent with
    | left above sibling | right above sibling => exact outer.sibling_ne

variable {p g : Entry} {sibling uncle : BinaryTree Entry}

/-- Every parent link names the parent, except that the link of one slot names a given slot. -/
def stuckParent (id parent : RbNodeId) : ParentRule :=
  fun slot expected actual => if slot = id then actual = parent else actual = expected

theorem Represents.misdirect (rep : Linked tree (plug path (.node entry left right)))
    (parent : RbNodeId) :
    tree.modify entry.id (fun n => { n with parent := parent }) =
        .ok (tree.adjust entry.id fun n => { n with parent := parent }) ∧
      Rebuilt (stuckParent entry.id parent) tree (plug path (.node entry left right))
        (tree.adjust entry.id fun n => { n with parent := parent })
        (plug path (.node entry left right)) := by
  obtain ⟨held, found, -⟩ := rep.cell_node
  refine ⟨modify_of_cell found _, ?_, List.Perm.refl _, rfl, fun id away =>
    cell_adjust_of_ne _ ?_⟩
  · have loose : Represents (exactParentExcept entry.id) (tree.adjust entry.id fun n =>
        { n with parent := parent }) (plug path (.node entry left right)) := by
      refine (rep.mono fun _ _ _ _ same => .inr same).update rfl fun n _ fit => ?_
      exact ⟨fit.1, fit.2.1, fit.2.2.1, fit.2.2.2.1, fit.2.2.2.2.1, fit.2.2.2.2.2.1, .inl rfl⟩
    refine loose.mono fun slot expected n here link => ?_
    unfold stuckParent
    split
    · rename_i same
      rw [same, cell_adjust_self, found] at here
      cases here
      rfl
    · exact link.resolve_left (by assumption)
  · rintro rfl
    simp at away

theorem Represents.liftLeft
    (rep : Linked tree (plug (.left p sibling :: .left g uncle :: path) (.node entry left right))) :
    ∃ changed, (do
        let tree ← tree.modify entry.id fun n => { n with parent := g.id }
        let tree ← tree.rotateRight g.id
        let top := (← tree.node g.id).parent
        let tree ← tree.setColor top .black
        tree.setColor g.id .red) = .ok changed ∧
      Rebuilt (exactParentExcept entry.id) tree
        (plug (.left p sibling :: .left g uncle :: path) (.node entry left right)) changed
        (plug path (rotateUp (.left p sibling) (.left g uncle) (.node entry left right))) ∧
      Misparented changed
        (plug path (rotateUp (.left p sibling) (.left g uncle) (.node entry left right))) := by
  obtain ⟨run, turned⟩ := rep.misdirect g.id
  rw [run, ok_bind]
  -- The slots that take part in the rotation are all different from the misdirected one.
  obtain ⟨-, -, beside, -, apart⟩ := rep.parts
  have permNear := slotsBeside_cons_perm (.left p sibling) (.left g uncle :: path)
  have permFar := slotsBeside_cons_perm (.left g uncle) path
  have away : ∀ id ∈ g.id :: p.id :: slots sibling, id ≠ entry.id := by
    rintro id member rfl
    refine apart entry.id (permNear.mem_iff.mpr ?_) (by simp)
    simp only [mem_cons, mem_append, permFar.mem_iff, Step.value_left,
      Step.sibling] at member ⊢
    tauto
  have apartPG : g.id ≠ p.id := by
    intro same
    have distinct := (nodup_cons.mp (permNear.nodup_iff.mp beside)).1
    exact distinct (mem_append_right _ (permFar.mem_iff.mpr (by simp [same])))
  have before : Represents (stuckParent entry.id g.id) _
      (plug path (.node g (.node p (.node entry left right) sibling) uncle)) := turned.represents
  have exact : ParentRule.Fixes (stuckParent entry.id g.id) g.id := by
    intro expected actual link
    rwa [stuckParent, if_neg (away _ (by simp))] at link
  obtain ⟨rotated, run, rebuilt, -⟩ := before.rebuiltRight exact fun id member parent =>
    (if_neg (away id member)).mpr rfl
  have inner : Represents (stuckParent entry.id g.id) rotated
      (plug (.right p (.node entry left right) :: path) (.node g sibling uncle)) := rebuilt.represents
  obtain ⟨grandHeld, foundGrand, -, -, -, -, -, -, up⟩ := inner.cell_node
  have top : grandHeld.parent = p.id := exact _ _ up
  obtain ⟨painted, runP, -, paintedP⟩ := rebuilt.represents.rebuiltPaint .black
  have inner' : Represents (stuckParent entry.id g.id) painted
      (plug (.right (p.paint .black) (.node entry left right) :: path) (.node g sibling uncle)) :=
    paintedP.represents
  obtain ⟨final, runG, -, paintedG⟩ := inner'.rebuiltPaint .red
  have chain := ((turned.trans rebuilt).trans paintedP).trans paintedG
  refine ⟨final, ?_, { chain with represents := ?_ }, ?_⟩
  · rw [run, ok_bind, node_of_cell foundGrand, ok_bind, top]
    change (rotated.setColor p.id .black >>= _) = _
    rw [runP, ok_bind, runG]
  · refine chain.represents.mono fun slot expected n _ link => ?_
    unfold stuckParent at link
    split at link
    · exact .inl (by assumption)
    · exact .inr link
  · -- The red node is the left child of the old parent, and its own link says otherwise.
    have below : Represents (stuckParent entry.id g.id) final (plug (.left (p.paint .black)
        (.node (g.paint .red) sibling uncle) :: path) (.node entry left right)) := chain.represents
    obtain ⟨parentHeld, foundParent, -, -, leftLink, -⟩ := below.cell_step
    obtain ⟨held, found, -, -, -, -, -, -, up⟩ := below.cell_node
    rw [stuckParent, if_pos rfl] at up
    refine ⟨p.id, ?_, entry.id, parentHeld, held, foundParent, Or.inl leftLink, found, ?_⟩
    · simp [rotateUp]
    · rwa [up]

/-- A rebuilt state whose child links are right, while one parent link is wrong. -/
def RebuiltMisparented (tree : RedBlackTree) (shape : BinaryTree Entry) (changed : RedBlackTree)
    (shape' : BinaryTree Entry) : Prop :=
  ∃ stale, Rebuilt (exactParentExcept stale) tree shape changed shape' ∧
    Misparented changed shape'

theorem Represents.fixInsertLeft
    (rep : Linked tree (plug (parent :: .left g uncle :: path) (.node entry left right))) :
    ∃ changed, tree.fixInsertLeft entry.id parent.value.id g.id = .ok changed ∧
      RebuiltMisparented tree (plug (parent :: .left g uncle :: path) (.node entry left right))
        changed (plug path (rotateUp parent (.left g uncle) (.node entry left right))) := by
  unfold RedBlackTree.fixInsertLeft
  cases parent with
  | left p sibling =>
    -- The red node is on the outside already.
    obtain ⟨parentHeld, found, -, -, -, link⟩ := rep.cell_step
    have outside : rootSlot sibling ≠ entry.id := rep.sibling_ne
    obtain ⟨changed, run, rebuilt, wrong⟩ := rep.liftLeft
    refine ⟨changed, ?_, entry.id, rebuilt, wrong⟩
    rw [Step.value_left] at found ⊢
    rw [node_of_cell found, ok_bind, link, if_neg outside, ok_bind]
    exact run
  | right p sibling =>
    -- A first rotation moves the red node above its parent, which then takes its part.
    obtain ⟨parentHeld, found, -, -, -, link⟩ := rep.cell_step
    have whole : Linked tree (plug (.left g uncle :: path)
        (.node p sibling (.node entry left right))) := rep
    obtain ⟨rotated, turn, rebuiltFirst, -⟩ :=
      whole.rebuiltLeft (exactParent_fixes p.id) fun _ _ _ => rfl
    have lifted : Linked rotated (plug (.left entry right :: .left g uncle :: path)
        (.node p sibling left)) := rebuiltFirst.represents
    obtain ⟨changed, run, rebuilt, wrong⟩ := lifted.liftLeft
    refine ⟨changed, ?_, p.id, rebuiltFirst.trans rebuilt, wrong⟩
    rw [Step.value_right] at found ⊢
    change parentHeld.right = entry.id at link
    rw [node_of_cell found, ok_bind, if_pos link, turn, ok_bind, ok_bind]
    exact run

theorem fixInsertRight_eq_mirror (id parent grand : RbNodeId) :
    tree.fixInsertRight id parent grand =
      mirror <$> tree.mirror.fixInsertLeft id parent grand := by
  unfold fixInsertRight RedBlackTree.fixInsertLeft setColor
  simp only [node_mirror, bind_map_left, map_bind]
  refine bind_congr fun held => ?_
  have turned : held.mirror.right = held.left := rfl
  rw [turned]
  split <;>
  · simp only [rotateRight_eq_mirror, bind_map_left, ok_bind, map_bind, mirror_mirror,
      node_mirror, modify_mirror, Functor.map_map, id_map']
    rfl

theorem Misparented.mirror (wrong : Misparented tree shape) :
    Misparented tree.mirror shape.mirror := by
  obtain ⟨above, member, id, up, child, found, link, below, other⟩ := wrong
  refine ⟨above, by simpa [slots, inorder_mirror] using member, id, up.mirror, child.mirror, ?_,
    link.symm, ?_, other⟩
  · rw [cell_mirror, found, Option.map_some]
  · rw [cell_mirror, below, Option.map_some]

/-- The mirror image of a step. -/
theorem mirrorPath_cons (step : Step Entry) (path : Path Entry) : mirrorPath (step :: path) =
    (match step with
      | .left value other => .right value other.mirror
      | .right value other => .left value other.mirror) :: mirrorPath path := by
  cases step <;> rfl

theorem Represents.fixInsertRight
    (rep : Linked tree (plug (parent :: .right g uncle :: path) (.node entry left right))) :
    ∃ changed, tree.fixInsertRight entry.id parent.value.id g.id = .ok changed ∧
      RebuiltMisparented tree (plug (parent :: .right g uncle :: path) (.node entry left right))
        changed (plug path (rotateUp parent (.right g uncle) (.node entry left right))) := by
  have mirrored := rep.mirror
  rw [mirror_plug, mirrorPath_cons, mirrorPath_cons, mirror_node] at mirrored
  obtain ⟨changed, run, stale, rebuilt, wrong⟩ := mirrored.fixInsertLeft
  refine ⟨changed.mirror, ?_, stale, ?_, ?_⟩
  · rw [fixInsertRight_eq_mirror]
    cases parent <;> exact congrArg (RedBlackTree.mirror <$> ·) run
  · have back := rebuilt.mirror
    cases parent <;> simpa [mirror_plug, mirrorPath_cons, rotateUp] using back
  · have back := wrong.mirror
    cases parent <;> simpa [mirror_plug, mirrorPath_cons, rotateUp] using back

theorem Represents.paintGrand
    (rep : Linked tree (plug (parent :: grand :: path) (.node entry left right)))
    (uncleRed : rootRed isRed grand.sibling = true) :
    ∃ painted, (do
        let tree ← tree.setColor parent.value.id .black
        let tree ← tree.setColor (rootSlot grand.sibling) .black
        tree.setColor grand.value.id .red) = .ok painted ∧
      Rebuilt exactParent tree (plug (parent :: grand :: path) (.node entry left right)) painted
        (plug path ((paintStep .red .black grand).attach
          ((paintValue .black parent).attach (.node entry left right)))) := by
  have nonempty : grand.sibling ≠ .nil := by
    rintro absent
    simp [absent] at uncleRed
  obtain ⟨first, runFirst, rebuiltFirst⟩ := rep.rebuiltStep .black
  have outer : Linked first (plug (grand :: path)
      ((paintValue .black parent).attach (.node entry left right))) := rebuiltFirst.represents
  obtain ⟨second, runSecond, rebuiltSecond⟩ := outer.rebuiltSibling nonempty .black
  obtain ⟨third, runThird, rebuiltThird⟩ := rebuiltSecond.represents.rebuiltStep .red
  refine ⟨third, ?_, ?_⟩
  · have sameValue : (paintSibling .black grand).value = grand.value := by cases grand <;> rfl
    rw [sameValue] at runThird
    rw [runFirst, ok_bind, runSecond, ok_bind, runThird]
  · have sameStep : paintValue .red (paintSibling .black grand) = paintStep .red .black grand := by
      cases grand <;> rfl
    have chain := (rebuiltFirst.trans rebuiltSecond).trans rebuiltThird
    rw [sameStep] at chain
    exact chain

theorem fixInsertLoop_round
    (rep : Linked tree (plug (parent :: grand :: path) (.node entry left right))) :
    fixInsertLoop (rounds + 1) tree entry.id =
      if isRed parent.value = false then .ok tree
      else if rootRed isRed grand.sibling then do
        let tree ← tree.setColor parent.value.id .black
        let tree ← tree.setColor (rootSlot grand.sibling) .black
        let tree ← tree.setColor grand.value.id .red
        fixInsertLoop rounds tree grand.value.id
      else match grand with
        | .left g _ => tree.fixInsertLeft entry.id parent.value.id g.id
        | .right g _ => tree.fixInsertRight entry.id parent.value.id g.id := by
  obtain ⟨nodeHeld, foundNode, -, -, -, -, -, -, nodeUp⟩ := rep.cell_node
  obtain ⟨parentHeld, grandHeld, foundParent, foundGrand, parentUp, color, -, links⟩ := rep.cell_grand
  have outer : Linked tree (plug (grand :: path) (parent.attach (.node entry left right))) := rep
  obtain ⟨_, inUncle⟩ := outer.beside
  have uncleColor := inUncle.read_red
  change nodeHeld.parent = parent.value.id at nodeUp
  rw [fixInsertLoop, if_neg rep.root_ne, node_of_cell foundNode, ok_bind, nodeUp]
  simp only [isValid_of_cell foundParent, isValid_of_cell foundGrand, node_of_cell foundParent,
    node_of_cell foundGrand, ok_bind, parentUp, color, Bool.not_true, Bool.false_eq_true,
    if_false]
  by_cases black : isRed parent.value = false
  · have paint : parent.value.color ≠ .red := by simpa [isRed] using black
    simp [black, paint]
  · have paint : parent.value.color = .red := by simpa [isRed] using black
    rw [if_neg black, if_neg (not_not.mpr paint)]
    cases grand with
    | left g uncle =>
      rw [Step.sibling] at uncleColor
      simp only [links.1, links.2, decide_true, if_true, Functor.map, Except.map, ok_bind,
        uncleColor]
      rfl
    | right g uncle =>
      rw [Step.sibling] at uncleColor
      simp only [links.1, links.2.1, decide_false, Bool.false_eq_true, if_false, Functor.map,
        Except.map, ok_bind, uncleColor]
      rfl

/-- The outcome of a repair: a rebuilt tree, with a wrong parent link exactly when it rotated. -/
def Repaired (rotated : Bool) (tree : RedBlackTree) (shape : BinaryTree Entry)
    (changed : RedBlackTree) (shape' : BinaryTree Entry) : Prop :=
  if rotated then RebuiltMisparented tree shape changed shape'
  else Rebuilt exactParent tree shape changed shape'

theorem Rebuilt.transRepaired {first second third : RedBlackTree} {shape'' : BinaryTree Entry}
    (one : Rebuilt rule first shape second shape')
    (two : Repaired rotated second shape' third shape'') :
    Repaired rotated first shape third shape'' := by
  cases rotated with
  | false => exact one.trans two
  | true =>
    obtain ⟨stale, rebuilt, wrong⟩ := two
    exact ⟨stale, one.trans rebuilt, wrong⟩

theorem fixInsertLoop_spec (rep : Linked tree (plug path (.node entry left right)))
    (enough : path.length ≤ rounds) :
    ∃ changed, fixInsertLoop (rounds + 1) tree entry.id = .ok changed ∧
      Repaired (rotates path) tree (plug path (.node entry left right)) changed
        (climb path (.node entry left right)) := by
  -- Each painting round moves two levels up and widens the subtree that is already repaired.
  induction path using List.twoStepInduction generalizing tree entry left right rounds with
  | nil =>
    have atRoot : entry.id = tree.root := rep.root.symm
    exact ⟨tree, by rw [fixInsertLoop, if_pos atRoot], .refl rep⟩
  | singleton parent =>
    refine ⟨tree, ?_, .refl rep⟩
    obtain ⟨held, found, -, -, -, -, -, -, up⟩ := rep.cell_node
    obtain ⟨parentHeld, foundParent, -, parentUp, -⟩ := rep.cell_step
    change held.parent = parent.value.id at up
    change parentHeld.parent = RbNodeId.invalid at parentUp
    rw [fixInsertLoop, if_neg rep.root_ne, node_of_cell found, ok_bind]
    simp [up, isValid_of_cell foundParent, node_of_cell foundParent, parentUp]
  | cons_cons parent grand path ih _ =>
    simp only [length_cons] at enough
    rw [fixInsertLoop_round rep]
    unfold climb rotates
    by_cases black : isRed parent.value = false
    · rw [if_pos black, if_pos black, black]
      exact ⟨tree, rfl, .refl rep⟩
    have red : isRed parent.value = true := by simpa using black
    rw [if_neg black, if_neg black, red, Bool.true_and]
    by_cases uncleRed : rootRed isRed grand.sibling = true
    · obtain ⟨painted, run, rebuilt⟩ := rep.paintGrand uncleRed
      rw [if_pos uncleRed, if_pos uncleRed, if_pos uncleRed]
      obtain ⟨fewer, rfl⟩ : ∃ fewer, rounds = fewer + 1 := ⟨rounds - 1, by omega⟩
      have shorter : path.length ≤ fewer := by omega
      have rest : ∃ changed, fixInsertLoop (fewer + 1) painted grand.value.id = .ok changed ∧
          Repaired (rotates path) painted
            (plug path ((paintStep .red .black grand).attach
              ((paintValue .black parent).attach (.node entry left right)))) changed
            (climb path ((paintStep .red .black grand).attach
              ((paintValue .black parent).attach (.node entry left right)))) := by
        cases grand with
        | left g uncle | right g uncle => exact ih rebuilt.represents shorter
      obtain ⟨changed, climbed, result⟩ := rest
      refine ⟨changed, ?_, rebuilt.transRepaired result⟩
      simpa only [bind_assoc, climbed, ok_bind] using
        congrArg (· >>= fun tree => fixInsertLoop (fewer + 1) tree grand.value.id) run
    · rw [if_neg uncleRed, if_neg uncleRed, if_neg uncleRed]
      cases grand with
      | left g uncle => exact rep.fixInsertLeft
      | right g uncle => exact rep.fixInsertRight

theorem Repaired.rebuilt (repaired : Repaired rotated tree shape changed shape') :
    ∃ rule, Rebuilt rule tree shape changed shape' := by
  cases rotated with
  | false => exact ⟨_, repaired⟩
  | true =>
    obtain ⟨stale, rebuilt, -⟩ := repaired
    exact ⟨_, rebuilt⟩

theorem Represents.blackenRoot (rep : Represents rule tree shape) (nonempty : shape ≠ .nil) :
    ∃ id, tree.setColor tree.root .black =
        .ok (tree.adjust id fun n => { n with color := .black }) ∧
      Rebuilt rule tree shape (tree.adjust id fun n => { n with color := .black })
        (paintRoot .black shape) := by
  cases shape with
  | nil => exact absurd rfl nonempty
  | node top below beside =>
    have whole : Represents rule tree (plug [] (.node top below beside)) := rep
    obtain ⟨painted, run, rfl, paint⟩ := whole.rebuiltPaint .black
    exact ⟨top.id, by rw [show tree.root = top.id from rep.root, run], paint⟩

theorem Repaired.blacken (repaired : Repaired rotated tree shape changed shape')
    (nonempty : shape' ≠ .nil) :
    ∃ painted, changed.setColor changed.root .black = .ok painted ∧
      Repaired rotated tree shape painted (paintRoot .black shape') := by
  cases rotated with
  | false =>
    obtain ⟨id, run, paint⟩ := (Rebuilt.represents repaired).blackenRoot nonempty
    exact ⟨_, run, Rebuilt.trans repaired paint⟩
  | true =>
    obtain ⟨stale, rebuilt, wrong⟩ := repaired
    obtain ⟨id, run, paint⟩ := rebuilt.represents.blackenRoot nonempty
    exact ⟨_, run, stale, rebuilt.trans paint, wrong.paint fun _ => paint.sameSlots.mem_iff.mpr⟩

theorem fixInsert_spec (rep : Linked tree (plug path (.node entry left right))) :
    ∃ changed, tree.fixInsert entry.id = .ok changed ∧
      Repaired (rotates path) tree (plug path (.node entry left right)) changed
        (paintRoot .black (climb path (.node entry left right))) := by
  obtain ⟨changed, run, repaired⟩ :=
    fixInsertLoop_spec rep (Nat.le_of_lt_succ (Nat.lt_of_add_right_lt rep.path_lt))
  have nonempty : climb path (.node entry left right) ≠ .nil := by
    intro absent
    have empty := items_climb path entry left right
    rw [absent, items_plug] at empty
    simp at empty
  obtain ⟨painted, paint, result⟩ := repaired.blacken nonempty
  exact ⟨painted, by rw [fixInsert, loopBudget, run, ok_bind, paint], result⟩

/-- A represented tree survives every change outside its slots that keeps the root. -/
theorem Represents.congr (rep : Represents rule tree shape) (root : changed.root = tree.root)
    (same : ∀ id ∈ slots shape, changed.cell id = tree.cell id) : Represents rule changed shape :=
  ⟨root.trans rep.root,
    rep.stored.congr fun value member => same value.id (mem_map_of_mem member), rep.nodup⟩

/-- The tree of entries after an insertion into a slot. -/
def inserted (id : RbNodeId) (key : UInt64) (tid : Tid) (shape : BinaryTree Entry) :
    BinaryTree Entry :=
  paintRoot .black (climb (descend key shape []) (.node ⟨id, key, tid, .red⟩ .nil .nil))

theorem insertNode_spec {key : UInt64} {tid : Tid} (rep : Linked tree shape)
    (fresh : id ∉ slots shape)
    (found : tree.cell id = some ⟨key, tid, .invalid, .invalid, .invalid, .red, true⟩) :
    ∃ changed, tree.insertNode id = .ok changed ∧ changed.freeHead = tree.freeHead ∧
      (slots (inserted id key tid shape)).Perm (id :: slots shape) ∧
      (∀ other, other ∉ slots shape → other ≠ id → changed.cell other = tree.cell other) ∧
      if rotates (descend key shape []) then
        (∃ stale, Represents (exactParentExcept stale) changed (inserted id key tid shape)) ∧
          Misparented changed (inserted id key tid shape)
      else Linked changed (inserted id key tid shape) := by
  cases shape with
  | nil =>
    have empty : tree.root = .invalid := rep.root
    have foundRoot : { tree with root := id }.cell id =
        some ⟨key, tid, .invalid, .invalid, .invalid, .red, true⟩ := found
    have foundLast : ({ tree with root := id }.adjust id fun n => { n with color := .black }).cell
        id = some ⟨key, tid, .invalid, .invalid, .invalid, .black, true⟩ := by
      rw [cell_adjust_self, foundRoot, Option.map_some]
    refine ⟨{ tree with root := id }.adjust id fun n => { n with color := .black }, ?_, rfl,
      List.Perm.refl _, fun other _ away => ?_, rfl, ⟨?_, trivial, trivial⟩, ?_⟩
    · rw [insertNode, empty]
      exact setColor_of_cell foundRoot _
    · rw [cell_adjust_of_ne _ away, cell_with_root]
    · exact ⟨_, foundLast, rfl, rfl, rfl, rfl, rfl, rfl, rfl⟩
    · simp [inserted, descend, climb, paintRoot]
  | node entry left right =>
    have rootValid : tree.root.isValid = true := by
      rw [rep.root]
      exact rep.isValid (rootSlot_mem (by simp))
    have rootEntry : tree.root = entry.id := rep.root
    have whole : Linked tree (plug [] (.node entry left right)) := rep
    obtain ⟨step, above, steps, run⟩ := attach_eq key id whole whole.height_le
    have joined := plug_descend key (.node entry left right) []
    rw [steps, plug_nil] at joined
    unfold inserted
    rw [steps]
    rw [← joined] at rep fresh ⊢
    obtain ⟨stepHeld, foundStep, -⟩ := rep.cell_step
    have member : step.value.id ∈ slots (plug (step :: above) .nil) :=
      mem_slots_plug.mpr (Or.inl ((slotsBeside_cons_perm _ _).mem_iff.mpr (by simp)))
    have apart : step.value.id ≠ id := fun same => fresh (same ▸ member)
    -- The slot is hung below the step, and then told its parent.
    let hung := tree.adjust step.value.id (hang id step)
    let attached := hung.adjust id fun n => { n with parent := step.value.id }
    have foundHung : hung.cell id =
        some ⟨key, tid, .invalid, .invalid, .invalid, .red, true⟩ := by
      rw [cell_adjust_of_ne _ apart.symm, found]
    have linked : Linked attached
        (plug (step :: above) (.node ⟨id, key, tid, .red⟩ .nil .nil)) := by
      refine rep.attachLeaf fresh ?_ rfl ?_ ?_ rfl
      · rw [cell_adjust_self, foundHung, Option.map_some]
      · rw [cell_adjust_of_ne _ apart, cell_adjust_self]
      · intro other away awayStep
        rw [cell_adjust_of_ne _ away, cell_adjust_of_ne _ awayStep]
    obtain ⟨changed, repair, repaired⟩ := fixInsert_spec linked
    obtain ⟨_, rebuilt⟩ := repaired.rebuilt
    have grown : (slots (plug (step :: above) (.node ⟨id, key, tid, .red⟩ .nil .nil))).Perm
        (id :: slots (plug (step :: above) .nil)) := by
      refine (slots_plug_perm _ _).trans (List.Perm.trans ?_
        (List.Perm.cons id (slots_plug_perm _ _).symm))
      simp
    refine ⟨changed, ?_, rebuilt.freeHead, rebuilt.sameSlots.trans grown, ?_, ?_⟩
    · rw [insertNode, rootValid, node_of_cell found]
      simp only [Bool.not_true, Bool.false_eq_true, if_false, ok_bind, rootEntry, run]
      rw [modify_of_cell foundHung, ok_bind]
      exact repair
    · intro other away awayId
      have awayAll : other ∉ slots (plug (step :: above) (.node ⟨id, key, tid, .red⟩ .nil .nil)) := by
        rw [grown.mem_iff, mem_cons, not_or]
        exact ⟨awayId, away⟩
      have awayStep : other ≠ step.value.id := fun same => away (same ▸ member)
      rw [rebuilt.outside other awayAll, cell_adjust_of_ne _ awayId, cell_adjust_of_ne _ awayStep]
    · revert repaired
      cases rotates (step :: above) with
      | false => exact fun repaired => Rebuilt.represents repaired
      | true =>
        rintro ⟨stale, rebuilt, wrong⟩
        exact ⟨⟨stale, rebuilt.represents⟩, wrong⟩

/-- An insertion is refused when no slot is free. -/
theorem Pooled.insert_full (pool : Pooled rule tree shape []) (key : UInt64) (tid : Tid) :
    tree.insert key tid = .ok (none, tree) := by
  have empty := RbNodeId.toOption_eq_none.mp (chain_nil.mp pool.chain)
  rw [insert, allocNode, if_pos (by simpa using empty)]
  rfl

/--
An insertion takes the first free slot and links it in at the position of its key.

All links agree afterwards unless the repair rotated, and then some parent link is wrong.
-/
theorem Pooled.insert {rest : List RbNodeId} (pool : Pooled exactParent tree shape (id :: rest))
    (key : UInt64) (tid : Tid) :
    ∃ changed, tree.insert key tid = .ok (some id, changed) ∧
      if rotates (descend key shape []) then
        (∃ stale, Pooled (exactParentExcept stale) changed (inserted id key tid shape) rest) ∧
          Misparented changed (inserted id key tid shape)
      else Pooled exactParent changed (inserted id key tid shape) rest := by
  obtain ⟨head, held, found, -⟩ := chain_cons.mp pool.chain
  have valid := isValid_of_cell found
  have headId := (RbNodeId.toOption_eq_some.mp head).2
  obtain ⟨-, freeNodup, apart⟩ := nodup_append.mp pool.nodup
  have fresh : id ∉ slots shape := fun member => apart id member id (by simp) rfl
  -- The slot is emptied, taken off the list and filled before it is linked.
  let taken : RedBlackTree :=
    { tree.adjust id (fun _ => { RbNode.empty with inUse := true }) with freeHead := held.left }
  let filled := taken.adjust id fun n =>
    { n with key := key, tid := tid, color := .red, parent := .invalid, left := .invalid,
             right := .invalid }
  have foundTaken : taken.cell id = some { RbNode.empty with inUse := true } := by
    rw [cell_with_freeHead, cell_adjust_self, found, Option.map_some]
  have foundFilled : filled.cell id =
      some ⟨key, tid, .invalid, .invalid, .invalid, .red, true⟩ := by
    rw [cell_adjust_self, foundTaken, Option.map_some]
  have keepFilled : ∀ other, other ≠ id → filled.cell other = tree.cell other := by
    intro other away
    rw [cell_adjust_of_ne _ away, cell_with_freeHead, cell_adjust_of_ne _ away]
  have linked : Linked filled shape := pool.represents.congr rfl fun other member =>
    keepFilled other fun same => fresh (same ▸ member)
  obtain ⟨changed, run, freeHead, grown, outside, result⟩ :=
    insertNode_spec linked fresh foundFilled
  have keep : ∀ other ∈ rest, changed.cell other = tree.cell other := by
    intro other member
    have awayId : other ≠ id := fun same => (nodup_cons.mp freeNodup).1 (same ▸ member)
    rw [outside other (fun inside => apart other inside other (by simp [member]) rfl) awayId,
      keepFilled other awayId]
  refine ⟨changed, ?_, ?_⟩
  · have alloc : tree.allocNode = .ok (some (id, taken)) := by
      rw [allocNode, headId, valid, if_neg (by simp)]
      simp only [node_of_cell found, modify_of_cell found, ok_bind, pure_eq]
      rfl
    rw [RedBlackTree.insert, alloc, ok_bind]
    simp only [modify_of_cell foundTaken, ok_bind]
    change (filled.insertNode id >>= _) = _
    rw [run]
    rfl
  · revert result
    cases rotates (descend key shape []) with
    | false => exact fun result => pool.extend found result grown freeHead keep
    | true =>
      rintro ⟨⟨stale, represents⟩, wrong⟩
      exact ⟨⟨stale, pool.extend found represents grown freeHead keep⟩, wrong⟩

/-- The slot below which a key would be hung. -/
def attachPoint : Nat → RedBlackTree → UInt64 → RbNodeId → RbNodeId
  | 0, _, _, current => current
  | rounds + 1, tree, key, current =>
    match tree.cell current with
    | none => current
    | some held =>
      let next := if key < held.key then held.left else held.right
      if next.isValid then attachPoint rounds tree key next else current

/-- Whether a slot is red, where an absent slot is not. -/
def redSlot (tree : RedBlackTree) (id : RbNodeId) : Bool :=
  (tree.cell id).any fun held => held.color = .red

/-- Whether the repair of a red node below the given slot ends in a rotation. -/
def climbRotates : Nat → RedBlackTree → RbNodeId → Bool
  | 0, _, _ => false
  | rounds + 1, tree, parent =>
    match tree.cell parent with
    | none => false
    | some held =>
      tree.redSlot parent &&
        match tree.cell held.parent with
        | none => false
        | some grand =>
          let uncle := if grand.left = parent then grand.right else grand.left
          if tree.redSlot uncle then climbRotates rounds tree grand.parent else true

/-- Whether inserting a key makes the repair rotate, read off the state before the insertion. -/
def insertRotates (tree : RedBlackTree) (key : UInt64) : Bool :=
  climbRotates loopBudget tree (attachPoint loopBudget tree key tree.root)

theorem Represents.redSlot_eq (rep : Represents rule tree (plug path shape)) :
    tree.redSlot (rootSlot shape) = rootRed isRed shape := by
  cases shape with
  | nil => simp [redSlot, slotLayout]
  | node entry left right =>
    obtain ⟨held, found, -, -, color, -⟩ := rep.cell_node
    change (tree.cell entry.id).any _ = isRed entry
    simp [found, color, isRed]

theorem attachPoint_of_attach {key : UInt64} {current point : RbNodeId}
    (run : attach rounds tree key id current = .ok (changed, point)) :
    attachPoint rounds tree key current = point := by
  induction rounds generalizing current with
  | zero => cases run
  | succ rounds ih =>
    obtain ⟨held, found, run⟩ := bind_eq_ok.mp run
    have cell : tree.cell current = some held := by
      rw [node_eq] at found
      cases here : tree.cell current <;> simp_all
    rw [attachPoint, cell]
    dsimp only
    by_cases less : key < held.key <;>
    · simp only [less, if_true, if_false] at run ⊢
      split at run
      · rename_i absent
        obtain ⟨hung, -, run⟩ := bind_eq_ok.mp run
        cases run
        rw [if_neg (by simpa using absent)]
      · rename_i present
        rw [if_pos (by simpa using present), ih run]

theorem Represents.climbRotates_eq (rep : Linked tree (plug path shape))
    (enough : path.length ≤ rounds) :
    climbRotates (rounds + 1) tree (slotAbove path) = rotates path := by
  induction path using List.twoStepInduction generalizing shape rounds with
  | nil => simp [climbRotates, rotates, slotLayout]
  | singleton parent =>
    obtain ⟨held, found, -, up, -⟩ := rep.cell_step
    change held.parent = RbNodeId.invalid at up
    change climbRotates _ tree parent.value.id = _
    simp [climbRotates, found, up, rotates]
  | cons_cons parent grand path ih _ =>
    simp only [length_cons] at enough
    obtain ⟨fewer, rfl⟩ : ∃ fewer, rounds = fewer + 1 := ⟨rounds - 1, by omega⟩
    have outer : Linked tree (plug (grand :: path) (parent.attach shape)) := rep
    have far : Linked tree (plug path (grand.attach (parent.attach shape))) := rep
    obtain ⟨held, grandHeld, found, foundGrand, up, color, grandUp, links⟩ := rep.cell_grand
    change climbRotates _ tree parent.value.id = _
    have parentRed : tree.redSlot parent.value.id = isRed parent.value := by
      simp [redSlot, found, color, isRed]
    have uncle : (if grandHeld.left = parent.value.id then grandHeld.right else grandHeld.left) =
        rootSlot grand.sibling := by
      cases grand with
      | left value uncle => rw [if_pos links.1, links.2, Step.sibling]
      | right value uncle => rw [links.1, if_neg links.2.1, Step.sibling]
    obtain ⟨_, inside⟩ := outer.beside
    have uncleRed := inside.redSlot_eq
    rw [climbRotates, found, rotates]
    simp only [parentRed, up, foundGrand, uncle, uncleRed, grandUp]
    rw [ih far (by omega)]

/-- Whether an insertion rotates can be read off the state before it. -/
theorem Represents.insertRotates_eq (rep : Linked tree shape) (key : UInt64) :
    tree.insertRotates key = rotates (descend key shape []) := by
  have joined := plug_descend key shape []
  have point : attachPoint loopBudget tree key tree.root = slotAbove (descend key shape []) := by
    cases shape with
    | nil =>
      have empty : tree.root = .invalid := rep.root
      simp [attachPoint, empty, loopBudget, slotLayout, descend]
    | node entry left right =>
      have whole : Linked tree (plug [] (.node entry left right)) := rep
      obtain ⟨step, above, steps, run⟩ := attach_eq key entry.id whole whole.height_le
      rw [show tree.root = entry.id from rep.root, attachPoint_of_attach run, steps]
      rfl
  rw [insertRotates, point]
  rw [plug_nil] at joined
  rw [← joined] at rep
  exact rep.climbRotates_eq (Nat.le_of_lt_succ (Nat.lt_of_add_right_lt rep.path_lt))

end RedBlackTree

end TheoryKernel.Sched
