import TheoryKernel.Sched.RbTreeLinks

/-! Exchanging left and right: every right-handed operation is the mirror image of a left-handed one. -/

namespace BinaryTree

variable {α : Type*}

/-- The tree with left and right exchanged everywhere. -/
def mirror : BinaryTree α → BinaryTree α
  | .nil => .nil
  | .node value left right => .node value right.mirror left.mirror

@[simp] theorem mirror_nil : (nil : BinaryTree α).mirror = nil := rfl

@[simp] theorem mirror_node (value : α) (left right : BinaryTree α) :
    (node value left right).mirror = node value right.mirror left.mirror := rfl

@[simp] theorem mirror_mirror (tree : BinaryTree α) : tree.mirror.mirror = tree := by
  induction tree with
  | nil => rfl
  | node value left right ihLeft ihRight => simp [ihLeft, ihRight]

/-- A mirrored tree is read from right to left. -/
theorem inorder_mirror (tree : BinaryTree α) : tree.mirror.inorder = tree.inorder.reverse := by
  induction tree with
  | nil => rfl
  | node value left right ihLeft ihRight => simp [ihLeft, ihRight]

end BinaryTree

namespace TheoryKernel.Sched

open LinkedTree BinaryTree

/-- A path with left and right exchanged. -/
def mirrorPath (path : Path Entry) : Path Entry :=
  path.map fun
    | .left entry sibling => .right entry sibling.mirror
    | .right entry sibling => .left entry sibling.mirror

/-- Mirroring a plugged tree mirrors the path and the subtree. -/
theorem mirror_plug (path : Path Entry) (shape : BinaryTree Entry) :
    (plug path shape).mirror = plug (mirrorPath path) shape.mirror := by
  induction path generalizing shape with
  | nil => rfl
  | cons step path ih =>
    cases step with
    | left entry sibling | right entry sibling => simp [ih, mirrorPath]

@[simp] theorem mirrorPath_mirrorPath (path : Path Entry) : mirrorPath (mirrorPath path) = path := by
  induction path with
  | nil => rfl
  | cons step path ih =>
    rw [mirrorPath, mirrorPath, List.map_cons, List.map_cons]
    refine congrArg₂ _ ?_ ih
    cases step <;> simp

@[simp] theorem rootSlot_mirror (shape : BinaryTree Entry) :
    rootSlot shape.mirror = rootSlot shape := by
  cases shape <;> rfl

/-- A slot with its child links exchanged. -/
def RbNode.mirror (n : RbNode) : RbNode := { n with left := n.right, right := n.left }

@[simp] theorem RbNode.mirror_mirror (n : RbNode) : n.mirror.mirror = n := rfl

namespace RedBlackTree

variable {tree : RedBlackTree} {id : RbNodeId}

/-- A state with left and right exchanged in every slot. -/
def mirror (tree : RedBlackTree) : RedBlackTree :=
  { tree with nodes := fun i => (tree.nodes i).mirror }

@[simp] theorem root_mirror : tree.mirror.root = tree.root := rfl

@[simp] theorem freeHead_mirror : tree.mirror.freeHead = tree.freeHead := rfl

@[simp] theorem mirror_mirror : tree.mirror.mirror = tree := rfl

@[simp] theorem cell_mirror : tree.mirror.cell id = (tree.cell id).map RbNode.mirror := by
  unfold cell
  split <;> rfl

theorem node_mirror : tree.mirror.node id = RbNode.mirror <$> tree.node id := by
  unfold node
  split <;> rfl

theorem modify_mirror (change : RbNode → RbNode) :
    tree.mirror.modify id change =
      mirror <$> tree.modify id fun n => (change n.mirror).mirror := by
  rw [modify_eq, modify_eq, cell_mirror]
  cases tree.cell id with
  | none => rfl
  | some held =>
    simp only [Option.map_some, Option.elim_some, Functor.map, Except.map, adjust, mirror]
    congr 2
    funext i
    split <;> simp

theorem modifyIfValid_mirror (change : RbNode → RbNode) :
    tree.mirror.modifyIfValid id change =
      mirror <$> tree.modifyIfValid id fun n => (change n.mirror).mirror := by
  unfold modifyIfValid
  split
  · exact modify_mirror change
  · rfl

theorem replaceChild_mirror (parent old new : RbNodeId) :
    tree.mirror.replaceChild parent old new =
      mirror <$> tree.replaceChildRight parent old new := by
  unfold replaceChild replaceChildRight
  split
  · rfl
  · simp only [node_mirror, modify_mirror, bind_map_left, map_bind, apply_ite]
    rfl

/-- A right rotation is a left rotation seen in the mirror. -/
theorem rotateRight_eq_mirror (y : RbNodeId) :
    tree.rotateRight y = mirror <$> tree.mirror.rotateLeft y := by
  simp only [rotateRight, rotateLeft, node_mirror, modify_mirror, modifyIfValid_mirror,
    replaceChild_mirror, bind_map_left, map_bind, Functor.map_map, mirror_mirror, id_map']
  rfl

theorem setColor_mirror (color : Color) :
    tree.mirror.setColor id color = mirror <$> tree.setColor id color :=
  modify_mirror _

theorem setColorIfValid_mirror (color : Color) :
    tree.mirror.setColorIfValid id color = mirror <$> tree.setColorIfValid id color :=
  modifyIfValid_mirror _

theorem nodeColor_mirror : tree.mirror.nodeColor id = tree.nodeColor id := by
  unfold nodeColor
  split
  · rw [node_mirror, Functor.map_map]
    rfl
  · rfl

theorem isRedIfValid_mirror : tree.mirror.isRedIfValid id = tree.isRedIfValid id := by
  unfold isRedIfValid
  split
  · rw [node_mirror, Functor.map_map]
    rfl
  · rfl

variable {rule : ParentRule} {shape : BinaryTree Entry}

theorem stored_mirror {parent : RbNodeId}
    (stored : (slotLayout rule).Stored tree.cell parent shape) :
    (slotLayout rule).Stored tree.mirror.cell parent shape.mirror := by
  induction shape generalizing parent with
  | nil => trivial
  | node entry left right ihLeft ihRight =>
    obtain ⟨⟨held, found, key, tid, color, used, leftLink, rightLink, up⟩, storedLeft,
      storedRight⟩ := stored
    refine ⟨⟨held.mirror, by rw [cell_mirror, found]; rfl, key, tid, color, used, ?_, ?_, up⟩,
      ihRight storedRight, ihLeft storedLeft⟩
    · exact rightLink.trans (rootSlot_mirror right).symm
    · exact leftLink.trans (rootSlot_mirror left).symm

/-- A mirrored state represents the mirrored tree. -/
theorem Represents.mirror (rep : Represents rule tree shape) :
    Represents rule tree.mirror shape.mirror where
  root := by rw [root_mirror, rep.root, rootSlot_mirror]
  stored := stored_mirror rep.stored
  nodup := by
    rw [slots, inorder_mirror, List.map_reverse, List.nodup_reverse]
    exact rep.nodup

end RedBlackTree

end TheoryKernel.Sched
