import TheoryKernel.Base.Exec
import Mathlib.Logic.Function.Basic

/-! The index-linked red-black tree behind the run queue. -/

namespace TheoryKernel.Sched

/-- Number of node slots in the tree. -/
def maxRbNodes : Nat := 1024

/-- A node slot number, with the largest 16-bit value standing for no node. -/
structure RbNodeId where
  /-- The raw slot number. -/
  val : UInt16
  deriving DecidableEq, Repr

namespace RbNodeId

/-- The slot number that names no node. -/
def invalid : RbNodeId := ⟨65535⟩

/-- The identifier of a slot. -/
def new (id : UInt16) : RbNodeId := ⟨id⟩

/-- The array position of a slot. -/
def asUsize (id : RbNodeId) : Nat := id.val.toNat

/-- Whether the identifier names a slot at all. -/
def isValid (id : RbNodeId) : Bool := id.val != 65535

end RbNodeId

/-- A thread identifier. -/
structure Tid where
  /-- The raw thread number. -/
  val : UInt32
  deriving DecidableEq, Repr

/-- The thread number that names no thread. -/
def Tid.invalid : Tid := ⟨4294967295⟩

/-- Node colours. -/
inductive Color where
  | red
  | black
  deriving DecidableEq, Repr

/-- One slot of the node array. -/
structure RbNode where
  key : UInt64
  tid : Tid
  parent : RbNodeId
  left : RbNodeId
  right : RbNodeId
  color : Color
  inUse : Bool
  deriving DecidableEq, Repr

/-- The contents of a slot that holds nothing. -/
def RbNode.empty : RbNode where
  key := 0
  tid := Tid.invalid
  parent := RbNodeId.invalid
  left := RbNodeId.invalid
  right := RbNodeId.invalid
  color := .black
  inUse := false

/-- The node array, the root of the tree and the head of the free list. -/
structure RedBlackTree where
  nodes : Fin maxRbNodes → RbNode
  root : RbNodeId
  freeHead : RbNodeId

namespace RedBlackTree

/-- The tree as it stands before it is initialised. -/
def new : RedBlackTree where
  nodes := fun _ => RbNode.empty
  root := RbNodeId.invalid
  freeHead := RbNodeId.invalid

/-- Reading a slot faults when its position lies outside the array. -/
def node (tree : RedBlackTree) (id : RbNodeId) : Exec RbNode :=
  if inside : id.asUsize < maxRbNodes then .ok (tree.nodes ⟨id.asUsize, inside⟩)
  else .error .indexOutOfBounds

/-- Changing one slot in place faults when its position lies outside the array. -/
def modify (tree : RedBlackTree) (id : RbNodeId) (change : RbNode → RbNode) :
    Exec RedBlackTree :=
  if inside : id.asUsize < maxRbNodes then
    .ok { tree with
      nodes := Function.update tree.nodes ⟨id.asUsize, inside⟩
        (change (tree.nodes ⟨id.asUsize, inside⟩)) }
  else .error .indexOutOfBounds

/-- Changing the slot of a link that may be absent. -/
def modifyIfValid (tree : RedBlackTree) (id : RbNodeId) (change : RbNode → RbNode) :
    Exec RedBlackTree :=
  if id.isValid then tree.modify id change else .ok tree

/-- Initialisation puts every slot on the free list, in slot order. -/
def init (tree : RedBlackTree) : RedBlackTree where
  nodes := fun i =>
    { tree.nodes i with
      inUse := false
      left := if i.val + 1 < maxRbNodes then RbNodeId.new (UInt16.ofNat (i.val + 1))
        else RbNodeId.invalid }
  root := RbNodeId.invalid
  freeHead := RbNodeId.new 0

/-- Taking a slot from the head of the free list. -/
def allocNode (tree : RedBlackTree) : Exec (Option (RbNodeId × RedBlackTree)) :=
  if !tree.freeHead.isValid then .ok none
  else do
    let id := tree.freeHead
    let next := (← tree.node id).left
    let tree ← tree.modify id fun _ => { RbNode.empty with inUse := true }
    return some (id, { tree with freeHead := next })

/-- Giving a slot back to the head of the free list. -/
def freeNode (tree : RedBlackTree) (id : RbNodeId) : Exec RedBlackTree := do
  let tree ← tree.modify id fun n => { n with inUse := false, left := tree.freeHead }
  return { tree with freeHead := id }

/--
Redirecting the link to a node from above: the root when it has no parent, else the parent's link.

The left link is tried first and the right link is assumed otherwise.
-/
def replaceChild (tree : RedBlackTree) (parent old new : RbNodeId) : Exec RedBlackTree :=
  if !parent.isValid then .ok { tree with root := new }
  else do
    if (← tree.node parent).left = old then
      tree.modify parent fun n => { n with left := new }
    else tree.modify parent fun n => { n with right := new }

/-- Redirecting the link to a node from above as the right rotation does it, right link first. -/
def replaceChildRight (tree : RedBlackTree) (parent old new : RbNodeId) : Exec RedBlackTree :=
  if !parent.isValid then .ok { tree with root := new }
  else do
    if (← tree.node parent).right = old then
      tree.modify parent fun n => { n with right := new }
    else tree.modify parent fun n => { n with left := new }

/-- A left rotation about a node with a right child. -/
def rotateLeft (tree : RedBlackTree) (x : RbNodeId) : Exec RedBlackTree := do
  let y := (← tree.node x).right
  let yLeft := (← tree.node y).left
  let tree ← tree.modify x fun n => { n with right := yLeft }
  let yLeft := (← tree.node y).left
  let tree ← tree.modifyIfValid yLeft fun n => { n with parent := x }
  let parent := (← tree.node x).parent
  let tree ← tree.modify y fun n => { n with parent := parent }
  let parent := (← tree.node x).parent
  let tree ← tree.replaceChild parent x y
  let tree ← tree.modify y fun n => { n with left := x }
  tree.modify x fun n => { n with parent := y }

/-- A right rotation about a node with a left child. -/
def rotateRight (tree : RedBlackTree) (y : RbNodeId) : Exec RedBlackTree := do
  let x := (← tree.node y).left
  let xRight := (← tree.node x).right
  let tree ← tree.modify y fun n => { n with left := xRight }
  let xRight := (← tree.node x).right
  let tree ← tree.modifyIfValid xRight fun n => { n with parent := y }
  let parent := (← tree.node y).parent
  let tree ← tree.modify x fun n => { n with parent := parent }
  let parent := (← tree.node y).parent
  let tree ← tree.replaceChildRight parent y x
  let tree ← tree.modify x fun n => { n with right := y }
  tree.modify y fun n => { n with parent := x }

/-- Painting one node. -/
def setColor (tree : RedBlackTree) (id : RbNodeId) (color : Color) : Exec RedBlackTree :=
  tree.modify id fun n => { n with color := color }

/-- Whether a link that may be absent names a red node. -/
def isRedIfValid (tree : RedBlackTree) (id : RbNodeId) : Exec Bool :=
  if id.isValid then (fun n => decide (n.color = .red)) <$> tree.node id else .ok false

/-- Loops over the tree visit a node at most once, so this many rounds stand for forever. -/
def loopBudget : Nat := maxRbNodes + 1

/-- The rotations that end an insertion repair below a left child. -/
def fixInsertLeft (tree : RedBlackTree) (nodeId parentId grandparent : RbNodeId) :
    Exec RedBlackTree := do
  let (tree, nodeId) ←
    if (← tree.node parentId).right = nodeId then do
      let tree ← tree.rotateLeft parentId
      .ok (tree, parentId)
    else .ok (tree, nodeId)
  -- The source points this node at the grandparent, although it stays below another node.
  let tree ← tree.modify nodeId fun n => { n with parent := grandparent }
  let tree ← tree.rotateRight grandparent
  let top := (← tree.node grandparent).parent
  let tree ← tree.setColor top .black
  tree.setColor grandparent .red

/-- The rotations that end an insertion repair below a right child. -/
def fixInsertRight (tree : RedBlackTree) (nodeId parentId grandparent : RbNodeId) :
    Exec RedBlackTree := do
  let (tree, nodeId) ←
    if (← tree.node parentId).left = nodeId then do
      let tree ← tree.rotateRight parentId
      .ok (tree, parentId)
    else .ok (tree, nodeId)
  let tree ← tree.modify nodeId fun n => { n with parent := grandparent }
  let tree ← tree.rotateLeft grandparent
  let top := (← tree.node grandparent).parent
  let tree ← tree.setColor top .black
  tree.setColor grandparent .red

/-- The climb that repairs a red node below a red parent after an insertion. -/
def fixInsertLoop : Nat → RedBlackTree → RbNodeId → Exec RedBlackTree
  | 0, _, _ => .error .diverged
  | rounds + 1, tree, nodeId =>
    if nodeId = tree.root then .ok tree
    else do
      let parentId := (← tree.node nodeId).parent
      if !parentId.isValid then return tree
      if (← tree.node parentId).color ≠ .red then return tree
      let grandparent := (← tree.node parentId).parent
      if !grandparent.isValid then return tree
      let parentIsLeft : Bool := (← tree.node grandparent).left = parentId
      let uncleId ← if parentIsLeft then (·.right) <$> tree.node grandparent
        else (·.left) <$> tree.node grandparent
      if ← tree.isRedIfValid uncleId then
        -- A red uncle is repaired by painting alone, and the climb goes on from the grandparent.
        let tree ← tree.setColor parentId .black
        let tree ← tree.setColor uncleId .black
        let tree ← tree.setColor grandparent .red
        fixInsertLoop rounds tree grandparent
      else if parentIsLeft then tree.fixInsertLeft nodeId parentId grandparent
      else tree.fixInsertRight nodeId parentId grandparent

/-- Repairing the colours after an insertion, which always ends with a black root. -/
def fixInsert (tree : RedBlackTree) (nodeId : RbNodeId) : Exec RedBlackTree := do
  let tree ← fixInsertLoop loopBudget tree nodeId
  tree.setColor tree.root .black

/-- The descent that hangs a new node below the leaf position of its key. -/
def attach : Nat → RedBlackTree → UInt64 → RbNodeId → RbNodeId →
    Exec (RedBlackTree × RbNodeId)
  | 0, _, _, _, _ => .error .diverged
  | rounds + 1, tree, key, nodeId, current => do
    let cur ← tree.node current
    if key < cur.key then
      if !cur.left.isValid then
        return (← tree.modify current fun n => { n with left := nodeId }, current)
      else attach rounds tree key nodeId cur.left
    else
      if !cur.right.isValid then
        return (← tree.modify current fun n => { n with right := nodeId }, current)
      else attach rounds tree key nodeId cur.right

/-- Linking an allocated node into the tree. -/
def insertNode (tree : RedBlackTree) (nodeId : RbNodeId) : Exec RedBlackTree :=
  if !tree.root.isValid then
    { tree with root := nodeId }.setColor nodeId .black
  else do
    let key := (← tree.node nodeId).key
    let (tree, current) ← attach loopBudget tree key nodeId tree.root
    let tree ← tree.modify nodeId fun n => { n with parent := current }
    tree.fixInsert nodeId

/-- Adding an entry, which is refused when no slot is free. -/
def insert (tree : RedBlackTree) (key : UInt64) (tid : Tid) :
    Exec (Option RbNodeId × RedBlackTree) := do
  match ← tree.allocNode with
  | none => return (none, tree)
  | some (nodeId, tree) =>
    let tree ← tree.modify nodeId fun n =>
      { n with
        key := key
        tid := tid
        color := .red
        parent := RbNodeId.invalid
        left := RbNodeId.invalid
        right := RbNodeId.invalid }
    let tree ← tree.insertNode nodeId
    return (some nodeId, tree)

/-- The walk along left links from a node. -/
def leftmost : Nat → RedBlackTree → RbNodeId → Exec RbNodeId
  | 0, _, _ => .error .diverged
  | rounds + 1, tree, current => do
    let left := (← tree.node current).left
    if left.isValid then leftmost rounds tree left else return current

/-- The entry in the leftmost node. -/
def min (tree : RedBlackTree) : Exec (Option (RbNodeId × Tid × UInt64)) :=
  if !tree.root.isValid then .ok none
  else do
    let current ← leftmost loopBudget tree tree.root
    let n ← tree.node current
    return some (current, n.tid, n.key)

/-- The colour of a node, where an absent node counts as black. -/
def nodeColor (tree : RedBlackTree) (id : RbNodeId) : Exec Color :=
  if id.isValid then (·.color) <$> tree.node id else .ok .black

/-- Painting a node that may be absent. -/
def setColorIfValid (tree : RedBlackTree) (id : RbNodeId) (color : Color) : Exec RedBlackTree :=
  tree.modifyIfValid id fun n => { n with color := color }

/-- Putting a successor into the place of a removed node. -/
def transplant (tree : RedBlackTree) (u v : RbNodeId) : Exec RedBlackTree := do
  let uNode ← tree.node u
  let vNode ← tree.node v
  let tree ← tree.modify v fun _ =>
    -- The successor keeps its own children here, not those of the node it replaces.
    { uNode with
      left := vNode.left
      right := vNode.right
      color := vNode.color
      tid := vNode.tid
      key := vNode.key }
  let left := (← tree.node v).left
  let tree ← tree.modifyIfValid left fun n => { n with parent := v }
  let right := (← tree.node v).right
  let tree ← tree.modifyIfValid right fun n => { n with parent := v }
  let tree ← tree.replaceChild uNode.parent u v
  tree.modify v fun n => { n with parent := uNode.parent }

/-- A red sibling of a left child is rotated above the parent, which gets a new sibling. -/
def liftSiblingLeft (tree : RedBlackTree) (parent w : RbNodeId) : Exec (RedBlackTree × RbNodeId) := do
  if ← tree.isRedIfValid w then
    let tree ← tree.setColor w .black
    let tree ← tree.setColor parent .red
    let tree ← tree.rotateLeft parent
    return (tree, (← tree.node parent).right)
  else return (tree, w)

/-- A sibling of a left child whose right child is black is rotated below its red left child. -/
def turnSiblingLeft (tree : RedBlackTree) (parent w : RbNodeId) : Exec (RedBlackTree × RbNodeId) := do
  if (← tree.nodeColor (← tree.node w).right) = .black then
    let left := (← tree.node w).left
    let tree ← tree.setColorIfValid left .black
    let tree ← tree.setColor w .red
    let tree ← tree.rotateRight w
    return (tree, (← tree.node parent).right)
  else return (tree, w)

/-- One round of the deletion repair when the node is a left child, and where to go on. -/
def fixDeleteLeft (tree : RedBlackTree) (x parent : RbNodeId) :
    Exec (RedBlackTree × Option RbNodeId) := do
  let w := (← tree.node parent).right
  let (tree, w) ← tree.liftSiblingLeft parent w
  if !w.isValid then return (tree, none)
  let leftColor ← tree.nodeColor (← tree.node w).left
  let rightColor ← tree.nodeColor (← tree.node w).right
  if leftColor = .black ∧ rightColor = .black then
    let tree ← tree.setColor w .red
    return (tree, some parent)
  else
    let (tree, w) ← tree.turnSiblingLeft parent w
    if w.isValid then
      let parentColor := (← tree.node parent).color
      let tree ← tree.setColor w parentColor
      let tree ← tree.setColor parent .black
      let right := (← tree.node w).right
      let tree ← tree.setColorIfValid right .black
      let tree ← tree.rotateLeft parent
      return (tree, some tree.root)
    else return (tree, some x)

/-- A red sibling of a right child is rotated above the parent, which gets a new sibling. -/
def liftSiblingRight (tree : RedBlackTree) (parent w : RbNodeId) : Exec (RedBlackTree × RbNodeId) := do
  if ← tree.isRedIfValid w then
    let tree ← tree.setColor w .black
    let tree ← tree.setColor parent .red
    let tree ← tree.rotateRight parent
    return (tree, (← tree.node parent).left)
  else return (tree, w)

/-- A sibling of a right child whose left child is black is rotated below its red right child. -/
def turnSiblingRight (tree : RedBlackTree) (parent w : RbNodeId) : Exec (RedBlackTree × RbNodeId) := do
  if (← tree.nodeColor (← tree.node w).left) = .black then
    let right := (← tree.node w).right
    let tree ← tree.setColorIfValid right .black
    let tree ← tree.setColor w .red
    let tree ← tree.rotateLeft w
    return (tree, (← tree.node parent).left)
  else return (tree, w)

/-- One round of the deletion repair when the node is a right child, and where to go on. -/
def fixDeleteRight (tree : RedBlackTree) (x parent : RbNodeId) :
    Exec (RedBlackTree × Option RbNodeId) := do
  let w := (← tree.node parent).left
  let (tree, w) ← tree.liftSiblingRight parent w
  if !w.isValid then return (tree, none)
  let rightColor ← tree.nodeColor (← tree.node w).right
  let leftColor ← tree.nodeColor (← tree.node w).left
  if rightColor = .black ∧ leftColor = .black then
    let tree ← tree.setColor w .red
    return (tree, some parent)
  else
    let (tree, w) ← tree.turnSiblingRight parent w
    if w.isValid then
      let parentColor := (← tree.node parent).color
      let tree ← tree.setColor w parentColor
      let tree ← tree.setColor parent .black
      let left := (← tree.node w).left
      let tree ← tree.setColorIfValid left .black
      let tree ← tree.rotateRight parent
      return (tree, some tree.root)
    else return (tree, some x)

/-- The climb that restores the missing black node after a deletion. -/
def fixDeleteLoop : Nat → RedBlackTree → RbNodeId → Exec (RedBlackTree × RbNodeId)
  | 0, _, _ => .error .diverged
  | rounds + 1, tree, x => do
    if x = tree.root then return (tree, x)
    -- An absent node has no slot to climb from, so the repair stops at once.
    if !x.isValid then return (tree, x)
    if (← tree.nodeColor x) ≠ .black then return (tree, x)
    let parent := (← tree.node x).parent
    if !parent.isValid then return (tree, x)
    let (tree, next) ←
      if (← tree.node parent).left = x then tree.fixDeleteLeft x parent
      else tree.fixDeleteRight x parent
    match next with
    | none => return (tree, x)
    | some x => fixDeleteLoop rounds tree x

/-- Repairing the colours after a deletion. -/
def fixDelete (tree : RedBlackTree) (x : RbNodeId) : Exec RedBlackTree := do
  let (tree, x) ← fixDeleteLoop loopBudget tree x
  tree.setColorIfValid x .black

/-- Unlinking a node, or its successor when it has two children. -/
def deleteNode (tree : RedBlackTree) (z : RbNodeId) : Exec RedBlackTree := do
  let zNode ← tree.node z
  let y ← if !zNode.left.isValid || !zNode.right.isValid then .ok z
    else leftmost loopBudget tree zNode.right
  let yNode ← tree.node y
  let x := if !yNode.left.isValid then yNode.right else yNode.left
  let tree ← tree.modifyIfValid x fun n => { n with parent := yNode.parent }
  let tree ← tree.replaceChild yNode.parent y x
  let tree ← if y ≠ z then tree.transplant z y else .ok tree
  if yNode.color = .black then tree.fixDelete x else return tree

/-- Removing the entry of a live slot. -/
def remove (tree : RedBlackTree) (id : RbNodeId) : Exec (Option Tid × RedBlackTree) :=
  if !id.isValid then .ok (none, tree)
  else do
    let n ← tree.node id
    if !n.inUse then return (none, tree)
    let tree ← tree.deleteNode id
    let tree ← tree.freeNode id
    return (some n.tid, tree)

end RedBlackTree

end TheoryKernel.Sched
