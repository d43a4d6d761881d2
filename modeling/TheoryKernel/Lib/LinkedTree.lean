import Mathlib.Data.Tree.Basic
import Mathlib.Data.List.Nodup

/-! Binary trees held as cells that name their parent and children, and paths down to a subtree. -/

namespace BinaryTree

variable {α : Type*}

/-- The values of a tree from left to right. -/
def inorder : BinaryTree α → List α
  | .nil => []
  | .node value left right => left.inorder ++ value :: right.inorder

@[simp] theorem inorder_nil : (nil : BinaryTree α).inorder = [] := rfl

@[simp] theorem inorder_node (value : α) (left right : BinaryTree α) :
    (node value left right).inorder = left.inorder ++ value :: right.inorder := rfl

end BinaryTree

namespace LinkedTree

open BinaryTree (inorder)

variable {α ι ν : Type*}

/-- One step of a path: the value passed and the subtree left aside on its other side. -/
inductive Step (α : Type*) where
  /-- The path went into the left child. -/
  | left (value : α) (sibling : BinaryTree α)
  /-- The path went into the right child. -/
  | right (value : α) (sibling : BinaryTree α)

namespace Step

/-- The value a step passed. -/
def value : Step α → α
  | .left value _ => value
  | .right value _ => value

/-- The subtree a step left aside. -/
def sibling : Step α → BinaryTree α
  | .left _ sibling => sibling
  | .right _ sibling => sibling

/-- Putting a subtree back below the value a step passed. -/
def attach : Step α → BinaryTree α → BinaryTree α
  | .left value sibling, tree => .node value tree sibling
  | .right value sibling, tree => .node value sibling tree

@[simp] theorem value_left (value : α) (sibling : BinaryTree α) :
    (Step.left value sibling).value = value := rfl

@[simp] theorem value_right (value : α) (sibling : BinaryTree α) :
    (Step.right value sibling).value = value := rfl

@[simp] theorem attach_left (value : α) (sibling tree : BinaryTree α) :
    (Step.left value sibling).attach tree = .node value tree sibling := rfl

@[simp] theorem attach_right (value : α) (sibling tree : BinaryTree α) :
    (Step.right value sibling).attach tree = .node value sibling tree := rfl

end Step

/-- The steps from a subtree up to the root, nearest step first. -/
abbrev Path (α : Type*) := List (Step α)

/-- Putting a subtree back at the end of its path. -/
def plug : Path α → BinaryTree α → BinaryTree α
  | [], tree => tree
  | step :: path, tree => plug path (step.attach tree)

@[simp] theorem plug_nil (tree : BinaryTree α) : plug [] tree = tree := rfl

@[simp] theorem plug_cons (step : Step α) (path : Path α) (tree : BinaryTree α) :
    plug (step :: path) tree = plug path (step.attach tree) := rfl

/-- A path below another path. -/
theorem plug_append (inner outer : Path α) (tree : BinaryTree α) :
    plug (inner ++ outer) tree = plug outer (plug inner tree) := by
  induction inner generalizing tree with
  | nil => rfl
  | cons step inner ih => exact ih (step.attach tree)

/-- The values to the left of the subtree at the end of a path. -/
def before : Path α → List α
  | [] => []
  | .left _ _ :: path => before path
  | .right value sibling :: path => before path ++ (sibling.inorder ++ [value])

/-- The values to the right of the subtree at the end of a path. -/
def after : Path α → List α
  | [] => []
  | .left value sibling :: path => value :: sibling.inorder ++ after path
  | .right _ _ :: path => after path

/-- What lies to the left of a path below another path. -/
theorem before_append (inner outer : Path α) :
    before (inner ++ outer) = before outer ++ before inner := by
  induction inner with
  | nil => simp [before]
  | cons step inner ih => cases step <;> simp [before, ih]

/-- A subtree is read between what lies before and after its path. -/
theorem inorder_plug (path : Path α) (tree : BinaryTree α) :
    (plug path tree).inorder = before path ++ (tree.inorder ++ after path) := by
  -- Each step puts its value and its sibling on one side of the subtree.
  induction path generalizing tree with
  | nil => simp [before, after]
  | cons step path ih =>
    cases step with
    | left value sibling | right value sibling => simp [ih, before, after]

/-- A tree with a node at the end of a path is not empty. -/
theorem plug_node_ne_nil (path : Path α) (value : α) (left right : BinaryTree α) :
    plug path (.node value left right) ≠ .nil := by
  intro empty
  have reads := congrArg BinaryTree.inorder empty
  simp [inorder_plug] at reads

/-- Every value of a tree stands at the end of some path. -/
theorem exists_path_of_mem {value : α} {tree : BinaryTree α} (member : value ∈ tree.inorder) :
    ∃ path left right, tree = plug path (.node value left right) := by
  -- The path is generalised, because the search continues inside a subtree of the whole.
  suffices general : ∀ outer : Path α, ∃ path left right,
      plug outer tree = plug path (.node value left right) from general []
  intro outer
  induction tree generalizing outer with
  | nil => simp at member
  | node root left right ihLeft ihRight =>
    simp only [BinaryTree.inorder_node, List.mem_append, List.mem_cons] at member
    rcases member with inLeft | same | inRight
    · exact ihLeft inLeft (.left root right :: outer)
    · exact ⟨outer, left, right, by rw [same]⟩
    · exact ihRight inRight (.right root left :: outer)

/-- What identifies a value, and what its cell has to hold about its neighbours. -/
structure Layout (α ι ν : Type*) where
  /-- The name of the cell holding a value. -/
  ident : α → ι
  /-- The name standing for no cell. -/
  absent : ι
  /-- What a cell holds for a value, given its parent, left child and right child. -/
  fits : α → ι → ι → ι → ν → Prop

namespace Layout

variable (layout : Layout α ι ν) (cell : ι → Option ν)

/-- The name of the cell at the root of a tree. -/
def rootId : BinaryTree α → ι
  | .nil => layout.absent
  | .node value _ _ => layout.ident value

/-- The name of the cell just above the end of a path. -/
def above : Path α → ι
  | [] => layout.absent
  | step :: _ => layout.ident step.value

/-- The cells of a subtree hold its values and its links, below the given parent. -/
def Stored : ι → BinaryTree α → Prop
  | _, .nil => True
  | parent, .node value left right =>
    (∃ held, cell (layout.ident value) = some held ∧
      layout.fits value parent (layout.rootId left) (layout.rootId right) held) ∧
    Stored (layout.ident value) left ∧ Stored (layout.ident value) right

/-- The cells along a path hold its values and its links, around a subtree with the given root. -/
def StoredPath : Path α → ι → Prop
  | [], _ => True
  | .left value sibling :: path, hole =>
    (∃ held, cell (layout.ident value) = some held ∧
      layout.fits value (layout.above path) hole (layout.rootId sibling) held) ∧
    layout.Stored cell (layout.ident value) sibling ∧ StoredPath path (layout.ident value)
  | .right value sibling :: path, hole =>
    (∃ held, cell (layout.ident value) = some held ∧
      layout.fits value (layout.above path) (layout.rootId sibling) hole held) ∧
    layout.Stored cell (layout.ident value) sibling ∧ StoredPath path (layout.ident value)

@[simp] theorem rootId_nil : layout.rootId .nil = layout.absent := rfl

@[simp] theorem rootId_node (value : α) (left right : BinaryTree α) :
    layout.rootId (.node value left right) = layout.ident value := rfl

@[simp] theorem above_nil : layout.above [] = layout.absent := rfl

@[simp] theorem above_cons (step : Step α) (path : Path α) :
    layout.above (step :: path) = layout.ident step.value := rfl

@[simp] theorem stored_nil (parent : ι) : layout.Stored cell parent .nil := trivial

variable {layout cell}

/-- The root of a tree with a non-empty path above it is the last value passed. -/
theorem rootId_plug_cons (step : Step α) (path : Path α) (tree other : BinaryTree α) :
    layout.rootId (plug (step :: path) tree) = layout.rootId (plug (step :: path) other) := by
  -- Only the far end of the path is visible at the root.
  induction path generalizing step tree other with
  | nil => cases step <;> rfl
  | cons next path ih => exact ih next (step.attach tree) (step.attach other)

variable {tree : BinaryTree α} {path : Path α} {parent : ι}

/-- A stored tree is a stored path around a stored subtree. -/
theorem stored_plug :
    layout.Stored cell layout.absent (plug path tree) ↔
      layout.StoredPath cell path (layout.rootId tree) ∧
        layout.Stored cell (layout.above path) tree := by
  -- Moving one step down the path only regroups the conditions of that step.
  induction path generalizing tree with
  | nil => simp [StoredPath]
  | cons step path ih =>
    cases step with
    | left value sibling =>
      simp only [plug_cons, Step.attach_left, ih, rootId_node, Stored, StoredPath, above_cons,
        Step.value_left]
      tauto
    | right value sibling =>
      simp only [plug_cons, Step.attach_right, ih, rootId_node, Stored, StoredPath, above_cons,
        Step.value_right]
      tauto

variable {cell' : ι → Option ν}

/-- A subtree stays stored when none of its own cells change. -/
theorem Stored.congr (stored : layout.Stored cell parent tree)
    (same : ∀ value ∈ tree.inorder, cell' (layout.ident value) = cell (layout.ident value)) :
    layout.Stored cell' parent tree := by
  induction tree generalizing parent with
  | nil => trivial
  | node value left right ihLeft ihRight =>
    obtain ⟨⟨held, found, fit⟩, storedLeft, storedRight⟩ := stored
    refine ⟨⟨held, by rw [same value (by simp), found], fit⟩, ?_, ?_⟩
    · exact ihLeft storedLeft fun inner member => same inner (by simp [member])
    · exact ihRight storedRight fun inner member => same inner (by simp [member])

/-- A path stays stored when none of the cells beside the subtree change. -/
theorem StoredPath.congr {hole : ι} (stored : layout.StoredPath cell path hole)
    (same : ∀ value ∈ before path ++ after path,
      cell' (layout.ident value) = cell (layout.ident value)) :
    layout.StoredPath cell' path hole := by
  induction path generalizing hole with
  | nil => trivial
  | cons step path ih =>
    cases step with
    | left value sibling | right value sibling =>
      obtain ⟨⟨held, found, fit⟩, storedSibling, storedPath⟩ := stored
      simp only [before, after, List.mem_append, List.mem_cons] at same
      refine ⟨⟨held, by rw [same value (by simp), found], fit⟩, ?_, ?_⟩
      · exact storedSibling.congr fun inner member => same inner (by simp [member])
      · exact ih storedPath fun inner member => same inner (by
          rcases List.mem_append.mp member with member | member <;> simp [member])

/-- Every value of a stored tree has a cell. -/
theorem Stored.exists_cell (stored : layout.Stored cell parent tree) {value : α}
    (member : value ∈ tree.inorder) :
    ∃ held, cell (layout.ident value) = some held ∧
      ∃ up left right, layout.fits value up left right held := by
  induction tree generalizing parent with
  | nil => simp at member
  | node root left right ihLeft ihRight =>
    obtain ⟨⟨held, found, fit⟩, storedLeft, storedRight⟩ := stored
    simp only [BinaryTree.inorder_node, List.mem_append, List.mem_cons] at member
    rcases member with inLeft | rfl | inRight
    · exact ihLeft storedLeft inLeft
    · exact ⟨held, found, _, _, _, fit⟩
    · exact ihRight storedRight inRight

/--
The cells below a root determine the tree, even under two readings of what a cell must hold.

Both readings must recover the value and the children of a cell, so they can differ about the parent.
-/
theorem Stored.unique {other : α → ι → ι → ι → ν → Prop}
    (determined : ∀ {a b : α} {p q l r l' r' : ι} {held : ν}, layout.ident a = layout.ident b →
      layout.fits a p l r held → other b q l' r' held → a = b ∧ l = l' ∧ r = r')
    (noCell : cell layout.absent = none) {p q : ι} {first second : BinaryTree α}
    (storedFirst : layout.Stored cell p first)
    (storedSecond : { layout with fits := other }.Stored cell q second)
    (sameRoot : layout.rootId first = layout.rootId second) : first = second := by
  -- Equal roots name one cell, whose children are again equal roots.
  induction first generalizing p q second with
  | nil =>
    cases second with
    | nil => rfl
    | node value left right =>
      obtain ⟨⟨held, found, -⟩, -, -⟩ := storedSecond
      rw [rootId_nil, rootId_node] at sameRoot
      simp only at found
      rw [← sameRoot, noCell] at found
      cases found
  | node value left right ihLeft ihRight =>
    obtain ⟨⟨held, found, fit⟩, storedLeft, storedRight⟩ := storedFirst
    cases second with
    | nil =>
      rw [rootId_nil, rootId_node] at sameRoot
      rw [sameRoot, noCell] at found
      cases found
    | node value' left' right' =>
      obtain ⟨⟨held', found', fit'⟩, storedLeft', storedRight'⟩ := storedSecond
      rw [rootId_node, rootId_node] at sameRoot
      simp only at found'
      rw [← sameRoot, found, Option.some.injEq] at found'
      subst found'
      obtain ⟨rfl, leftEq, rightEq⟩ := determined sameRoot fit fit'
      rw [ihLeft storedLeft storedLeft' leftEq, ihRight storedRight storedRight' rightEq]

end Layout

end LinkedTree
