import TheoryKernel.Sched.RbTreeLinks
import TheoryKernel.Lib.RedBlack
import Mathlib.Data.List.Induction

/-! The insertion repair as an operation on trees of entries, and the rules it restores. -/

namespace TheoryKernel.Sched

open LinkedTree BinaryTree RedBlack

/-- Whether an entry is red. -/
def isRed (entry : Entry) : Bool := decide (entry.color = .red)

@[simp] theorem isRed_paint_red (entry : Entry) : isRed (entry.paint .red) = true := rfl

@[simp] theorem isRed_paint_black (entry : Entry) : isRed (entry.paint .black) = false := rfl

/-- What the run queue stores in a tree, from left to right. -/
def items (shape : BinaryTree Entry) : List (RbNodeId × UInt64 × Tid) := shape.inorder.map Entry.item

@[simp] theorem items_nil : items .nil = [] := rfl

@[simp] theorem items_node (entry : Entry) (left right : BinaryTree Entry) :
    items (.node entry left right) = items left ++ entry.item :: items right := by
  simp [items]

/-- A subtree's items stand between those before and after its path. -/
theorem items_plug (path : Path Entry) (shape : BinaryTree Entry) :
    items (plug path shape) =
      (before path).map Entry.item ++ (items shape ++ (after path).map Entry.item) := by
  simp [items, inorder_plug]

/-- Painting the root of a tree. -/
def paintRoot (color : Color) : BinaryTree Entry → BinaryTree Entry
  | .nil => .nil
  | .node entry left right => .node (entry.paint color) left right

@[simp] theorem items_paintRoot (color : Color) (shape : BinaryTree Entry) :
    items (paintRoot color shape) = items shape := by
  cases shape <;> simp [paintRoot]

@[simp] theorem slots_paintRoot (color : Color) (shape : BinaryTree Entry) :
    slots (paintRoot color shape) = slots shape := by
  cases shape <;> simp [paintRoot]

@[simp] theorem rootRed_paintRoot_black (shape : BinaryTree Entry) :
    rootRed isRed (paintRoot .black shape) = false := by
  cases shape <;> rfl

/-- Equal items stand in equal slots. -/
theorem slots_eq_map_items (shape : BinaryTree Entry) : slots shape = (items shape).map (·.1) := by
  simp [slots, items, Entry.item, Function.comp_def]

/-- The path from the root of a subtree to the position where a key is inserted. -/
def descend (key : UInt64) : BinaryTree Entry → Path Entry → Path Entry
  | .nil, path => path
  | .node entry left right, path =>
    if key < entry.key then descend key left (.left entry right :: path)
    else descend key right (.right entry left :: path)

/-- Descending only takes the tree apart. -/
theorem plug_descend (key : UInt64) (shape : BinaryTree Entry) (path : Path Entry) :
    plug (descend key shape path) .nil = plug path shape := by
  induction shape generalizing path with
  | nil => rfl
  | node entry left right ihLeft ihRight =>
    unfold descend
    split
    · rw [ihLeft, plug_cons, Step.attach_left]
    · rw [ihRight, plug_cons, Step.attach_right]

/-- The rotation that ends a repair, for each side of the parent and of the grandparent. -/
def rotateUp : Step Entry → Step Entry → BinaryTree Entry → BinaryTree Entry
  | .left parent sibling, .left grand uncle, shape =>
    .node (parent.paint .black) shape (.node (grand.paint .red) sibling uncle)
  | .right parent sibling, .left grand uncle, .node entry left right =>
    .node (entry.paint .black) (.node parent sibling left) (.node (grand.paint .red) right uncle)
  | .right parent sibling, .right grand uncle, shape =>
    .node (parent.paint .black) (.node (grand.paint .red) uncle sibling) shape
  | .left parent sibling, .right grand uncle, .node entry left right =>
    .node (entry.paint .black) (.node (grand.paint .red) uncle left) (.node parent right sibling)
  | _, _, .nil => .nil

/-- A step with its value and its sibling's root painted. -/
def paintStep (value sibling : Color) : Step Entry → Step Entry
  | .left entry other => .left (entry.paint value) (paintRoot sibling other)
  | .right entry other => .right (entry.paint value) (paintRoot sibling other)

/-- A step with only its value painted. -/
def paintValue (value : Color) : Step Entry → Step Entry
  | .left entry other => .left (entry.paint value) other
  | .right entry other => .right (entry.paint value) other

/-- What the repair makes of a tree whose subtree at the end of a path has become red. -/
def climb : Path Entry → BinaryTree Entry → BinaryTree Entry
  | [], shape => shape
  | [parent], shape => parent.attach shape
  | parent :: grand :: path, shape =>
    if isRed parent.value = false then plug (parent :: grand :: path) shape
    else if rootRed isRed grand.sibling then
      climb path ((paintStep .red .black grand).attach ((paintValue .black parent).attach shape))
    else plug path (rotateUp parent grand shape)

/-- Whether the repair along a path ends in a rotation. -/
def rotates : Path Entry → Bool
  | parent :: grand :: path =>
    isRed parent.value && (if rootRed isRed grand.sibling then rotates path else true)
  | _ => false

/-- The repair keeps what the tree stores. -/
theorem items_climb (path : Path Entry) (entry : Entry) (left right : BinaryTree Entry) :
    items (climb path (.node entry left right)) = items (plug path (.node entry left right)) := by
  -- The subtree grows at each painting, so it stays quantified over.
  induction path using List.twoStepInduction generalizing entry left right with
  | nil => rfl
  | singleton parent => cases parent <;> rfl
  | cons_cons parent grand path ih _ =>
    unfold climb
    split
    · rfl
    · split
      · cases parent <;> cases grand <;> simp [paintStep, paintValue, ih, items_plug]
      · cases parent <;> cases grand <;> simp [rotateUp, items_plug]

variable {shape left right : BinaryTree Entry} {height : Nat} {entry : Entry}

/-- Blackening the root of a subtree without red pairs leaves none. -/
theorem noRedPair_paintRoot (noPair : NoRedPair isRed shape) :
    NoRedPair isRed (paintRoot .black shape) := by
  cases shape with
  | nil => trivial
  | node entry left right => exact ⟨fun red => by simp at red, noPair.2⟩

/-- Blackening a red root raises the black height by one. -/
theorem blackHeight_paintRoot (red : rootRed isRed shape = true)
    (balanced : BlackHeight isRed shape height) :
    BlackHeight isRed (paintRoot .black shape) (height + 1) := by
  cases shape with
  | nil => simp at red
  | node entry left right =>
    rw [rootRed_node] at red
    obtain ⟨below, rfl, balancedLeft, balancedRight⟩ := blackHeight_node.mp balanced
    refine blackHeight_node.mpr ⟨below, ?_, balancedLeft, balancedRight⟩
    simp [weight, red]

theorem rules_paintRoot (noPair : NoRedPair isRed shape)
    (balanced : BlackHeight isRed shape height) : Rules isRed (paintRoot .black shape) := by
  refine ⟨by simp, noRedPair_paintRoot noPair, ?_⟩
  cases red : rootRed isRed shape with
  | true => exact ⟨height + 1, blackHeight_paintRoot red balanced⟩
  | false =>
    refine ⟨height, ?_⟩
    cases shape with
    | nil => exact balanced
    | node entry left right =>
      rw [rootRed_node] at red
      obtain ⟨below, rfl, balancedLeft, balancedRight⟩ := blackHeight_node.mp balanced
      exact blackHeight_node.mpr ⟨below, by simp [weight, red], balancedLeft, balancedRight⟩

theorem rules_paintRoot_of_rules (rules : Rules isRed shape) :
    Rules isRed (paintRoot .black shape) := by
  obtain ⟨height, balanced⟩ := rules.balanced
  exact rules_paintRoot rules.no_red_pair balanced

theorem rotateUp_balanced {parent grand : Step Entry} (parentRed : isRed parent.value = true)
    (entryRed : isRed entry = true) (balanced : BlackHeight isRed (.node entry left right) height)
    (noPair : NoRedPair isRed (.node entry left right))
    (balancedSibling : BlackHeight isRed parent.sibling height)
    (pairSibling : NoRedPair isRed parent.sibling)
    (siblingBlack : rootRed isRed parent.sibling = false)
    (balancedUncle : BlackHeight isRed grand.sibling height)
    (pairUncle : NoRedPair isRed grand.sibling) (uncleBlack : rootRed isRed grand.sibling = false) :
    BlackHeight isRed (rotateUp parent grand (.node entry left right)) (height + 1) ∧
      NoRedPair isRed (rotateUp parent grand (.node entry left right)) ∧
      rootRed isRed (rotateUp parent grand (.node entry left right)) = false := by
  obtain ⟨below, same, balancedLeft, balancedRight⟩ := blackHeight_node.mp balanced
  obtain ⟨colours, pairLeft, pairRight⟩ := noPair
  obtain ⟨leftBlack, rightBlack⟩ := colours entryRed
  have here : height = below := by simpa [weight, entryRed] using same
  subst here
  clear same balanced
  cases parent <;> cases grand <;>
    simp_all [rotateUp, blackHeight_node, noRedPair_node, weight, Step.value, Step.sibling]

/-- The repair restores the rules along any path that had room for a black subtree. -/
theorem climb_rules {path : Path Entry} (entryRed : isRed entry = true)
    (fits : PathFits isRed path height false)
    (balanced : BlackHeight isRed (.node entry left right) height)
    (noPair : NoRedPair isRed (.node entry left right)) :
    Rules isRed (paintRoot .black (climb path (.node entry left right))) := by
  induction path using List.twoStepInduction generalizing entry left right height with
  | nil => exact rules_paintRoot noPair balanced
  | singleton parent =>
    obtain ⟨balancedSibling, pairSibling, colours, top⟩ := fits
    have inPlace : Rules isRed (plug [parent] (.node entry left right)) := by
      refine rules_plug.mpr ⟨height, balanced, noPair, balancedSibling, pairSibling, fun red => ?_,
        top⟩
      rw [show isRed parent.value = false from top] at red
      cases red
    exact rules_paintRoot_of_rules inPlace
  | cons_cons parent grand path ih _ =>
    obtain ⟨balancedSibling, pairSibling, colours, balancedUncle, pairUncle, grandColours,
      farther⟩ := fits
    unfold climb
    split
    · -- A black parent accepts a red child as it is.
      rename_i parentBlack
      refine rules_paintRoot_of_rules (rules_plug.mpr ⟨height, balanced, noPair, balancedSibling,
        pairSibling, fun red => ?_, balancedUncle, pairUncle, grandColours, farther⟩)
      rw [parentBlack] at red
      cases red
    · rename_i parentRed
      rw [Bool.not_eq_false] at parentRed
      -- The grandparent of a red parent is black, so its subtree had one more black node.
      have grandBlack : isRed grand.value = false := by
        by_contra red
        rw [Bool.not_eq_false] at red
        exact absurd ((grandColours red).1.symm.trans parentRed) (by decide)
      simp only [weight, parentRed, if_true, Nat.add_zero] at balancedUncle farther
      simp only [grandBlack, Bool.false_eq_true, if_false] at farther
      have siblingBlack := (colours parentRed).2
      split
      · rename_i uncleRed
        have uncleBalanced := blackHeight_paintRoot uncleRed balancedUncle
        have unclePair := noRedPair_paintRoot pairUncle
        have uncleBlack := rootRed_paintRoot_black grand.sibling
        cases parent <;> cases grand <;>
          refine ih rfl farther (blackHeight_node.mpr ⟨height + 1, by simp [weight], ?_, ?_⟩) ?_ <;>
          simp_all [blackHeight_node, noRedPair_node, weight, paintValue, Step.value, Step.sibling]
      · rename_i uncleBlack
        rw [Bool.not_eq_true] at uncleBlack
        obtain ⟨topBalanced, topPair, topBlack⟩ := rotateUp_balanced parentRed entryRed balanced
          noPair balancedSibling pairSibling siblingBlack balancedUncle pairUncle uncleBlack
        exact rules_paintRoot_of_rules (rules_plug.mpr
          ⟨height + 1, topBalanced, topPair, by rw [topBlack]; exact farther⟩)

end TheoryKernel.Sched
