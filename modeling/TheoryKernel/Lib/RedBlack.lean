import Mathlib.Algebra.Group.Nat.Defs
import TheoryKernel.Lib.LinkedTree
import Mathlib.Data.Nat.Log

/-! The red-black rules for trees with coloured values, and the depth they guarantee. -/

namespace RedBlack

open LinkedTree BinaryTree

variable {α : Type*} (isRed : α → Bool)

/-- What a value adds to the number of black nodes on a path. -/
def weight (value : α) : Nat := if isRed value then 0 else 1

/-- Whether a tree has a red root. -/
def rootRed : BinaryTree α → Bool
  | .nil => false
  | .node value _ _ => isRed value

/-- No red value has a red child. -/
def NoRedPair : BinaryTree α → Prop
  | .nil => True
  | .node value left right =>
    (isRed value = true → rootRed isRed left = false ∧ rootRed isRed right = false) ∧
      NoRedPair left ∧ NoRedPair right

/-- The number of black nodes on the way from the root to each leaf. -/
def blackCounts : BinaryTree α → List Nat
  | .nil => [0]
  | .node value left right =>
    (blackCounts left ++ blackCounts right).map (· + weight isRed value)

/-- Every way from the root to a leaf passes the given number of black nodes. -/
def BlackHeight (tree : BinaryTree α) (height : Nat) : Prop :=
  ∀ count ∈ blackCounts isRed tree, count = height

/-- The red-black rules: a black root, no red pair, and equally many black nodes on every way down. -/
structure Rules (tree : BinaryTree α) : Prop where
  root_black : rootRed isRed tree = false
  no_red_pair : NoRedPair isRed tree
  balanced : ∃ height, BlackHeight isRed tree height

variable {isRed} {value : α} {left right tree : BinaryTree α} {height : Nat}

@[simp] theorem rootRed_nil : rootRed isRed .nil = false := rfl

@[simp] theorem rootRed_node : rootRed isRed (.node value left right) = isRed value := rfl

@[simp] theorem noRedPair_nil : NoRedPair isRed .nil := trivial

theorem noRedPair_node : NoRedPair isRed (.node value left right) ↔
    (isRed value = true → rootRed isRed left = false ∧ rootRed isRed right = false) ∧
      NoRedPair isRed left ∧ NoRedPair isRed right := Iff.rfl

theorem blackHeight_nil : BlackHeight isRed .nil height ↔ height = 0 := by
  simp [BlackHeight, blackCounts, eq_comm]

private theorem blackCounts_ne_nil (isRed : α → Bool) (tree : BinaryTree α) :
    blackCounts isRed tree ≠ [] := by
  induction tree with
  | nil => simp [blackCounts]
  | node value left right ihLeft ihRight => simp [blackCounts, ihLeft]

/-- The children of a balanced node have the same black height, less what the node adds. -/
theorem blackHeight_node : BlackHeight isRed (.node value left right) height ↔
    ∃ below, height = below + weight isRed value ∧ BlackHeight isRed left below ∧
      BlackHeight isRed right below := by
  constructor
  · intro balanced
    obtain ⟨below, member⟩ := List.exists_mem_of_ne_nil _ (blackCounts_ne_nil isRed left)
    have total : ∀ count, count ∈ blackCounts isRed left ∨ count ∈ blackCounts isRed right →
        count + weight isRed value = height := fun count inside =>
      balanced _ (List.mem_map_of_mem (List.mem_append.mpr inside))
    have same := total below (.inl member)
    refine ⟨below, same.symm, ?_, ?_⟩
    · intro count inside
      have := total count (.inl inside)
      omega
    · intro count inside
      have := total count (.inr inside)
      omega
  · rintro ⟨below, rfl, balancedLeft, balancedRight⟩ count member
    obtain ⟨inner, inside, rfl⟩ := List.mem_map.mp member
    rcases List.mem_append.mp inside with inLeft | inRight
    · rw [balancedLeft inner inLeft]
    · rw [balancedRight inner inRight]

/-- A subtree and its sibling have the same black height, less what the step adds. -/
theorem blackHeight_attach {step : Step α} : BlackHeight isRed (step.attach tree) height ↔
    ∃ below, height = below + weight isRed step.value ∧ BlackHeight isRed tree below ∧
      BlackHeight isRed step.sibling below := by
  cases step with
  | left value sibling => exact blackHeight_node
  | right value sibling =>
    exact blackHeight_node.trans (exists_congr fun _ => and_congr_right fun _ => and_comm)

private theorem noRedPair_attach {step : Step α} : NoRedPair isRed (step.attach tree) ↔
    (isRed step.value = true → rootRed isRed tree = false ∧ rootRed isRed step.sibling = false) ∧
      NoRedPair isRed tree ∧ NoRedPair isRed step.sibling := by
  cases step with
  | left value sibling => exact noRedPair_node
  | right value sibling =>
    exact noRedPair_node.trans (and_congr (imp_congr_right fun _ => and_comm) and_comm)

@[simp] theorem rootRed_attach {step : Step α} :
    rootRed isRed (step.attach tree) = isRed step.value := by
  cases step <;> rfl

/-- A tree has at most one black height. -/
theorem BlackHeight.unique {other : Nat} (first : BlackHeight isRed tree height)
    (second : BlackHeight isRed tree other) : height = other := by
  obtain ⟨count, member⟩ := List.exists_mem_of_ne_nil _ (blackCounts_ne_nil isRed tree)
  rw [← first count member, second count member]

/-- A tree without black nodes is empty or has a red root. -/
theorem BlackHeight.zero (balanced : BlackHeight isRed tree 0) :
    tree = .nil ∨ rootRed isRed tree = true := by
  cases tree with
  | nil => exact .inl rfl
  | node value left right =>
    obtain ⟨below, same, -⟩ := blackHeight_node.mp balanced
    refine .inr ?_
    by_contra black
    rw [rootRed_node] at black
    simp [weight, black] at same

/-- A tree is at least as black as each of its subtrees. -/
theorem BlackHeight.of_plug {path : Path α} (balanced : BlackHeight isRed (plug path tree) height) :
    ∃ below, below ≤ height ∧ BlackHeight isRed tree below := by
  induction path generalizing tree with
  | nil => exact ⟨height, le_rfl, balanced⟩
  | cons step path ih =>
    obtain ⟨above, bound, balanced⟩ := ih balanced
    obtain ⟨below, rfl, inside, -⟩ := blackHeight_attach.mp balanced
    exact ⟨below, by omega, inside⟩

private theorem BlackHeight.le_numNodes (balanced : BlackHeight isRed tree height) :
    2 ^ height ≤ tree.numNodes + 1 := by
  induction tree generalizing height with
  | nil => simp [blackHeight_nil.mp balanced]
  | node value left right ihLeft ihRight =>
    obtain ⟨below, rfl, balancedLeft, balancedRight⟩ := blackHeight_node.mp balanced
    have fromLeft := ihLeft balancedLeft
    have fromRight := ihRight balancedRight
    have step : 2 ^ (below + weight isRed value) ≤ 2 ^ (below + 1) := by
      apply Nat.pow_le_pow_right (by decide)
      unfold weight
      split <;> omega
    rw [Nat.pow_succ] at step
    simp only [numNodes]
    omega

private theorem height_le (noPair : NoRedPair isRed tree)
    (balanced : BlackHeight isRed tree height) :
    tree.height ≤ 2 * height + if rootRed isRed tree then 1 else 0 := by
  induction tree generalizing height with
  | nil => simp
  | node value left right ihLeft ihRight =>
    obtain ⟨below, rfl, balancedLeft, balancedRight⟩ := blackHeight_node.mp balanced
    obtain ⟨children, pairLeft, pairRight⟩ := noPair
    have boundLeft := ihLeft pairLeft balancedLeft
    have boundRight := ihRight pairRight balancedRight
    cases red : isRed value with
    | true =>
      -- A red node has black children, so neither child adds a red root of its own.
      obtain ⟨blackLeft, blackRight⟩ := children red
      simp only [blackLeft, blackRight, Bool.false_eq_true, if_false] at boundLeft boundRight
      simp only [BinaryTree.height, rootRed_node, red, weight, if_true]
      omega
    | false =>
      have capLeft : left.height ≤ 2 * below + 1 := boundLeft.trans (by split <;> omega)
      have capRight : right.height ≤ 2 * below + 1 := boundRight.trans (by split <;> omega)
      simp only [BinaryTree.height, rootRed_node, red, weight, Bool.false_eq_true, if_false]
      omega

/-- The depth of a red-black tree is at most twice the logarithm of its size. -/
theorem Rules.height_le_log (rules : Rules isRed tree) :
    tree.height ≤ 2 * Nat.log 2 (tree.numNodes + 1) := by
  obtain ⟨height, balanced⟩ := rules.balanced
  have bound := height_le rules.no_red_pair balanced
  rw [rules.root_black, if_neg (by decide), Nat.add_zero] at bound
  have logBound : height ≤ Nat.log 2 (tree.numNodes + 1) :=
    Nat.le_log_of_pow_le (by decide) balanced.le_numNodes
  omega

/-- What a path demands of the subtree at its end: its black height and the colour of its root. -/
def PathFits (isRed : α → Bool) : Path α → Nat → Bool → Prop
  | [], _, red => red = false
  | step :: path, height, red =>
    BlackHeight isRed step.sibling height ∧ NoRedPair isRed step.sibling ∧
      (isRed step.value = true → red = false ∧ rootRed isRed step.sibling = false) ∧
      PathFits isRed path (height + weight isRed step.value) (isRed step.value)

/-- A black root fits wherever a red one does. -/
theorem PathFits.of_red {path : Path α} {red : Bool} (fits : PathFits isRed path height red) :
    PathFits isRed path height false := by
  cases path with
  | nil => rfl
  | cons step path =>
    obtain ⟨balanced, pair, colours, farther⟩ := fits
    exact ⟨balanced, pair, fun isRed => ⟨rfl, (colours isRed).2⟩, farther⟩

/-- A tree obeys the rules exactly when a subtree of it fits its path. -/
theorem rules_plug {path : Path α} : Rules isRed (plug path tree) ↔
    ∃ height, BlackHeight isRed tree height ∧ NoRedPair isRed tree ∧
      PathFits isRed path height (rootRed isRed tree) := by
  induction path generalizing tree with
  | nil =>
    exact ⟨fun ⟨root, pair, height, balanced⟩ => ⟨height, balanced, pair, root⟩,
      fun ⟨height, balanced, pair, root⟩ => ⟨root, pair, height, balanced⟩⟩
  | cons step path ih =>
    rw [plug_cons, ih]
    constructor
    · rintro ⟨height, balanced, pair, farther⟩
      obtain ⟨below, rfl, balancedTree, balancedSibling⟩ := blackHeight_attach.mp balanced
      rw [rootRed_attach] at farther
      obtain ⟨colours, pairTree, pairSibling⟩ := noRedPair_attach.mp pair
      exact ⟨below, balancedTree, pairTree, balancedSibling, pairSibling, colours, farther⟩
    · rintro ⟨below, balancedTree, pairTree, balancedSibling, pairSibling, colours, farther⟩
      refine ⟨_, blackHeight_attach.mpr ⟨below, rfl, balancedTree, balancedSibling⟩,
        noRedPair_attach.mpr ⟨colours, pairTree, pairSibling⟩, ?_⟩
      rwa [rootRed_attach]

/-- The black height a path demands does not depend on the colour of the subtree's root. -/
theorem PathFits.unique {path : Path α} {red red' : Bool} {other : Nat} (step : path ≠ [])
    (first : PathFits isRed path height red) (second : PathFits isRed path other red') :
    height = other := by
  cases path with
  | nil => exact absurd rfl step
  | cons step path => exact first.1.unique second.1

end RedBlack
