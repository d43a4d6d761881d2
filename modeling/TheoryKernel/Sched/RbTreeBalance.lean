import TheoryKernel.Sched.RbTreeDelete

/-! When an insertion or a removal leaves a tree that obeys the red-black rules. -/

namespace TheoryKernel.Sched

open LinkedTree LinkedList BinaryTree RedBlack

variable {path : Path Entry} {z y : Entry} {left right child beyond : BinaryTree Entry}

theorem rules_inserted {shape : BinaryTree Entry} (rules : Rules isRed shape) (id : RbNodeId)
    (key : UInt64) (tid : Tid) : Rules isRed (RedBlackTree.inserted id key tid shape) := by
  have joined := plug_descend key shape []
  rw [plug_nil] at joined
  rw [← joined] at rules
  obtain ⟨height, balanced, -, fits⟩ := rules_plug.mp rules
  obtain rfl := blackHeight_nil.mp balanced
  refine climb_rules rfl fits (blackHeight_node.mpr ⟨0, rfl, balanced, balanced⟩) ?_
  exact ⟨fun _ => ⟨rfl, rfl⟩, trivial, trivial⟩

theorem color_eq_black_iff (entry : Entry) : entry.color = .black ↔ isRed entry = false := by
  cases shade : entry.color <;> simp [isRed, shade]

theorem rules_splice_iff (rules : Rules isRed (plug path (.node z left right)))
    (only : left = .nil ∧ child = right ∨ right = .nil ∧ child = left) :
    Rules isRed (plug path (if z.color = .black then paintRoot .black child else child)) ↔
      isRed z = true ∨ child ≠ .nil ∨ path = [] := by
  obtain ⟨height, balanced, noPair, fits⟩ := rules_plug.mp rules
  rw [rootRed_node] at fits
  have spare := RedBlackTree.spare_of_rules rules only
  obtain ⟨below, rfl, balancedLeft, balancedRight⟩ := blackHeight_node.mp balanced
  obtain ⟨-, pairLeft, pairRight⟩ := noRedPair_node.mp noPair
  -- One subtree is empty, so the other one holds no black node either.
  have inside : BlackHeight isRed child 0 ∧ NoRedPair isRed child ∧ below = 0 := by
    rcases only with ⟨rfl, rfl⟩ | ⟨rfl, rfl⟩
    · obtain rfl := blackHeight_nil.mp balancedLeft
      exact ⟨balancedRight, pairRight, rfl⟩
    · obtain rfl := blackHeight_nil.mp balancedRight
      exact ⟨balancedLeft, pairLeft, rfl⟩
  obtain ⟨balancedChild, pairChild, rfl⟩ := inside
  by_cases red : isRed z = true
  · -- A red node without two children is a leaf.
    obtain rfl : child = .nil := spare.resolve_right fun other => by simp [red] at other
    rw [if_neg (by simp [color_eq_black_iff, red])]
    simp only [red, true_or, iff_true]
    rw [weight, if_pos red, red] at fits
    exact rules_plug.mpr ⟨0, balancedChild, pairChild, fits.of_red⟩
  · rw [Bool.not_eq_true] at red
    rw [if_pos ((color_eq_black_iff z).mpr red)]
    simp only [red, Bool.false_eq_true, false_or]
    rw [weight, if_neg (by simp [red]), red] at fits
    rcases spare with rfl | ⟨childRed, -⟩
    · simp only [ne_eq, not_true_eq_false, false_or]
      constructor
      · -- Below a node the empty place would need a black node that is gone.
        intro after
        by_contra nonempty
        obtain ⟨other, balancedNil, -, fitsNil⟩ := rules_plug.mp after
        obtain rfl := blackHeight_nil.mp balancedNil
        exact absurd (fits.unique nonempty fitsNil) (by simp)
      · rintro rfl
        exact ⟨rfl, trivial, 0, blackHeight_nil.mpr rfl⟩
    · have nonempty : child ≠ .nil := by
        rintro rfl
        cases childRed
      simp only [ne_eq, nonempty, not_false_eq_true, true_or, iff_true]
      refine rules_plug.mpr ⟨1, blackHeight_paintRoot childRed balancedChild,
        noRedPair_paintRoot pairChild, ?_⟩
      rwa [rootRed_paintRoot_black]

variable {height : Nat} {lefts : Path Entry}

theorem pos_of_nonempty {shape : BinaryTree Entry} (balanced : BlackHeight isRed shape height)
    (black : rootRed isRed shape = false) (nonempty : shape ≠ .nil) : 0 < height := by
  rcases Nat.eq_zero_or_pos height with rfl | positive
  · rcases balanced.zero with empty | red
    · exact absurd empty nonempty
    · rw [black] at red
      cases red
  · exact positive

theorem one_le_of_leaf {shape : BinaryTree Entry}
    (balanced : BlackHeight isRed (plug lefts shape) height) (leaf : BlackHeight isRed shape 1) :
    1 ≤ height := by
  obtain ⟨below, bound, inside⟩ := balanced.of_plug
  rwa [inside.unique leaf] at bound

theorem two_le_of_black_root {shape : BinaryTree Entry}
    (balanced : BlackHeight isRed (plug lefts shape) height) (leaf : BlackHeight isRed shape 1)
    (black : rootRed isRed (plug lefts shape) = false) (further : lefts ≠ []) : 2 ≤ height := by
  -- The root is the last step of the path, and the rest of the path lies below it.
  rcases lefts.eq_nil_or_concat' with empty | ⟨inner, step, rfl⟩
  · exact absurd empty further
  · rw [plug_append] at balanced black
    obtain ⟨below, rfl, inside, -⟩ := blackHeight_attach.mp balanced
    have shade : isRed step.value = false := rootRed_attach.symm.trans black
    rw [weight, if_neg (by simp [shade])]
    exact Nat.succ_le_succ (one_le_of_leaf inside leaf)

theorem rules_successor_iff
    (rules : Rules isRed (plug path (.node z left (plug lefts (.node y .nil beyond)))))
    (leftThere : left ≠ .nil) :
    Rules isRed (plug path (.node y .nil (if y.color = .black then paintRoot .black beyond
        else beyond))) ↔
      isRed y = false ∧ beyond = .nil ∧ (path = [] ∨ isRed z = true ∧ lefts = []) := by
  have whole : Rules isRed (plug (lefts ++ .right z left :: path) (.node y .nil beyond)) := by
    rw [plug_append]
    exact rules
  have spare := RedBlackTree.spare_of_rules whole (Or.inl ⟨rfl, rfl⟩)
  obtain ⟨height, balanced, noPair, fits⟩ := rules_plug.mp rules
  rw [rootRed_node] at fits
  obtain ⟨below, same, balancedLeft, balancedRight⟩ := blackHeight_node.mp balanced
  have colours := (noRedPair_node.mp noPair).1
  -- The place of the removed node needs a black node in any case.
  have positive : 0 < height := by
    by_cases red : isRed z = true
    · rw [same, weight, if_pos red, Nat.add_zero]
      exact pos_of_nonempty balancedLeft (colours red).1 leftThere
    · rw [same, weight, if_neg red]
      omega
  by_cases black : isRed y = false
  · rw [if_pos ((color_eq_black_iff y).mpr black)]
    simp only [black, true_and]
    rcases spare with rfl | ⟨beyondRed, -⟩
    · have leaf : BlackHeight isRed (.node y .nil .nil) 1 :=
        blackHeight_node.mpr ⟨0, by simp [weight, black], blackHeight_nil.mpr rfl,
          blackHeight_nil.mpr rfl⟩
      have leafPair : NoRedPair isRed (.node y .nil .nil) := ⟨fun _ => ⟨rfl, rfl⟩, trivial, trivial⟩
      change Rules isRed (plug path (.node y .nil .nil)) ↔ _
      simp only [true_and]
      constructor
      · intro after
        refine or_iff_not_imp_left.mpr fun top => ?_
        obtain ⟨other, balancedAfter, -, fitsAfter⟩ := rules_plug.mp after
        obtain rfl := balancedAfter.unique leaf
        have one := fits.unique top fitsAfter
        have deep := one_le_of_leaf balancedRight leaf
        have red : isRed z = true := by
          by_contra other
          rw [weight, if_neg other] at same
          omega
        refine ⟨red, ?_⟩
        by_contra further
        have deeper := two_le_of_black_root balancedRight leaf (colours red).2 further
        rw [weight, if_pos red] at same
        omega
      · rintro (rfl | ⟨red, rfl⟩)
        · exact ⟨black, leafPair, 1, leaf⟩
        · obtain rfl := balancedRight.unique leaf
          rw [same, weight, if_pos red, red] at fits
          refine rules_plug.mpr ⟨1, leaf, leafPair, ?_⟩
          rw [rootRed_node, black]
          exact fits.of_red
    · have nonempty : beyond ≠ .nil := by
        rintro rfl
        cases beyondRed
      simp only [nonempty, false_and, iff_false]
      -- The painted child is black beside an empty place.
      intro after
      obtain ⟨other, balancedAfter, -⟩ := rules_plug.mp after
      obtain ⟨inner, -, empty, painted⟩ := blackHeight_node.mp balancedAfter
      obtain rfl := blackHeight_nil.mp empty
      refine absurd (pos_of_nonempty painted (rootRed_paintRoot_black _) ?_) (by simp)
      cases beyond with
      | nil => exact absurd rfl nonempty
      | node entry inner outer => simp [paintRoot]
  · rw [if_neg (mt (color_eq_black_iff y).mp black)]
    rw [Bool.not_eq_false] at black
    obtain rfl : beyond = .nil := spare.resolve_right fun other => by simp [black] at other
    simp only [black, Bool.true_eq_false, false_and, iff_false]
    -- A red successor leaves no black node where one is needed.
    intro after
    obtain ⟨other, balancedAfter, -, fitsAfter⟩ := rules_plug.mp after
    obtain ⟨inner, rfl, empty, -⟩ := blackHeight_node.mp balancedAfter
    obtain rfl := blackHeight_nil.mp empty
    rw [rootRed_node, black, weight, if_pos black] at fitsAfter
    by_cases top : path = []
    · subst top
      cases fitsAfter
    · exact absurd (fits.unique top fitsAfter) (by omega)

namespace RedBlackTree

variable {tree changed : RedBlackTree} {shape : BinaryTree Entry} {free : List RbNodeId}

/-- The slots form a tree that obeys the red-black rules, and so is of logarithmic depth. -/
def Balanced (tree : RedBlackTree) : Prop :=
  ∃ shape, Linked tree shape ∧ Rules isRed shape ∧
    shape.height ≤ 2 * Nat.log 2 (shape.numNodes + 1)

theorem Represents.balanced_iff (rep : Linked tree shape) :
    tree.Balanced ↔ Rules isRed shape := by
  constructor
  · rintro ⟨shape', linked, rules, -⟩
    obtain rfl := rep.unique linked
    exact rules
  · exact fun rules => ⟨shape, rep, rules, rules.height_le_log⟩

/-- Whether removing a slot keeps the red-black rules, read off the state before the removal. -/
def removalKeepsRules (tree : RedBlackTree) (id : RbNodeId) : Bool :=
  match tree.cell id with
  | none => false
  | some held =>
    if tree.hasTwoChildren id then
      match leftmost loopBudget tree held.right with
      | .error _ => false
      | .ok successor =>
        ((tree.cell successor).any fun n => n.color = .black && !n.right.isValid) &&
          (id = tree.root || held.color = .red && successor = held.right)
    else held.color = .red || held.left.isValid || held.right.isValid || id = tree.root

theorem Represents.root_iff (rep : Linked tree (plug path (.node z left right))) :
    z.id = tree.root ↔ path = [] := by
  cases path with
  | nil => simp [rep.root, slotLayout]
  | cons step path => simp [rep.root_ne]

theorem Represents.remove_spare (rep : Linked tree (plug path (.node z left right)))
    (rules : Rules isRed (plug path (.node z left right)))
    (atMostOne : left = .nil ∨ right = .nil) :
    ∃ child final, (left = .nil ∧ child = right ∨ right = .nil ∧ child = left) ∧
      tree.remove z.id = .ok (some z.tid, final) ∧
      Linked final (plug path (if z.color = .black then paintRoot .black child else child)) := by
  obtain ⟨child, only, pick, -⟩ := only_child atMostOne
  obtain ⟨linked, -⟩ := rep.splice only
  obtain ⟨state, repair, linkedState⟩ := linked.fixDelete_spare (spare_of_rules rules only)
  have away : z.id ∉ slots (plug path
      (if z.color = .black then paintRoot .black child else child)) := by
    obtain ⟨-, -, -, nodup, apart⟩ := rep.parts
    have perm : (slots (.node z left right)).Perm (z.id :: slots child) := by
      rcases only with ⟨rfl, rfl⟩ | ⟨rfl, rfl⟩ <;> simp
    have painted : slots (if z.color = .black then paintRoot .black child else child) =
        slots child := by split <;> simp
    rw [mem_slots_plug, not_or, painted]
    exact ⟨fun beside => apart z.id beside (by simp),
      (List.nodup_cons.mp (perm.nodup_iff.mp nodup)).1⟩
  obtain ⟨final, removed, linkedFinal, -⟩ :=
    rep.remove_of_delete ((rep.deleteNode_eq only pick).trans repair) linkedState away
  exact ⟨child, final, only, removed, linkedFinal⟩

theorem Represents.remove_balanced_iff (rep : Linked tree (plug path (.node z left right)))
    (rules : Rules isRed (plug path (.node z left right))) :
    ∃ final, tree.remove z.id = .ok (some z.tid, final) ∧
      (final.Balanced ↔ tree.removalKeepsRules z.id = true) := by
  obtain ⟨held, found, -, -, color, -, leftLink, rightLink, -⟩ := rep.cell_node
  have redIff : held.color = .red ↔ isRed z = true := by simp [color, isRed]
  by_cases both : left ≠ .nil ∧ right ≠ .nil
  · obtain ⟨final, lefts, y, beyond, joined, -, walk, removed, linked⟩ :=
      rep.remove_two rules both.1 both.2
    subst joined
    refine ⟨final, removed, ?_⟩
    rw [linked.balanced_iff, rules_successor_iff rules both.1]
    have inside : Linked tree (plug (lefts ++ .right z left :: path) (.node y .nil beyond)) := by
      rw [plug_append]
      exact rep
    have inBeyond : Linked tree (plug (.right y .nil :: lefts ++ .right z left :: path) beyond) :=
      inside
    obtain ⟨next, foundNext, -, -, nextColor, -, -, nextRight, -⟩ := inside.cell_node
    have blackIff : next.color = .black ↔ isRed y = false := by
      rw [nextColor, color_eq_black_iff]
    have emptyIff : (rootSlot beyond).isValid = false ↔ beyond = .nil := by
      rw [← Bool.not_eq_true, inBeyond.rootSlot_valid, not_not]
    have nearIff : y.id = rootSlot (plug lefts (.node y .nil beyond)) ↔ lefts = [] := by
      cases lefts with
      | nil => simp [slotLayout]
      | cons step lefts =>
        obtain ⟨-, -, -, nodup, -⟩ := rep.parts
        rw [slots_node, List.nodup_append, List.nodup_cons] at nodup
        simp only [reduceCtorEq, iff_false]
        exact (rootSlot_plug_ne nodup.2.1.2).symm
    rw [removalKeepsRules, found]
    simp only [rep.hasTwoChildren_iff.mpr both, if_true, rightLink, walk, foundNext, Option.any_some,
      nextRight, Bool.and_eq_true, Bool.or_eq_true, decide_eq_true_eq, Bool.not_eq_true', blackIff,
      emptyIff, nearIff, redIff, rep.root_iff, and_assoc]
  · have atMostOne : left = .nil ∨ right = .nil := by tauto
    obtain ⟨child, final, only, removed, linked⟩ := rep.remove_spare rules atMostOne
    refine ⟨final, removed, ?_⟩
    rw [linked.balanced_iff, rules_splice_iff rules only]
    have single : tree.hasTwoChildren z.id = false := by
      rw [← Bool.not_eq_true, rep.hasTwoChildren_iff]
      exact both
    have inLeft : Linked tree (plug (.left z right :: path) left) := rep
    have inRight : Linked tree (plug (.right z left :: path) right) := rep
    have present : child ≠ .nil ↔
        (rootSlot left).isValid = true ∨ (rootSlot right).isValid = true := by
      rw [inLeft.rootSlot_valid, inRight.rootSlot_valid]
      rcases only with ⟨rfl, rfl⟩ | ⟨rfl, rfl⟩ <;> simp
    rw [removalKeepsRules, found]
    simp only [single, Bool.false_eq_true, if_false, leftLink, rightLink, Bool.or_eq_true,
      decide_eq_true_eq, redIff, rep.root_iff, present, or_assoc]

/--
When the red-black rules survive an insertion and a removal.

From any tree that obeys them, an insertion leaves a tree that obeys them with all links in agreement
exactly when it finds no slot or does not rotate, and a removal exactly under its own condition.
-/
theorem insert_remove_balanced_iff (pool : Pooled exactParent tree shape free)
    (rules : Rules isRed shape) :
    (∀ key tid, ∃ id changed, tree.insert key tid = .ok (id, changed) ∧
      (∃ rule shape', Represents rule changed shape' ∧ Rules isRed shape') ∧
      (changed.Balanced ↔ tree.freeHead.isValid = false ∨ tree.insertRotates key = false)) ∧
    ∀ id ∈ slots shape, ∃ tid changed, tree.remove id = .ok (some tid, changed) ∧
      (changed.Balanced ↔ tree.removalKeepsRules id = true) := by
  constructor
  · intro key tid
    have linked := pool.represents
    cases free with
    | nil =>
      have full := RbNodeId.toOption_eq_none.mp (chain_nil.mp pool.chain)
      refine ⟨none, tree, pool.insert_full key tid, ⟨_, shape, linked, rules⟩, ?_⟩
      simp [linked.balanced_iff, rules, full]
    | cons id rest =>
      have some := (RbNodeId.toOption_eq_some.mp (chain_cons.mp pool.chain).1).1
      obtain ⟨changed, run, outcome⟩ := pool.insert key tid
      have grown := rules_inserted rules id key tid
      refine ⟨id, changed, run, ?_⟩
      rw [linked.insertRotates_eq, some]
      revert outcome
      cases rotates (descend key shape []) with
      | false =>
        intro outcome
        have done : Linked changed (inserted id key tid shape) := Pooled.represents outcome
        refine ⟨⟨_, _, done, grown⟩, ?_⟩
        simp [done.balanced_iff, grown]
      | true =>
        rintro ⟨⟨stale, misparented⟩, wrong⟩
        refine ⟨⟨_, _, misparented.represents, grown⟩, ?_⟩
        simp only [Bool.true_eq_false, or_self, iff_false]
        rintro ⟨shape', linked', -⟩
        exact Misparented.not_linked misparented.represents wrong linked'
  · intro id live
    obtain ⟨z, member, rfl⟩ := List.mem_map.mp live
    obtain ⟨path, left, right, rfl⟩ := exists_path_of_mem member
    obtain ⟨final, removed, outcome⟩ := pool.represents.remove_balanced_iff rules
    exact ⟨z.tid, final, removed, outcome⟩

/-- The tree of three entries obeys the rules, and both operations are decided on it. -/
theorem insert_remove_balanced_three :
    ∃ one two tree, RedBlackTree.new.init.insert 2 ⟨20⟩ = .ok (some (slotAt 0), one) ∧
      one.insert 1 ⟨10⟩ = .ok (some (slotAt 1), two) ∧
      two.insert 3 ⟨30⟩ = .ok (some (slotAt 2), tree) ∧
      (∀ key tid, ∃ id changed, tree.insert key tid = .ok (id, changed) ∧
        (∃ rule shape', Represents rule changed shape' ∧ Rules isRed shape') ∧
        (changed.Balanced ↔ tree.freeHead.isValid = false ∨ tree.insertRotates key = false)) ∧
      ∀ id ∈ slots threeEntries, ∃ tid changed, tree.remove id = .ok (some tid, changed) ∧
        (changed.Balanced ↔ tree.removalKeepsRules id = true) := by
  obtain ⟨one, two, tree, runOne, runTwo, runThree, pool⟩ := pooled_threeEntries
  exact ⟨one, two, tree, runOne, runTwo, runThree,
    insert_remove_balanced_iff pool rules_threeEntries⟩

/--
Removing a black leaf leaves a tree with unequal black heights.

Four insertions without a rotation and the removal of the last entry leave a black root over two black
leaves, which obeys the rules; removing one of the leaves breaks them.
-/
theorem remove_black_leaf :
    ∃ tree final, (do
        let (_, tree) ← RedBlackTree.new.init.insert 2 ⟨20⟩
        let (_, tree) ← tree.insert 1 ⟨10⟩
        let (_, tree) ← tree.insert 3 ⟨30⟩
        let (_, tree) ← tree.insert 4 ⟨40⟩
        let (_, tree) ← tree.remove (slotAt 3)
        return tree) = .ok tree ∧
      tree.Balanced ∧ tree.remove (slotAt 1) = .ok (some ⟨10⟩, final) ∧ ¬ final.Balanced := by
  obtain ⟨one, two, three, runOne, runTwo, runThree, pool⟩ := pooled_threeEntries
  rw [show (List.range' 3 1021).map slotAt = slotAt 3 :: (List.range' 4 1020).map slotAt from rfl]
    at pool
  obtain ⟨four, runFour, poolFour⟩ := pool.insert 4 ⟨40⟩
  -- The last entry is a red leaf below the right child of the root.
  have repFour : Linked four (plug [.right ⟨slotAt 2, 3, ⟨30⟩, .black⟩ .nil,
      .right ⟨slotAt 0, 2, ⟨20⟩, .black⟩ (.node ⟨slotAt 1, 1, ⟨10⟩, .black⟩ .nil .nil)]
      (.node ⟨slotAt 3, 4, ⟨40⟩, .red⟩ .nil .nil)) := Pooled.represents poolFour
  obtain ⟨child, five, only, runFive, linkedFive⟩ :=
    repFour.remove_spare (rules_inserted rules_threeEntries (slotAt 3) 4 ⟨40⟩) (.inl rfl)
  obtain rfl : child = .nil := by rcases only with ⟨-, rfl⟩ | ⟨-, rfl⟩ <;> rfl
  have repFive : Linked five (plug [.left ⟨slotAt 0, 2, ⟨20⟩, .black⟩
      (.node ⟨slotAt 2, 3, ⟨30⟩, .black⟩ .nil .nil)]
      (.node ⟨slotAt 1, 1, ⟨10⟩, .black⟩ .nil .nil)) := linkedFive
  have rulesFive : Rules isRed (plug [.left ⟨slotAt 0, 2, ⟨20⟩, .black⟩
      (.node ⟨slotAt 2, 3, ⟨30⟩, .black⟩ .nil .nil)]
      (.node ⟨slotAt 1, 1, ⟨10⟩, .black⟩ .nil .nil)) := by
    refine ⟨rfl, by simp [noRedPair_node, isRed], 2, ?_⟩
    simp [blackHeight_node, blackHeight_nil, weight, isRed]
  obtain ⟨child, final, only, removed, linked⟩ := repFive.remove_spare rulesFive (.inl rfl)
  obtain rfl : child = .nil := by rcases only with ⟨-, rfl⟩ | ⟨-, rfl⟩ <;> rfl
  refine ⟨five, final, ?_, repFive.balanced_iff.mpr rulesFive, removed, ?_⟩
  · rw [runOne]
    simp [runTwo, runThree, runFour, runFive]
  · rw [linked.balanced_iff, rules_splice_iff rulesFive only]
    simp [isRed]

end RedBlackTree

end TheoryKernel.Sched
