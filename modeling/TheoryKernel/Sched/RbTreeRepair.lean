import TheoryKernel.Sched.RbTreeInsert

/-! The repair after a deletion: it always ends, and it only rotates and paints. -/

namespace TheoryKernel.Sched

open LinkedTree LinkedList BinaryTree RedBlack

namespace RedBlackTree

variable {tree changed : RedBlackTree} {shape : BinaryTree Entry} {path : Path Entry}
  {a b p c : Entry} {left middle right : BinaryTree Entry}

/-- A state rebuilt into another linked tree with the same items in the same order. -/
structure Kept (tree : RedBlackTree) (shape : BinaryTree Entry) (changed : RedBlackTree)
    (shape' : BinaryTree Entry) : Prop extends Rebuilt exactParent tree shape changed shape' where
  items : items shape' = items shape

theorem Kept.refl (rep : Linked tree shape) : Kept tree shape tree shape :=
  ⟨.refl rep, rfl⟩

variable {sibling shape' : BinaryTree Entry} {rounds : Nat}

theorem Kept.trans {first second third : RedBlackTree} {shape'' : BinaryTree Entry}
    (one : Kept first shape second shape') (two : Kept second shape' third shape'') :
    Kept first shape third shape'' :=
  ⟨one.toRebuilt.trans two.toRebuilt, two.items.trans one.items⟩

theorem Kept.mirror (kept : Kept tree shape changed shape') :
    Kept tree.mirror shape.mirror changed.mirror shape'.mirror :=
  ⟨kept.toRebuilt.mirror, by
    have reversed := congrArg List.reverse kept.items
    simpa [Sched.items, inorder_mirror] using reversed⟩

theorem Represents.keptLeft (rep : Linked tree (plug path (.node a left (.node b middle right)))) :
    ∃ rotated, tree.rotateLeft a.id = .ok rotated ∧
      Kept tree (plug path (.node a left (.node b middle right)))
        rotated (plug path (.node b (.node a left middle) right)) := by
  obtain ⟨rotated, run, rebuilt, -⟩ := rep.rebuiltLeft (exactParent_fixes a.id) fun _ _ _ => rfl
  exact ⟨rotated, run, rebuilt, by simp [items_plug]⟩

theorem Represents.keptPaint (rep : Linked tree (plug path (.node a left right))) (color : Color) :
    ∃ painted, tree.setColor a.id color = .ok painted ∧
      Kept tree (plug path (.node a left right))
        painted (plug path (.node (a.paint color) left right)) := by
  obtain ⟨painted, run, -, rebuilt⟩ := rep.rebuiltPaint color
  exact ⟨painted, run, rebuilt, by simp [items_plug]⟩

theorem Represents.keptPaintRoot (rep : Linked tree (plug path shape)) (color : Color) :
    ∃ painted, tree.setColorIfValid (rootSlot shape) color = .ok painted ∧
      Kept tree (plug path shape) painted (plug path (paintRoot color shape)) := by
  cases shape with
  | nil => exact ⟨tree, by simp [setColorIfValid, modifyIfValid, slotLayout], .refl rep⟩
  | node entry left right =>
    obtain ⟨held, found, -⟩ := rep.cell_node
    obtain ⟨painted, run, kept⟩ := rep.keptPaint color
    refine ⟨painted, ?_, kept⟩
    have valid : (rootSlot (.node entry left right)).isValid = true := isValid_of_cell found
    rw [setColorIfValid, modifyIfValid, if_pos valid]
    exact run

theorem Represents.read_color {rule : ParentRule} (rep : Represents rule tree (plug path shape)) :
    tree.nodeColor (rootSlot shape) = .ok (if rootRed isRed shape then .red else .black) := by
  cases shape with
  | nil => simp [nodeColor, slotLayout]
  | node entry left right =>
    obtain ⟨held, found, -, -, color, -⟩ := rep.cell_node
    change tree.nodeColor entry.id = _
    rw [nodeColor, if_pos (isValid_of_cell found), node_of_cell found]
    cases shade : entry.color <;> simp [isRed, color, shade, Functor.map, Except.map]

theorem Represents.liftSiblingLeft (rep : Linked tree (plug (.left p sibling :: path) shape)) :
    ∃ changed p' sibling' path', tree.liftSiblingLeft p.id (rootSlot sibling) =
        .ok (changed, rootSlot sibling') ∧ p'.id = p.id ∧
      Kept tree (plug (.left p sibling :: path) shape)
        changed (plug (.left p' sibling' :: path') shape) ∧
      (isRed p' = true ∨ path' = path) := by
  have inSibling : Linked tree (plug (.right p shape :: path) sibling) := rep
  unfold RedBlackTree.liftSiblingLeft
  rw [inSibling.read_red, Exec.ok_bind]
  cases red : rootRed isRed sibling with
  | false => exact ⟨tree, p, sibling, path, rfl, rfl, .refl rep, .inr rfl⟩
  | true =>
    cases sibling with
    | nil => cases red
    | node w below beside =>
      obtain ⟨first, runFirst, keptFirst⟩ := inSibling.keptPaint .black
      have whole : Linked first (plug path (.node p shape (.node (w.paint .black) below beside))) :=
        keptFirst.represents
      obtain ⟨second, runSecond, keptSecond⟩ := whole.keptPaint .red
      obtain ⟨third, runThird, keptThird⟩ := keptSecond.represents.keptLeft
      have lowered : Linked third (plug (.left (w.paint .black) beside :: path)
          (.node (p.paint .red) shape below)) := keptThird.represents
      obtain ⟨held, found, -, -, -, -, -, link, -⟩ := lowered.cell_node
      refine ⟨third, p.paint .red, below, .left (w.paint .black) beside :: path, ?_, rfl,
        (keptFirst.trans keptSecond).trans keptThird, .inl rfl⟩
      change tree.setColor w.id .black >>= _ = _
      change second.rotateLeft p.id = _ at runThird
      change third.cell p.id = _ at found
      simp [runFirst, runSecond, runThird, node_of_cell found, link]

theorem Represents.turnSiblingLeft {w : Entry} {below beside : BinaryTree Entry}
    (rep : Linked tree (plug (.left p (.node w below beside) :: path) shape))
    (someRed : ¬ (rootRed isRed below = false ∧ rootRed isRed beside = false)) :
    ∃ changed w' below' beside', tree.turnSiblingLeft p.id w.id = .ok (changed, w'.id) ∧
      Kept tree (plug (.left p (.node w below beside) :: path) shape)
        changed (plug (.left p (.node w' below' beside') :: path) shape) := by
  have inSibling : Linked tree (plug (.right p shape :: path) (.node w below beside)) := rep
  obtain ⟨held, found, -, -, -, -, leftLink, rightLink, -⟩ := inSibling.cell_node
  have inBeside : Linked tree (plug (.right w below :: .right p shape :: path) beside) := rep
  unfold RedBlackTree.turnSiblingLeft
  rw [node_of_cell found, Exec.ok_bind, rightLink, inBeside.read_color, Exec.ok_bind]
  cases outer : rootRed isRed beside with
  | true => exact ⟨tree, w, below, beside, rfl, .refl rep⟩
  | false =>
    cases below with
    | nil => exact absurd ⟨rfl, outer⟩ someRed
    | node inner near far =>
      have inBelow : Linked tree (plug (.left w beside :: .right p shape :: path)
          (.node inner near far)) := rep
      obtain ⟨first, runFirst, keptFirst⟩ := inBelow.keptPaintRoot .black
      have back : Linked first (plug (.right p shape :: path)
          (.node w (.node (inner.paint .black) near far) beside)) := keptFirst.represents
      obtain ⟨second, runSecond, keptSecond⟩ := back.keptPaint .red
      obtain ⟨third, runThird, turned, -⟩ :=
        keptSecond.represents.rebuiltRight (exactParent_fixes _) fun _ _ _ => rfl
      have above : Linked third (plug path (.node p shape
          (.node (inner.paint .black) near (.node (w.paint .red) far beside)))) :=
        turned.represents
      obtain ⟨parentHeld, foundParent, -, -, -, -, -, link, -⟩ := above.cell_node
      refine ⟨third, inner.paint .black, near, .node (w.paint .red) far beside, ?_,
        (keptFirst.trans keptSecond).trans ⟨turned, by simp [items_plug]⟩⟩
      change second.rotateRight w.id = _ at runThird
      change tree.setColorIfValid inner.id .black = _ at runFirst
      change held.left = inner.id at leftLink
      change parentHeld.right = inner.id at link
      simp [leftLink, runFirst, runSecond, runThird, node_of_cell foundParent, link]

/-- What a round of the deletion repair leaves for the next one, at the end of a path. -/
inductive Next (path : Path Entry) (changed : RedBlackTree) (shape : BinaryTree Entry) :
    Option RbNodeId → Prop
  /-- The repair stops here. -/
  | stop : Next path changed shape none
  /-- The repair goes on at a slot where it has nothing more to do. -/
  | last {id : RbNodeId} (member : id ∈ slots shape)
      (done : id = changed.root ∨ changed.nodeColor id = .ok .red) : Next path changed shape (some id)
  /-- The repair goes on one level higher. -/
  | up {entry : Entry} {left right : BinaryTree Entry}
      (here : shape = plug path (.node entry left right)) : Next path changed shape (some entry.id)

theorem Represents.fixDeleteLeft (x : RbNodeId)
    (rep : Linked tree (plug (.left p sibling :: path) shape)) :
    ∃ changed next shape', tree.fixDeleteLeft x p.id = .ok (changed, next) ∧
      Kept tree (plug (.left p sibling :: path) shape) changed shape' ∧
      Next path changed shape' next := by
  obtain ⟨parentHeld, foundParent, -, -, -, siblingLink⟩ := rep.cell_step
  obtain ⟨first, p', sibling', path', runFirst, sameParent, keptFirst, lifted⟩ :=
    rep.liftSiblingLeft
  unfold RedBlackTree.fixDeleteLeft
  rw [Step.value_left] at foundParent
  rw [node_of_cell foundParent, Exec.ok_bind, siblingLink]
  simp only [runFirst, Exec.ok_bind]
  cases sibling' with
  | nil => exact ⟨first, none, _, by simp [slotLayout], keptFirst, .stop⟩
  | node w below beside =>
    have repFirst := keptFirst.represents
    have inSibling : Linked first (plug (.right p' shape :: path') (.node w below beside)) := repFirst
    obtain ⟨held, found, -, -, -, -, leftLink, rightLink, -⟩ := inSibling.cell_node
    have valid : (rootSlot (.node w below beside)).isValid = true := isValid_of_cell found
    have inBelow : Linked first (plug (.left w beside :: .right p' shape :: path') below) := repFirst
    have inBeside : Linked first (plug (.right w below :: .right p' shape :: path') beside) := repFirst
    have foundRoot : first.cell (rootSlot (.node w below beside)) = some held := found
    simp only [valid, Bool.not_true, Bool.false_eq_true, if_false, node_of_cell foundRoot,
      Exec.ok_bind, leftLink, rightLink, inBelow.read_color, inBeside.read_color]
    by_cases black : rootRed isRed below = false ∧ rootRed isRed beside = false
    · -- Both nephews are black: the sibling is painted red and the parent takes over.
      obtain ⟨painted, paint, keptPaint⟩ := inSibling.keptPaint .red
      have atParent : plug (.right p' shape :: path') (.node (w.paint .red) below beside) =
          plug path' (.node p' shape (.node (w.paint .red) below beside)) := rfl
      refine ⟨painted, some p.id, _, ?_, keptFirst.trans keptPaint, ?_⟩
      · rw [black.1, black.2]
        simp only [Bool.false_eq_true, if_false, and_self, if_true]
        change first.setColor w.id .red >>= _ = _
        rw [paint]
        rfl
      · rw [← sameParent]
        rcases lifted with red | same
        · -- After a lift the parent is red, so the next round ends at once.
          have top := keptPaint.represents
          rw [atParent] at top
          have color : painted.nodeColor p'.id = .ok (if isRed p' then .red else .black) :=
            top.read_color
          rw [red, if_pos rfl] at color
          refine .last ?_ (.inr color)
          simp [atParent]
        · subst same
          exact .up atParent
    · -- Some nephew is red: a final rotation about the parent ends the repair at the root.
      obtain ⟨second, w', below', beside', runSecond, keptSecond⟩ := repFirst.turnSiblingLeft black
      have inTurned : Linked second (plug (.right p' shape :: path') (.node w' below' beside')) :=
        keptSecond.represents
      have atParent : Linked second (plug path' (.node p' shape (.node w' below' beside'))) :=
        keptSecond.represents
      obtain ⟨turnedHeld, foundTurned, -⟩ := inTurned.cell_node
      obtain ⟨held', found', -⟩ := atParent.cell_node
      obtain ⟨third, runThird, keptThird⟩ := inTurned.keptPaint held'.color
      have atParent' : Linked third (plug path' (.node p' shape
          (.node (w'.paint held'.color) below' beside'))) := keptThird.represents
      obtain ⟨fourth, runFourth, keptFourth⟩ := atParent'.keptPaint .black
      have inBeside' : Linked fourth (plug (.right (w'.paint held'.color) below' ::
          .right (p'.paint .black) shape :: path') beside') := keptFourth.represents
      have inPainted : Linked fourth (plug (.right (p'.paint .black) shape :: path')
          (.node (w'.paint held'.color) below' beside')) := keptFourth.represents
      obtain ⟨paintedHeld, foundPainted, -, -, -, -, -, outerLink, -⟩ := inPainted.cell_node
      obtain ⟨fifth, runFifth, keptFifth⟩ := inBeside'.keptPaintRoot .black
      have ready : Linked fifth (plug path' (.node (p'.paint .black) shape
          (.node (w'.paint held'.color) below' (paintRoot .black beside')))) := keptFifth.represents
      obtain ⟨sixth, runSixth, keptSixth⟩ := ready.keptLeft
      refine ⟨sixth, some sixth.root, _, ?_, keptFirst.trans (keptSecond.trans (keptThird.trans
        (keptFourth.trans (keptFifth.trans keptSixth)))), ?_⟩
      · rw [if_neg (by simpa using black)]
        change first.turnSiblingLeft p'.id w.id = _ at runSecond
        change fourth.cell w'.id = _ at foundPainted
        change fifth.rotateLeft p'.id = _ at runSixth
        change (first.turnSiblingLeft p.id w.id >>= _) = _
        rw [← sameParent, runSecond]
        simp only [Exec.ok_bind, isValid_of_cell foundTurned, if_true, node_of_cell found', runThird,
          runFourth, node_of_cell foundPainted, outerLink, runFifth, runSixth, Exec.pure_eq]
      · refine .last ?_ (.inl rfl)
        rw [keptSixth.represents.root]
        exact rootSlot_mem (plug_node_ne_nil _ _ _ _)

theorem liftSiblingRight_eq_mirror (parent w : RbNodeId) :
    tree.liftSiblingRight parent w =
      Prod.map mirror id <$> tree.mirror.liftSiblingLeft parent w := by
  unfold liftSiblingRight RedBlackTree.liftSiblingLeft
  rw [isRedIfValid_mirror, map_bind]
  refine bind_congr fun red => ?_
  cases red with
  | false => rfl
  | true =>
    simp only [if_true, setColor_mirror, rotateRight_eq_mirror, node_mirror, bind_map_left, map_bind,
      map_pure]
    rfl

theorem turnSiblingRight_eq_mirror (parent w : RbNodeId) :
    tree.turnSiblingRight parent w =
      Prod.map mirror id <$> tree.mirror.turnSiblingLeft parent w := by
  unfold turnSiblingRight RedBlackTree.turnSiblingLeft
  simp only [node_mirror, nodeColor_mirror, bind_map_left, map_bind]
  refine bind_congr fun held => ?_
  change (tree.nodeColor held.left >>= _) = (tree.nodeColor held.left >>= _)
  refine bind_congr fun color => ?_
  cases color with
  | red => rfl
  | black =>
    simp only [if_true, setColor_mirror, setColorIfValid_mirror, rotateRight_eq_mirror, node_mirror,
      bind_map_left, map_bind, mirror_mirror, map_pure]
    rfl

theorem fixDeleteRight_eq_mirror (x parent : RbNodeId) :
    tree.fixDeleteRight x parent =
      Prod.map mirror id <$> tree.mirror.fixDeleteLeft x parent := by
  unfold fixDeleteRight RedBlackTree.fixDeleteLeft
  simp only [node_mirror, bind_map_left, map_bind, liftSiblingRight_eq_mirror]
  refine bind_congr fun held => bind_congr fun lifted => ?_
  obtain ⟨state, w⟩ := lifted
  simp only [Prod.map, id]
  by_cases valid : w.isValid = true
  · simp only [valid, Bool.not_true, Bool.false_eq_true, if_false, node_mirror, nodeColor_mirror,
      bind_map_left, map_bind]
    refine bind_congr fun first => bind_congr fun near => bind_congr fun second =>
      bind_congr fun far => ?_
    rw [apply_ite (Prod.map mirror id <$> ·)]
    refine ite_congr rfl (fun _ => ?_) fun _ => ?_
    · rw [setColor_mirror, bind_map_left, map_bind]
      rfl
    · rw [turnSiblingRight_eq_mirror, mirror_mirror, bind_map_left, map_bind]
      refine bind_congr fun turned => ?_
      obtain ⟨state', w'⟩ := turned
      simp only [Prod.map, id]
      split
      · simp only [node_mirror, setColor_mirror, setColorIfValid_mirror, rotateRight_eq_mirror,
          bind_map_left, map_bind, mirror_mirror, map_pure]
        rfl
      · rfl
  · simp only [valid, Bool.not_false, if_true]
    rfl

theorem Next.mirror {next : Option RbNodeId} (step : Next path changed shape next) :
    Next (mirrorPath path) changed.mirror shape.mirror next := by
  cases step with
  | stop => exact .stop
  | last member done =>
    refine .last (by simpa [slots, inorder_mirror] using member) ?_
    rwa [nodeColor_mirror]
  | @up entry left right here =>
    have turned : shape.mirror = plug (mirrorPath path) (.node entry right.mirror left.mirror) := by
      rw [here, mirror_plug, mirror_node]
    exact .up turned

theorem Represents.fixDeleteRight (x : RbNodeId)
    (rep : Linked tree (plug (.right p sibling :: path) shape)) :
    ∃ changed next shape', tree.fixDeleteRight x p.id = .ok (changed, next) ∧
      Kept tree (plug (.right p sibling :: path) shape) changed shape' ∧
      Next path changed shape' next := by
  have mirrored := rep.mirror
  rw [mirror_plug, mirrorPath_cons] at mirrored
  obtain ⟨changed, next, shape', run, kept, step⟩ := mirrored.fixDeleteLeft x
  refine ⟨changed.mirror, next, shape'.mirror, ?_, ?_, ?_⟩
  · rw [fixDeleteRight_eq_mirror, run]
    rfl
  · have back := kept.mirror
    simpa [mirror_plug, mirrorPath_cons] using back
  · have back := step.mirror
    simpa using back

theorem fixDeleteLoop_done {x : RbNodeId} (done : x = tree.root ∨ tree.nodeColor x = .ok .red) :
    fixDeleteLoop (rounds + 1) tree x = .ok (tree, x) := by
  rw [fixDeleteLoop]
  rcases done with root | red
  · rw [if_pos root]
    rfl
  · by_cases root : x = tree.root
    · rw [if_pos root]
      rfl
    · by_cases valid : x.isValid = true
      · simp [root, valid, red]
      · simp [root, valid]

theorem fixDeleteLoop_spec (rep : Linked tree (plug path (.node c left right)))
    (enough : path.length + 1 ≤ rounds) :
    ∃ changed x shape', fixDeleteLoop (rounds + 1) tree c.id = .ok (changed, x) ∧
      Kept tree (plug path (.node c left right)) changed shape' ∧ x ∈ slots shape' := by
  -- The induction is on the path, which is one step shorter after a round that moves up.
  induction path generalizing tree c left right rounds with
  | nil => exact ⟨tree, c.id, _, fixDeleteLoop_done (Or.inl rep.root.symm), Kept.refl rep, by simp⟩
  | cons step path ih =>
    obtain ⟨rounds, rfl⟩ : ∃ before, rounds = before + 1 := ⟨rounds - 1, by omega⟩
    rw [List.length_cons] at enough
    obtain ⟨held, found, -, -, color, -, -, -, up⟩ := rep.cell_node
    have inTree : c.id ∈ slots (plug (step :: path) (.node c left right)) :=
      mem_slots_plug.mpr (Or.inr (by simp))
    by_cases black : c.color = .black
    · change held.parent = step.value.id at up
      obtain ⟨stepHeld, foundStep, -, -, links⟩ := rep.cell_step
      -- One round runs on the side of the node, and both sides leave the same kind of rest.
      have round : ∃ first next shape', (if stepHeld.left = c.id then
            tree.fixDeleteLeft c.id step.value.id else tree.fixDeleteRight c.id step.value.id) =
            .ok (first, next) ∧
          Kept tree (plug (step :: path) (.node c left right)) first shape' ∧
          Next path first shape' next := by
        cases step with
        | left value sibling =>
          have link : stepHeld.left = c.id := links.1
          rw [if_pos link]
          exact rep.fixDeleteLeft c.id
        | right value sibling =>
          have away : ¬ stepHeld.left = c.id := links.1 ▸ rep.sibling_ne
          rw [if_neg away]
          exact rep.fixDeleteRight c.id
      obtain ⟨first, next, shape', run, kept, rest⟩ := round
      have unfolded : fixDeleteLoop (rounds + 1 + 1) tree c.id =
          next.elim (.ok (first, c.id)) (fixDeleteLoop (rounds + 1) first) := by
        rw [fixDeleteLoop, if_neg rep.root_ne]
        simp only [isValid_of_cell found, nodeColor, node_of_cell found, Bool.not_true,
          Bool.false_eq_true, if_false, if_true, Functor.map, Except.map, Exec.ok_bind, color, black,
          ne_eq, not_true_eq_false, up, isValid_of_cell foundStep, node_of_cell foundStep]
        split at run <;> rename_i side <;>
          cases next <;> simp [side, run]
      rw [unfolded]
      have inKept := kept.sameSlots.mem_iff.mpr inTree
      cases rest with
      | stop => exact ⟨first, c.id, shape', rfl, kept, inKept⟩
      | last member done => exact ⟨first, _, shape', fixDeleteLoop_done done, kept, member⟩
      | up here =>
        subst here
        obtain ⟨changed, x, shape'', rest, keptRest, member⟩ :=
          ih kept.represents (Nat.le_of_succ_le_succ enough)
        exact ⟨changed, x, shape'', rest, kept.trans keptRest, member⟩
    · have red : tree.nodeColor c.id = .ok .red := by
        rw [nodeColor, if_pos (isValid_of_cell found), node_of_cell found]
        cases shade : c.color with
        | red => simp [Functor.map, Except.map, color, shade]
        | black => exact absurd shade black
      exact ⟨tree, c.id, _, fixDeleteLoop_done (.inr red), .refl rep, inTree⟩

/-- The repair at an absent node does nothing. -/
theorem fixDelete_invalid : tree.fixDelete .invalid = .ok tree := by
  have stop : fixDeleteLoop loopBudget tree .invalid = .ok (tree, .invalid) := by
    rw [loopBudget, fixDeleteLoop]
    split <;> rfl
  rw [fixDelete, stop]
  rfl

/-- The repair at a red node only paints it black. -/
theorem Represents.fixDelete_red (rep : Linked tree (plug path shape))
    (red : rootRed isRed shape = true) :
    ∃ changed, tree.fixDelete (rootSlot shape) = .ok changed ∧
      Kept tree (plug path shape) changed (plug path (paintRoot .black shape)) := by
  obtain ⟨changed, run, kept⟩ := rep.keptPaintRoot .black
  have color := rep.read_color
  rw [red, if_pos rfl] at color
  refine ⟨changed, ?_, kept⟩
  rw [fixDelete, loopBudget, fixDeleteLoop_done (.inr color), Exec.ok_bind]
  exact run

/-- The repair at any node of a linked tree returns and keeps the items. -/
theorem Represents.fixDelete (rep : Linked tree (plug path shape)) :
    ∃ changed shape', tree.fixDelete (rootSlot shape) = .ok changed ∧
      Kept tree (plug path shape) changed shape' := by
  cases shape with
  | nil => exact ⟨tree, _, fixDelete_invalid, .refl rep⟩
  | node entry left right =>
    have room := rep.path_lt
    simp only [slots_node, List.length_append, List.length_cons, loopBudget] at room
    obtain ⟨first, x, shape', run, kept, member⟩ :=
      fixDeleteLoop_spec rep (show path.length + 1 ≤ maxRbNodes by omega)
    obtain ⟨value, inside, rfl⟩ := List.mem_map.mp member
    obtain ⟨path', below, beside, rfl⟩ := exists_path_of_mem inside
    obtain ⟨changed, paint, painted⟩ := kept.represents.keptPaintRoot .black
    refine ⟨changed, _, ?_, kept.trans painted⟩
    change RedBlackTree.fixDelete tree entry.id = _
    rw [RedBlackTree.fixDelete, loopBudget, run, Exec.ok_bind]
    exact paint

end RedBlackTree

end TheoryKernel.Sched
