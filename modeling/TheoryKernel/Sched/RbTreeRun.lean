import TheoryKernel.Sched.RbTreeDelete
import TheoryKernel.Lib.Runs

/-! Whole runs of the run-queue tree against the multiset of entries it stands for. -/

namespace TheoryKernel.Sched

open LinkedTree LinkedList BinaryTree RedBlack RedBlackTree

/-- One entry of the run queue: its slot, its key and its thread. -/
abbrev Item := RbNodeId × UInt64 × Tid

/-- An operation of the scheduler on its run queue. -/
inductive QueueOp where
  | insert (key : UInt64) (tid : Tid)
  | remove (id : RbNodeId)

/-- A tree together with the entries inserted and not yet removed, in the order of insertion. -/
structure QueueState where
  tree : RedBlackTree
  live : List Item

namespace QueueState

/-- The state of an initialised run queue. -/
def start (tree : RedBlackTree) : QueueState := ⟨tree.init, []⟩

/-- One operation on the tree, recorded in the list of entries. -/
def step (state : QueueState) : QueueOp → Exec QueueState
  | .insert key tid => do
    match ← state.tree.insert key tid with
    | (some id, tree) => return ⟨tree, state.live ++ [(id, key, tid)]⟩
    | (none, tree) => return ⟨tree, state.live⟩
  | .remove id => do
    let (_, tree) ← state.tree.remove id
    return ⟨tree, state.live.filter fun item => item.1 ≠ id⟩

/-- The operations of the scheduler: it inserts while there is room and removes live entries. -/
def admissible (state : QueueState) : QueueOp → Bool
  | .insert _ _ => state.live.length < maxRbNodes
  | .remove id => (state.live.map (·.1)).contains id

/-- An operation that neither rotates on insertion nor removes a node with two children. -/
def plain (state : QueueState) : QueueOp → Bool
  | .insert key _ => !state.tree.insertRotates key
  | .remove id => !state.tree.hasTwoChildren id

/-- An operation of the scheduler that is also plain. -/
def admissiblePlain (state : QueueState) (op : QueueOp) : Bool := state.admissible op && state.plain op

/-- The entry of least key, the earliest inserted one among equals. -/
def leastItem (live : List Item) : Option Item :=
  live.find? fun item => live.all fun other => item.2.1 ≤ other.2.1

/-- The tree stands for its live entries, and its slots are accounted for. -/
structure Refines (state : QueueState) : Prop where
  /-- The least entry is the earliest one of least key. -/
  min_eq : state.tree.min =
    .ok ((leastItem state.live).map fun item => (item.1, item.2.2, item.2.1))
  /-- The slots in use hold exactly the live entries. -/
  live_iff : ∀ item : Item, item ∈ state.live ↔ ∃ held, state.tree.cell item.1 = some held ∧
    held.inUse = true ∧ held.key = item.2.1 ∧ held.tid = item.2.2
  /-- The slots in use are exactly the reachable ones. -/
  inUse_iff : ∀ id held, state.tree.cell id = some held →
    (held.inUse = true ↔ Reachable state.tree id)
  /-- The free list holds exactly the other slots, each once. -/
  free : ∃ free, FreeList state.tree free ∧ free.Nodup ∧
    ∀ id held, state.tree.cell id = some held → (id ∈ free ↔ held.inUse = false)

end QueueState

theorem descend_keys {shape : BinaryTree Entry} (path : Path Entry) (key : UInt64)
    (sorted : shape.inorder.Pairwise fun first second => first.key ≤ second.key)
    (low : ∀ entry ∈ before path, entry.key ≤ key) (high : ∀ entry ∈ after path, key < entry.key) :
    (∀ entry ∈ before (descend key shape path), entry.key ≤ key) ∧
      ∀ entry ∈ after (descend key shape path), key < entry.key := by
  -- Each turn of the descent puts a root and one of its subtrees on the side it belongs to.
  induction shape generalizing path with
  | nil => exact ⟨low, high⟩
  | node entry left right ihLeft ihRight =>
    rw [inorder_node, List.pairwise_append, List.pairwise_cons] at sorted
    obtain ⟨sortedLeft, ⟨rightAbove, sortedRight⟩, leftBelow⟩ := sorted
    unfold descend
    split
    · rename_i less
      refine ihLeft _ sortedLeft low fun other member => ?_
      simp only [after, List.cons_append, List.mem_cons, List.mem_append] at member
      rcases member with rfl | inRight | far
      · exact less
      · exact UInt64.lt_of_lt_of_le less (rightAbove other inRight)
      · exact high other far
    · rename_i notLess
      have reached : entry.key ≤ key := UInt64.not_lt.mp notLess
      refine ihRight _ sortedRight (fun other member => ?_) high
      simp only [before, List.mem_append, List.mem_singleton] at member
      rcases member with far | inLeft | rfl
      · exact low other far
      · exact UInt64.le_trans (leftBelow other inLeft entry (by simp)) reached
      · exact reached

theorem items_inserted {shape : BinaryTree Entry} (id : RbNodeId) (key : UInt64) (tid : Tid)
    (sorted : (items shape).Pairwise fun first second => first.2.1 ≤ second.2.1) :
    ∃ low high, items shape = low ++ high ∧
      items (inserted id key tid shape) = low ++ (id, key, tid) :: high ∧
      (∀ item ∈ low, item.2.1 ≤ key) ∧ ∀ item ∈ high, key < item.2.1 := by
  have joined := plug_descend key shape []
  rw [plug_nil] at joined
  have keys := List.pairwise_map.mp sorted
  obtain ⟨lowKeys, highKeys⟩ := descend_keys [] key keys (by simp [before]) (by simp [after])
  refine ⟨(before (descend key shape [])).map Entry.item, (after (descend key shape [])).map Entry.item,
    ?_, ?_, List.forall_mem_map.mpr lowKeys, List.forall_mem_map.mpr highKeys⟩
  · have reads := items_plug (descend key shape []) .nil
    rwa [joined] at reads
  · rw [inserted, items_paintRoot, items_climb, items_plug]
    simp [Entry.item]

namespace QueueState

/-- Keys in order from left to right. -/
def Sorted (listed : List Item) : Prop := listed.Pairwise fun first second => first.2.1 ≤ second.2.1

/-- The items of one key, in the order of the list. -/
def ofKey (key : UInt64) (listed : List Item) : List Item :=
  listed.filter fun item => item.2.1 = key

/--
The invariant of plain runs.

The tree is linked and accounts for all slots, it holds the live entries sorted by key, and entries of
one key stand in the order of their insertion.
-/
structure Invariant (state : QueueState) (shape : BinaryTree Entry) (free : List RbNodeId) :
    Prop where
  pool : Pooled exactParent state.tree shape free
  sorted : Sorted (items shape)
  stable : ∀ key, ofKey key (items shape) = ofKey key state.live

variable {state next : QueueState} {shape : BinaryTree Entry} {free : List RbNodeId}

theorem mem_iff_of_stable {listed live : List Item}
    (stable : ∀ key, ofKey key listed = ofKey key live) (item : Item) :
    item ∈ listed ↔ item ∈ live := by
  have same := congrArg (item ∈ ·) (stable item.2.1)
  simpa [ofKey] using same

section

variable (inv : Invariant state shape free)

include inv

theorem Invariant.perm :
    (items shape).Perm state.live := by
  refine List.perm_iff_count.mpr fun item => ?_
  have same := congrArg (List.count item) (inv.stable item.2.1)
  rwa [ofKey, ofKey, List.count_filter (by simp), List.count_filter (by simp)] at same

theorem Invariant.exists_free (room : state.live.length < maxRbNodes) :
    ∃ id rest, free = id :: rest := by
  -- The tree and the free list hold all slots, and the tree does not hold all of them.
  have all : ((List.range' 0 maxRbNodes).map slotAt).length ≤
      (slots shape ++ free).length := by
    have start := pooled_init state.tree
    refine (List.Nodup.subperm start.nodup fun id member => ?_).length_le
    obtain ⟨held, found, -⟩ := start.unused id member
    obtain ⟨before, here⟩ := exists_cell_of_cell found state.tree
    exact inv.pool.complete id before here
  have stored : (slots shape).length = state.live.length := by
    rw [slots_eq_map_items, List.length_map, inv.perm.length_eq]
  cases free with
  | nil =>
    simp only [List.length_map, List.length_range', List.append_nil] at all
    omega
  | cons id rest => exact ⟨id, rest, rfl⟩

theorem Invariant.insert {key : UInt64} (tid : Tid)
    (room : state.live.length < maxRbNodes) (plain : state.tree.insertRotates key = false) :
    ∃ next, state.step (.insert key tid) = .ok next ∧ ∃ shape' free', Invariant next shape' free' := by
  obtain ⟨id, rest, rfl⟩ := inv.exists_free room
  obtain ⟨changed, run, outcome⟩ := inv.pool.insert key tid
  rw [inv.pool.represents.insertRotates_eq] at plain
  rw [plain] at outcome
  obtain ⟨low, high, before, after, lowKeys, highKeys⟩ :=
    items_inserted id key tid inv.sorted
  refine ⟨⟨changed, state.live ++ [(id, key, tid)]⟩, ?_, inserted id key tid shape, rest,
    outcome, ?_, fun other => ?_⟩
  · simp only [step, run, Exec.ok_bind, Exec.pure_eq]
  · have old := inv.sorted
    rw [before, Sorted, List.pairwise_append] at old
    rw [after, Sorted, List.pairwise_append, List.pairwise_cons]
    refine ⟨old.1, ⟨fun item member => UInt64.le_of_lt (highKeys item member), old.2.1⟩, ?_⟩
    intro first inLow second inHigh
    rcases List.mem_cons.mp inHigh with rfl | inHigh
    · exact lowKeys first inLow
    · exact old.2.2 first inLow second inHigh
  · have old := inv.stable other
    rw [before, ofKey, List.filter_append] at old
    rw [after, ofKey, List.filter_append, List.filter_cons, ofKey, List.filter_append]
    by_cases same : key = other
    · -- Entries of the new key all stand before it, in the tree as in the list.
      have none : high.filter (fun item => item.2.1 = other) = [] := by
        refine List.filter_eq_nil_iff.mpr fun item member equal => ?_
        have greater := highKeys item member
        rw [same, of_decide_eq_true equal] at greater
        exact UInt64.lt_irrefl _ greater
      rw [none, List.append_nil] at old
      simp [same, none, old, ofKey]
    · simp only [same, decide_false, Bool.false_eq_true, if_false, List.filter_nil, List.filter_cons,
        List.append_nil, old, ofKey]

theorem Invariant.remove {id : RbNodeId} (live : id ∈ state.live.map (·.1))
    (plain : state.tree.hasTwoChildren id = false) :
    ∃ next, state.step (.remove id) = .ok next ∧ ∃ shape' free', Invariant next shape' free' := by
  have inTree : id ∈ slots shape := by
    rw [slots_eq_map_items]
    obtain ⟨item, member, rfl⟩ := List.mem_map.mp live
    exact List.mem_map_of_mem ((mem_iff_of_stable inv.stable _).mpr member)
  obtain ⟨z, member, rfl⟩ := List.mem_map.mp inTree
  obtain ⟨path, left, right, rfl⟩ := exists_path_of_mem member
  have rep := inv.pool.represents
  have atMostOne : left = .nil ∨ right = .nil := by
    rw [← Bool.not_eq_true, rep.hasTwoChildren_iff] at plain
    tauto
  obtain ⟨final, shape', removed, linked, same, head, ⟨held, found, link, unused⟩, outside⟩ :=
    rep.remove_one atMostOne
  have shrunk : (slots (plug path (.node z left right))).Perm (z.id :: slots shape') := by
    rw [slots_eq_map_items shape', same, rep.items_without, slots_eq_map_items, items_plug, items_node]
    simp only [List.map_append, List.map_cons, List.append_assoc, List.cons_append]
    refine List.Perm.trans ?_ List.perm_middle
    exact List.Perm.append_left _ List.perm_middle
  have keep : ∀ other ∈ free, final.cell other = state.tree.cell other := fun other inFree =>
    outside other fun inside => (List.nodup_append.mp inv.pool.nodup).2.2 other inside other inFree rfl
  refine ⟨⟨final, state.live.filter fun item => item.1 ≠ z.id⟩, ?_, shape', z.id :: free,
    inv.pool.shrink linked shrunk head found link unused keep, ?_, fun key => ?_⟩
  · simp only [step, removed, Exec.ok_bind, Exec.pure_eq]
  · rw [same]
    exact inv.sorted.filter _
  · have old := congrArg (List.filter fun item => item.1 ≠ z.id) (inv.stable key)
    rw [same]
    simp only [ofKey, List.filter_filter, Bool.and_comm] at old ⊢
    exact old

theorem Invariant.min_eq_head :
    state.tree.min = .ok ((items shape).head?.map fun item => (item.1, item.2.2, item.2.1)) := by
  have rep := inv.pool.represents
  cases shape with
  | nil =>
    have empty : state.tree.root = .invalid := rep.root
    simp [RedBlackTree.min, empty]
  | node entry left right =>
    have whole : Linked state.tree (plug [] (.node entry left right)) := rep
    obtain ⟨lefts, first, beyond, joined, none, walk⟩ := whole.leftmost_eq whole.height_le
    have root : state.tree.root = entry.id := rep.root
    have valid : state.tree.root.isValid = true := by
      rw [rep.root]
      exact whole.rootSlot_valid.mpr (by simp)
    have inside : Linked state.tree (plug lefts (.node first .nil beyond)) := by
      rw [joined]
      exact rep
    obtain ⟨held, found, key, tid, -⟩ := inside.cell_node
    rw [← joined, items_plug, none]
    rw [RedBlackTree.min, valid, root, walk]
    simp [node_of_cell found, key, tid, Entry.item]

end

theorem leastItem_eq_head {listed live : List Item} (sorted : Sorted listed)
    (stable : ∀ key, ofKey key listed = ofKey key live) : leastItem live = listed.head? := by
  have members := mem_iff_of_stable stable
  cases listed with
  | nil =>
    cases live with
    | nil => rfl
    | cons item rest => exact absurd ((members item).mpr (by simp)) (by simp)
  | cons first rest =>
    have least : ∀ item ∈ live, first.2.1 ≤ item.2.1 := by
      intro item member
      rcases List.mem_cons.mp ((members item).mpr member) with rfl | later
      · exact UInt64.le_refl _
      · exact (List.pairwise_cons.mp sorted).1 item later
    have inLive : first ∈ live := (members first).mp (by simp)
    -- An item is least exactly when it has the key of the first one.
    have test : ∀ item ∈ live, (live.all fun other => item.2.1 ≤ other.2.1) =
        decide (item.2.1 = first.2.1) := by
      intro item member
      rw [Bool.eq_iff_iff, List.all_eq_true, decide_eq_true_eq]
      constructor
      · intro below
        exact UInt64.le_antisymm (of_decide_eq_true (below first inLive)) (least item member)
      · intro same other inside
        rw [same]
        exact decide_eq_true (least other inside)
    have found := congrArg List.head? (stable first.2.1)
    rw [leastItem, ← List.head?_filter, List.filter_congr test, List.head?_cons]
    rw [ofKey, ofKey, List.filter_cons, if_pos (by simp), List.head?_cons] at found
    exact found.symm

theorem Invariant.refines (inv : Invariant state shape free) : Refines state where
  min_eq := by rw [inv.min_eq_head, leastItem_eq_head inv.sorted inv.stable]
  live_iff := by
    intro item
    rw [← mem_iff_of_stable inv.stable]
    constructor
    · intro member
      obtain ⟨entry, inside, rfl⟩ := List.mem_map.mp member
      obtain ⟨path, left, right, rfl⟩ := exists_path_of_mem inside
      obtain ⟨held, found, key, tid, -, used, -⟩ := inv.pool.represents.cell_node
      exact ⟨held, found, used, key, tid⟩
    · rintro ⟨held, found, used, key, tid⟩
      obtain ⟨entry, inside, same⟩ := List.mem_map.mp ((inv.pool.inUse_iff found).mp used)
      obtain ⟨path, left, right, rfl⟩ := exists_path_of_mem inside
      obtain ⟨held', found', key', tid', -⟩ := inv.pool.represents.cell_node
      rw [same] at found'
      cases found.symm.trans found'
      refine List.mem_map.mpr ⟨entry, inside, ?_⟩
      rw [Entry.item, same, ← key', ← tid', key, tid]
  inUse_iff := by
    intro id held found
    rw [inv.pool.represents.reachable_iff, inv.pool.inUse_iff found]
  free := by
    refine ⟨free, inv.pool.chain, (List.nodup_append.mp inv.pool.nodup).2.1, fun id held found => ?_⟩
    rw [← Bool.not_eq_true, inv.pool.inUse_iff found]
    constructor
    · exact fun inFree inside =>
        (List.nodup_append.mp inv.pool.nodup).2.2 id inside id inFree rfl
    · exact fun outside =>
        (List.mem_append.mp (inv.pool.complete id held found)).resolve_left outside

theorem Invariant.step (inv : Invariant state shape free) {op : QueueOp}
    (checked : state.admissiblePlain op = true) :
    ∃ next, state.step op = .ok next ∧ ∃ shape' free', Invariant next shape' free' := by
  rw [admissiblePlain, Bool.and_eq_true] at checked
  obtain ⟨allowed, direct⟩ := checked
  cases op with
  | insert key tid =>
    exact inv.insert tid (by simpa [admissible] using allowed) (by simpa [plain] using direct)
  | remove id =>
    exact inv.remove (by simpa [admissible] using allowed) (by simpa [plain] using direct)

/--
In every plain run no operation faults, and the tree stands for the live entries.

The operations of such a run insert while there is room and remove live entries; none of them rotates
on insertion or removes a node with two children.
-/
theorem plain_run_refines (tree : RedBlackTree) (ops : List QueueOp)
    (checked : Runs.everyStep step admissiblePlain (start tree) ops = true) :
    ∃ state, Runs.run step (start tree) ops = .ok state ∧ Refines state := by
  -- The invariant holds at the start and lasts through every plain operation.
  obtain ⟨state, run, shape, free, inv⟩ := Runs.run_returns
    (fun state => ∃ shape free, Invariant state shape free)
    (fun _ _ ⟨_, _, inv⟩ allowed => inv.step allowed)
    ⟨.nil, _, pooled_init tree, List.Pairwise.nil, fun _ => rfl⟩ checked
  exact ⟨state, run, inv.refines⟩

/-- A plain run that inserts four entries and removes two of them. -/
theorem plain_run_refines_six :
    ∃ state, Runs.run step (start new) [.insert 2 ⟨20⟩, .insert 1 ⟨10⟩, .insert 3 ⟨30⟩,
        .insert 3 ⟨31⟩, .remove (slotAt 3), .remove (slotAt 1)] = .ok state ∧
      Refines state :=
  plain_run_refines new _ (by decide)

/--
Four insertions in ascending order stop the machine.

The third one rotates and leaves a wrong parent link, and the fourth one follows it out of the array.
-/
theorem ascending_inserts_fault :
    Runs.everyStep step admissible (start new)
        [.insert 1 ⟨10⟩, .insert 2 ⟨20⟩, .insert 3 ⟨30⟩, .insert 4 ⟨40⟩] = true ∧
      Runs.run step (start new)
        [.insert 1 ⟨10⟩, .insert 2 ⟨20⟩, .insert 3 ⟨30⟩, .insert 4 ⟨40⟩] =
          .error .indexOutOfBounds :=
  ⟨by decide +kernel, Exec.fault?_eq_some.mp (by decide +kernel)⟩

end QueueState

end TheoryKernel.Sched
