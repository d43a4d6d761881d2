import TheoryKernel.Sched.RbTreeLinks
import TheoryKernel.Lib.Chain

/-! The slots of the run-queue tree that are not in the tree, and the free list through them. -/

namespace TheoryKernel.Sched

open LinkedTree LinkedList BinaryTree List

/-- A link, unless it names no slot. -/
def RbNodeId.toOption (id : RbNodeId) : Option RbNodeId := if id.isValid then some id else none

@[simp] theorem RbNodeId.toOption_invalid : RbNodeId.invalid.toOption = none := rfl

theorem RbNodeId.toOption_of_valid {id : RbNodeId} (valid : id.isValid = true) :
    id.toOption = some id := if_pos valid

theorem RbNodeId.toOption_eq_none {id : RbNodeId} : id.toOption = none ↔ id.isValid = false := by
  simp [toOption]

theorem RbNodeId.toOption_eq_some {id other : RbNodeId} :
    id.toOption = some other ↔ id.isValid = true ∧ id = other := by
  simp [toOption]

namespace RedBlackTree

variable {rule : ParentRule} {tree changed : RedBlackTree} {shape shape' : BinaryTree Entry}
  {free : List RbNodeId} {id : RbNodeId}

/-- The slots on the free list, which is threaded through left links. -/
def FreeList (tree : RedBlackTree) (free : List RbNodeId) : Prop :=
  Chain tree.cell (fun held => held.left.toOption) tree.freeHead.toOption free

/-- The slots that can be reached from the root along child links. -/
inductive Reachable (tree : RedBlackTree) : RbNodeId → Prop
  | root : tree.root.isValid = true → Reachable tree tree.root
  | left {id : RbNodeId} {held : RbNode} : Reachable tree id → tree.cell id = some held →
      held.left.isValid = true → Reachable tree held.left
  | right {id : RbNodeId} {held : RbNode} : Reachable tree id → tree.cell id = some held →
      held.right.isValid = true → Reachable tree held.right

/-- In a represented tree the reachable slots are those of the tree. -/
theorem Represents.reachable_iff (rep : Represents rule tree shape) :
    Reachable tree id ↔ id ∈ slots shape := by
  constructor
  · intro reachable
    induction reachable with
    | root valid =>
      rw [rep.root] at valid ⊢
      exact mem_of_rootSlot_valid valid
    | left _ found valid ih =>
      obtain ⟨entry, member, rfl⟩ := mem_map.mp ih
      obtain ⟨path, left, right, rfl⟩ := exists_path_of_mem member
      obtain ⟨held, here, -, -, -, -, leftLink, -⟩ := rep.cell_node
      cases found.symm.trans here
      rw [leftLink] at valid ⊢
      simp [mem_of_rootSlot_valid valid]
    | right _ found valid ih =>
      obtain ⟨entry, member, rfl⟩ := mem_map.mp ih
      obtain ⟨path, left, right, rfl⟩ := exists_path_of_mem member
      obtain ⟨held, here, -, -, -, -, -, rightLink, -⟩ := rep.cell_node
      cases found.symm.trans here
      rw [rightLink] at valid ⊢
      simp [mem_of_rootSlot_valid valid]
  · intro member
    obtain ⟨entry, inside, rfl⟩ := mem_map.mp member
    obtain ⟨path, left, right, rfl⟩ := exists_path_of_mem inside
    clear inside member
    -- Every slot is reached from the slot above it, so the induction is on the path.
    induction path generalizing entry left right with
    | nil =>
      obtain ⟨held, found, -⟩ := rep.cell_node
      have root : tree.root = entry.id := rep.root
      rw [← root]
      exact .root (root ▸ isValid_of_cell found)
    | cons step path ih =>
      obtain ⟨held, found, -⟩ := rep.cell_node
      obtain ⟨stepHeld, foundStep, -, -, links⟩ := rep.cell_step
      cases step with
      | left value sibling =>
        have above : Reachable tree value.id := ih value (.node entry left right) sibling rep
        have link : stepHeld.left = entry.id := links.1
        rw [← link]
        exact .left above foundStep (link ▸ isValid_of_cell found)
      | right value sibling =>
        have above : Reachable tree value.id := ih value sibling (.node entry left right) rep
        have link : stepHeld.right = entry.id := links.2
        rw [← link]
        exact .right above foundStep (link ▸ isValid_of_cell found)

variable {held : RbNode} {rule' : ParentRule} {position : Nat}

/-- Every slot is either in the tree or on the free list, and marked accordingly. -/
structure Pooled (rule : ParentRule) (tree : RedBlackTree) (shape : BinaryTree Entry)
    (free : List RbNodeId) : Prop where
  represents : Represents rule tree shape
  chain : FreeList tree free
  unused : ∀ id ∈ free, ∃ held, tree.cell id = some held ∧ held.inUse = false
  nodup : (slots shape ++ free).Nodup
  complete : ∀ id held, tree.cell id = some held → id ∈ slots shape ++ free

/-- A slot is in use exactly when it is in the tree. -/
theorem Pooled.inUse_iff (pool : Pooled rule tree shape free) (found : tree.cell id = some held) :
    held.inUse = true ↔ id ∈ slots shape := by
  rcases mem_append.mp (pool.complete id held found) with member | member
  · obtain ⟨same, here, used⟩ := pool.represents.exists_cell member
    cases found.symm.trans here
    simp [used, member]
  · obtain ⟨same, here, unused⟩ := pool.unused id member
    cases found.symm.trans here
    have outside : id ∉ slots shape := fun inside =>
      (nodup_append.mp pool.nodup).2.2 id inside id member rfl
    simp [unused, outside]

/-- Moving the first free slot into the tree. -/
theorem Pooled.extend {rest : List RbNodeId} (pool : Pooled rule tree shape (id :: rest))
    (found : tree.cell id = some held) (represents : Represents rule' changed shape')
    (grown : (slots shape').Perm (id :: slots shape)) (freeHead : changed.freeHead = held.left)
    (keep : ∀ other ∈ rest, changed.cell other = tree.cell other) :
    Pooled rule' changed shape' rest := by
  have moved : (slots shape' ++ rest).Perm (slots shape ++ id :: rest) :=
    (List.Perm.append_right rest grown).trans perm_middle.symm
  refine ⟨represents, ?_, fun other member => ?_, moved.nodup_iff.mpr pool.nodup, ?_⟩
  · obtain ⟨-, same, here, below⟩ := chain_cons.mp pool.chain
    cases found.symm.trans here
    rw [FreeList, freeHead]
    exact below.congr fun other member => by rw [keep other member]
  · rw [keep other member]
    exact pool.unused other (mem_cons_of_mem _ member)
  · intro other now here
    obtain ⟨before, there⟩ := exists_cell_of_cell here tree
    exact moved.mem_iff.mpr (pool.complete other before there)

/-- Moving a slot from the tree to the head of the free list. -/
theorem Pooled.shrink (pool : Pooled rule tree shape free)
    (represents : Represents rule' changed shape')
    (shrunk : (slots shape).Perm (id :: slots shape')) (freeHead : changed.freeHead = id)
    (found : changed.cell id = some held) (link : held.left = tree.freeHead)
    (unused : held.inUse = false) (keep : ∀ other ∈ free, changed.cell other = tree.cell other) :
    Pooled rule' changed shape' (id :: free) := by
  have moved : (slots shape' ++ id :: free).Perm (slots shape ++ free) :=
    perm_middle.trans (List.Perm.append_right free shrunk).symm
  refine ⟨represents, ?_, fun other member => ?_, moved.nodup_iff.mpr pool.nodup, ?_⟩
  · rw [FreeList, freeHead, RbNodeId.toOption_of_valid (isValid_of_cell found)]
    refine chain_cons.mpr ⟨rfl, held, found, ?_⟩
    rw [link]
    exact pool.chain.congr fun other member => by rw [keep other member]
  · rcases mem_cons.mp member with rfl | later
    · exact ⟨held, found, unused⟩
    · rw [keep other later]
      exact pool.unused other later
  · intro other now here
    obtain ⟨before, there⟩ := exists_cell_of_cell here tree
    exact moved.mem_iff.mpr (pool.complete other before there)

/-- The slot at an array position. -/
def slotAt (position : Nat) : RbNodeId := RbNodeId.new (UInt16.ofNat position)

theorem slotAt_asUsize (id : RbNodeId) : slotAt id.asUsize = id := by
  cases id
  simp [slotAt, RbNodeId.new, RbNodeId.asUsize]

theorem cell_init (tree : RedBlackTree) (inside : position < maxRbNodes) :
    ∃ held, tree.init.cell (slotAt position) = some held ∧ held.inUse = false ∧
      held.left = if position + 1 < maxRbNodes then slotAt (position + 1) else .invalid := by
  have place : (slotAt position).asUsize = position := RbNodeId.asUsize_new inside
  refine ⟨tree.init.nodes ⟨position, inside⟩, ?_, rfl, rfl⟩
  simp [cell, place, inside]

theorem chain_init {count : Nat} (rest : position + count = maxRbNodes) (some : 0 < count) :
    Chain tree.init.cell (fun held => held.left.toOption) (slotAt position).toOption
      ((List.range' position count).map slotAt) := by
  -- The induction is on the number of slots left.
  induction count generalizing position with
  | zero => exact absurd some (by decide)
  | succ count ih =>
    have inside : position < maxRbNodes := by omega
    obtain ⟨held, found, -, link⟩ := cell_init tree inside
    rw [RbNodeId.toOption_of_valid (isValid_of_cell found), range'_succ, map_cons]
    refine chain_cons.mpr ⟨rfl, held, found, ?_⟩
    rw [link]
    cases count with
    | zero => simp [show ¬ position + 1 < maxRbNodes by omega]
    | succ count =>
      rw [if_pos (by omega)]
      exact ih (by omega) (by omega)

/-- After initialisation the tree is empty and every slot is free. -/
theorem pooled_init (tree : RedBlackTree) :
    Pooled exactParent tree.init .nil ((List.range' 0 maxRbNodes).map slotAt) := by
  refine ⟨⟨rfl, trivial, nodup_nil⟩, ?_, ?_, ?_, ?_⟩
  · exact chain_init (by simp) (by decide)
  · intro id member
    obtain ⟨position, inside, rfl⟩ := mem_map.mp member
    obtain ⟨held, found, unused, -⟩ := cell_init tree (by simpa using inside)
    exact ⟨held, found, unused⟩
  · rw [slots_nil, nil_append]
    refine List.Nodup.map_on (fun first inside second inside' same => ?_) nodup_range'
    have places := congrArg RbNodeId.asUsize same
    rwa [slotAt, slotAt, RbNodeId.asUsize_new (by simpa using inside),
      RbNodeId.asUsize_new (by simpa using inside')] at places
  · intro id held found
    have inside := inside_of_cell found
    rw [slots_nil, nil_append]
    exact mem_map.mpr ⟨id.asUsize, by simpa using inside, slotAt_asUsize id⟩

end RedBlackTree

end TheoryKernel.Sched
