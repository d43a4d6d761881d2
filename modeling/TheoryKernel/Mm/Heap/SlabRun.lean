import TheoryKernel.Lib.Runs
import TheoryKernel.Mm.Heap.SlabBlocks

/-! Sequences of requests to the heap, and what they leave of each other's objects. -/

namespace TheoryKernel.Mm.Heap

open ByteMemory Extent List

deriving instance DecidableEq for Layout

/-- An object that was requested and not given back, with its current layout. -/
structure Block where
  ptr : Nat
  layout : Layout
  deriving DecidableEq

namespace Block

/-- The class of an object. -/
def index (block : Block) : Nat :=
  (classIndex (max block.layout.size block.layout.align)).getD 0

/-- The bytes that an object was requested for. -/
def bytes (block : Block) : Extent := ⟨block.ptr, block.layout.size⟩

/-- The bytes that belong to an object. -/
def extent (block : Block) : Extent := ⟨block.ptr, classSize block.index⟩

/-- An object of at most a page, which is aligned to its class. -/
structure Proper (block : Block) : Prop where
  small : max block.layout.size block.layout.align ≤ pageSize
  aligned : classSize block.index ∣ block.ptr

variable {block : Block}

theorem isClass_of_small (ptr : Nat) (layout : Layout)
    (small : max layout.size layout.align ≤ pageSize) :
    classIndex (max layout.size layout.align) = some (Block.mk ptr layout).index := by
  have whole : pageSize = classSize 9 := by decide
  obtain ⟨first, -, found⟩ := classIndex_le (by decide : 9 < classCount) (whole ▸ small)
  rw [index, found]
  rfl

theorem Proper.isClass (proper : block.Proper) :
    classIndex (max block.layout.size block.layout.align) = some block.index :=
  isClass_of_small block.ptr block.layout proper.small

theorem Proper.le (proper : block.Proper) :
    block.index < classCount ∧ max block.layout.size block.layout.align ≤ classSize block.index :=
  ⟨(classIndex_eq_some.mp proper.isClass).1, (classIndex_eq_some.mp proper.isClass).2.1⟩

theorem Proper.align_dvd (proper : block.Proper) : block.layout.align ∣ block.ptr := by
  obtain ⟨exponent, isPower⟩ := block.layout.isPowerOfTwo
  have fits := proper.le.2
  -- A power of two that is not larger than the class divides the class.
  have small : exponent ≤ block.index + 3 := by
    by_contra large
    have more : 2 ^ (block.index + 3 + 1) ≤ 2 ^ exponent :=
      Nat.pow_le_pow_right (by decide) (by omega)
    have double : 2 ^ (block.index + 3 + 1) = 2 * classSize block.index := by
      rw [Nat.pow_succ, classSize, Nat.mul_comm]
    have positive := eight_le_classSize block.index
    omega
  have divides : block.layout.align ∣ classSize block.index := by
    rw [isPower]
    exact Nat.pow_dvd_pow 2 small
  exact divides.trans proper.aligned

theorem Proper.bytes_inside (proper : block.Proper) : block.bytes.Inside block.extent := by
  have fits := proper.le.2
  refine ⟨Nat.le_refl _, ?_⟩
  simp only [bytes, extent]
  omega

end Block

/-- The heap, its memory and the objects that are in use. -/
structure HeapState where
  heap : SlabAllocator
  world : HeapWorld
  live : List Block

/-- The heap before the first request. -/
def HeapState.init (memory : Memory) : HeapState := ⟨.new, ⟨memory, []⟩, []⟩

/--
The requests to the heap, the writes of those who use its objects, and the writes of all others.

A request comes with the answer of the frame allocator, in case it is asked.
-/
inductive HeapOp where
  | allocate (layout : Layout) (answer : Option Nat)
  | deallocate (block : Block)
  | reallocate (block : Block) (newSize : Nat) (answer : Option Nat)
  | write (block : Block) (offset : Nat) (value : BitVec 8)
  | elsewhere (addr : Nat) (value : BitVec 8)

namespace HeapOp

variable (map : DirectMap)

/-- Whether the frame allocator answers with a frame that it has not handed out to the heap. -/
def freshAnswer (state : HeapState) (answer : Option Nat) : Bool :=
  answer.all fun phys => phys % pageSize == 0 && phys + map.hhdmOffset + pageSize ≤ 2 ^ 64 &&
    !(pagesOf map state.world).contains (phys + map.hhdmOffset)

/-- Whether a request follows the contract of the heap, is small, and is answered properly. -/
def valid (state : HeapState) : HeapOp → Bool
  | .allocate layout answer =>
    layout.size ≤ 4096 && layout.align ≤ 4096 && freshAnswer map state answer
  | .deallocate block => state.live.contains block
  | .reallocate block newSize answer =>
    state.live.contains block && newSize ≤ 4096 && freshAnswer map state answer
  | .write block offset _ => state.live.contains block && offset < block.layout.size
  | .elsewhere addr _ => (pagesOf map state.world).all fun page =>
      addr < page || page + pageSize ≤ addr

/-- The objects in use after a request, which may have been refused. -/
def withBlock (layout : Layout) (rest live : List Block) : Option Nat → List Block
  | some ptr => ⟨ptr, layout⟩ :: rest
  | none => live

/-- A request or a write. -/
def step (state : HeapState) : HeapOp → Exec HeapState
  | .allocate layout answer => do
    let (ptr, heap, world) ← state.heap.allocate map (fun _ => answer) layout state.world
    .ok ⟨heap, world, withBlock layout state.live state.live ptr⟩
  | .deallocate block =>
    let (heap, world) := state.heap.deallocate block.ptr block.layout state.world
    .ok ⟨heap, world, state.live.erase block⟩
  | .reallocate block newSize answer => do
    let (ptr, heap, world) ← state.heap.reallocate map (fun _ => answer) block.ptr block.layout
      newSize state.world
    .ok ⟨heap, world, withBlock (block.layout.resize newSize) (state.live.erase block)
      state.live ptr⟩
  | .write block offset value =>
    .ok { state with world := { state.world with
      memory := Function.update state.world.memory (block.ptr + offset) value } }
  | .elsewhere addr value =>
    .ok { state with world := { state.world with
      memory := Function.update state.world.memory addr value } }

end HeapOp

/-- The objects in use are proper, and what is not theirs is free. -/
structure Sound (map : DirectMap) (state : HeapState) : Prop where
  proper : ∀ block ∈ state.live, block.Proper
  pooled : ∃ lists, Pooled state.heap.caches state.world.memory
    (state.live.map Block.extent) lists (pagesOf map state.world)

namespace Sound

variable {map : DirectMap} {state : HeapState} {block : Block} {layout : Layout}
  {answer : Option Nat} {newSize : Nat}

theorem init (map : DirectMap) (memory : Memory) : Sound map (.init memory) where
  proper := nofun
  pooled := ⟨fun _ => [], .new memory⟩

theorem fresh (fresh : HeapOp.freshAnswer map state answer = true) :
    Fresh map (fun _ => answer) state.world := by
  intro phys isAnswer
  simp only at isAnswer
  subst isAnswer
  simp only [HeapOp.freshAnswer, Option.all_some, Bool.and_eq_true, beq_iff_eq, decide_eq_true_eq,
    Bool.not_eq_true', contains_eq_mem, decide_eq_false_iff_not] at fresh
  obtain ⟨⟨aligned, small⟩, isNew⟩ := fresh
  have positive := map.positive
  have mapAligned := map.aligned
  unfold pageSize at *
  have address : wrapAdd phys map.hhdmOffset = phys + map.hhdmOffset := wrapAdd_eq (by omega)
  rw [address]
  exact ⟨⟨by unfold pageSize; omega, by omega, by unfold pageSize; omega⟩, isNew⟩

theorem front (sound : Sound map state) (inUse : block ∈ state.live) :
    ∃ lists, Pooled state.heap.caches state.world.memory
      (block.extent :: (state.live.erase block).map Block.extent) lists
      (pagesOf map state.world) := by
  obtain ⟨lists, pooled⟩ := sound.pooled
  refine ⟨lists, pooled.perm ?_⟩
  exact (perm_cons_erase inUse).map Block.extent

variable {taken : List Extent} {lists : Nat → List Nat} {heap : SlabAllocator} {world : HeapWorld}
  {answers : Answers}

theorem allocate_returns (layout : Layout)
    (pooled : Pooled heap.caches world.memory taken lists (pagesOf map world))
    (fresh : Fresh map answers world) (small : max layout.size layout.align ≤ pageSize) :
    ∃ ptr heap' world' lists', heap.allocate map answers layout world = .ok (ptr, heap', world') ∧
      Pooled heap'.caches world'.memory
        (ptr.toList.map (fun node => (Block.mk node layout).extent) ++ taken) lists'
        (pagesOf map world') ∧
      (∀ node, ptr = some node → (Block.mk node layout).Proper) ∧
      SameOn taken world.memory world'.memory := by
  have isClass : ∀ node, classIndex (max layout.size layout.align) =
      some (Block.mk node layout).index := fun node => Block.isClass_of_small node layout small
  have valid := (classIndex_eq_some.mp (isClass 0)).1
  obtain ⟨ptr, cache, world', lists', run, pooled', aligned, same⟩ :=
    pooled.alloc_returns valid fresh
  refine ⟨ptr, ⟨Function.update heap.caches (Block.mk 0 layout).index cache⟩, world', lists', ?_,
    pooled', ?_, same⟩
  · unfold SlabAllocator.allocate
    simp only [isClass 0, run, Exec.ok_bind]
  · exact fun node isNode => ⟨small, aligned node isNode⟩

theorem deallocate_pooled
    (pooled : Pooled heap.caches world.memory (block.extent :: taken) lists (pagesOf map world))
    (proper : block.Proper) :
    ∃ lists', Pooled (heap.deallocate block.ptr block.layout world).1.caches
        (heap.deallocate block.ptr block.layout world).2.memory taken lists'
        (pagesOf map (heap.deallocate block.ptr block.layout world).2) ∧
      SameOn taken world.memory (heap.deallocate block.ptr block.layout world).2.memory := by
  have pushed := pooled.push proper.le.1 proper.aligned
  have apart := (separate_cons.mp pooled.separate).1
  have large := eight_le_classSize block.index
  unfold SlabAllocator.deallocate
  simp only [proper.isClass]
  refine ⟨_, pushed, ?_⟩
  apply sameOn_of_outside fun other member => apart other (mem_append_left _ member)
  intro other far
  simp only [Block.extent] at far
  exact store_outside (by omega)

theorem shrunk_proper (proper : block.Proper)
    (fits : newSize ≤ max block.layout.size block.layout.align) :
    (Block.mk block.ptr (block.layout.resize newSize)).Proper ∧
      (Block.mk block.ptr (block.layout.resize newSize)).extent.Inside block.extent := by
  have small := proper.small
  have small' : max newSize block.layout.align ≤ pageSize := by omega
  have isClass : classIndex (max newSize block.layout.align) =
      some (Block.mk block.ptr (block.layout.resize newSize)).index :=
    Block.isClass_of_small block.ptr (block.layout.resize newSize) small'
  -- The new class is not larger than the old one.
  have fitsClass := proper.le.2
  have fits : max newSize block.layout.align ≤ classSize block.index := by omega
  obtain ⟨first, below, found⟩ := classIndex_le proper.le.1 fits
  cases isClass.symm.trans found
  have divides := classSize_dvd below
  refine ⟨⟨small', divides.trans proper.aligned⟩, Nat.le_refl _, ?_⟩
  exact Nat.add_le_add_left (Nat.le_of_dvd (Nat.two_pow_pos _) divides) block.ptr

theorem reallocate_returns (sound : Sound map state) (inUse : block ∈ state.live)
    (small : newSize ≤ pageSize) (fresh : Fresh map answers state.world) :
    ∃ ptr heap world, state.heap.reallocate map answers block.ptr block.layout newSize
        state.world = .ok (ptr, heap, world) ∧
      Sound map ⟨heap, world, HeapOp.withBlock (block.layout.resize newSize)
        (state.live.erase block) state.live ptr⟩ ∧
      ∀ newPtr, ptr = some newPtr → ∀ index < min block.layout.size newSize,
        world.memory (newPtr + index) = state.world.memory (block.ptr + index) := by
  have proper := sound.proper block inUse
  have fits := proper.le.2
  have others : ∀ other ∈ state.live.erase block, other.Proper :=
    fun other member => sound.proper other (mem_of_mem_erase member)
  unfold SlabAllocator.reallocate
  by_cases shrinks : newSize ≤ max block.layout.size block.layout.align
  · -- The object stays where it is.
    obtain ⟨proper', inside⟩ := shrunk_proper proper shrinks
    obtain ⟨lists, pooled⟩ := sound.front inUse
    refine ⟨some block.ptr, state.heap, state.world, ?_, ⟨?_, lists, pooled.shrink inside⟩, ?_⟩
    · simp only [shrinks, if_true]
    · exact forall_mem_cons.mpr ⟨proper', others⟩
    · intro newPtr isPtr index _
      cases isPtr
      rfl
  · -- The bytes of the object are copied to a larger one.
    have smallAlign : max newSize block.layout.align ≤ pageSize := by
      have old := proper.small
      omega
    have possible : block.layout.withSize newSize = some (block.layout.resize newSize) := by
      unfold pageSize at smallAlign
      rw [Layout.withSize, if_pos (by omega)]
    obtain ⟨lists, pooled⟩ := sound.pooled
    obtain ⟨ptr, heap, world, lists', run, pooled', proper', same⟩ :=
      allocate_returns (block.layout.resize newSize) pooled fresh smallAlign
    simp only [shrinks, if_false, possible, run, Exec.ok_bind]
    cases ptr with
    | none => exact ⟨none, heap, world, rfl, ⟨sound.proper, lists', pooled'⟩, fun _ => (nomatch ·)⟩
    | some newPtr =>
      have newProper := proper' newPtr rfl
      obtain ⟨new, newEq⟩ : ∃ new, Block.mk newPtr (block.layout.resize newSize) = new := ⟨_, rfl⟩
      rw [newEq] at newProper
      have newFits := newProper.le.2
      have newSizeEq : new.layout.size = newSize := by rw [← newEq]; rfl
      have newPtrEq : new.ptr = newPtr := by rw [← newEq]
      have room : max block.layout.size block.layout.align ≤ classSize new.index := by omega
      have taken : Pooled heap.caches world.memory (new.extent :: state.live.map Block.extent) lists'
          (pagesOf map world) := newEq ▸ pooled'
      -- The copy changes the new object alone.
      obtain ⟨copy, copyEq⟩ : ∃ copy, store world.memory newPtr
          (max block.layout.size block.layout.align) (fun index =>
            world.memory (block.ptr + index)) = copy := ⟨_, rfl⟩
      have outside : ∀ other, other < new.extent.start ∨
          new.extent.start + new.extent.size ≤ other → copy other = world.memory other := by
        intro other far
        simp only [Block.extent] at far
        rw [← copyEq]
        exact store_outside (by omega)
      have front : (new.extent :: state.live.map Block.extent).Perm
          (block.extent :: new.extent :: (state.live.erase block).map Block.extent) :=
        (((perm_cons_erase inUse).map Block.extent).cons _).trans (List.Perm.swap ..)
      have written : Pooled heap.caches (HeapWorld.mk copy world.granted).memory
          (block.extent :: new.extent :: (state.live.erase block).map Block.extent) lists'
          (pagesOf map ⟨copy, world.granted⟩) := (taken.write outside).perm front
      obtain ⟨lists'', freed, kept⟩ := deallocate_pooled written proper
      refine ⟨some newPtr, (heap.deallocate block.ptr block.layout ⟨copy, world.granted⟩).1,
        (heap.deallocate block.ptr block.layout ⟨copy, world.granted⟩).2, by simp only [copyEq],
        ⟨?_, lists'', ?_⟩, ?_⟩
      · exact forall_mem_cons.mpr ⟨newEq ▸ newProper, others⟩
      · simp only [HeapOp.withBlock, map_cons, newEq]
        exact freed
      · intro newPtr' isPtr index inside
        cases isPtr
        have inNew := kept new.extent mem_cons_self (newPtr + index)
          (by simp only [Block.extent]; omega) (by simp only [Block.extent]; omega)
        have inOld := same block.extent (mem_map_of_mem inUse) (block.ptr + index)
          (by simp only [Block.extent]; omega) (by simp only [Block.extent]; omega)
        have within : index < max block.layout.size block.layout.align := by omega
        rw [inNew, ← inOld, ← copyEq]
        simp only [store_inside within]

theorem step_returns (sound : Sound map state) {op : HeapOp} (isValid : op.valid map state = true) :
    ∃ next, op.step map state = .ok next ∧ Sound map next := by
  cases op with
  | allocate layout answer =>
    simp only [HeapOp.valid, Bool.and_eq_true, decide_eq_true_eq] at isValid
    obtain ⟨⟨sizeSmall, alignSmall⟩, answered⟩ := isValid
    obtain ⟨lists, pooled⟩ := sound.pooled
    obtain ⟨ptr, heap, world, lists', run, pooled', proper, -⟩ :=
      allocate_returns layout pooled (fresh answered) (by unfold pageSize; omega)
    refine ⟨⟨heap, world, HeapOp.withBlock layout state.live state.live ptr⟩, ?_, ?_, lists', ?_⟩
    · rw [HeapOp.step, run, Exec.ok_bind]
    · cases ptr with
      | none => exact sound.proper
      | some node => exact forall_mem_cons.mpr ⟨proper node rfl, sound.proper⟩
    · cases ptr with
      | none | some node => exact pooled'
  | deallocate block =>
    have inUse : block ∈ state.live := by simpa [HeapOp.valid] using isValid
    obtain ⟨lists, pooled⟩ := sound.front inUse
    obtain ⟨lists', freed, -⟩ := deallocate_pooled pooled (sound.proper block inUse)
    exact ⟨_, rfl, fun other member => sound.proper other (mem_of_mem_erase member),
      lists', freed⟩
  | reallocate block newSize answer =>
    simp only [HeapOp.valid, Bool.and_eq_true, decide_eq_true_eq, contains_eq_mem] at isValid
    obtain ⟨⟨inUse, small⟩, answered⟩ := isValid
    obtain ⟨ptr, heap, world, run, sound', -⟩ :=
      sound.reallocate_returns inUse small (fresh answered)
    refine ⟨_, ?_, sound'⟩
    rw [HeapOp.step, run, Exec.ok_bind]
  | write block offset value =>
    simp only [HeapOp.valid, Bool.and_eq_true, decide_eq_true_eq, contains_eq_mem] at isValid
    obtain ⟨inUse, inside⟩ := isValid
    obtain ⟨lists, pooled⟩ := sound.front inUse
    have fits := (sound.proper block inUse).le.2
    have outside : ∀ other, other < block.extent.start ∨
        block.extent.start + block.extent.size ≤ other →
        Function.update state.world.memory (block.ptr + offset) value other =
          state.world.memory other := by
      intro other far
      simp only [Block.extent] at far
      exact Function.update_of_ne (by omega) _ _
    refine ⟨_, rfl, sound.proper, lists, (pooled.write outside).perm ?_⟩
    exact ((perm_cons_erase inUse).map Block.extent).symm
  | elsewhere addr value =>
    simp only [HeapOp.valid, all_eq_true, Bool.or_eq_true, decide_eq_true_eq] at isValid
    obtain ⟨lists, pooled⟩ := sound.pooled
    refine ⟨_, rfl, sound.proper, lists, { pooled with chain := ?_ }⟩
    intro index valid
    apply pooled.chain_congr valid
    intro node member
    obtain ⟨page, granted, low, high⟩ := pooled.placed ⟨node, classSize index⟩
      (mem_append_right _ (mem_freeExtents valid member))
    have large := eight_le_classSize index
    have apart := isValid page granted
    simp only at low high
    apply loadWord_congr
    intro position small
    exact Function.update_of_ne (by omega) _ _

end Sound

/--
The heap keeps the objects of its users apart.

After every sequence of requests that follows the contract, the objects in use share no byte, are
aligned as requested and lie in frames of the heap, and a change of size keeps the bytes.
-/
theorem heap_objects_are_disjoint (map : DirectMap) (memory : Memory) {ops : List HeapOp}
    (valid : Runs.everyStep (HeapOp.step map) (HeapOp.valid map) (.init memory) ops = true) :
    ∃ state, Runs.run (HeapOp.step map) (.init memory) ops = .ok state ∧
      (state.live.map Block.bytes).Pairwise Extent.Apart ∧
      (∀ block ∈ state.live, block.layout.align ∣ block.ptr ∧
        ∃ page ∈ pagesOf map state.world, block.bytes.Inside ⟨page, pageSize⟩) ∧
      ∀ block ∈ state.live, ∀ newSize ≤ 4096, ∀ answer,
        HeapOp.freshAnswer map state answer = true →
        ∃ ptr heap world, state.heap.reallocate map (fun _ => answer) block.ptr block.layout newSize
            state.world = .ok (ptr, heap, world) ∧
          ∀ newPtr, ptr = some newPtr → ∀ index < min block.layout.size newSize,
            world.memory (newPtr + index) = state.world.memory (block.ptr + index) := by
  obtain ⟨state, run, sound⟩ := Runs.run_returns (Sound map)
    (fun _ _ sound isValid => sound.step_returns isValid) (Sound.init map memory) valid
  obtain ⟨lists, pooled⟩ := sound.pooled
  refine ⟨state, run, ?_, ?_, ?_⟩
  · -- The bytes of a request are part of the range that belongs to its object.
    have separate : (state.live.map Block.extent).Pairwise Apart :=
      (pairwise_append.mp pooled.separate).1
    rw [pairwise_map] at separate ⊢
    refine separate.imp_of_mem ?_
    intro first second inFirst inSecond apart
    exact ((apart.inside (sound.proper first inFirst).bytes_inside).symm.inside
      (sound.proper second inSecond).bytes_inside).symm
  · intro block inUse
    refine ⟨(sound.proper block inUse).align_dvd, ?_⟩
    obtain ⟨page, granted, within⟩ := pooled.placed block.extent
      (mem_append_left _ (mem_map_of_mem inUse))
    have inside := (sound.proper block inUse).bytes_inside
    refine ⟨page, granted, ?_⟩
    unfold Inside at *
    omega
  · intro block inUse newSize small answer answered
    obtain ⟨ptr, heap, world, run', -, same⟩ :=
      sound.reallocate_returns inUse small (Sound.fresh answered)
    exact ⟨ptr, heap, world, run', same⟩

/-- A direct map as boot loaders set it up. -/
def highMap : DirectMap := ⟨0xFFFF800000000000, by decide, by decide⟩

/-- An object of 100 bytes that shrinks, is given back to a smaller class, and another one grows. -/
def shrinkAndGrow : List HeapOp :=
  let wide : Layout := ⟨100, 8, 3, rfl⟩
  let narrow : Layout := ⟨20, 8, 3, rfl⟩
  [.allocate wide (some 0x5000), .allocate wide none,
    .reallocate ⟨0xFFFF800000005F80, wide⟩ 20 none, .deallocate ⟨0xFFFF800000005F80, narrow⟩,
    .allocate narrow none, .write ⟨0xFFFF800000005F80, narrow⟩ 19 7,
    .reallocate ⟨0xFFFF800000005F80, narrow⟩ 4096 (some 0x9000)]

/-- The requests follow the contract, so the two objects that are left share no byte. -/
theorem heap_objects_are_disjoint_moved :
    ∃ state, Runs.run (HeapOp.step highMap) (.init fun _ => 0) shrinkAndGrow = .ok state ∧
      state.live.map Block.ptr = [0xFFFF800000009000, 0xFFFF800000005F00] ∧
      (state.live.map Block.bytes).Pairwise Extent.Apart := by
  obtain ⟨state, run, apart, -⟩ := heap_objects_are_disjoint highMap (fun _ => 0)
    (by decide : Runs.everyStep (HeapOp.step highMap) (HeapOp.valid highMap)
      (.init fun _ => 0) shrinkAndGrow = true)
  refine ⟨state, run, ?_, apart⟩
  have pointers : ((Runs.run (HeapOp.step highMap) (.init fun _ => 0) shrinkAndGrow).map
      fun state => state.live.map Block.ptr).toOption =
        some [0xFFFF800000009000, 0xFFFF800000005F00] := by decide
  rw [run] at pointers
  exact Option.some.inj pointers

end TheoryKernel.Mm.Heap
