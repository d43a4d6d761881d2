import TheoryKernel.Fs.BlockCache
import TheoryKernel.Mm.Heap.SlabRun
import TheoryKernel.Mm.Phys.FrameRun

/-! Whether the frames that are taken cover what is asked for, and whether all of them are used. -/

namespace TheoryKernel.Mm.Heap

open ByteMemory LinkedList Phys SlabCache

open Fs (blockSize)

/-- The number of bytes of a block of frames. -/
def byteLen (order : Nat) : Nat := 2 ^ order * pageSize

/-- A quotient that is rounded up. -/
def divCeil (value unit : Nat) : Nat := (value + (unit - 1)) / unit

/-- A disk in memory: its number of blocks, and the block of frames that holds them. -/
structure RamDisk where
  blocks : Nat
  order : Nat
  baseVirt : Nat

namespace RamDisk

/-- Taking frames for a disk, which are cleared. -/
def new (map : DirectMap) (answers : Answers) (sizeBytes : Nat) (world : HeapWorld) :
    Option (RamDisk × HeapWorld) :=
  let blocks := divCeil sizeBytes blockSize
  let pages := divCeil blocks (pageSize / blockSize)
  let order := orderForCount pages
  (world.allocFrames answers order).map fun (phys, world) =>
    let baseVirt := wrapAdd phys map.hhdmOffset
    (⟨blocks, order, baseVirt⟩,
      { world with memory := store world.memory baseVirt (byteLen order) fun _ => 0 })

end RamDisk

/-- The kernel gives its buddy allocator no region, and it frees only what it holds. -/
def kernelUse (use : FrameUse) : FrameOp → Bool
  | .addRegion .. => false
  | op => use.correctUse op

/-- The buddy allocator is as new, and single frames are all that is held. -/
def Unseeded (blockCount : Nat) (use : FrameUse) : Prop :=
  use.allocator.buddy = .new blockCount ∧ ∀ descriptor ∈ use.live, descriptor.order = 0

section Kernel

variable {blockCount node : Nat} {use next : FrameUse} {op : FrameOp}
  {result : Option (FrameDescriptor × FrameAllocator)}

theorem Unseeded.allocBit (unseeded : Unseeded blockCount use)
    (run : use.allocator.allocBit node = .ok result) : Unseeded blockCount (use.record result) := by
  obtain ⟨found, -, run⟩ := Exec.bind_eq_ok.mp run
  cases found with
  | none =>
    cases run
    exact unseeded
  | some frame =>
    obtain ⟨bitmap, -, run⟩ := Exec.bind_eq_ok.mp run
    cases run
    exact ⟨unseeded.1, List.forall_mem_cons.mpr ⟨rfl, unseeded.2⟩⟩

/-- A request is served from the bitmap or not at all. -/
theorem Unseeded.allocOrder (unseeded : Unseeded blockCount use) {order : Nat}
    (run : use.allocator.allocOrder order node = .ok result) :
    Unseeded blockCount (use.record result) ∧ (result.isSome → order = 0) := by
  obtain ⟨⟨buddy, bitmap⟩, live⟩ := use
  obtain rfl : buddy = .new blockCount := unseeded.1
  rcases Nat.eq_zero_or_pos order with rfl | low
  · refine ⟨?_, fun _ => rfl⟩
    obtain ⟨single, taken, run⟩ := Exec.bind_eq_ok.mp run
    cases single with
    | some served =>
      cases run
      exact unseeded.allocBit taken
    | none =>
      -- The buddy allocator is asked in vain.
      cases (FrameAllocator.allocBlock_new blockCount bitmap _ node).symm.trans run
      exact unseeded
  · cases (FrameAllocator.allocOrder_new blockCount bitmap node low).symm.trans run
    exact ⟨unseeded, fun served => by cases served⟩

theorem Unseeded.step (unseeded : Unseeded blockCount use) (allowed : kernelUse use op = true)
    (returned : use.step op = .ok next) : Unseeded blockCount next := by
  cases op with
  | addRegion => cases allowed
  | allocOne node =>
    obtain ⟨result, run, returned⟩ := Exec.bind_eq_ok.mp returned
    cases returned
    obtain ⟨single, taken, run⟩ := Exec.bind_eq_ok.mp run
    cases single with
    | some served =>
      cases run
      exact unseeded.allocBit taken
    | none => exact (unseeded.allocOrder run).1
  | allocOrder order node =>
    obtain ⟨result, run, returned⟩ := Exec.bind_eq_ok.mp returned
    cases returned
    exact (unseeded.allocOrder run).1
  | free descriptor =>
    obtain ⟨allocator, run, returned⟩ := Exec.bind_eq_ok.mp returned
    cases returned
    -- What is held are single frames, which go back to the bitmap.
    have single : descriptor.order = 0 := unseeded.2 descriptor (of_decide_eq_true allowed)
    rw [FrameAllocator.free, if_pos single] at run
    obtain ⟨bitmap, -, run⟩ := Exec.bind_eq_ok.mp run
    cases run
    exact ⟨unseeded.1, fun other held => unseeded.2 other (List.mem_of_mem_erase held)⟩

end Kernel

/-- A frame allocator that serves single frames, as the kernel's, always at the same address. -/
def oneAddress : Answers := fun order => if order = 0 then some 0 else none

/-- Every byte of a frame is in the object that is handed out or in a free one. -/
def Divided (cache : SlabCache) (memory : Memory) (result : Option Nat) (page : Nat) : Prop :=
  ∃ nodes, Chain (linkCell memory) id cache.freeList nodes ∧
    ∀ addr, page ≤ addr → addr < page + pageSize →
      ∃ node ∈ result.toList ++ nodes, node ≤ addr ∧ addr < node + cache.objectSize

/-- A request is served if an object or a frame is there, and no frame that is taken is lost. -/
def Thrifty (map : DirectMap) (answers : Answers) (layout : Layout) (index : Nat)
    (heap : SlabAllocator) (world : HeapWorld) : Prop :=
  ∃ result heap' world' frames,
    heap.allocate map answers layout world = .ok (result, heap', world') ∧
    world'.granted = frames ++ world.granted ∧
    ((heap.caches index).freeList.isSome ∨ (answers 0).isSome → result.isSome) ∧
    ∀ frame ∈ frames,
      Divided (heap'.caches index) world'.memory result (wrapAdd frame.1 map.hhdmOffset)

section Classes

variable {map : DirectMap} {answers : Answers} {layout : Layout} {index : Nat}
  {heap : SlabAllocator} {world : HeapWorld}

theorem thrifty_of_run (isClass : classIndex (max layout.size layout.align) = some index)
    {result : Option Nat} {cache : SlabCache} {after : HeapWorld} (frames : List (Nat × Nat))
    (run : (heap.caches index).alloc map answers world = .ok (result, cache, after))
    (granted : after.granted = frames ++ world.granted) :
    Thrifty map answers layout index heap world ↔
      ((heap.caches index).freeList.isSome ∨ (answers 0).isSome → result.isSome) ∧
        ∀ frame ∈ frames, Divided cache after.memory result (wrapAdd frame.1 map.hhdmOffset) := by
  have whole : heap.allocate map answers layout world =
      .ok (result, ⟨Function.update heap.caches index cache⟩, after) := by
    simp only [SlabAllocator.allocate, isClass, run, Exec.ok_bind]
  have same : Function.update heap.caches index cache index = cache := Function.update_self ..
  constructor
  · rintro ⟨result', heap', world', frames', run', granted', served, divided⟩
    cases whole.symm.trans run'
    cases List.append_cancel_right (granted.symm.trans granted')
    exact ⟨served, same ▸ divided⟩
  · rintro ⟨served, divided⟩
    refine ⟨_, _, _, frames, whole, granted, served, ?_⟩
    dsimp only
    rwa [same]

theorem alloc_of_free {node : Nat} (first : (heap.caches index).freeList = some node) :
    (heap.caches index).alloc map answers world = .ok (some node,
      { heap.caches index with freeList := decodeLink (loadWord world.memory node) }, world) := by
  simp [alloc, refillIfEmpty, first]

theorem alloc_of_exhausted (empty : (heap.caches index).freeList = none)
    (exhausted : answers 0 = none) : (heap.caches index).alloc map answers world =
      .ok (none, heap.caches index, world) := by
  simp [alloc, refillIfEmpty, refill, HeapWorld.allocFrames, empty,
    exhausted]

/-- The objects of a frame, from the last one to the first. -/
def objects (index base : Nat) : List Nat :=
  ((List.range (pageSize / classSize index)).map fun position =>
    base + position * classSize index).reverse

theorem mem_objects {base addr : Nat} (small : index ≤ 9) (low : base ≤ addr)
    (high : addr < base + pageSize) :
    ∃ node ∈ objects index base, node ≤ addr ∧ addr < node + classSize index := by
  have positive : 0 < classSize index := Nat.two_pow_pos _
  have divides : classSize index ∣ pageSize := classSize_dvd small
  refine ⟨base + (addr - base) / classSize index * classSize index, ?_, ?_, ?_⟩
  · rw [objects, List.mem_reverse]
    apply List.mem_map_of_mem
    exact List.mem_range.mpr (Nat.div_lt_div_of_lt_of_dvd divides (by omega))
  · have := Nat.div_mul_le_self (addr - base) (classSize index)
    omega
  · have := Nat.lt_div_mul_add positive (a := addr - base)
    omega

theorem alloc_of_frame {phys : Nat} (valid : index < classCount)
    (sizes : (heap.caches index).objectSize = classSize index ∧
      (heap.caches index).slabSize = pageSize)
    (empty : (heap.caches index).freeList = none) (answer : answers 0 = some phys)
    (isPage : IsPage (wrapAdd phys map.hhdmOffset)) :
    ∃ result cache memory nodes, (heap.caches index).alloc map answers world =
        .ok (result, cache, ⟨memory, (phys, 0) :: world.granted⟩) ∧
      cache.objectSize = classSize index ∧ Chain (linkCell memory) id cache.freeList nodes ∧
      result.toList ++ nodes = objects index (wrapAdd phys map.hhdmOffset) ∧
      (result = none → nodes = []) := by
  -- Nothing of the class is left, as if the heap were new.
  have fresh : heap.caches index = SlabAllocator.new.caches index := by
    have new := (Pooled.new world.memory).sizes index valid
    generalize heap.caches index = cache at sizes empty
    obtain ⟨objectSize, slabSize, freeList⟩ := cache
    obtain ⟨rfl, rfl⟩ := sizes
    obtain rfl := empty
    rw [← new.1]
    rfl
  obtain ⟨cache, memory, lists, run, pooled, nodes, -⟩ :=
    ((Pooled.new world.memory).grant isPage List.not_mem_nil).divide valid isPage
  have chain := pooled.chain index valid
  have size := (pooled.sizes index valid).1
  rw [Function.update_self] at chain size
  rw [nodes, List.append_nil] at chain
  have refilled : (heap.caches index).refillIfEmpty map answers world =
      .ok (some (), cache, ⟨memory, (phys, 0) :: world.granted⟩) := by
    rw [← fresh] at run
    simp only [refillIfEmpty, empty, refill, HeapWorld.allocFrames, answer,
      Option.map_some, run, Exec.ok_bind, Option.isNone_none, if_true]
  rw [alloc, refilled, Exec.ok_bind]
  change Chain _ _ _ (objects index _) at chain
  cases all : objects index (wrapAdd phys map.hhdmOffset) with
  | nil =>
    rw [all, chain_nil] at chain
    refine ⟨none, cache, memory, [], ?_, size, chain_nil.mpr chain, rfl, fun _ => rfl⟩
    simp only [chain]
  | cons head rest =>
    rw [all, chain_cons] at chain
    obtain ⟨first, held, link, chain⟩ := chain
    cases link
    refine ⟨some head, { cache with freeList := decodeLink (loadWord memory head) }, memory, rest,
      ?_, size, chain, rfl, fun missing => absurd missing (Option.some_ne_none _)⟩
    simp only [first]

/--
Requests that fall in a class are served if possible, and lose no frame, with few exceptions.

Exactly those requests are excepted that are for more than a page, find no free object in their
class and get a frame.
-/
theorem thrifty_iff (isClass : classIndex (max layout.size layout.align) = some index)
    (sizes : (heap.caches index).objectSize = classSize index ∧
      (heap.caches index).slabSize = pageSize)
    (isPage : ∀ phys, answers 0 = some phys → IsPage (wrapAdd phys map.hhdmOffset)) :
    Thrifty map answers layout index heap world ↔ (heap.caches index).freeList.isSome ∨
      max layout.size layout.align ≤ pageSize ∨ answers 0 = none := by
  obtain ⟨valid, fits, least⟩ := classIndex_eq_some.mp isClass
  cases first : (heap.caches index).freeList with
  | some node =>
    rw [thrifty_of_run isClass [] (alloc_of_free first) rfl]
    exact iff_of_true ⟨fun _ => rfl, nofun⟩ (.inl rfl)
  | none =>
    cases answer : answers 0 with
    | none =>
      rw [thrifty_of_run isClass [] (alloc_of_exhausted first answer) rfl, first, answer]
      exact iff_of_true ⟨by simp, nofun⟩ (Or.inr (Or.inr rfl))
    | some phys =>
      obtain ⟨result, cache, memory, nodes, run, size, chain, all, none_⟩ :=
        alloc_of_frame valid sizes first answer (isPage phys answer)
      rw [thrifty_of_run isClass [(phys, 0)] run rfl, first, answer]
      by_cases small : max layout.size layout.align ≤ pageSize
      · -- The class is not larger than a frame, which becomes objects without a rest.
        have below : index ≤ 9 := by
          by_contra larger
          have := least 9 (by omega)
          simp only [classSize, pageSize] at this small
          omega
        refine iff_of_true ⟨fun _ => ?_, ?_⟩ (Or.inr (Or.inl small))
        · obtain ⟨node, member, -⟩ := mem_objects below (Nat.le_refl (wrapAdd phys map.hhdmOffset))
            (Nat.lt_add_of_pos_right (by decide))
          cases result with
          | some ptr => rfl
          | none =>
            rw [← all, none_ rfl] at member
            cases member
        · intro frame member
          cases List.mem_singleton.mp member
          refine ⟨nodes, chain, fun addr low high => ?_⟩
          rw [all, size]
          exact mem_objects below low high
      · -- Not a single object fits into the frame.
        have large : pageSize / classSize index = 0 := Nat.div_eq_of_lt (by omega)
        rw [objects, large] at all
        have failed : result = none := by
          cases result with
          | none => rfl
          | some ptr => cases all
        simp [failed, small]

/-- A new heap serves a request for eight bytes. -/
theorem thrifty_eight : Thrifty highMap oneAddress ⟨8, 8, 3, rfl⟩ 0 .new ⟨fun _ => 0, []⟩ := by
  refine (thrifty_iff (by decide) (by decide) ?_).mpr (Or.inr (Or.inl (by decide)))
  rintro phys ⟨⟩
  exact ⟨by decide, by decide, by decide⟩

/-- A new heap takes a frame for a request for two pages, loses it and fails. -/
theorem two_pages_not_thrifty :
    (∃ heap world, SlabAllocator.new.allocate highMap oneAddress ⟨8192, 8, 3, rfl⟩
      ⟨fun _ => 0, []⟩ = .ok (none, heap, world) ∧ world.granted = [(0, 0)] ∧
        (heap.caches 10).freeList = none) ∧
    ¬ Thrifty highMap oneAddress ⟨8192, 8, 3, rfl⟩ 10 .new ⟨fun _ => 0, []⟩ := by
  refine ⟨⟨_, _, rfl, rfl, rfl⟩, ?_⟩
  rintro ⟨result, heap, world, frames, run, -, served, -⟩
  cases run
  cases served (.inr rfl)

end Classes

end TheoryKernel.Mm.Heap
