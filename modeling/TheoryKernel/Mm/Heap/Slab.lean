import TheoryKernel.Lib.ByteMemory
import TheoryKernel.Mm.Layout
import TheoryKernel.Mm.Phys.Buddy
import Mathlib.Data.Nat.Log

/-! The heap of the kernel, which keeps its free objects in lists by size. -/

namespace TheoryKernel.Mm.Heap

open ByteMemory

/-- A request for memory: how much, and aligned to which power of two. -/
structure Layout where
  size : Nat
  align : Nat
  isPowerOfTwo : align.isPowerOfTwo

/-- The same alignment with another size. -/
def Layout.resize (layout : Layout) (size : Nat) : Layout := ⟨size, layout.align, layout.isPowerOfTwo⟩

/-- The same alignment with another size, unless that is too large for any object. -/
def Layout.withSize (layout : Layout) (size : Nat) : Option Layout :=
  if size ≤ 2 ^ 63 - layout.align then some (layout.resize size) else none

/-- The sizes of objects. -/
def sizeClasses : List Nat := [8, 16, 32, 64, 128, 256, 512, 1024, 2048, 4096, 8192, 16384]

/-- The first class whose objects are large enough. -/
def classIndex (size : Nat) : Option Nat := sizeClasses.findIdx? (size ≤ ·)

/-- The memory of the heap, and the frames that were taken for it with their orders. -/
structure HeapWorld where
  memory : Memory
  granted : List (Nat × Nat)

/--
The offset at which the kernel sees physical memory.

Objects are named by the addresses that the kernel uses, so none of them is at zero.
-/
structure DirectMap where
  hhdmOffset : Nat
  aligned : hhdmOffset % pageSize = 0
  positive : 0 < hhdmOffset

/-- What the frame allocator answers to a request of a given order: a physical address, or none. -/
abbrev Answers : Type := Nat → Option Nat

/-- Taking frames from the frame allocator. -/
def HeapWorld.allocFrames (world : HeapWorld) (answers : Answers) (order : Nat) :
    Option (Nat × HeapWorld) :=
  (answers order).map fun phys => (phys, { world with granted := (phys, order) :: world.granted })

/-- A link in memory, where zero stands for none. -/
def encodeLink : Option Nat → BitVec 64
  | none => 0
  | some node => BitVec.ofNat 64 node

/-- The link that a word in memory stands for. -/
def decodeLink (word : BitVec 64) : Option Nat := if word = 0 then none else some word.toNat

/-- The objects of one size, of which the free ones are linked. -/
structure SlabCache where
  objectSize : Nat
  slabSize : Nat
  freeList : Option Nat

namespace SlabCache

/-- No object is free. -/
def new (objectSize : Nat) : SlabCache := ⟨objectSize, pageSize, none⟩

/-- An object becomes the first free one, and the link to the others is written into it. -/
def push (cache : SlabCache) (node : Nat) (memory : Memory) : SlabCache × Memory :=
  ({ cache with freeList := some node }, storeWord memory node (encodeLink cache.freeList))

/-- Giving an object back. -/
def free (cache : SlabCache) (ptr : Nat) (memory : Memory) : SlabCache × Memory :=
  cache.push ptr memory

/-- The objects of a new frame become free, one after another. -/
def refillLoop (base : Nat) : List Nat → SlabCache → Memory → Exec (SlabCache × Memory)
  | [], cache, memory => .ok (cache, memory)
  | index :: rest, cache, memory =>
    let node := wrapAdd base (index * cache.objectSize)
    if node = 0 then .error .assertionFailed
    else
      let (cache, memory) := cache.push node memory
      refillLoop base rest cache memory

/-- Taking a frame and dividing it into objects. -/
def refill (cache : SlabCache) (map : DirectMap) (answers : Answers) (world : HeapWorld) :
    Exec (Option Unit × SlabCache × HeapWorld) :=
  match world.allocFrames answers 0 with
  | none => .ok (none, cache, world)
  | some (phys, world) => do
    let base := wrapAdd phys map.hhdmOffset
    let count := cache.slabSize / cache.objectSize
    let (cache, memory) ← refillLoop base (List.range count) cache world.memory
    .ok (some (), cache, { world with memory })

/-- Taking a frame if no object is free. -/
def refillIfEmpty (cache : SlabCache) (map : DirectMap) (answers : Answers) (world : HeapWorld) :
    Exec (Option Unit × SlabCache × HeapWorld) :=
  if cache.freeList.isNone then cache.refill map answers world else .ok (some (), cache, world)

/-- Taking the first free object. -/
def alloc (cache : SlabCache) (map : DirectMap) (answers : Answers) (world : HeapWorld) :
    Exec (Option Nat × SlabCache × HeapWorld) := do
  match ← cache.refillIfEmpty map answers world with
  | (none, cache, world) => .ok (none, cache, world)
  | (some (), cache, world) =>
    match cache.freeList with
    | none => .ok (none, cache, world)
    | some node =>
      let freeList := decodeLink (loadWord world.memory node)
      .ok (some node, { cache with freeList }, world)

end SlabCache

/-- The order of the smallest block of frames with a given number of pages, up to the largest. -/
def orderForCount (pages : Nat) : Nat :=
  let need := max (2 ^ Nat.clog 2 pages) 1
  ((List.range Phys.maxOrder).find? fun order => need ≤ 2 ^ order).getD Phys.maxOrder

/-- Memory for a request that is too large for every class. -/
def largeAlloc (map : DirectMap) (answers : Answers) (size : Nat) (world : HeapWorld) :
    Option Nat × HeapWorld :=
  let pages := wrapSub (wrapAdd size pageSize) 1 / pageSize
  match world.allocFrames answers (orderForCount pages) with
  | none => (none, world)
  | some (phys, world) =>
    let ptr := wrapAdd phys map.hhdmOffset
    (if ptr = 0 then none else some ptr, world)

/-- The classes of the heap. -/
structure SlabAllocator where
  caches : Nat → SlabCache

namespace SlabAllocator

/-- No object is free. -/
def new : SlabAllocator := ⟨fun index => .new (sizeClasses.getD index 0)⟩

/-- Taking memory for a request. -/
def allocate (heap : SlabAllocator) (map : DirectMap) (answers : Answers) (layout : Layout)
    (world : HeapWorld) : Exec (Option Nat × SlabAllocator × HeapWorld) :=
  let size := max layout.size layout.align
  match classIndex size with
  | some index => do
    let (ptr, cache, world) ← (heap.caches index).alloc map answers world
    .ok (ptr, ⟨Function.update heap.caches index cache⟩, world)
  | none =>
    let (ptr, world) := largeAlloc map answers size world
    .ok (ptr, heap, world)

/-- Giving memory back; what was too large for every class is lost. -/
def deallocate (heap : SlabAllocator) (ptr : Nat) (layout : Layout) (world : HeapWorld) :
    SlabAllocator × HeapWorld :=
  match classIndex (max layout.size layout.align) with
  | some index =>
    let (cache, memory) := (heap.caches index).free ptr world.memory
    (⟨Function.update heap.caches index cache⟩, { world with memory })
  | none => (heap, world)

/-- Changing the size of an object, which stays where it is if it does not grow. -/
def reallocate (heap : SlabAllocator) (map : DirectMap) (answers : Answers) (ptr : Nat)
    (layout : Layout) (newSize : Nat) (world : HeapWorld) :
    Exec (Option Nat × SlabAllocator × HeapWorld) :=
  let old := max layout.size layout.align
  if newSize ≤ old then .ok (some ptr, heap, world)
  else
    match layout.withSize newSize with
    | none => .ok (none, heap, world)
    | some newLayout => do
      match ← heap.allocate map answers newLayout world with
      | (none, heap, world) => .ok (none, heap, world)
      | (some newPtr, heap, world) =>
        let memory := store world.memory newPtr old fun index => world.memory (ptr + index)
        let (heap, world) := heap.deallocate ptr layout { world with memory }
        .ok (some newPtr, heap, world)

end SlabAllocator

end TheoryKernel.Mm.Heap
