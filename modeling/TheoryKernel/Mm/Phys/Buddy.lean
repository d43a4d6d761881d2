import TheoryKernel.Base.Word
import TheoryKernel.Mm.Phys.Bitmap
import TheoryKernel.Lib.AlignedBlocks

/-! The buddy allocator, whose free blocks are linked by their indices in a pool of list nodes. -/

namespace TheoryKernel.Mm.Phys

open AlignedBlocks (Block)

/-- The largest order of a block. -/
def maxOrder : Nat := 10

/-- The number of memory nodes with lists of their own. -/
def maxNodes : Nat := 8

/-- A list node of the pool. -/
structure FreeBlock where
  frame : Nat
  order : Nat
  next : Option Nat
  deriving DecidableEq, Repr

/--
The heads of the free lists and the pool of list nodes.

The list holds the pool nodes written so far, so its length is the source's `next_block`, and the
count is the size of the whole pool.
-/
structure BuddyAllocator where
  freeLists : Nat → Nat → Option Nat
  blocks : List FreeBlock
  blockCount : Nat

namespace BuddyAllocator

/-- An allocator with empty lists over a pool of the given size. -/
def new (blockCount : Nat) : BuddyAllocator := ⟨fun _ _ => none, [], blockCount⟩

/-- Reading a list head faults outside the table of nodes and orders. -/
def head (buddy : BuddyAllocator) (node order : Nat) : Exec (Option Nat) :=
  if node < maxNodes ∧ order ≤ maxOrder then .ok (buddy.freeLists node order)
  else .error .indexOutOfBounds

/-- Writing a list head faults outside the table of nodes and orders. -/
def setHead (buddy : BuddyAllocator) (node order : Nat) (first : Option Nat) :
    Exec BuddyAllocator :=
  if node < maxNodes ∧ order ≤ maxOrder then
    .ok { buddy with
      freeLists := Function.update buddy.freeLists node
        (Function.update (buddy.freeLists node) order first) }
  else .error .indexOutOfBounds

/-- Reading a pool node, which must have been written before. -/
def block (buddy : BuddyAllocator) (index : Nat) : Exec FreeBlock :=
  match buddy.blocks[index]? with
  | some block => .ok block
  | none => .error .indexOutOfBounds

/-- Changing the link of a pool node, which must have been written before. -/
def setNext (buddy : BuddyAllocator) (index : Nat) (next : Option Nat) : Exec BuddyAllocator := do
  let block ← buddy.block index
  return { buddy with blocks := buddy.blocks.set index { block with next } }

/-- A block is put in front of its list, in a pool node that was never used before. -/
def pushBlock (buddy : BuddyAllocator) (node frame order : Nat) : Exec BuddyAllocator :=
  if buddy.blocks.length < buddy.blockCount then do
    let next ← buddy.head node order
    let written : BuddyAllocator :=
      { buddy with blocks := buddy.blocks ++ [⟨frame, order, next⟩] }
    written.setHead node order (some buddy.blocks.length)
  else .error .assertionFailed

/-- Taking a node out of its list redirects the link that led to it. -/
def unlink (buddy : BuddyAllocator) (node order : Nat) (prev next : Option Nat) :
    Exec BuddyAllocator :=
  match prev with
  | none => buddy.setHead node order next
  | some prev => buddy.setNext prev next

/-- The walk along a list in search of a block, which is unlinked when it is met. -/
def takeLoop (buddy : BuddyAllocator) (node target order : Nat) :
    Nat → Option Nat → Option Nat → Exec (Option BuddyAllocator)
  | _, _, none => .ok none
  | 0, _, some _ => .error .diverged
  | fuel + 1, prev, some index => do
    let block ← buddy.block index
    if block.frame = target ∧ block.order = order then
      return some (← buddy.unlink node order prev block.next)
    else buddy.takeLoop node target order fuel (some index) block.next

/-- The first list with a block on it, among lists of one node in the given order. -/
def firstList (buddy : BuddyAllocator) (node : Nat) : List Nat → Exec (Option (Nat × Nat))
  | [] => .ok none
  | search :: rest => do
    match ← buddy.head node search with
    | some index => return some (search, index)
    | none => buddy.firstList node rest

end BuddyAllocator

/-- The allocator together with the bitmap that its calls borrow. -/
structure Pool where
  buddy : BuddyAllocator
  bitmap : FrameBitmap

namespace Pool

/--
The order of the next block cut from a region.

It is the largest one for which the block is aligned, ends inside the region and has no frame in use;
a single frame is always accepted.
-/
def pickOrder (bitmap : FrameBitmap) (frame stop : Nat) : Nat → Exec Nat
  | 0 => .ok 0
  | order + 1 =>
    let blockStop := wrapAdd frame (2 ^ (order + 1))
    if frame % 2 ^ (order + 1) ≠ 0 ∨ blockStop > stop then pickOrder bitmap frame stop order
    else do
      if ← bitmap.allFree frame blockStop then return order + 1
      else pickOrder bitmap frame stop order

/-- The rest of a region is cut into blocks, each marked used and put on a list. -/
def regionLoop (node stop : Nat) : Nat → Pool → Nat → Exec Pool
  | 0, pool, frame => if frame < stop then .error .diverged else .ok pool
  | fuel + 1, pool, frame =>
    if frame < stop then do
      let order ← pickOrder pool.bitmap frame stop maxOrder
      let blockStop := wrapAdd frame (2 ^ order)
      let bitmap ← pool.bitmap.setUsedRange frame blockStop
      let buddy ← pool.buddy.pushBlock node frame order
      regionLoop node stop fuel ⟨buddy, bitmap⟩ blockStop
    else .ok pool

/-- Adding a region of frames; every round uses up a pool node, which bounds their number. -/
def addRegion (pool : Pool) (startFrame frameCount node : Nat) : Exec Pool :=
  if frameCount = 0 ∨ node ≥ maxNodes then .ok pool
  else regionLoop node (wrapAdd startFrame frameCount) (pool.buddy.blockCount + 1) pool startFrame

/-- The upper halves of a block are put back until the block has the requested order. -/
def splitLoop (node frame order : Nat) : Nat → Pool → Exec Pool
  | 0, pool => .ok pool
  | steps + 1, pool => do
    let half := wrapAdd frame (2 ^ (order + steps))
    let bitmap ← pool.bitmap.setFree half
    let buddy ← pool.buddy.pushBlock node half (order + steps)
    splitLoop node frame order steps ⟨buddy, bitmap⟩

/-- The orders in which the lists of a node are searched, the largest first. -/
def searchOrders (order : Nat) : List Nat := (List.range' order (maxOrder + 1 - order)).reverse

/-- A block of the requested order is cut from the largest block of one node. -/
def allocFrom (pool : Pool) (order node : Nat) : Exec (Option (Nat × Pool)) := do
  match ← pool.buddy.firstList node (searchOrders order) with
  | none => return none
  | some (search, index) =>
    let block ← pool.buddy.block index
    let buddy ← pool.buddy.setHead node search block.next
    let rest ← splitLoop node block.frame order (search - order) ⟨buddy, pool.bitmap⟩
    let bitmap ← rest.bitmap.setUsed block.frame
    return some (block.frame, ⟨rest.buddy, bitmap⟩)

/-- The first node with a large enough block serves the request. -/
def allocFirst (pool : Pool) (order : Nat) : List Nat → Exec (Option (Nat × Pool))
  | [] => .ok none
  | node :: rest => do
    match ← pool.allocFrom order node with
    | some served => return some served
    | none => pool.allocFirst order rest

/-- The nodes in the order in which a request tries them: its own, and then the others. -/
def nodeOrder (node : Nat) : List Nat := node :: (List.range maxNodes).filter (· ≠ node)

/-- A request of a node that exists tries only nodes that exist. -/
theorem nodeOrder_lt {node : Nat} (valid : node < maxNodes) :
    ∀ other ∈ nodeOrder node, other < maxNodes :=
  List.forall_mem_cons.mpr ⟨valid, fun _ later => List.mem_range.mp (List.mem_filter.mp later).1⟩

/-- Allocating a block, from its own node if possible. -/
def alloc (pool : Pool) (order node : Nat) : Exec (Option (Nat × Pool)) :=
  pool.allocFirst (min order maxOrder) (nodeOrder node)

/-- A buddy is taken off its list if its bit is clear and it is found there. -/
def takeBuddy (pool : Pool) (node target order : Nat) : Exec (Option BuddyAllocator) := do
  if ← pool.bitmap.isFree target then
    let first ← pool.buddy.head node order
    pool.buddy.takeLoop node target order (pool.buddy.blocks.length + 1) none first
  else return none

/-- A block merges with its buddy for as long as the buddy is free. -/
def mergeLoop (node : Nat) : Nat → Pool → Nat → Nat → Exec (Pool × Nat × Nat)
  | 0, pool, frame, order => .ok (pool, frame, order)
  | rounds + 1, pool, frame, order =>
    let target := frame ^^^ 2 ^ order
    if order > maxOrder ∨ target ≥ pool.bitmap.frameCount then .ok (pool, frame, order)
    else do
      match ← pool.takeBuddy node target order with
      | none => return (pool, frame, order)
      | some buddy =>
        let bitmap ← pool.bitmap.setFree (min frame target)
        mergeLoop node rounds ⟨buddy, bitmap⟩ (min frame target) (order + 1)

/-- Freeing a block merges it as far as possible and puts the result on a list. -/
def free (pool : Pool) (frame order node : Nat) : Exec Pool := do
  let bitmap ← pool.bitmap.setFree frame
  let (merged, frame, order) ←
    mergeLoop node (maxOrder + 1) ⟨pool.buddy, bitmap⟩ frame (min order maxOrder)
  let buddy ← merged.buddy.pushBlock node frame order
  return ⟨buddy, merged.bitmap⟩

end Pool

end TheoryKernel.Mm.Phys
