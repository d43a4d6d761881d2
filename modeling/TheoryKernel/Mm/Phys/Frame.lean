import TheoryKernel.Mm.Phys.BuddyReturn

/-! The frame allocator, whose bitmap search and buddy allocator share one bitmap. -/

namespace TheoryKernel.Mm.Phys

open Exec FrameBitmap

open AlignedBlocks (Block)

/-- The words of the static storage of the bitmap. -/
def maxBitmapWords : Nat := 65536

/-- A block of frames held by a client, and the node it was asked from. -/
structure FrameDescriptor where
  frame : Nat
  order : Nat
  node : Nat
  deriving DecidableEq, Repr

/-- The frames of a descriptor. -/
def FrameDescriptor.block (descriptor : FrameDescriptor) : Block :=
  ⟨descriptor.frame, descriptor.order⟩

/-- The buddy allocator and the bitmap it shares with the search for single frames. -/
abbrev FrameAllocator : Type := Pool

namespace FrameAllocator

variable {allocator changed : FrameAllocator} {order node frame : Nat} {owned : Set Nat}
  {live : List FrameDescriptor}

/-- The list index of a node number. -/
def nodeIndex (node : Nat) : Nat := min node (maxNodes - 1)

/-- A single frame from the bitmap, marked used. -/
def allocBit (allocator : FrameAllocator) (node : Nat) :
    Exec (Option (FrameDescriptor × FrameAllocator)) := do
  match ← allocator.bitmap.findFree with
  | some frame =>
    let bitmap ← allocator.bitmap.setUsed frame
    return some (⟨frame, 0, node⟩, { allocator with bitmap })
  | none => return none

/-- A block from the buddy allocator. -/
def allocBlock (allocator : FrameAllocator) (order node : Nat) :
    Exec (Option (FrameDescriptor × FrameAllocator)) := do
  match ← allocator.alloc order (nodeIndex node) with
  | some (frame, allocator) => return some (⟨frame, order, node⟩, allocator)
  | none => return none

/-- A block of a given order; single frames come from the bitmap while it has any. -/
def allocOrder (allocator : FrameAllocator) (order node : Nat) :
    Exec (Option (FrameDescriptor × FrameAllocator)) :=
  let order := min order maxOrder
  if order = 0 then do
    match ← allocator.allocBit node with
    | some served => return some served
    | none => allocator.allocBlock order node
  else allocator.allocBlock order node

/-- A single frame, from the bitmap while it has any. -/
def allocOne (allocator : FrameAllocator) (node : Nat) :
    Exec (Option (FrameDescriptor × FrameAllocator)) := do
  match ← allocator.allocBit node with
  | some served => return some served
  | none => allocator.allocOrder 0 node

/-- A single frame is given back to the bitmap and a larger block to the buddy allocator. -/
def free (allocator : FrameAllocator) (descriptor : FrameDescriptor) : Exec FrameAllocator :=
  if descriptor.order = 0 then do
    let bitmap ← allocator.bitmap.setFree descriptor.frame
    return { allocator with bitmap }
  else
    Pool.free allocator descriptor.frame descriptor.order (nodeIndex descriptor.node)

end FrameAllocator

namespace Pool

variable {pool : Pool} {order node : Nat}

variable {served : Nat × Pool} {nodes : List Nat}

theorem largestOrder_of_none (returned : pool.allocFrom order node = .ok none) :
    largestOrder pool.buddy node (searchOrders order) = none := by
  unfold allocFrom at returned
  obtain ⟨found, searched, returned⟩ := bind_eq_ok.mp returned
  have largest := largestOrder_of_firstList searched
  cases found with
  | none => exact largest
  | some found =>
    obtain ⟨block, -, returned⟩ := bind_eq_ok.mp returned
    obtain ⟨buddy, -, returned⟩ := bind_eq_ok.mp returned
    obtain ⟨rest, -, returned⟩ := bind_eq_ok.mp returned
    obtain ⟨bitmap, -, returned⟩ := bind_eq_ok.mp returned
    cases returned

theorem allocFirst_plain
    (plain : ∀ search, pool.sourceOrder order nodes = some search → search = order)
    (returned : pool.allocFirst order nodes = .ok (some served)) :
    pool.bitmap.setUsed served.1 = .ok served.2.bitmap := by
  induction nodes with
  | nil => cases returned
  | cons node rest ih =>
    rw [sourceOrder_cons] at plain
    rw [allocFirst] at returned
    obtain ⟨result, tried, returned⟩ := bind_eq_ok.mp returned
    cases result with
    | none =>
      rw [largestOrder_of_none tried, Option.none_or] at plain
      exact ih plain returned
    | some result =>
      cases returned
      unfold allocFrom at tried
      obtain ⟨found, searched, tried⟩ := bind_eq_ok.mp tried
      have largest := largestOrder_of_firstList searched
      cases found with
      | none => cases tried
      | some found =>
        obtain ⟨search, index⟩ := found
        obtain ⟨block, -, tried⟩ := bind_eq_ok.mp tried
        obtain ⟨buddy, -, tried⟩ := bind_eq_ok.mp tried
        -- No half is put back, so the bitmap is untouched up to the final mark.
        have same : search = order := plain search (by rw [largest]; rfl)
        rw [same, Nat.sub_self] at tried
        obtain ⟨rest, splitted, tried⟩ := bind_eq_ok.mp tried
        cases splitted
        obtain ⟨bitmap, marked, tried⟩ := bind_eq_ok.mp tried
        cases tried
        exact marked

theorem firstList_new (blockCount : Nat) {orders : List Nat} (valid : node < maxNodes)
    (bounded : ∀ search ∈ orders, search ≤ maxOrder) :
    (BuddyAllocator.new blockCount).firstList node orders = .ok none := by
  induction orders with
  | nil => rfl
  | cons search rest ih =>
    have here : search ≤ maxOrder := bounded search List.mem_cons_self
    rw [BuddyAllocator.firstList, BuddyAllocator.head, if_pos ⟨valid, here⟩]
    exact ih fun other later => bounded other (List.mem_cons_of_mem search later)

theorem allocFirst_new (blockCount : Nat) (bitmap : FrameBitmap) (order : Nat)
    (valid : ∀ node ∈ nodes, node < maxNodes) :
    Pool.allocFirst ⟨.new blockCount, bitmap⟩ order nodes = .ok none := by
  induction nodes with
  | nil => rfl
  | cons node rest ih =>
    have bounded : ∀ search ∈ searchOrders order, search ≤ maxOrder := fun search member =>
      (mem_searchOrders.mp member).2
    have searched := firstList_new blockCount (valid node List.mem_cons_self) bounded
    rw [Pool.allocFirst, Pool.allocFrom]
    simp only [searched, ok_bind, pure_eq]
    exact ih fun other later => valid other (List.mem_cons_of_mem node later)

end Pool

namespace FrameAllocator

variable {allocator changed : FrameAllocator} {order node frame : Nat} {owned : Set Nat}
  {live : List FrameDescriptor} {served : FrameDescriptor × FrameAllocator}

/-- A buddy allocator that has been given no region serves no request. -/
theorem allocBlock_new (blockCount : Nat) (bitmap : FrameBitmap) (order node : Nat) :
    allocBlock ⟨.new blockCount, bitmap⟩ order node = .ok none := by
  have valid : nodeIndex node < maxNodes := Nat.lt_of_le_of_lt (Nat.min_le_right _ _) (by decide)
  rw [allocBlock, Pool.alloc, Pool.allocFirst_new blockCount bitmap _ (Pool.nodeOrder_lt valid)]
  rfl

/-- Without a region, no request for more than one frame is served. -/
theorem allocOrder_new (blockCount : Nat) (bitmap : FrameBitmap) (node : Nat) (low : 1 ≤ order) :
    allocOrder ⟨.new blockCount, bitmap⟩ order node = .ok none := by
  have positive : min order maxOrder ≠ 0 := by
    unfold maxOrder
    omega
  rw [allocOrder, if_neg positive]
  exact allocBlock_new ..

/-- The live and the listed blocks are disjoint, and the bits of all their frames are set. -/
structure Guarded (allocator : FrameAllocator) (live : List FrameDescriptor) (owned : Set Nat) :
    Prop where
  conserved : Conserved allocator.buddy (live.map FrameDescriptor.block) owned
  used : ∀ frame ∈ owned, allocator.bitmap.bit frame = some true
  limited : allocator.bitmap.frameCount ≤ frameLimit

section

variable (guarded : Guarded allocator live owned)

include guarded

/-- A frame whose bit is clear belongs to no live or listed block. -/
theorem Guarded.not_owned (free : allocator.bitmap.isFree frame = .ok true) : frame ∉ owned := by
  intro inside
  have clear := (isFree_iff.mp free).2
  rw [guarded.used frame inside] at clear
  cases clear

/-- A frame found by the bitmap search becomes live. -/
theorem Guarded.allocBit (returned : allocator.allocBit node = .ok (some served)) :
    Guarded served.2 (served.1 :: live) (owned ∪ {served.1.frame}) := by
  unfold FrameAllocator.allocBit at returned
  obtain ⟨found, searched, returned⟩ := bind_eq_ok.mp returned
  cases found with
  | none => cases returned
  | some frame =>
    obtain ⟨bitmap, marking, returned⟩ := bind_eq_ok.mp returned
    cases returned
    have free : allocator.bitmap.isFree frame = .ok true := searched_of_findFree searched
    have tracked := (isFree_iff.mp free).1
    have marked := marked_of_set marking
    have single : ∀ other, (Block.mk frame 0).Covers other ↔ other = frame := by
      intro other
      simp only [Block.Covers, Nat.pow_zero]
      omega
    have below : frame < frameLimit := Nat.lt_of_lt_of_le tracked guarded.limited
    refine ⟨?_, ?_, marked.frameCount.symm ▸ guarded.limited⟩
    · have aligned : (Block.mk frame 0).Aligned := Nat.one_dvd _
      apply guarded.conserved.extend aligned
      · intro other covered
        rw [(single other).mp covered]
        exact guarded.not_owned free
      · intro other
        rw [single other]
        exact Or.comm
      · rintro other (inside | rfl)
        · exact guarded.conserved.small other inside
        · exact below
    · intro other inside
      rw [marked.bit other]
      by_cases here : frame ≤ other ∧ other < frame + 1
      · rw [if_pos here]
      · rw [if_neg here]
        rcases inside with inside | rfl
        · exact guarded.used other inside
        · exact absurd ⟨Nat.le_refl _, Nat.lt_succ_self _⟩ here

theorem Guarded.mark {bitmap : FrameBitmap} {buddy : BuddyAllocator}
    (live' : List FrameDescriptor)
    (conserved : Conserved buddy (live'.map FrameDescriptor.block) owned)
    (marking : allocator.bitmap.setUsed frame = .ok bitmap) :
    Guarded ⟨buddy, bitmap⟩ live' owned := by
  have marked := marked_of_set marking
  refine ⟨conserved, ?_, marked.frameCount.symm ▸ guarded.limited⟩
  intro other inside
  rw [marked.bit other]
  by_cases here : frame ≤ other ∧ other < frame + 1
  · rw [if_pos here]
  · rw [if_neg here]
    exact guarded.used other inside

/-- A block taken from the buddy allocator without a split becomes live. -/
theorem Guarded.allocBlock (clamped : order ≤ maxOrder)
    (plain : ∀ search, allocator.sourceOrder order (Pool.nodeOrder (nodeIndex node)) =
      some search → search = order)
    (returned : allocator.allocBlock order node = .ok (some served)) :
    Guarded served.2 (served.1 :: live) owned := by
  unfold FrameAllocator.allocBlock at returned
  obtain ⟨result, run, returned⟩ := bind_eq_ok.mp returned
  cases result with
  | none => cases returned
  | some result =>
    cases returned
    obtain ⟨conserved, -⟩ := Pool.alloc_conserves guarded.conserved run
    have same : min order maxOrder = order := Nat.min_eq_left clamped
    rw [same] at conserved
    rw [Pool.alloc, same] at run
    have marking := Pool.allocFirst_plain plain run
    exact guarded.mark (⟨result.1, order, node⟩ :: live) conserved marking

end

/-- A single frame that is given up belongs to nobody, so its bit may be cleared. -/
theorem Guarded.freeBit {descriptor : FrameDescriptor}
    (guarded : Guarded allocator (descriptor :: live) owned) (single : descriptor.order = 0)
    (returned : allocator.free descriptor = .ok changed) :
    ∃ owned', Guarded changed live owned' := by
  rw [FrameAllocator.free, if_pos single] at returned
  obtain ⟨bitmap, clearing, returned⟩ := bind_eq_ok.mp returned
  cases returned
  have marked := marked_of_set clearing
  refine ⟨_, guarded.conserved.release, ?_, marked.frameCount.symm ▸ guarded.limited⟩
  rintro other ⟨inside, outside⟩
  have apart : ¬ (descriptor.frame ≤ other ∧ other < descriptor.frame + 1) := by
    intro here
    apply outside
    simp only [Block.Covers, FrameDescriptor.block, single, Nat.pow_zero]
    exact here
  rw [marked.bit other, if_neg apart]
  exact guarded.used other inside

end FrameAllocator

end TheoryKernel.Mm.Phys
