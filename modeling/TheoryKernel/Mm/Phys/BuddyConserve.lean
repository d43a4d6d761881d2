import TheoryKernel.Mm.Phys.BuddyLists
import Mathlib.Order.Interval.Set.LinearOrder

/-! Blocks move between the free lists and their holders, and no frame is lost or gained. -/

namespace TheoryKernel.Mm.Phys

open FrameBitmap BuddyAllocator Exec

open AlignedBlocks (Block Tiling tiling_halves buddy_halves)

/-- The number of frames of the 64-bit physical address space. -/
def frameLimit : Nat := 2 ^ 52

/-- The held blocks and the listed blocks tile a set of frames. -/
structure Conserved (buddy : BuddyAllocator) (held : List Block) (owned : Set Nat) : Prop where
  linked : buddy.WellLinked
  tiling : Tiling (held ++ buddy.freeBlocks) owned
  small : ∀ frame ∈ owned, frame < frameLimit

namespace Conserved

variable {buddy changed : BuddyAllocator} {held held' : List Block} {owned owned' : Set Nat}
  {block : Block} {node frame order : Nat} {key : Nat × Nat}

/-- A new allocator owns nothing. -/
theorem start (blockCount : Nat) : Conserved (.new blockCount) [] ∅ where
  linked := ⟨_, BuddyAllocator.linked_new blockCount⟩
  tiling := by
    -- None of the lists has a block yet.
    have empty : (BuddyAllocator.new blockCount).freeBlocks = [] :=
      List.flatMap_eq_nil_iff.mpr fun _ _ => rfl
    rw [empty]
    exact AlignedBlocks.tiling_nil
  small := fun _ inside => absurd inside (Set.notMem_empty _)

/-- The order in which blocks are held does not matter. -/
theorem perm (conserved : Conserved buddy held owned) (same : held.Perm held') :
    Conserved buddy held' owned where
  __ := conserved
  tiling := conserved.tiling.perm (same.append_right _)

/-- A held block that is pushed becomes a listed one. -/
theorem push (conserved : Conserved buddy (⟨frame, order⟩ :: held) owned)
    (returned : buddy.pushBlock node frame order = .ok changed) :
    Conserved changed held owned ∧ changed.blockCount = buddy.blockCount ∧
      changed.blocks.length = buddy.blocks.length + 1 := by
  obtain ⟨room, member⟩ := pushBlock_ok returned
  obtain ⟨lists, linked⟩ := conserved.linked
  obtain ⟨expected, run, length, relisted⟩ := linked.push frame member room
  cases returned.symm.trans run
  refine ⟨⟨relisted.linked, ?_, conserved.small⟩, relisted.blockCount, length⟩
  -- The block moves from the front of the held blocks to the front of its list.
  refine conserved.tiling.perm ?_
  exact List.perm_middle.symm.trans ((relisted.grow member).symm.append_left held)

section

variable (conserved : Conserved buddy held owned)

include conserved

/-- A block that leaves a list becomes a held one. -/
theorem take {list : List Block}
    (member : key ∈ listKeys) (shorter : (buddy.freeList key).Perm (block :: list))
    (relisted : Relisted buddy changed key list) :
    Conserved changed (block :: held) owned where
  linked := relisted.linked
  tiling := by
    refine conserved.tiling.perm ?_
    exact ((relisted.shrink member shorter).append_left held).trans List.perm_middle
  small := conserved.small

/-- The first block of a list becomes a held one. -/
theorem pop {index : Nat} (member : (node, order) ∈ listKeys)
    (first : buddy.headOf (node, order) = some index) :
    ∃ block changed, buddy.block index = .ok block ∧
      buddy.setHead node order block.next = .ok changed ∧
      Conserved changed (⟨block.frame, order⟩ :: held) owned ∧
      changed.blockCount = buddy.blockCount ∧ changed.blocks.length = buddy.blocks.length := by
  obtain ⟨lists, linked⟩ := conserved.linked
  obtain ⟨block, changed, found, blockOrder, run, length, list, before, relisted⟩ :=
    linked.pop member first
  -- A block carries the order of the list it is on.
  have named : block.toBlock = ⟨block.frame, order⟩ := by rw [FreeBlock.toBlock, blockOrder]
  rw [named] at before
  exact ⟨block, changed, block_eq_ok.mpr found, run,
    conserved.take member (List.Perm.of_eq before) relisted, relisted.blockCount, length⟩

/-- A block of frames not owned before is added to the held ones. -/
theorem extend (aligned : block.Aligned) (fresh : ∀ frame, block.Covers frame → frame ∉ owned)
    (grown : ∀ frame, frame ∈ owned' ↔ block.Covers frame ∨ frame ∈ owned)
    (small : ∀ frame ∈ owned', frame < frameLimit) :
    Conserved buddy (block :: held) owned' where
  linked := conserved.linked
  tiling := conserved.tiling.cons aligned fresh grown
  small := small

end

/-- A held block that is given up takes its frames with it. -/
theorem release (conserved : Conserved buddy (block :: held) owned) :
    Conserved buddy held {frame | frame ∈ owned ∧ ¬ block.Covers frame} where
  linked := conserved.linked
  tiling := conserved.tiling.tail
  small := fun frame inside => conserved.small frame inside.1

/-- The next block of a region that is pushed adds its frames to the owned ones. -/
theorem pushRegion {stop : Nat} (conserved : Conserved buddy held owned)
    (aligned : 2 ^ order ∣ frame) (fits : frame + 2 ^ order ≤ stop) (small : stop ≤ frameLimit)
    (fresh : ∀ other ∈ Set.Ico frame stop, other ∉ owned)
    (pushed : buddy.pushBlock node frame order = .ok changed) :
    Conserved changed held (owned ∪ Set.Ico frame (frame + 2 ^ order)) ∧
      changed.blockCount = buddy.blockCount ∧
      changed.blocks.length = buddy.blocks.length + 1 := by
  -- The block is first taken into possession and then put on its list.
  have extended : Conserved buddy (⟨frame, order⟩ :: held)
      (owned ∪ Set.Ico frame (frame + 2 ^ order)) := by
    have blockAligned : (Block.mk frame order).Aligned := aligned
    apply conserved.extend blockAligned
    · intro other covered
      exact fresh other ⟨covered.1, Nat.lt_of_lt_of_le covered.2 fits⟩
    · intro other
      exact Or.comm
    · rintro other (inside | ⟨-, below⟩)
      · exact conserved.small other inside
      · exact Nat.lt_of_lt_of_le below (fits.trans small)
  exact extended.push pushed

/-- Every held block is aligned. -/
theorem aligned (conserved : Conserved buddy (block :: held) owned) : block.Aligned :=
  conserved.tiling.aligned block (by simp)

/-- Every frame of a held block is owned. -/
theorem owns (conserved : Conserved buddy (block :: held) owned) (covered : block.Covers frame) :
    frame ∈ owned :=
  (conserved.tiling.covers frame).mpr ⟨block, by simp, covered⟩

/-- The first frame of a held block is owned. -/
theorem owns_start (conserved : Conserved buddy (⟨frame, order⟩ :: held) owned) : frame ∈ owned :=
  conserved.owns ⟨Nat.le_refl _, Nat.lt_add_of_pos_right (Nat.two_pow_pos _)⟩

/-- A held block may be cut in halves. -/
theorem split (conserved : Conserved buddy (⟨frame, order + 1⟩ :: held) owned) :
    Conserved buddy (⟨frame + 2 ^ order, order⟩ :: ⟨frame, order⟩ :: held) owned where
  __ := conserved
  tiling := by
    have halves := (tiling_halves conserved.aligned).mpr conserved.tiling
    exact halves.perm (List.Perm.swap _ _ _)

/-- The upper half of a held block starts where the sum of its numbers says. -/
theorem half_eq (conserved : Conserved buddy (⟨frame, order + 1⟩ :: held) owned) :
    wrapAdd frame (2 ^ order) = frame + 2 ^ order := by
  have limited : frame + 2 ^ order < 2 ^ 52 := conserved.small _ conserved.split.owns_start
  exact wrapAdd_eq (by omega)

/-- Two held buddies may be joined to the block of the next order. -/
theorem merge
    (conserved : Conserved buddy (⟨frame ^^^ 2 ^ order, order⟩ :: ⟨frame, order⟩ :: held) owned) :
    Conserved buddy (⟨min frame (frame ^^^ 2 ^ order), order + 1⟩ :: held) owned where
  __ := conserved
  tiling := by
    have aligned : 2 ^ order ∣ frame := conserved.tiling.aligned ⟨frame, order⟩ (by simp)
    obtain ⟨whole, halves⟩ := buddy_halves aligned
    refine (tiling_halves whole).mp (conserved.tiling.perm ?_)
    -- The freed block is either the lower half or the upper half of the joined one.
    rcases halves with ⟨lower, upper⟩ | ⟨lower, upper⟩
    · rw [lower, ← upper]
      exact List.Perm.swap _ _ _
    · rw [lower, ← upper]
      rfl

end Conserved

namespace Pool

variable {pool changed : Pool} {held : List Block} {owned : Set Nat}
  {node frame stop order bound : Nat}

/-- The sizes of the pool of list nodes and of the bitmap are fixed. -/
structure SameSizes (pool changed : Pool) : Prop where
  blockCount : changed.buddy.blockCount = pool.buddy.blockCount
  frameCount : changed.bitmap.frameCount = pool.bitmap.frameCount
  length : changed.bitmap.bits.length = pool.bitmap.bits.length

theorem SameSizes.refl (pool : Pool) : SameSizes pool pool := ⟨rfl, rfl, rfl⟩

theorem SameSizes.trans {middle : Pool} (first : SameSizes pool middle)
    (second : SameSizes middle changed) : SameSizes pool changed :=
  ⟨second.blockCount.trans first.blockCount, second.frameCount.trans first.frameCount,
    second.length.trans first.length⟩

/-- The block picked for a region is aligned and ends inside the region. -/
theorem pickOrder_fits {bitmap : FrameBitmap} (more : frame < stop)
    (small : frame + 2 ^ bound < 2 ^ 64)
    (returned : pickOrder bitmap frame stop bound = .ok order) :
    order ≤ bound ∧ 2 ^ order ∣ frame ∧ frame + 2 ^ order ≤ stop := by
  -- Orders are tried downwards, and a single frame always fits.
  induction bound with
  | zero =>
    cases returned
    exact ⟨Nat.le_refl _, Nat.one_dvd _, more⟩
  | succ bound ih =>
    have lower : 2 ^ bound ≤ 2 ^ (bound + 1) := Nat.pow_le_pow_right (by decide) (by omega)
    have next : pickOrder bitmap frame stop bound = .ok order →
        order ≤ bound + 1 ∧ 2 ^ order ∣ frame ∧ frame + 2 ^ order ≤ stop := by
      intro rest
      obtain ⟨le, fits⟩ := ih (by omega) rest
      exact ⟨by omega, fits⟩
    rw [pickOrder, wrapAdd_eq small] at returned
    split at returned
    · exact next returned
    · rename_i fits
      obtain ⟨free, -, returned⟩ := bind_eq_ok.mp returned
      cases free with
      | false => exact next returned
      | true =>
        cases returned
        rw [not_or, not_not] at fits
        exact ⟨Nat.le_refl _, Nat.dvd_of_mod_eq_zero fits.1, by omega⟩

variable {fuel startFrame frameCount search rounds : Nat} {served : Nat × Pool}
  {result : Pool × Nat × Nat}

/-- What is left of a region after its first block is not owned yet. -/
theorem fresh_rest (fresh : ∀ other ∈ Set.Ico frame stop, other ∉ owned) :
    ∀ other ∈ Set.Ico (frame + 2 ^ order) stop,
      other ∉ owned ∪ Set.Ico frame (frame + 2 ^ order) := by
  rintro other ⟨low, high⟩ (inside | ⟨-, below⟩)
  · exact fresh other ⟨(Nat.le_add_right _ _).trans low, high⟩ inside
  · omega

/-- At the end of a region nothing is left to do. -/
theorem regionLoop_done (fuel : Nat) (done : ¬ frame < stop) :
    regionLoop node stop fuel pool frame = .ok pool := by
  cases fuel with
  | zero | succ fuel => rw [regionLoop, if_neg done]

section

variable (conserved : Conserved pool.buddy held owned)

include conserved

theorem regionLoop_ended (ended : frame = stop)
    (returned : regionLoop node stop fuel pool frame = .ok changed) :
    Conserved changed.buddy held (owned ∪ Set.Ico frame stop) ∧ SameSizes pool changed ∧
      Marked pool.bitmap frame stop true changed.bitmap := by
  rw [regionLoop_done fuel (by omega)] at returned
  cases returned
  rw [ended, Set.Ico_self, Set.union_empty]
  exact ⟨conserved, .refl _, marked_empty stop true⟩

theorem regionLoop_conserves (ordered : frame ≤ stop) (small : stop ≤ frameLimit)
    (fresh : ∀ other ∈ Set.Ico frame stop, other ∉ owned)
    (returned : regionLoop node stop fuel pool frame = .ok changed) :
    Conserved changed.buddy held (owned ∪ Set.Ico frame stop) ∧ SameSizes pool changed ∧
      Marked pool.bitmap frame stop true changed.bitmap := by
  -- Each round moves the front of the region past the block it puts on a list.
  induction fuel generalizing pool frame owned with
  | zero =>
    by_cases more : frame < stop
    · rw [regionLoop, if_pos more] at returned
      cases returned
    · exact regionLoop_ended conserved (by omega) returned
  | succ fuel ih =>
    by_cases more : frame < stop
    · have limited : stop ≤ 2 ^ 52 := small
      rw [regionLoop, if_pos more] at returned
      obtain ⟨order, picked, returned⟩ := bind_eq_ok.mp returned
      have room : frame + 2 ^ maxOrder < 2 ^ 64 := by rw [maxOrder]; omega
      obtain ⟨-, aligned, fits⟩ := pickOrder_fits more room picked
      have plain : wrapAdd frame (2 ^ order) = frame + 2 ^ order := wrapAdd_eq (by omega)
      simp only [plain] at returned
      obtain ⟨bitmap, marked, returned⟩ := bind_eq_ok.mp returned
      obtain ⟨buddy, pushed, returned⟩ := bind_eq_ok.mp returned
      have marked := marked_of_setRange marked
      obtain ⟨after, blockCount, -⟩ := conserved.pushRegion aligned fits small fresh pushed
      have sizes : SameSizes pool ⟨buddy, bitmap⟩ := ⟨blockCount, marked.frameCount, marked.length⟩
      obtain ⟨final, further, later⟩ := ih after fits (fresh_rest fresh) returned
      refine ⟨?_, sizes.trans further, marked.append later (Nat.le_add_right _ _) fits⟩
      rwa [Set.union_assoc, Set.Ico_union_Ico_eq_Ico (Nat.le_add_right _ _) fits] at final
    · exact regionLoop_ended conserved (by omega) returned

/-- Adding a region marks its frames and adds them to the owned ones. -/
theorem addRegion_conserves (small : startFrame + frameCount ≤ frameLimit)
    (fresh : ∀ other ∈ Set.Ico startFrame (startFrame + frameCount), other ∉ owned)
    (valid : node < maxNodes) (returned : pool.addRegion startFrame frameCount node = .ok changed) :
    Conserved changed.buddy held (owned ∪ Set.Ico startFrame (startFrame + frameCount)) ∧
      SameSizes pool changed ∧
      Marked pool.bitmap startFrame (startFrame + frameCount) true changed.bitmap := by
  have limited : startFrame + frameCount ≤ 2 ^ 52 := small
  have plain : wrapAdd startFrame frameCount = startFrame + frameCount := wrapAdd_eq (by omega)
  rw [addRegion, plain] at returned
  by_cases none : frameCount = 0
  · rw [if_pos (.inl none)] at returned
    cases returned
    rw [none, Nat.add_zero, Set.Ico_self, Set.union_empty]
    exact ⟨conserved, .refl _, marked_empty startFrame true⟩
  · rw [if_neg (by omega)] at returned
    exact regionLoop_conserves conserved (by omega) small fresh returned

end

/-- Splitting a held block leaves a held block of the requested order and lists the rest. -/
theorem splitLoop_conserves {steps : Nat}
    (conserved : Conserved pool.buddy (⟨frame, order + steps⟩ :: held) owned)
    (returned : splitLoop node frame order steps pool = .ok changed) :
    Conserved changed.buddy (⟨frame, order⟩ :: held) owned ∧ SameSizes pool changed := by
  induction steps generalizing pool with
  | zero =>
    cases returned
    exact ⟨conserved, .refl _⟩
  | succ steps ih =>
    have half : wrapAdd frame (2 ^ (order + steps)) = _ := conserved.half_eq
    rw [splitLoop, half] at returned
    obtain ⟨bitmap, cleared, returned⟩ := bind_eq_ok.mp returned
    obtain ⟨buddy, pushed, returned⟩ := bind_eq_ok.mp returned
    have cleared := marked_of_set cleared
    -- The upper half goes on its list, and the lower half is split further.
    obtain ⟨after, blockCount, -⟩ := conserved.split.push pushed
    obtain ⟨final, further⟩ := ih after returned
    exact ⟨final, .trans ⟨blockCount, cleared.frameCount, cleared.length⟩ further⟩

/-- The list found by a search is one of those searched, and its head is the node found. -/
theorem firstList_found {buddy : BuddyAllocator} {orders : List Nat} {index : Nat}
    (returned : buddy.firstList node orders = .ok (some (search, index))) :
    search ∈ orders ∧ (node, search) ∈ listKeys ∧ buddy.headOf (node, search) = some index := by
  induction orders with
  | nil => cases returned
  | cons first rest ih =>
    rw [firstList] at returned
    obtain ⟨head, read, returned⟩ := bind_eq_ok.mp returned
    cases head with
    | none =>
      obtain ⟨later, found⟩ := ih returned
      exact ⟨List.mem_cons_of_mem first later, found⟩
    | some head =>
      cases returned
      exact ⟨List.mem_cons_self, head_eq_ok.mp read⟩

/-- The orders searched are those that are large enough. -/
theorem mem_searchOrders : search ∈ searchOrders order ↔ order ≤ search ∧ search ≤ maxOrder := by
  rw [searchOrders, List.mem_reverse, List.mem_range'_1]
  omega

theorem allocFirst_served {nodes : List Nat}
    (returned : pool.allocFirst order nodes = .ok (some served)) :
    ∃ node, pool.allocFrom order node = .ok (some served) := by
  induction nodes with
  | nil => cases returned
  | cons node rest ih =>
    rw [allocFirst] at returned
    obtain ⟨result, tried, returned⟩ := bind_eq_ok.mp returned
    cases result with
    | none => exact ih returned
    | some result =>
      cases returned
      exact ⟨node, tried⟩

/-- An allocated block becomes a held one. -/
theorem alloc_conserves (conserved : Conserved pool.buddy held owned)
    (returned : pool.alloc order node = .ok (some served)) :
    Conserved served.2.buddy (⟨served.1, min order maxOrder⟩ :: held) owned ∧
      SameSizes pool served.2 := by
  obtain ⟨source, returned⟩ := allocFirst_served returned
  unfold allocFrom at returned
  obtain ⟨found, searched, returned⟩ := bind_eq_ok.mp returned
  cases found with
  | none => cases returned
  | some found =>
    obtain ⟨search, index⟩ := found
    obtain ⟨block, read, returned⟩ := bind_eq_ok.mp returned
    obtain ⟨buddy, popped, returned⟩ := bind_eq_ok.mp returned
    obtain ⟨rest, splitted, returned⟩ := bind_eq_ok.mp returned
    obtain ⟨bitmap, marked, returned⟩ := bind_eq_ok.mp returned
    cases returned
    obtain ⟨inRange, member, first⟩ := firstList_found searched
    obtain ⟨enough, bounded⟩ := mem_searchOrders.mp inRange
    -- The first block of the list becomes held, and is then cut down to the requested order.
    obtain ⟨block', buddy', read', run, taken, blockCount, -⟩ := conserved.pop member first
    cases read.symm.trans read'
    cases popped.symm.trans run
    have whole : min order maxOrder + (search - min order maxOrder) = search := by omega
    rw [← whole] at taken
    obtain ⟨final, sizes⟩ := splitLoop_conserves taken splitted
    have marked := marked_of_set marked
    refine ⟨final, sizes.blockCount.trans blockCount, ?_, ?_⟩
    · exact marked.frameCount.trans sizes.frameCount
    · exact marked.length.trans sizes.length

/-- Merging keeps a single block held, which contains the freed one. -/
theorem mergeLoop_conserves (conserved : Conserved pool.buddy (⟨frame, order⟩ :: held) owned)
    (returned : mergeLoop node rounds pool frame order = .ok result) :
    Conserved result.1.buddy (⟨result.2.1, result.2.2⟩ :: held) owned ∧
      SameSizes pool result.1 := by
  induction rounds generalizing pool frame order with
  | zero =>
    cases returned
    exact ⟨conserved, .refl pool⟩
  | succ rounds ih =>
    rw [mergeLoop] at returned
    split at returned
    · cases returned
      exact ⟨conserved, .refl pool⟩
    · obtain ⟨taken, looked, returned⟩ := bind_eq_ok.mp returned
      cases taken with
      | none =>
        cases returned
        exact ⟨conserved, SameSizes.refl pool⟩
      | some buddy =>
        obtain ⟨bitmap, cleared, returned⟩ := bind_eq_ok.mp returned
        obtain ⟨-, member, -, list, shorter, relisted⟩ := taken_of_takeBuddy conserved.linked looked
        have marked := marked_of_set cleared
        have sizes : SameSizes pool ⟨buddy, bitmap⟩ :=
          ⟨relisted.blockCount, marked.frameCount, marked.length⟩
        obtain ⟨final, further⟩ := ih (conserved.take member shorter relisted).merge returned
        exact ⟨final, sizes.trans further⟩

/-- A freed block is no longer held. -/
theorem free_conserves
    (conserved : Conserved pool.buddy (⟨frame, min order maxOrder⟩ :: held) owned)
    (returned : pool.free frame order node = .ok changed) :
    Conserved changed.buddy held owned ∧ SameSizes pool changed := by
  unfold free at returned
  obtain ⟨bitmap, cleared, returned⟩ := bind_eq_ok.mp returned
  obtain ⟨result, merging, returned⟩ := bind_eq_ok.mp returned
  obtain ⟨buddy, pushed, returned⟩ := bind_eq_ok.mp returned
  cases returned
  have marked := marked_of_set cleared
  have start : Conserved (Pool.mk pool.buddy bitmap).buddy _ owned := conserved
  obtain ⟨merged, sizes⟩ := mergeLoop_conserves start merging
  obtain ⟨final, blockCount, -⟩ := merged.push pushed
  exact ⟨final, blockCount.trans sizes.blockCount, sizes.frameCount.trans marked.frameCount,
    sizes.length.trans marked.length⟩

end Pool

end TheoryKernel.Mm.Phys
