import TheoryKernel.Mm.Phys.BuddyRun

/-! The conditions under which the calls to the buddy allocator return. -/

namespace TheoryKernel.Mm.Phys

open FrameBitmap Exec

open AlignedBlocks (Block buddyStart)

namespace Pool

variable {pool changed : Pool} {held : List Block} {owned : Set Nat}
  {node frame stop order bound : Nat}

/-- Every owned frame is tracked by the bitmap, which has a bit for it. -/
structure Usable (pool : Pool) (held : List Block) (owned : Set Nat) : Prop where
  conserved : Conserved pool.buddy held owned
  sized : pool.bitmap.Sized
  tracked : ∀ frame ∈ owned, frame < pool.bitmap.frameCount

theorem Usable.set_returns (usable : Usable pool held owned) (inside : frame ∈ owned)
    (used : Bool) : ∃ bitmap, pool.bitmap.set frame used = .ok bitmap := by
  have tracked := usable.tracked frame inside
  have sized : pool.bitmap.frameCount ≤ 64 * pool.bitmap.bits.length := usable.sized
  obtain ⟨bitmap, run, -⟩ := FrameBitmap.set_returns (Nat.lt_of_lt_of_le tracked sized) used
  exact ⟨bitmap, run⟩

theorem Usable.change {held' : List Block} (usable : Usable pool held owned)
    (conserved : Conserved changed.buddy held' owned) (sizes : SameSizes pool changed) :
    Usable changed held' owned where
  conserved := conserved
  sized := by
    have sized : pool.bitmap.frameCount ≤ 64 * pool.bitmap.bits.length := usable.sized
    unfold Sized
    rwa [sizes.frameCount, sizes.length]
  tracked := by
    rw [sizes.frameCount]
    exact usable.tracked

variable {buddy : BuddyAllocator} {bitmap : FrameBitmap} {orders : List Nat}

theorem push_returns (linked : buddy.WellLinked) (frame : Nat) (member : (node, order) ∈ listKeys)
    (room : buddy.blocks.length < buddy.blockCount) :
    ∃ changed, buddy.pushBlock node frame order = .ok changed := by
  obtain ⟨lists, linked⟩ := linked
  obtain ⟨changed, run, -⟩ := linked.push frame member room
  exact ⟨changed, run⟩

/-- The largest order at which a block is aligned and ends inside a region, up to a bound. -/
def fitOrder (frame stop : Nat) : Nat → Nat
  | 0 => 0
  | order + 1 =>
    if frame % 2 ^ (order + 1) = 0 ∧ frame + 2 ^ (order + 1) ≤ stop then order + 1
    else fitOrder frame stop order

/-- The number of blocks into which a region is cut, each as large as fits. -/
def regionBlocks (stop : Nat) : Nat → Nat → Nat
  | 0, _ => 0
  | rounds + 1, frame =>
    if frame < stop then regionBlocks stop rounds (frame + 2 ^ fitOrder frame stop maxOrder) + 1
    else 0

theorem pickOrder_eq (small : frame + 2 ^ bound < 2 ^ 64)
    (free : ∀ other ∈ Set.Ico frame stop, bitmap.isFree other = .ok true) :
    pickOrder bitmap frame stop bound = .ok (fitOrder frame stop bound) := by
  induction bound with
  | zero => rfl
  | succ bound ih =>
    have lower : 2 ^ bound ≤ 2 ^ (bound + 1) := Nat.pow_le_pow_right (by decide) (by omega)
    rw [pickOrder, wrapAdd_eq small, fitOrder]
    by_cases fits : frame % 2 ^ (bound + 1) = 0 ∧ frame + 2 ^ (bound + 1) ≤ stop
    · rw [if_neg (by omega), if_pos fits]
      -- Every frame of the block is one of the region.
      have all : bitmap.allFree frame (frame + 2 ^ (bound + 1)) = .ok true := by
        apply allFree_of_isFree
        intro other low high
        exact free other ⟨low, Nat.lt_of_lt_of_le high fits.2⟩
      rw [all]
      rfl
    · rw [if_pos (by omega), if_neg fits]
      exact ih (by omega)

/-- A region of free frames ends inside the bitmap. -/
theorem stop_le_frameCount (more : frame < stop)
    (free : ∀ other ∈ Set.Ico frame stop, bitmap.isFree other = .ok true) :
    stop ≤ bitmap.frameCount := by
  have last := free (stop - 1) ⟨by omega, by omega⟩
  have tracked := (isFree_iff.mp last).1
  omega

theorem regionLoop_returns {fuel rounds : Nat} (usable : Usable pool held owned)
    (valid : node < maxNodes) (small : stop ≤ frameLimit)
    (fresh : ∀ other ∈ Set.Ico frame stop, other ∉ owned)
    (free : ∀ other ∈ Set.Ico frame stop, pool.bitmap.isFree other = .ok true)
    (enough : stop ≤ frame + rounds)
    (room : pool.buddy.blocks.length + regionBlocks stop rounds frame ≤ pool.buddy.blockCount)
    (fueled : pool.buddy.blockCount < fuel + pool.buddy.blocks.length) :
    ∃ changed, regionLoop node stop fuel pool frame = .ok changed := by
  -- Each round spends one unit of fuel and one node of the pool.
  induction fuel generalizing pool frame owned rounds with
  | zero => omega
  | succ fuel ih =>
    by_cases more : frame < stop
    · cases rounds with
      | zero => omega
      | succ rounds =>
        rw [regionBlocks, if_pos more] at room
        have limited : stop ≤ 2 ^ 52 := small
        have word : frame + 2 ^ maxOrder < 2 ^ 64 := by rw [maxOrder]; omega
        have picked := pickOrder_eq word free
        obtain ⟨bounded, aligned, fits⟩ := pickOrder_fits more word picked
        generalize fitOrder frame stop maxOrder = order at room picked bounded aligned fits
        have tracked := stop_le_frameCount more free
        have sized : pool.bitmap.frameCount ≤ 64 * pool.bitmap.bits.length := usable.sized
        obtain ⟨bitmap, marking⟩ := setRange_returns true
          (fits.trans (tracked.trans sized))
        obtain ⟨buddy, pushed⟩ := push_returns usable.conserved.linked frame
          (mem_listKeys.mpr ⟨valid, bounded⟩) (by omega)
        have marked := marked_of_setRange marking
        obtain ⟨after, blockCount, length⟩ :=
          usable.conserved.pushRegion aligned fits small fresh pushed
        -- The rest of the region is still free and not owned.
        have next : Usable ⟨buddy, bitmap⟩ held (owned ∪ Set.Ico frame (frame + 2 ^ order)) := {
          conserved := after
          sized := marked.sized usable.sized
          tracked := by
            rw [marked.frameCount]
            rintro other (inside | ⟨-, below⟩)
            · exact usable.tracked other inside
            · omega }
        have stillFree : ∀ other ∈ Set.Ico (frame + 2 ^ order) stop,
            bitmap.isFree other = .ok true := by
          rintro other ⟨low, high⟩
          rw [isFree_iff, marked.frameCount, marked.bit, if_neg (by omega),
            ← isFree_iff]
          exact free other ⟨(Nat.le_add_right _ _).trans low, high⟩
        have positive : 0 < 2 ^ order := Nat.two_pow_pos order
        have left : stop ≤ frame + 2 ^ order + rounds := by omega
        have result := ih next (fresh_rest fresh) stillFree left
          (by rw [blockCount, length]; omega) (by rw [blockCount, length]; omega)
        have plain : wrapAdd frame (2 ^ order) = frame + 2 ^ order := wrapAdd_eq (by omega)
        rw [regionLoop, if_pos more, picked, ok_bind]
        change pool.bitmap.setUsedRange .. = _ at marking
        simp only [plain, marking, pushed, ok_bind]
        exact result
    · exact ⟨pool, regionLoop_done _ more⟩

/-- The largest order, among those listed, at which a node has a block. -/
def largestOrder (buddy : BuddyAllocator) (node : Nat) (orders : List Nat) : Option Nat :=
  orders.find? fun search => (buddy.headOf (node, search)).isSome

/-- The order of the block from which a request is served. -/
def sourceOrder (pool : Pool) (order : Nat) (nodes : List Nat) : Option Nat :=
  nodes.findSome? fun node => largestOrder pool.buddy node (searchOrders order)

/-- A search that returns reports the largest order at which the node has a block. -/
theorem largestOrder_of_firstList {found : Option (Nat × Nat)}
    (returned : buddy.firstList node orders = .ok found) :
    largestOrder buddy node orders = found.map Prod.fst := by
  induction orders with
  | nil =>
    cases returned
    rfl
  | cons search rest ih =>
    rw [BuddyAllocator.firstList] at returned
    obtain ⟨first, read, returned⟩ := bind_eq_ok.mp returned
    obtain ⟨-, rfl⟩ := BuddyAllocator.head_eq_ok.mp read
    rw [largestOrder, List.find?_cons]
    cases head : buddy.headOf (node, search) with
    | some index =>
      rw [head] at returned
      cases returned
      rfl
    | none =>
      rw [head] at returned
      exact ih returned

theorem firstList_returns (buddy : BuddyAllocator) (valid : node < maxNodes)
    (bounded : ∀ search ∈ orders, search ≤ maxOrder) :
    ∃ found, buddy.firstList node orders = .ok found := by
  induction orders with
  | nil => exact ⟨none, rfl⟩
  | cons search rest ih =>
    have member : (node, search) ∈ listKeys :=
      mem_listKeys.mpr ⟨valid, bounded search List.mem_cons_self⟩
    have read : buddy.head node search = .ok (buddy.headOf (node, search)) :=
      BuddyAllocator.head_eq_ok.mpr ⟨member, rfl⟩
    rw [BuddyAllocator.firstList, read, ok_bind]
    cases buddy.headOf (node, search) with
    | some index => exact ⟨some (search, index), rfl⟩
    | none => exact ih fun other later => bounded other (List.mem_cons_of_mem search later)

theorem splitLoop_returns {steps : Nat}
    (usable : Usable pool (⟨frame, order + steps⟩ :: held) owned) (valid : node < maxNodes)
    (bounded : order + steps ≤ maxOrder)
    (room : pool.buddy.blocks.length + steps ≤ pool.buddy.blockCount) :
    ∃ changed, splitLoop node frame order steps pool = .ok changed := by
  induction steps generalizing pool with
  | zero => exact ⟨pool, rfl⟩
  | succ steps ih =>
    -- The upper half is part of the held block, so its first frame has a bit.
    have upper := usable.conserved.split
    have inside : frame + 2 ^ (order + steps) ∈ owned := upper.owns_start
    obtain ⟨bitmap, cleared⟩ := usable.set_returns inside false
    obtain ⟨buddy, pushed⟩ := push_returns usable.conserved.linked (frame + 2 ^ (order + steps))
      (mem_listKeys.mpr ⟨valid, show order + steps ≤ maxOrder by omega⟩) (by omega)
    obtain ⟨after, blockCount, length⟩ := upper.push pushed
    have marked := marked_of_set cleared
    have next : Usable ⟨buddy, bitmap⟩ (⟨frame, order + steps⟩ :: held) owned :=
      usable.change after ⟨blockCount, marked.frameCount, marked.length⟩
    have result := ih next (by omega) (by rw [blockCount, length]; omega)
    have half : wrapAdd frame (2 ^ (order + steps)) = frame + 2 ^ (order + steps) :=
      usable.conserved.half_eq
    rw [splitLoop, half]
    simp only [setFree, cleared, pushed, ok_bind]
    exact result

theorem allocFrom_returns (usable : Usable pool held owned) (valid : node < maxNodes)
    (room : ∀ search, largestOrder pool.buddy node (searchOrders order) = some search →
      pool.buddy.blocks.length + (search - order) ≤ pool.buddy.blockCount) :
    ∃ result, pool.allocFrom order node = .ok result ∧
      (result = none → largestOrder pool.buddy node (searchOrders order) = none) := by
  have orders : ∀ search ∈ searchOrders order, search ≤ maxOrder :=
    fun search member => (mem_searchOrders.mp member).2
  obtain ⟨found, searched⟩ := firstList_returns pool.buddy valid orders
  have largest := largestOrder_of_firstList searched
  unfold allocFrom
  rw [searched, ok_bind]
  cases found with
  | none => exact ⟨none, rfl, fun _ => largest⟩
  | some found =>
    obtain ⟨search, index⟩ := found
    obtain ⟨inRange, member, first⟩ := firstList_found searched
    obtain ⟨enough, bounded⟩ := mem_searchOrders.mp inRange
    have room := room search largest
    obtain ⟨block, buddy, read, popped, taken, blockCount, length⟩ :=
      usable.conserved.pop member first
    have whole : order + (search - order) = search := by omega
    rw [← whole] at taken
    have held : Usable ⟨buddy, pool.bitmap⟩ _ owned := usable.change taken ⟨blockCount, rfl, rfl⟩
    obtain ⟨rest, splitted⟩ := splitLoop_returns held valid (by omega)
      (by rw [blockCount, length]; exact room)
    obtain ⟨final, sizes⟩ := splitLoop_conserves taken splitted
    obtain ⟨bitmap, marked⟩ := (held.change final sizes).set_returns final.owns_start true
    refine ⟨some (block.frame, ⟨rest.buddy, bitmap⟩), ?_, nofun⟩
    simp only [read, popped, splitted, setUsed, marked, ok_bind, pure_eq]

/-- A request is served by the first node that has a large enough block. -/
theorem sourceOrder_cons (nodes : List Nat) : pool.sourceOrder order (node :: nodes) =
    (largestOrder pool.buddy node (searchOrders order)).or (pool.sourceOrder order nodes) := by
  rw [sourceOrder, List.findSome?_cons]
  cases largestOrder pool.buddy node (searchOrders order) <;> rfl

theorem allocFirst_returns {nodes : List Nat} (usable : Usable pool held owned)
    (valid : ∀ node ∈ nodes, node < maxNodes)
    (room : ∀ search, pool.sourceOrder order nodes = some search →
      pool.buddy.blocks.length + (search - order) ≤ pool.buddy.blockCount) :
    ∃ result, pool.allocFirst order nodes = .ok result := by
  induction nodes with
  | nil => exact ⟨none, rfl⟩
  | cons node rest ih =>
    rw [sourceOrder_cons] at room
    obtain ⟨result, tried, none⟩ := allocFrom_returns usable (valid node List.mem_cons_self)
      fun search largest => room search (by rw [largest]; rfl)
    rw [allocFirst, tried, ok_bind]
    cases result with
    | some served => exact ⟨some served, rfl⟩
    | none =>
      -- A node without a large enough block leaves the request to the later ones.
      rw [none rfl, Option.none_or] at room
      exact ih (fun other later => valid other (List.mem_cons_of_mem node later)) room

/-- Whether the buddy of a block, at one order, is free and on the list of a node. -/
def mergeable (pool : Pool) (node frame order : Nat) : Bool :=
  buddyStart frame order < pool.bitmap.frameCount &&
    pool.bitmap.bit (buddyStart frame order) == some false &&
    ⟨buddyStart frame order, order⟩ ∈ pool.buddy.freeList (node, order)

/-- Whether some order stops the merging of a block before it grows past the largest order. -/
def mergeStops (pool : Pool) (node frame order : Nat) : Bool :=
  (List.range' order (maxOrder + 1 - order)).any fun level => !pool.mergeable node frame level

theorem mergeStops_iff : pool.mergeStops node frame order = true ↔
    ∃ level, order ≤ level ∧ level ≤ maxOrder ∧ pool.mergeable node frame level = false := by
  rw [mergeStops, List.any_eq_true]
  simp only [List.mem_range'_1, Bool.not_eq_true']
  constructor
  · rintro ⟨level, ⟨low, high⟩, blocked⟩
    exact ⟨level, low, by omega, blocked⟩
  · rintro ⟨level, low, high, blocked⟩
    exact ⟨level, ⟨low, by omega⟩, blocked⟩

theorem mergeStops_of_merge {next : Pool} (aligned : 2 ^ order ∣ frame)
    (free : pool.bitmap.isFree (frame ^^^ 2 ^ order) = .ok true)
    (taken : pool.buddy.Taken (node, order) ⟨frame ^^^ 2 ^ order, order⟩ (some next.buddy))
    (cleared : pool.bitmap.setFree (min frame (frame ^^^ 2 ^ order)) = .ok next.bitmap)
    (stops : pool.mergeStops node frame order = true) (valid : node < maxNodes) :
    next.mergeStops node (min frame (frame ^^^ 2 ^ order)) (order + 1) = true := by
  obtain ⟨-, list, shorter, relisted⟩ := taken
  have marked := marked_of_set cleared
  obtain ⟨level, low, high, blocked⟩ := mergeStops_iff.mp stops
  -- The block has just merged at its own order.
  have here : pool.mergeable node frame order = true := by
    rw [AlignedBlocks.buddyStart_of_aligned aligned] at free shorter
    obtain ⟨tracked, clear⟩ := isFree_iff.mp free
    have listed := shorter.mem_iff.mpr List.mem_cons_self
    simp only [mergeable, tracked, clear, listed, decide_true, beq_self_eq_true, Bool.and_self]
  have above : order < level := by
    apply Nat.lt_of_le_of_ne low
    rintro rfl
    rw [here] at blocked
    cases blocked
  -- At every larger order the buddy, its bit and its list are as before.
  refine mergeStops_iff.mpr ⟨level, above, high, ?_⟩
  rw [← blocked]
  have quotient := AlignedBlocks.merged_div aligned above
  have target : buddyStart (min frame (frame ^^^ 2 ^ order)) level = buddyStart frame level := by
    rw [buddyStart, buddyStart, quotient]
  have outside := AlignedBlocks.buddyStart_ne quotient
  have other : (node, level) ≠ (node, order) := by
    intro same
    cases same
    omega
  rw [mergeable, mergeable, target, marked.frameCount, marked.bit, if_neg (by omega),
    relisted.others _ (mem_listKeys.mpr ⟨valid, high⟩) other]

theorem mergeLoop_returns (rounds : Nat) (usable : Usable pool (⟨frame, order⟩ :: held) owned)
    (valid : node < maxNodes) (stops : pool.mergeStops node frame order = true) :
    ∃ result, mergeLoop node rounds pool frame order = .ok result ∧ result.2.2 ≤ maxOrder ∧
      result.1.buddy.blocks.length = pool.buddy.blocks.length := by
  induction rounds generalizing pool frame order with
  | zero =>
    obtain ⟨level, low, high, -⟩ := mergeStops_iff.mp stops
    exact ⟨_, rfl, low.trans high, rfl⟩
  | succ rounds ih =>
    obtain ⟨level, low, high, -⟩ := mergeStops_iff.mp stops
    have bounded : order ≤ maxOrder := low.trans high
    rw [mergeLoop]
    by_cases outside : frame ^^^ 2 ^ order ≥ pool.bitmap.frameCount
    · rw [if_pos (.inr outside)]
      exact ⟨_, rfl, bounded, rfl⟩
    · rw [if_neg (by omega)]
      have member : (node, order) ∈ listKeys := mem_listKeys.mpr ⟨valid, bounded⟩
      obtain ⟨taken, looked⟩ := takeBuddy_returns (frame ^^^ 2 ^ order)
        usable.conserved.linked usable.sized member
      rw [looked, ok_bind]
      cases taken with
      | none => exact ⟨_, rfl, bounded, rfl⟩
      | some buddy =>
        obtain ⟨free, -, taken⟩ := taken_of_takeBuddy usable.conserved.linked looked
        obtain ⟨length, list, shorter, relisted⟩ := taken
        have merged := (usable.conserved.take member shorter relisted).merge
        -- The merged block starts at an owned frame, so its bit can be cleared.
        obtain ⟨bitmap, cleared⟩ := usable.set_returns merged.owns_start false
        have marked := marked_of_set cleared
        have next : Usable ⟨buddy, bitmap⟩ _ owned :=
          usable.change merged ⟨relisted.blockCount, marked.frameCount, marked.length⟩
        have aligned : 2 ^ order ∣ frame := usable.conserved.aligned
        have further : mergeStops ⟨buddy, bitmap⟩ node _ (order + 1) = true :=
          mergeStops_of_merge aligned free ⟨length, list, shorter, relisted⟩ cleared stops valid
        obtain ⟨result, run, small, same⟩ := ih next further
        refine ⟨result, ?_, small, same.trans length⟩
        simp only [setFree, cleared, ok_bind]
        exact run

theorem free_returns (usable : Usable pool (⟨frame, min order maxOrder⟩ :: held) owned)
    (valid : node < maxNodes) (stops : pool.mergeStops node frame (min order maxOrder) = true)
    (room : pool.buddy.blocks.length < pool.buddy.blockCount) :
    ∃ changed, pool.free frame order node = .ok changed := by
  obtain ⟨bitmap, cleared⟩ := usable.set_returns usable.conserved.owns_start false
  have marked := marked_of_set cleared
  have start : Usable ⟨pool.buddy, bitmap⟩ _ owned :=
    usable.change usable.conserved ⟨rfl, marked.frameCount, marked.length⟩
  -- The cleared bit is not the bit of any buddy.
  have stops : mergeStops ⟨pool.buddy, bitmap⟩ node frame (min order maxOrder) = true := by
    obtain ⟨level, low, high, blocked⟩ := mergeStops_iff.mp stops
    refine mergeStops_iff.mpr ⟨level, low, high, ?_⟩
    have outside : buddyStart frame level ≠ frame := AlignedBlocks.buddyStart_ne rfl
    rw [← blocked, mergeable, mergeable, marked.frameCount, marked.bit, if_neg (by omega)]
  obtain ⟨result, merging, bounded, length⟩ := mergeLoop_returns (maxOrder + 1) start valid stops
  obtain ⟨merged, sizes⟩ := mergeLoop_conserves start.conserved merging
  obtain ⟨buddy, pushed⟩ := push_returns merged.linked result.2.1
    (mem_listKeys.mpr ⟨valid, bounded⟩) (by rw [sizes.blockCount, length]; exact room)
  refine ⟨⟨buddy, result.1.bitmap⟩, ?_⟩
  simp only [free, setFree, cleared, merging, pushed, ok_bind, pure_eq]

end Pool

namespace PoolUse

variable {state next final : PoolUse} {op : PoolOp} {ops : List PoolOp}

/-- Correct use names valid nodes and adds regions of free frames. -/
def properUse (state : PoolUse) (op : PoolOp) : Bool :=
  state.correctUse op &&
    match op with
    | .addRegion startFrame frameCount _ =>
      state.pool.bitmap.rangeFree startFrame (startFrame + frameCount)
    | .alloc _ node => node < maxNodes
    | .free _ _ node => node < maxNodes

/--
Whether the pool has an unused node for every block that a call puts on a list, and whether a freed
block is kept from merging past the largest order.
-/
def spared (state : PoolUse) : PoolOp → Bool
  | .addRegion startFrame frameCount node =>
    node ≥ maxNodes || state.pool.buddy.blocks.length +
      Pool.regionBlocks (startFrame + frameCount) frameCount startFrame ≤
        state.pool.buddy.blockCount
  | .alloc order node =>
    (state.pool.sourceOrder (min order maxOrder) (Pool.nodeOrder node)).all fun search =>
      state.pool.buddy.blocks.length + (search - min order maxOrder) ≤
        state.pool.buddy.blockCount
  | .free frame order node =>
    state.pool.buddy.blocks.length < state.pool.buddy.blockCount &&
      state.pool.mergeStops node frame (min order maxOrder)

/-- The frames handed out and listed have bits that can be set and cleared. -/
def Usable (state : PoolUse) : Prop := Pool.Usable state.pool state.handed state.owned

theorem isFree_of_proper {startFrame frameCount node : Nat}
    (proper : state.properUse (.addRegion startFrame frameCount node) = true) :
    ∀ frame ∈ Set.Ico startFrame (startFrame + frameCount),
      state.pool.bitmap.isFree frame = .ok true := by
  rw [properUse, Bool.and_eq_true] at proper
  exact fun frame between => isFree_of_rangeFree proper.2 between.1 between.2

theorem Usable.returns (usable : state.Usable) (proper : state.properUse op = true)
    (spared : state.spared op = true) : ∃ next, state.step op = .ok next := by
  have correct : state.correctUse op = true := (Bool.and_eq_true _ _ ▸ proper).1
  cases op with
  | addRegion startFrame frameCount node =>
    simp only [correctUse, Bool.and_eq_true, decide_eq_true_eq] at correct
    obtain ⟨small, disjoint⟩ := correct
    have limited : startFrame + frameCount ≤ 2 ^ 52 := small
    simp only [PoolUse.spared, Bool.or_eq_true, decide_eq_true_eq] at spared
    have added : ∃ pool, state.pool.addRegion startFrame frameCount node = .ok pool := by
      rw [Pool.addRegion, wrapAdd_eq (by omega)]
      by_cases skipped : frameCount = 0 ∨ node ≥ maxNodes
      · exact ⟨state.pool, if_pos skipped⟩
      · rw [if_neg skipped]
        have room := spared.resolve_left fun invalid => skipped (.inr invalid)
        exact Pool.regionLoop_returns usable (by omega) small (fresh_of_apart disjoint)
          (isFree_of_proper proper) (Nat.le_refl _) room (by omega)
    obtain ⟨pool, run⟩ := added
    simp only [step, run, ok_bind, pure_eq]
    exact ⟨_, rfl⟩
  | alloc order node =>
    simp only [properUse, Bool.and_eq_true, decide_eq_true_eq] at proper
    have nodes := Pool.nodeOrder_lt proper.2
    have room : ∀ search, state.pool.sourceOrder (min order maxOrder) (Pool.nodeOrder node) =
        some search → state.pool.buddy.blocks.length + (search - min order maxOrder) ≤
          state.pool.buddy.blockCount := by
      intro search source
      simpa [PoolUse.spared, source] using spared
    obtain ⟨result, run⟩ := Pool.allocFirst_returns usable nodes room
    simp only [step, Pool.alloc, run, ok_bind, pure_eq]
    exact ⟨_, rfl⟩
  | free frame order node =>
    simp only [properUse, Bool.and_eq_true, decide_eq_true_eq] at proper
    simp only [correctUse, decide_eq_true_eq] at correct
    simp only [PoolUse.spared, Bool.and_eq_true, decide_eq_true_eq] at spared
    have front := usable.change (usable.conserved.perm (List.perm_cons_erase correct))
      (Pool.SameSizes.refl _)
    obtain ⟨pool, run⟩ := Pool.free_returns front proper.2 spared.2 spared.1
    simp only [step, run, ok_bind, pure_eq]
    exact ⟨_, rfl⟩

theorem Usable.step (usable : state.Usable) (proper : state.properUse op = true)
    (returned : state.step op = .ok next) : next.Usable := by
  have correct : state.correctUse op = true := (Bool.and_eq_true _ _ ▸ proper).1
  have sound : state.Sound := usable.conserved
  obtain ⟨kept, sizes⟩ := sound.step correct returned
  refine ⟨kept, ?_, ?_⟩
  · have sized : state.pool.bitmap.frameCount ≤ 64 * state.pool.bitmap.bits.length :=
      usable.sized
    unfold Sized
    rwa [sizes.frameCount, sizes.length]
  · rw [sizes.frameCount]
    -- Only the frames of a new region are added, and they are free and so tracked.
    intro frame inside
    cases op with
    | addRegion startFrame frameCount node =>
      obtain ⟨pool, run, returned⟩ := bind_eq_ok.mp returned
      cases returned
      obtain ⟨region, member, covered⟩ := inside
      by_cases valid : node < maxNodes
      · rw [if_pos valid] at member
        rcases List.mem_cons.mp member with rfl | earlier
        · exact (isFree_iff.mp (isFree_of_proper proper frame covered)).1
        · exact usable.tracked frame ⟨region, earlier, covered⟩
      · rw [if_neg valid] at member
        exact usable.tracked frame ⟨region, member, covered⟩
    | alloc order node =>
      obtain ⟨result, run, returned⟩ := bind_eq_ok.mp returned
      cases returned
      cases result with
      | none | some served => exact usable.tracked frame inside
    | free freed order node =>
      obtain ⟨pool, run, returned⟩ := bind_eq_ok.mp returned
      cases returned
      exact usable.tracked frame inside

/--
Along every run in proper use whose calls are all spared, no call faults.

Every call finds an unused node of the pool for each block that it puts on a list, and no freed block
grows past the largest order.
-/
theorem spared_run_returns (blockCount : Nat) (bitmap : FrameBitmap)
    (sized : bitmap.frameCount ≤ 64 * bitmap.bits.length)
    (checked : Runs.everyStep step (fun state op => state.properUse op && state.spared op)
      (start blockCount bitmap) ops = true) :
    ∃ final, Runs.run step (start blockCount bitmap) ops = .ok final := by
  have begins : (start blockCount bitmap).Usable :=
    ⟨sound_start blockCount bitmap, sized, by rintro frame ⟨_, member, -⟩; cases member⟩
  have advance : ∀ (state : PoolUse) (op : PoolOp), state.Usable →
      (state.properUse op && state.spared op) = true →
      ∃ next, state.step op = .ok next ∧ next.Usable := by
    intro state op usable allowed
    rw [Bool.and_eq_true] at allowed
    obtain ⟨next, run⟩ := usable.returns allowed.1 allowed.2
    exact ⟨next, run, usable.step allowed.1 run⟩
  obtain ⟨final, run, -⟩ := Runs.run_returns Usable advance begins checked
  exact ⟨final, run⟩

/-- A run that splits a block, merges the halves again and allocates from another node. -/
theorem spared_run_returns_five :
    ∃ final, Runs.run step (start 20 (.new 1 64))
      [.addRegion 3 50 0, .alloc 1 2, .alloc 3 2, .free 32 1 0, .alloc 2 0] = .ok final :=
  spared_run_returns 20 (.new 1 64) (by decide) (by decide)

/-- Whether fewer blocks are on the free lists than the pool has nodes. -/
def roomy (state : PoolUse) : Bool :=
  state.pool.buddy.freeBlocks.length < state.pool.buddy.blockCount

/--
Pool nodes are never used again.

The run hands out and takes back the same frame twice, with at most one block on the free lists, and
uses up a pool of two nodes.
-/
theorem alternating_run_faults :
    Runs.everyStep step (fun state op => state.properUse op && state.roomy) (start 2 (.new 1 1))
        [.addRegion 0 1 0, .alloc 0 0, .free 0 0 0, .alloc 0 0, .free 0 0 0] = true ∧
      Runs.run step (start 2 (.new 1 1))
        [.addRegion 0 1 0, .alloc 0 0, .free 0 0 0, .alloc 0 0, .free 0 0 0] =
          .error .assertionFailed :=
  ⟨by decide, fault?_eq_some.mp (by decide)⟩

end PoolUse

end TheoryKernel.Mm.Phys
