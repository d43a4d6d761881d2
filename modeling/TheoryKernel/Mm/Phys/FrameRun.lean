import TheoryKernel.Mm.Phys.Frame

/-! Sequences of calls to the frame allocator, and the descriptors that are live along them. -/

namespace TheoryKernel.Mm.Phys

open AlignedBlocks (Block)

/-- The frame allocator with the descriptors handed out and not yet freed. -/
structure FrameUse where
  allocator : FrameAllocator
  live : List FrameDescriptor

/-- A call to the frame allocator, or a region given to its buddy allocator. -/
inductive FrameOp where
  | addRegion (startFrame frameCount node : Nat)
  | allocOne (node : Nat)
  | allocOrder (order node : Nat)
  | free (descriptor : FrameDescriptor)
  deriving DecidableEq, Repr

namespace FrameUse

variable {state next final : FrameUse} {op : FrameOp} {ops : List FrameOp}

/-- A frame allocator over a given bitmap, with an empty buddy allocator. -/
def start (blockCount : Nat) (bitmap : FrameBitmap) : FrameUse := ⟨⟨.new blockCount, bitmap⟩, []⟩

/-- A descriptor that was handed out is recorded as live. -/
def record (state : FrameUse) : Option (FrameDescriptor × FrameAllocator) → FrameUse
  | none => state
  | some (descriptor, allocator) => ⟨allocator, descriptor :: state.live⟩

/-- A call and what it does to the live descriptors. -/
def step (state : FrameUse) : FrameOp → Exec FrameUse
  | .addRegion startFrame frameCount node => do
    let allocator ← Pool.addRegion state.allocator startFrame frameCount node
    return { state with allocator }
  | .allocOne node => do return state.record (← state.allocator.allocOne node)
  | .allocOrder order node => do return state.record (← state.allocator.allocOrder order node)
  | .free descriptor => do
    let allocator ← state.allocator.free descriptor
    return ⟨allocator, state.live.erase descriptor⟩

/-- Regions of free frames are added, and only live descriptors are freed. -/
def correctUse (state : FrameUse) : FrameOp → Bool
  | .addRegion startFrame frameCount _ =>
    state.allocator.bitmap.rangeFree startFrame (startFrame + frameCount)
  | .allocOne _ => true
  | .allocOrder _ _ => true
  | .free descriptor => descriptor ∈ state.live

/-- Whether the bitmap has a free frame. -/
def hasFree (bitmap : FrameBitmap) : Bool :=
  (List.range bitmap.frameCount).any fun frame => bitmap.bit frame == some false

/-- Whether a request is served by the bitmap or by a listed block of the very order requested. -/
def unsplit (state : FrameUse) (order node : Nat) : Bool :=
  (order == 0 && hasFree state.allocator.bitmap) ||
    (state.allocator.sourceOrder order
      (Pool.nodeOrder (FrameAllocator.nodeIndex node))).all fun search => search = order

/-- No block is split, and no block larger than a frame is given back. -/
def quiet (state : FrameUse) : FrameOp → Bool
  | .addRegion _ _ _ => true
  | .allocOne node => state.unsplit 0 node
  | .allocOrder order node => state.unsplit (min order maxOrder) node
  | .free descriptor => descriptor.order == 0

/--
The live descriptors and the listed blocks are pairwise disjoint, and the bitmap search returns no
frame of a listed block.
-/
structure Separated (state : FrameUse) : Prop where
  disjoint : (state.live.map FrameDescriptor.block ++
    state.allocator.buddy.freeBlocks).Pairwise Block.Disjoint
  unlisted : ∀ block ∈ state.allocator.buddy.freeBlocks, ∀ frame, block.Covers frame →
    state.allocator.bitmap.findFree ≠ .ok (some frame)

/-- The blocks are disjoint and the bits of their frames are set. -/
def Guarded (state : FrameUse) : Prop :=
  ∃ owned, FrameAllocator.Guarded state.allocator state.live owned

theorem Guarded.separated (guarded : state.Guarded) : state.Separated := by
  obtain ⟨owned, guarded⟩ := guarded
  refine ⟨guarded.conserved.tiling.disjoint, ?_⟩
  -- A frame that the search returns has a clear bit, and listed frames have none.
  intro block member frame covered found
  have inside : frame ∈ owned :=
    (guarded.conserved.tiling.covers frame).mpr ⟨block, List.mem_append_right _ member, covered⟩
  exact guarded.not_owned (FrameBitmap.searched_of_findFree found) inside

variable {node order : Nat} {result : Option (FrameDescriptor × FrameAllocator)}
  {allocator : FrameAllocator}

theorem allocBit_some (free : hasFree allocator.bitmap = true)
    (returned : allocator.allocBit node = .ok result) : result.isSome = true := by
  unfold FrameAllocator.allocBit at returned
  obtain ⟨found, searched, returned⟩ := Exec.bind_eq_ok.mp returned
  cases found with
  | some frame =>
    obtain ⟨bitmap, -, returned⟩ := Exec.bind_eq_ok.mp returned
    cases returned
    rfl
  | none =>
    rw [hasFree, List.any_eq_true] at free
    obtain ⟨frame, member, clear⟩ := free
    have isFree : allocator.bitmap.isFree frame = .ok true :=
      FrameBitmap.isFree_iff.mpr ⟨List.mem_range.mp member, beq_iff_eq.mp clear⟩
    exact absurd isFree (FrameBitmap.searched_of_findFree searched frame (Nat.zero_le _))

section

variable (guarded : state.Guarded)

include guarded

theorem Guarded.allocBit {served : FrameDescriptor × FrameAllocator}
    (returned : state.allocator.allocBit node = .ok (some served)) :
    (state.record (some served)).Guarded := by
  obtain ⟨owned, guarded⟩ := guarded
  exact ⟨_, guarded.allocBit returned⟩

theorem Guarded.allocBlock (clamped : order ≤ maxOrder)
    (unsplit : state.unsplit order node = true)
    (full : order = 0 → hasFree state.allocator.bitmap = false)
    (returned : state.allocator.allocBlock order node = .ok result) :
    (state.record result).Guarded := by
  cases result with
  | none => exact guarded
  | some served =>
    obtain ⟨owned, guarded⟩ := guarded
    refine ⟨owned, guarded.allocBlock clamped (fun search source => ?_) returned⟩
    rw [FrameUse.unsplit, source, Bool.or_eq_true] at unsplit
    rcases unsplit with single | same
    · rw [Bool.and_eq_true, beq_iff_eq] at single
      rw [full single.1] at single
      cases single.2
    · exact of_decide_eq_true same

theorem Guarded.allocOrder (unsplit : state.unsplit (min order maxOrder) node = true)
    (returned : state.allocator.allocOrder order node = .ok result) :
    (state.record result).Guarded := by
  have clamped : min order maxOrder ≤ maxOrder := Nat.min_le_right _ _
  unfold FrameAllocator.allocOrder at returned
  dsimp only at returned
  split at returned
  · -- A single frame is looked for in the bitmap first.
    obtain ⟨first, searched, returned⟩ := Exec.bind_eq_ok.mp returned
    cases first with
    | some served =>
      cases returned
      exact guarded.allocBit searched
    | none =>
      refine guarded.allocBlock clamped unsplit (fun _ => ?_) returned
      by_contra free
      cases allocBit_some (Bool.not_eq_false _ ▸ free) searched
  · rename_i larger
    exact guarded.allocBlock clamped unsplit (fun single => absurd single larger) returned

theorem Guarded.allocOne (unsplit : state.unsplit 0 node = true)
    (returned : state.allocator.allocOne node = .ok result) : (state.record result).Guarded := by
  unfold FrameAllocator.allocOne at returned
  obtain ⟨first, searched, returned⟩ := Exec.bind_eq_ok.mp returned
  cases first with
  | some served =>
    cases returned
    exact guarded.allocBit searched
  | none => exact guarded.allocOrder unsplit returned

theorem Guarded.addRegion {startFrame frameCount : Nat}
    (correct : state.correctUse (.addRegion startFrame frameCount node) = true)
    (returned : Pool.addRegion state.allocator startFrame frameCount node = .ok allocator) :
    Guarded ⟨allocator, state.live⟩ := by
  by_cases skipped : frameCount = 0 ∨ node ≥ maxNodes
  · rw [Pool.addRegion, if_pos skipped] at returned
    cases returned
    exact guarded
  · obtain ⟨owned, guarded⟩ := guarded
    have free : ∀ frame ∈ Set.Ico startFrame (startFrame + frameCount),
        state.allocator.bitmap.isFree frame = .ok true :=
      fun frame between => FrameBitmap.isFree_of_rangeFree correct between.1 between.2
    have inside := Pool.stop_le_frameCount (by omega) free
    obtain ⟨conserved, sizes, marked⟩ := Pool.addRegion_conserves guarded.conserved
      (inside.trans guarded.limited) (fun frame between => guarded.not_owned (free frame between))
      (by omega) returned
    refine ⟨_, conserved, ?_, sizes.frameCount.symm ▸ guarded.limited⟩
    -- The frames of the region are marked, and the others keep their marks.
    intro frame owns
    rw [marked.bit frame]
    by_cases here : startFrame ≤ frame ∧ frame < startFrame + frameCount
    · rw [if_pos here]
    · rw [if_neg here]
      rcases owns with earlier | between
      · exact guarded.used frame earlier
      · exact absurd between here

theorem Guarded.step (correct : state.correctUse op = true) (quiet : state.quiet op = true)
    (returned : state.step op = .ok next) : next.Guarded := by
  cases op with
  | addRegion startFrame frameCount node =>
    obtain ⟨allocator, run, returned⟩ := Exec.bind_eq_ok.mp returned
    cases returned
    exact guarded.addRegion correct run
  | allocOne node =>
    obtain ⟨result, run, returned⟩ := Exec.bind_eq_ok.mp returned
    cases returned
    exact guarded.allocOne quiet run
  | allocOrder order node =>
    obtain ⟨result, run, returned⟩ := Exec.bind_eq_ok.mp returned
    cases returned
    exact guarded.allocOrder quiet run
  | free descriptor =>
    obtain ⟨allocator, run, returned⟩ := Exec.bind_eq_ok.mp returned
    cases returned
    simp only [correctUse, decide_eq_true_eq] at correct
    obtain ⟨owned, guarded⟩ := guarded
    -- The freed descriptor is brought to the front of the live ones.
    have front : FrameAllocator.Guarded state.allocator
        (descriptor :: state.live.erase descriptor) owned :=
      { guarded with
        conserved := guarded.conserved.perm ((List.perm_cons_erase correct).map _) }
    exact front.freeBit (beq_iff_eq.mp quiet) run

end

/--
Along every run of quiet calls no frame is handed out twice.

In such a run no allocation splits a block and no block larger than a frame is freed.
-/
theorem quiet_run_separated (blockCount : Nat) (bitmap : FrameBitmap)
    (limited : bitmap.frameCount ≤ frameLimit)
    (checked : Runs.everyStep step (fun state op => state.correctUse op && state.quiet op)
      (start blockCount bitmap) ops = true)
    (returned : Runs.run step (start blockCount bitmap) ops = .ok final) : final.Separated := by
  have keep : ∀ (state : FrameUse) (op : FrameOp) (next : FrameUse), state.Guarded →
      (state.correctUse op && state.quiet op) = true → state.step op = .ok next →
      next.Guarded := by
    intro state op next guarded allowed run
    rw [Bool.and_eq_true] at allowed
    exact guarded.step allowed.1 allowed.2 run
  have initial : (start blockCount bitmap).Guarded :=
    ⟨∅, Conserved.start blockCount, fun _ inside => absurd inside (Set.notMem_empty _), limited⟩
  have guarded := Runs.holds_of_run Guarded keep initial checked returned
  exact guarded.separated

/-- A quiet run that takes frames from the bitmap and whole blocks from the lists. -/
theorem quiet_run_separated_six :
    ∃ final, Runs.run step (start 8 (.new 1 16))
        [.addRegion 0 8 0, .allocOrder 3 0, .allocOne 1, .allocOrder 0 0, .free ⟨8, 0, 1⟩,
          .allocOne 0] = .ok final ∧ final.Separated := by
  obtain ⟨final, returned⟩ := Exec.fault?_eq_none.mp (show Exec.fault? (Runs.run step
    (start 8 (.new 1 16)) [.addRegion 0 8 0, .allocOrder 3 0, .allocOne 1, .allocOrder 0 0,
      .free ⟨8, 0, 1⟩, .allocOne 0]) = none by decide)
  exact ⟨final, returned,
    quiet_run_separated 8 (.new 1 16) (by decide) (by decide) returned⟩

/--
A split clears the bit of the half it puts back, and the bitmap search hands that half out.

Afterwards the buddy allocator hands out the same frame once more.
-/
theorem split_hands_out_twice :
    ∃ final, Runs.everyStep step correctUse (start 4 (.new 1 2))
        [.addRegion 0 2 0, .allocOrder 0 0, .allocOne 0, .allocOne 0] = true ∧
      Runs.run step (start 4 (.new 1 2))
        [.addRegion 0 2 0, .allocOrder 0 0, .allocOne 0, .allocOne 0] = .ok final ∧
      final.live = [⟨1, 0, 0⟩, ⟨1, 0, 0⟩, ⟨0, 0, 0⟩] ∧
      ¬ (final.live.map FrameDescriptor.block).Pairwise Block.Disjoint := by
  have ends : ((Runs.run step (start 4 (.new 1 2))
      [.addRegion 0 2 0, .allocOrder 0 0, .allocOne 0, .allocOne 0]).toOption.map FrameUse.live) =
        some [⟨1, 0, 0⟩, ⟨1, 0, 0⟩, ⟨0, 0, 0⟩] := by decide
  cases returned : Runs.run step (start 4 (.new 1 2))
      [.addRegion 0 2 0, .allocOrder 0 0, .allocOne 0, .allocOne 0] with
  | error fault =>
    rw [returned] at ends
    cases ends
  | ok final =>
    rw [returned] at ends
    have live : final.live = [⟨1, 0, 0⟩, ⟨1, 0, 0⟩, ⟨0, 0, 0⟩] := Option.some.inj ends
    refine ⟨final, by decide, rfl, live, ?_⟩
    -- The first two descriptors are of the same frame.
    rw [live]
    intro disjoint
    have apart := (List.pairwise_cons.mp disjoint).1 ⟨1, 0⟩ List.mem_cons_self
    exact apart 1 ⟨Nat.le_refl _, by decide⟩ ⟨Nat.le_refl _, by decide⟩

end FrameUse

end TheoryKernel.Mm.Phys
