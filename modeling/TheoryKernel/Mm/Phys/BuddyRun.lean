import TheoryKernel.Lib.Runs
import TheoryKernel.Mm.Phys.BuddyConserve

/-! Sequences of calls to the buddy allocator, and the frames it owns along them. -/

namespace TheoryKernel.Mm.Phys

open AlignedBlocks (Block Tiling)

/-- The allocator with a record of its use: the blocks handed out and the regions added. -/
structure PoolUse where
  pool : Pool
  handed : List Block
  added : List (Nat × Nat)

/-- A call to the allocator. -/
inductive PoolOp where
  | addRegion (startFrame frameCount node : Nat)
  | alloc (order node : Nat)
  | free (frame order node : Nat)
  deriving DecidableEq, Repr

namespace PoolUse

variable {state next final : PoolUse} {op : PoolOp} {ops : List PoolOp}

/-- A new allocator, before any call. -/
def start (blockCount : Nat) (bitmap : FrameBitmap) : PoolUse := ⟨⟨.new blockCount, bitmap⟩, [], []⟩

/-- A block that was allocated is recorded as handed out. -/
def record (state : PoolUse) (order : Nat) : Option (Nat × Pool) → PoolUse
  | none => state
  | some (frame, pool) => { state with pool, handed := ⟨frame, min order maxOrder⟩ :: state.handed }

/-- A call and what it does to the record; a node without lists takes no region. -/
def step (state : PoolUse) : PoolOp → Exec PoolUse
  | .addRegion startFrame frameCount node => do
    let pool ← state.pool.addRegion startFrame frameCount node
    let added := if node < maxNodes then (startFrame, frameCount) :: state.added else state.added
    return { state with pool, added }
  | .alloc order node => do return state.record order (← state.pool.alloc order node)
  | .free frame order node => do
    let pool ← state.pool.free frame order node
    return { state with pool, handed := state.handed.erase ⟨frame, min order maxOrder⟩ }

/-- Whether two regions have no frame in common. -/
def apart (first second : Nat × Nat) : Bool :=
  first.1 + first.2 ≤ second.1 || second.1 + second.2 ≤ first.1

/-- Regions are disjoint and lie in physical memory, and only blocks handed out are freed. -/
def correctUse (state : PoolUse) : PoolOp → Bool
  | .addRegion startFrame frameCount _ =>
    startFrame + frameCount ≤ frameLimit && state.added.all (apart (startFrame, frameCount))
  | .alloc _ _ => true
  | .free frame order _ => ⟨frame, min order maxOrder⟩ ∈ state.handed

/-- The frames of the added regions. -/
def owned (state : PoolUse) : Set Nat :=
  {frame | ∃ region ∈ state.added, frame ∈ Set.Ico region.1 (region.1 + region.2)}

/-- The blocks handed out and the blocks on the free lists make up the added regions. -/
def Sound (state : PoolUse) : Prop := Conserved state.pool.buddy state.handed state.owned

/-- A region apart from all others has no owned frame. -/
theorem fresh_of_apart {region : Nat × Nat} (disjoint : state.added.all (apart region) = true) :
    ∀ frame ∈ Set.Ico region.1 (region.1 + region.2), frame ∉ state.owned := by
  rintro frame ⟨low, high⟩ ⟨other, member, ⟨otherLow, otherHigh⟩⟩
  have between := List.all_eq_true.mp disjoint other member
  simp only [apart, Bool.or_eq_true, decide_eq_true_eq] at between
  omega

theorem owned_cons (pool : Pool) (handed : List Block) (region : Nat × Nat)
    (added : List (Nat × Nat)) :
    (PoolUse.mk pool handed (region :: added)).owned =
      (PoolUse.mk pool handed added).owned ∪ Set.Ico region.1 (region.1 + region.2) := by
  ext frame
  constructor
  · rintro ⟨other, member, inside⟩
    rcases List.mem_cons.mp member with rfl | member
    · exact .inr inside
    · exact .inl ⟨other, member, inside⟩
  · rintro (⟨other, member, inside⟩ | inside)
    · exact ⟨other, List.mem_cons_of_mem region member, inside⟩
    · exact ⟨region, List.mem_cons_self, inside⟩

/-- Every call in correct use that returns keeps the blocks and the regions together. -/
theorem Sound.step (sound : state.Sound) (correct : state.correctUse op = true)
    (returned : state.step op = .ok next) : next.Sound ∧ Pool.SameSizes state.pool next.pool := by
  cases op with
  | addRegion startFrame frameCount node =>
    simp only [correctUse, Bool.and_eq_true, decide_eq_true_eq] at correct
    obtain ⟨small, disjoint⟩ := correct
    obtain ⟨pool, run, returned⟩ := Exec.bind_eq_ok.mp returned
    cases returned
    unfold Sound
    by_cases valid : node < maxNodes
    · obtain ⟨conserved, sizes, -⟩ :=
        Pool.addRegion_conserves sound small (fresh_of_apart disjoint) valid run
      rw [if_pos valid, owned_cons]
      exact ⟨conserved, sizes⟩
    · rw [Pool.addRegion, if_pos (.inr (by omega))] at run
      cases run
      rw [if_neg valid]
      exact ⟨sound, Pool.SameSizes.refl _⟩
  | alloc order node =>
    obtain ⟨result, run, returned⟩ := Exec.bind_eq_ok.mp returned
    cases returned
    cases result with
    | none => exact ⟨sound, Pool.SameSizes.refl _⟩
    | some served => exact Pool.alloc_conserves sound run
  | free frame order node =>
    simp only [correctUse, decide_eq_true_eq] at correct
    obtain ⟨pool, run, returned⟩ := Exec.bind_eq_ok.mp returned
    cases returned
    -- The freed block is brought to the front of the blocks handed out.
    have front := sound.perm (List.perm_cons_erase correct)
    exact Pool.free_conserves front run

/-- A new allocator owns no frame and has no block. -/
theorem sound_start (blockCount : Nat) (bitmap : FrameBitmap) :
    (start blockCount bitmap).Sound := by
  have none : (start blockCount bitmap).owned = ∅ := by
    ext frame
    constructor
    · rintro ⟨_, member, -⟩
      cases member
    · nofun
  unfold Sound
  rw [none]
  exact .start blockCount

/--
Along every run in correct use, no frame is lost or gained.

The blocks handed out and the blocks on the free lists are aligned to their size and pairwise disjoint,
and together they have exactly the frames of the added regions.
-/
theorem frames_conserved (blockCount : Nat) (bitmap : FrameBitmap)
    (correct : Runs.everyStep step correctUse (start blockCount bitmap) ops = true)
    (returned : Runs.run step (start blockCount bitmap) ops = .ok final) :
    Tiling (final.handed ++ final.pool.buddy.freeBlocks) final.owned := by
  have sound : final.Sound := Runs.holds_of_run Sound
    (fun _ _ _ sound allowed run => (sound.step allowed run).1) (sound_start blockCount bitmap)
    correct returned
  exact sound.tiling

/-- A run that splits blocks for another node and merges one of them again. -/
theorem frames_conserved_split_merge :
    ∃ final, Runs.run step (start 20 (.new 1 64))
        [.addRegion 3 50 0, .alloc 1 2, .alloc 3 2, .free 32 1 0] = .ok final ∧
      Tiling (final.handed ++ final.pool.buddy.freeBlocks) final.owned := by
  obtain ⟨final, returned⟩ := Exec.fault?_eq_none.mp (show Exec.fault? (Runs.run step
    (start 20 (.new 1 64)) [.addRegion 3 50 0, .alloc 1 2, .alloc 3 2, .free 32 1 0]) = none by
      decide)
  exact ⟨final, returned, frames_conserved 20 (.new 1 64) (by decide) returned⟩

end PoolUse

end TheoryKernel.Mm.Phys
