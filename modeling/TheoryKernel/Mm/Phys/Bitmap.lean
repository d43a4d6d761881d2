import TheoryKernel.Base.Exec
import Mathlib.Data.List.Basic

/-! The bitmap of physical frames, one bit a frame, set when the frame is allocated. -/

namespace TheoryKernel.Mm.Phys

/-- The words of the bitmap and the number of frames it tracks. -/
structure FrameBitmap where
  bits : List (BitVec 64)
  frameCount : Nat
  deriving DecidableEq, Repr

namespace FrameBitmap

/-- A bitmap over the given storage, with every frame free. -/
def new (words frameCount : Nat) : FrameBitmap := ⟨List.replicate words 0, frameCount⟩

/-- Reading a word faults outside the storage. -/
def word (bitmap : FrameBitmap) (index : Nat) : Exec (BitVec 64) :=
  match bitmap.bits[index]? with
  | some word => .ok word
  | none => .error .indexOutOfBounds

/-- Whether the bit of a frame is set. -/
def test (bitmap : FrameBitmap) (frame : Nat) : Exec Bool := do
  let word ← bitmap.word (frame / 64)
  return (word >>> (frame % 64)) &&& 1 == 1

/-- Setting or clearing the bit of a frame. -/
def set (bitmap : FrameBitmap) (frame : Nat) (used : Bool) : Exec FrameBitmap := do
  let word ← bitmap.word (frame / 64)
  let mask := 1#64 <<< (frame % 64)
  let changed := if used then word ||| mask else word &&& ~~~mask
  return { bitmap with bits := bitmap.bits.set (frame / 64) changed }

/-- Whether a frame is tracked and free. -/
def isFree (bitmap : FrameBitmap) (frame : Nat) : Exec Bool :=
  if frame ≥ bitmap.frameCount then .ok false
  else do return !(← bitmap.test frame)

/-- Marking a frame allocated. -/
def setUsed (bitmap : FrameBitmap) (frame : Nat) : Exec FrameBitmap := bitmap.set frame true

/-- Marking a frame free. -/
def setFree (bitmap : FrameBitmap) (frame : Nat) : Exec FrameBitmap := bitmap.set frame false

/-- The frames from one number up to another, none if the range is reversed. -/
def frames (start stop : Nat) : List Nat := List.range' start (stop - start)

/-- Marking a range of frames allocated. -/
def setUsedRange (bitmap : FrameBitmap) (start stop : Nat) : Exec FrameBitmap :=
  (frames start stop).foldlM setUsed bitmap

/-- Whether all frames of a range are free, up to the first that is not. -/
def allFree (bitmap : FrameBitmap) (start stop : Nat) : Exec Bool :=
  (frames start stop).allM bitmap.isFree

/-- The number of zero bits below the lowest set bit, all sixty-four if there is none. -/
def trailingZeros (word : BitVec 64) : Nat := ((List.range 64).find? word.getLsbD).getD 64

/-- With no bit set from a frame on, the lowest clear bit of the whole word is tried first. -/
def candidate (bitmap : FrameBitmap) (frame : Nat) : Exec (Option Nat) := do
  let word ← bitmap.word (frame / 64)
  let lowest := frame + trailingZeros (~~~word) - frame % 64
  if word >>> (frame % 64) = 0 ∧ lowest < bitmap.frameCount then
    if ← bitmap.test lowest then return none else return some lowest
  else return none

/-- The search for a free frame from a position on. -/
def findFreeLoop (bitmap : FrameBitmap) : Nat → Nat → Exec (Option Nat)
  | 0, _ => .ok none
  | rounds + 1, frame =>
    if frame < bitmap.frameCount then do
      match ← bitmap.candidate frame with
      | some lowest => return some lowest
      | none =>
        if ← bitmap.test frame then bitmap.findFreeLoop rounds (frame + 1)
        else return some frame
    else .ok none

/-- The first free frame found from a position on. -/
def findFreeFrom (bitmap : FrameBitmap) (start : Nat) : Exec (Option Nat) :=
  if start ≥ bitmap.frameCount then .ok none
  else bitmap.findFreeLoop (bitmap.frameCount - start) start

/-- The first free frame found. -/
def findFree (bitmap : FrameBitmap) : Exec (Option Nat) := bitmap.findFreeFrom 0

variable {bitmap changed : FrameBitmap} {frame other : Nat} {used : Bool}

/-- The bit of a frame, if the storage has a word for it. -/
def bit (bitmap : FrameBitmap) (frame : Nat) : Option Bool :=
  (bitmap.bits[frame / 64]?).map (·.getLsbD (frame % 64))

theorem shift_and_one (word : BitVec 64) (position : Nat) :
    ((word >>> position) &&& 1#64 == 1#64) = word.getLsbD position := by
  -- Only the lowest bit survives the mask.
  have masked := BitVec.and_one_eq_setWidth_ofBool_getLsbD (x := word >>> position)
  rw [BitVec.getLsbD_ushiftRight, Nat.add_zero] at masked
  rw [masked]
  cases word.getLsbD position <;> decide

theorem test_eq :
    bitmap.test frame = (bitmap.bit frame).elim (.error .indexOutOfBounds) .ok := by
  unfold test word bit
  cases bitmap.bits[frame / 64]? with
  | none => rfl
  | some word => simp [shift_and_one]

/-- The storage has a word for a frame exactly when its number lies below the tracked bits. -/
theorem bit_isSome : (bitmap.bit frame).isSome = true ↔ frame < 64 * bitmap.bits.length := by
  rw [bit, Option.isSome_map, Option.isSome_iff_ne_none, ne_eq, List.getElem?_eq_none_iff]
  omega

/-- The bits of a range of frames have been set or cleared, and nothing else has changed. -/
structure Marked (bitmap : FrameBitmap) (start stop : Nat) (used : Bool) (changed : FrameBitmap) :
    Prop where
  frameCount : changed.frameCount = bitmap.frameCount
  length : changed.bits.length = bitmap.bits.length
  bit : ∀ other, changed.bit other =
    if start ≤ other ∧ other < stop then some used else bitmap.bit other

/-- Setting a bit inside the storage changes that bit alone. -/
theorem set_returns (inside : frame < 64 * bitmap.bits.length) (used : Bool) :
    ∃ changed, bitmap.set frame used = .ok changed ∧
      Marked bitmap frame (frame + 1) used changed := by
  have present : frame / 64 < bitmap.bits.length := by omega
  let old := bitmap.bits.get ⟨frame / 64, present⟩
  have found : bitmap.bits[frame / 64]? = some old := List.getElem?_eq_getElem present
  let mask := 1#64 <<< (frame % 64)
  let new := if used then old ||| mask else old &&& ~~~mask
  refine ⟨{ bitmap with bits := bitmap.bits.set (frame / 64) new }, ?_, rfl,
    List.length_set, fun other => ?_⟩
  · simp only [set, word, found, Exec.ok_bind]
    rfl
  · -- Within the changed word, only the masked bit differs.
    have bits : ∀ position < 64, new.getLsbD position =
        if position = frame % 64 then used else old.getLsbD position := by
      intro position small
      have masked : mask.getLsbD position = decide (position = frame % 64) := by
        have inRange : frame % 64 < 64 := Nat.mod_lt _ (by decide)
        simp only [mask, BitVec.getLsbD_shiftLeft, BitVec.getLsbD_one]
        by_cases below : position < frame % 64
        · simp [below, Nat.ne_of_lt below]
        · simp only [small, below, decide_true, decide_false, Bool.not_false, Bool.true_and]
          by_cases same : position = frame % 64
          · simp [same]
          · have apart : ¬ position - frame % 64 = 0 := by omega
            simp [same, apart]
      cases used with
      | true =>
        simp only [new, if_true, BitVec.getLsbD_or, masked]
        by_cases same : position = frame % 64 <;> simp [same]
      | false =>
        simp only [new, Bool.false_eq_true, if_false, BitVec.getLsbD_and, BitVec.getLsbD_not, masked,
          small, decide_true, Bool.true_and]
        by_cases same : position = frame % 64 <;> simp [same]
    unfold bit
    by_cases sameWord : other / 64 = frame / 64
    · rw [sameWord, List.getElem?_set_self present, found, Option.map_some, Option.map_some,
        bits _ (Nat.mod_lt _ (by decide))]
      by_cases same : other = frame
      · simp [same]
      · have apart : ¬ other % 64 = frame % 64 := by omega
        rw [if_neg apart, if_neg (by omega)]
    · have apart : ¬ (frame ≤ other ∧ other < frame + 1) := by omega
      rw [List.getElem?_set_ne (Ne.symm sameWord), if_neg apart]

theorem set_faults (outside : ¬ frame < 64 * bitmap.bits.length) (used : Bool) :
    bitmap.set frame used = .error .indexOutOfBounds := by
  have absent : bitmap.bits[frame / 64]? = none := List.getElem?_eq_none_iff.mpr (by omega)
  simp [set, word, absent]

/-- A set that returns stayed inside the storage and changed one bit. -/
theorem marked_of_set (returned : bitmap.set frame used = .ok changed) :
    Marked bitmap frame (frame + 1) used changed := by
  by_cases inside : frame < 64 * bitmap.bits.length
  · obtain ⟨expected, run, marked⟩ := set_returns inside used
    cases returned.symm.trans run
    exact marked
  · rw [set_faults inside] at returned
    cases returned

variable {start stop count : Nat} {found : Option Nat}

/-- Marking two adjacent ranges one after the other marks their union. -/
theorem Marked.append {middle : FrameBitmap} {split : Nat}
    (first : Marked bitmap start split used middle)
    (second : Marked middle split stop used changed) (low : start ≤ split) (high : split ≤ stop) :
    Marked bitmap start stop used changed where
  frameCount := second.frameCount.trans first.frameCount
  length := second.length.trans first.length
  bit := by
    intro other
    rw [second.bit, first.bit]
    by_cases later : split ≤ other ∧ other < stop
    · rw [if_pos later, if_pos (by omega)]
    · rw [if_neg later]
      by_cases earlier : start ≤ other ∧ other < split
      · rw [if_pos earlier, if_pos (by omega)]
      · rw [if_neg earlier, if_neg (by omega)]

/-- Marking an empty range changes nothing. -/
theorem marked_empty (start : Nat) (used : Bool) : Marked bitmap start start used bitmap :=
  ⟨rfl, rfl, fun other => by rw [if_neg (by omega)]⟩

theorem setRange_succ (start count : Nat) :
    (frames start (start + (count + 1))).foldlM (set · · used) bitmap =
      bitmap.set start used >>= (frames (start + 1) (start + 1 + count)).foldlM (set · · used) := by
  simp only [frames, Nat.add_sub_cancel_left, List.range'_succ, List.foldlM_cons]

/-- A range that was marked lies inside the storage, and nothing else has changed. -/
theorem marked_of_setRange
    (returned : (frames start (start + count)).foldlM (set · · used) bitmap = .ok changed) :
    Marked bitmap start (start + count) used changed := by
  -- The frames are marked from the first one on, so the range shrinks at its lower end.
  induction count generalizing start bitmap with
  | zero =>
    rw [frames, Nat.add_zero, Nat.sub_self] at returned
    cases returned
    exact marked_empty start used
  | succ count ih =>
    rw [setRange_succ, Exec.bind_eq_ok] at returned
    obtain ⟨middle, first, rest⟩ := returned
    have joined := (marked_of_set first).append (ih rest) (by omega) (by omega)
    rwa [show start + 1 + count = start + (count + 1) by omega] at joined

/-- Marking a range inside the storage returns. -/
theorem setRange_returns (used : Bool) (inside : start + count ≤ 64 * bitmap.bits.length) :
    ∃ changed, (frames start (start + count)).foldlM (set · · used) bitmap = .ok changed := by
  induction count generalizing start bitmap with
  | zero =>
    rw [frames, Nat.add_zero, Nat.sub_self]
    exact ⟨bitmap, rfl⟩
  | succ count ih =>
    have here : start < 64 * bitmap.bits.length := by omega
    obtain ⟨middle, first, marked⟩ := set_returns here used
    rw [setRange_succ, first]
    apply ih
    rw [marked.length]
    omega

/-- A frame is free exactly when it is tracked and its bit is clear. -/
theorem isFree_iff : bitmap.isFree frame = .ok true ↔
    frame < bitmap.frameCount ∧ bitmap.bit frame = some false := by
  unfold isFree
  by_cases tracked : frame ≥ bitmap.frameCount
  · rw [if_pos tracked]
    constructor
    · nofun
    · intro free
      omega
  · rw [if_neg tracked, test_eq]
    have below : frame < bitmap.frameCount := by omega
    cases bitmap.bit frame with
    | none => simp
    | some used => cases used <;> simp [below]

/-- Whether every frame of a range is tracked and has a clear bit. -/
def rangeFree (bitmap : FrameBitmap) (start stop : Nat) : Bool :=
  (frames start stop).all fun frame => frame < bitmap.frameCount && bitmap.bit frame == some false

/-- The frames of a free range are free. -/
theorem isFree_of_rangeFree (free : bitmap.rangeFree start stop = true) (low : start ≤ frame)
    (high : frame < stop) : bitmap.isFree frame = .ok true := by
  have member : frame ∈ frames start stop := by
    rw [frames, List.mem_range'_1]
    omega
  have clear := List.all_eq_true.mp free frame member
  rw [Bool.and_eq_true, decide_eq_true_eq, beq_iff_eq] at clear
  exact isFree_iff.mpr clear

/-- The storage has a bit for every tracked frame. -/
def Sized (bitmap : FrameBitmap) : Prop := bitmap.frameCount ≤ 64 * bitmap.bits.length

/-- Marking frames keeps the storage large enough. -/
theorem Marked.sized (marked : Marked bitmap start stop used changed) (sized : bitmap.Sized) :
    changed.Sized := by
  unfold Sized
  rw [marked.frameCount, marked.length]
  exact sized

theorem Sized.test_returns (sized : bitmap.Sized) (tracked : frame < bitmap.frameCount) :
    ∃ used, bitmap.test frame = .ok used := by
  unfold Sized at sized
  have inside : (bitmap.bit frame).isSome = true := bit_isSome.mpr (by omega)
  obtain ⟨used, found⟩ := Option.isSome_iff_exists.mp inside
  exact ⟨used, by rw [test_eq, found]; rfl⟩

/-- In a bitmap with enough storage, asking whether a frame is free returns. -/
theorem Sized.isFree_returns (sized : bitmap.Sized) (frame : Nat) :
    ∃ free, bitmap.isFree frame = .ok free := by
  unfold isFree
  by_cases tracked : frame ≥ bitmap.frameCount
  · exact ⟨false, if_pos tracked⟩
  · obtain ⟨used, tested⟩ := sized.test_returns (Nat.lt_of_not_le tracked)
    exact ⟨!used, by rw [if_neg tracked, tested]; rfl⟩

/-- A range of free frames is found free. -/
theorem allFree_of_isFree
    (free : ∀ frame, start ≤ frame → frame < stop → bitmap.isFree frame = .ok true) :
    bitmap.allFree start stop = .ok true := by
  -- The frames are asked from the first one on, and each answer is to go on.
  unfold allFree
  have every : ∀ frame ∈ frames start stop, bitmap.isFree frame = .ok true := by
    intro frame member
    rw [frames, List.mem_range'_1] at member
    exact free frame member.1 (by omega)
  generalize frames start stop = range at every ⊢
  induction range with
  | nil => rfl
  | cons frame rest ih =>
    rw [List.allM_cons, every frame (by simp)]
    exact ih fun other member => every other (by simp [member])

theorem isFree_of_candidate {free : Nat} (returned : bitmap.candidate frame = .ok (some free)) :
    bitmap.isFree free = .ok true := by
  unfold candidate at returned
  obtain ⟨word, -, returned⟩ := Exec.bind_eq_ok.mp returned
  dsimp only at returned
  split at returned
  · -- The candidate is returned only after its own bit has been tested.
    rename_i inRange
    obtain ⟨used, tested, returned⟩ := Exec.bind_eq_ok.mp returned
    cases used with
    | true => cases returned
    | false =>
      cases returned
      rw [isFree, if_neg (by omega), tested]
      rfl
  · cases returned

theorem Sized.candidate_returns (sized : bitmap.Sized) (tracked : frame < bitmap.frameCount) :
    ∃ found, bitmap.candidate frame = .ok found := by
  have enough : bitmap.frameCount ≤ 64 * bitmap.bits.length := sized
  have present : frame / 64 < bitmap.bits.length := by omega
  have read : bitmap.word (frame / 64) = .ok (bitmap.bits.get ⟨frame / 64, present⟩) := by
    rw [word, List.getElem?_eq_getElem present]
    rfl
  rw [candidate, read, Exec.ok_bind]
  dsimp only
  split
  · rename_i inRange
    obtain ⟨used, tested⟩ := sized.test_returns inRange.2
    rw [tested, Exec.ok_bind]
    cases used with
    | false | true => exact ⟨_, rfl⟩
  · exact ⟨_, rfl⟩

theorem Sized.findFreeLoop_returns (sized : bitmap.Sized) (rounds start : Nat) :
    ∃ found, bitmap.findFreeLoop rounds start = .ok found := by
  induction rounds generalizing start with
  | zero => exact ⟨none, rfl⟩
  | succ rounds ih =>
    rw [findFreeLoop]
    by_cases tracked : start < bitmap.frameCount
    · obtain ⟨lowest, tried⟩ := sized.candidate_returns tracked
      obtain ⟨used, tested⟩ := sized.test_returns tracked
      rw [if_pos tracked, tried, Exec.ok_bind]
      cases lowest with
      | some lowest => exact ⟨_, rfl⟩
      | none =>
        dsimp only
        rw [tested, Exec.ok_bind]
        cases used with
        | false => exact ⟨_, rfl⟩
        | true => exact ih (start + 1)
    · exact ⟨none, if_neg tracked⟩

/-- In a bitmap with enough storage, the search for a free frame returns. -/
theorem Sized.findFree_returns (sized : bitmap.Sized) : ∃ found, bitmap.findFree = .ok found := by
  unfold findFree findFreeFrom
  split
  · exact ⟨none, rfl⟩
  · exact sized.findFreeLoop_returns _ _

/-- What a search reports: a frame that is free, or that no frame from its start on is. -/
def Searched (bitmap : FrameBitmap) (start : Nat) : Option Nat → Prop
  | some free => bitmap.isFree free = .ok true
  | none => ∀ frame, start ≤ frame → bitmap.isFree frame ≠ .ok true

theorem searched_of_findFreeLoop {rounds : Nat} (enough : bitmap.frameCount ≤ start + rounds)
    (returned : bitmap.findFreeLoop rounds start = .ok found) : bitmap.Searched start found := by
  -- Frames past the last tracked one are never free.
  have beyond : ∀ start, bitmap.frameCount ≤ start → bitmap.Searched start none := by
    intro start past frame low free
    have tracked := (isFree_iff.mp free).1
    omega
  induction rounds generalizing start with
  | zero =>
    cases returned
    exact beyond start enough
  | succ rounds ih =>
    rw [findFreeLoop] at returned
    by_cases tracked : start < bitmap.frameCount
    · rw [if_pos tracked] at returned
      obtain ⟨lowest, candidate, returned⟩ := Exec.bind_eq_ok.mp returned
      cases lowest with
      | some lowest =>
        cases returned
        exact isFree_of_candidate candidate
      | none =>
        obtain ⟨used, tested, returned⟩ := Exec.bind_eq_ok.mp returned
        have here : bitmap.isFree start = .ok (!used) := by
          rw [isFree, if_neg (by omega), tested]
          rfl
        cases used with
        | false =>
          cases returned
          exact here
        | true =>
          -- A used frame is passed over, so nothing is lost by starting after it.
          have rest := ih (by omega) returned
          cases found with
          | some free => exact rest
          | none =>
            intro frame low free
            by_cases same : frame = start
            · rw [same, here] at free
              cases free
            · exact rest frame (by omega) free
    · rw [if_neg tracked] at returned
      cases returned
      exact beyond start (by omega)

/-- A search for a free frame reports one if there is one. -/
theorem searched_of_findFree (returned : bitmap.findFree = .ok found) :
    bitmap.Searched 0 found := by
  unfold findFree findFreeFrom at returned
  split at returned
  · rename_i empty
    cases returned
    intro frame _ free
    have tracked := (isFree_iff.mp free).1
    omega
  · exact searched_of_findFreeLoop (by omega) returned

end FrameBitmap

end TheoryKernel.Mm.Phys
