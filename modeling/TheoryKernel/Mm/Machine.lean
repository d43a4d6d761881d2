import TheoryKernel.Lib.RadixTable
import TheoryKernel.Mm.Phys.Frame

/-! Physical memory and the frames that are handed out from it. -/

namespace TheoryKernel.Mm

open Phys FrameAllocator FrameBitmap

/--
The bitmap of the running kernel.

It has a bit for each frame it tracks, and no region is ever given to the buddy allocator beside it.
-/
structure FrameSource where
  bitmap : FrameBitmap
  sized : bitmap.Sized
  limited : bitmap.frameCount ≤ 64 * maxBitmapWords

namespace FrameSource

variable {source changed : FrameSource} {frame other : Nat}

/-- Whether a frame is handed out or reserved. -/
def Used (source : FrameSource) (frame : Nat) : Prop := source.bitmap.bit frame = some true

/-- Whether a frame can be handed out. -/
def Free (source : FrameSource) (frame : Nat) : Prop :=
  frame < source.bitmap.frameCount ∧ source.bitmap.bit frame = some false

/-- Setting or clearing a bit keeps the size of the bitmap. -/
def mark (source : FrameSource) (frame : Nat) (used : Bool) : FrameSource :=
  match marking : source.bitmap.set frame used with
  | .ok bitmap =>
    { bitmap
      sized := (marked_of_set marking).sized source.sized
      limited := (marked_of_set marking).frameCount.symm ▸ source.limited }
  | .error _ => source

/-- A free frame from the bitmap, marked used. -/
def alloc (source : FrameSource) : Option (Nat × FrameSource) :=
  match source.bitmap.findFree with
  | .ok (some frame) => some (frame, source.mark frame true)
  | _ => none

/-- A frame given back to the bitmap. -/
def free (source : FrameSource) (frame : Nat) : FrameSource := source.mark frame false

theorem alloc_some (served : source.alloc = some (frame, changed)) :
    source.Free frame ∧
      Marked source.bitmap frame (frame + 1) true changed.bitmap := by
  unfold alloc at served
  split at served
  · rename_i found searched
    cases served
    have free := isFree_iff.mp (searched_of_findFree searched)
    have sized : source.bitmap.frameCount ≤ 64 * source.bitmap.bits.length := source.sized
    obtain ⟨bitmap, run, marked⟩ := set_returns (Nat.lt_of_lt_of_le free.1 sized) true
    refine ⟨free, ?_⟩
    unfold mark
    split
    · rename_i found marking
      cases marking.symm.trans run
      exact marked
    · rename_i fault marking
      cases marking.symm.trans run
  · cases served

/-- A frame allocator whose buddy allocator has no regions hands out frames of the bitmap alone. -/
theorem allocOne_unseeded (blockCount node : Nat) :
    allocOne ⟨.new blockCount, source.bitmap⟩ node =
      .ok (source.alloc.map fun served =>
        (⟨served.1, 0, node⟩, ⟨.new blockCount, served.2.bitmap⟩)) := by
  obtain ⟨found, searched⟩ := source.sized.findFree_returns
  cases found with
  | some frame =>
    have served : source.alloc = some (frame, source.mark frame true) := by
      rw [alloc, searched]
    have free := (alloc_some served).1
    have inside : frame < 64 * source.bitmap.bits.length :=
      Nat.lt_of_lt_of_le free.1 source.sized
    obtain ⟨bitmap, run, -⟩ := set_returns inside true
    have marked : (source.mark frame true).bitmap = bitmap := by
      unfold mark
      split
      · rename_i marking
        cases marking.symm.trans run
        rfl
      · rename_i marking
        cases marking.symm.trans run
    rw [served, Option.map_some, marked]
    simp only [allocOne, allocBit, setUsed, searched, run,
      Exec.ok_bind, Exec.pure_eq]
  | none =>
    have refused : source.alloc = none := by rw [alloc, searched]
    rw [refused]
    simp only [allocOne, allocBit, allocOrder,
      allocBlock_new, Nat.zero_min, if_true, searched, Exec.ok_bind, Exec.pure_eq,
      Option.map_none]

end FrameSource

/-- The frames of the machine and the 64-bit words in each of them. -/
structure Machine where
  frames : FrameSource
  memory : Nat → Nat → BitVec 64

namespace Machine

variable {machine changed : Machine} {frame other index : Nat} {word : BitVec 64}

/-- A free frame, with whatever its words held before. -/
def allocFrame (machine : Machine) : Option (Nat × Machine) :=
  machine.frames.alloc.map fun served => (served.1, { machine with frames := served.2 })

/-- A frame given back. -/
def freeFrame (machine : Machine) (frame : Nat) : Machine :=
  { machine with frames := machine.frames.free frame }

/-- Writing one word of a frame. -/
def write (machine : Machine) (frame index : Nat) (word : BitVec 64) : Machine :=
  { machine with memory := RadixTable.write machine.memory frame index word }

/-- Clearing all words of a frame. -/
def zeroFrame (machine : Machine) (frame : Nat) : Machine :=
  { machine with memory := Function.update machine.memory frame fun _ => 0 }

/-- Copying all words of a frame to another one. -/
def copyFrame (machine : Machine) (source target : Nat) : Machine :=
  { machine with memory := Function.update machine.memory target (machine.memory source) }

/-- Whether a frame is handed out or reserved. -/
def Used (machine : Machine) (frame : Nat) : Prop := machine.frames.Used frame

/-- Whether a frame can be handed out. -/
def Free (machine : Machine) (frame : Nat) : Prop := machine.frames.Free frame

/-- One free frame is now used, and nothing else has changed. -/
structure Allocated (machine : Machine) (frame : Nat) (changed : Machine) : Prop where
  wasFree : machine.Free frame
  used : ∀ other, changed.Used other ↔ other = frame ∨ machine.Used other
  free : ∀ other, changed.Free other ↔ other ≠ frame ∧ machine.Free other
  memory : changed.memory = machine.memory

/-- An allocated frame was free, and nothing else has changed. -/
theorem allocFrame_some (served : machine.allocFrame = some (frame, changed)) :
    Allocated machine frame changed := by
  obtain ⟨⟨found, frames⟩, run, same⟩ := Option.map_eq_some_iff.mp served
  cases same
  obtain ⟨wasFree, marked⟩ := FrameSource.alloc_some run
  have bits : ∀ other, frames.bitmap.bit other =
      if other = found then some true else machine.frames.bitmap.bit other := by
    intro other
    rw [marked.bit other]
    by_cases here : other = found
    · rw [if_pos (by omega), if_pos here]
    · rw [if_neg (by omega), if_neg here]
  refine ⟨wasFree, ?_, ?_, rfl⟩
  · intro other
    unfold Used FrameSource.Used
    rw [bits other]
    by_cases here : other = found <;> simp [here]
  · intro other
    unfold Free FrameSource.Free
    rw [bits other, marked.frameCount]
    by_cases here : other = found <;> simp [here]

/-- The frames that can be handed out have addresses of at most 34 bits. -/
theorem Free.lt (free : machine.Free frame) : frame < 2 ^ 22 := by
  have tracked : frame < machine.frames.bitmap.frameCount := free.1
  have limited : machine.frames.bitmap.frameCount ≤ 64 * 65536 := machine.frames.limited
  omega

/-- A frame is not used and free at once. -/
theorem Used.not_free (used : machine.Used frame) : ¬ machine.Free frame := by
  intro free
  have clear : machine.frames.bitmap.bit frame = some false := free.2
  rw [Used, FrameSource.Used, clear] at used
  cases used

end Machine

end TheoryKernel.Mm
