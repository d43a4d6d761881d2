import TheoryKernel.Mm.Layout
import TheoryKernel.Mm.Phys.Frame

/-! The frame allocator that is built from the memory map at boot. -/

namespace TheoryKernel.Mm.Phys

open FrameBitmap

open AlignedBlocks (Block)

/-- The kinds of physical memory. -/
inductive MemoryKind where
  | usable
  | reserved
  | acpiReclaimable
  | acpiNvs
  | badMemory
  | bootloaderReclaimable
  | unknown
  deriving DecidableEq, Repr

/-- A region of the memory map. -/
structure MemoryRegion where
  start : Nat
  length : Nat
  kind : MemoryKind

/-- The part of the boot information from which the frame allocator is built. -/
structure BootInfo where
  kernelPhysicalBase : Nat
  memoryMap : List MemoryRegion

/-- The kinds of memory from which frames may be handed out. -/
def isAllocatable : MemoryKind → Bool
  | .usable | .bootloaderReclaimable | .acpiReclaimable => true
  | _ => false

/-- The blocks of the static storage of the buddy allocator. -/
def maxBuddyBlocks : Nat := 8192

/-- The frames reserved for the kernel image and early structures, 16 MiB. -/
def kernelFrames : Nat := 4096

/-- The frame of a physical address. -/
def frameFromPhys (phys : Nat) : Nat := phys / pageSize

/-- The words that hold one bit for each frame. -/
def wordsForFrames (frameCount : Nat) : Nat := (frameCount + 63) / 64

/-- Setting every bit of the storage. -/
def FrameBitmap.markAllUsed (bitmap : FrameBitmap) : FrameBitmap :=
  { bitmap with bits := bitmap.bits.map fun _ => BitVec.allOnes 64 }

/-- Marking a number of frames allocated. -/
def FrameBitmap.reserve (bitmap : FrameBitmap) (start count : Nat) : Exec FrameBitmap :=
  bitmap.setUsedRange start (start + count)

/-- Reserving the frames of the kernel image. -/
def reserveKernel (bitmap : FrameBitmap) (kernelBase : Nat) : Exec FrameBitmap :=
  bitmap.reserve (frameFromPhys (alignDown kernelBase pageSize)) kernelFrames

/-- The words of the bitmap, from the highest end of a region, whose sum may wrap. -/
def trackedWords (memoryMap : List MemoryRegion) : Nat :=
  let ends := memoryMap.map fun region => wrapAdd region.start region.length
  let maxPhys := ends.max?.getD (256 * 1024 * 1024)
  min (wordsForFrames (alignUp maxPhys pageSize / pageSize)) maxBitmapWords

/-- Releasing the frames of a region that is allocatable, as far as they are tracked. -/
def releaseRegion (frameCap : Nat) (bitmap : FrameBitmap) (region : MemoryRegion) :
    Exec FrameBitmap :=
  if !isAllocatable region.kind then .ok bitmap
  else
    let startFrame := frameFromPhys region.start
    if startFrame ≥ frameCap then .ok bitmap
    else
      let endFrame := min (startFrame + region.length / pageSize) (2 ^ 64 - 1)
      let endFrame := if endFrame > frameCap then frameCap else endFrame
      (frames startFrame endFrame).foldlM setFree bitmap

/-- The frame allocator at boot: all frames are used, and those of allocatable regions released. -/
def FrameAllocator.new (boot : BootInfo) : Exec FrameAllocator := do
  let words := trackedWords boot.memoryMap
  let bitmap := (FrameBitmap.new words (words * 64)).markAllUsed
  let bitmap ← reserveKernel bitmap boot.kernelPhysicalBase
  let bitmap ← boot.memoryMap.foldlM (releaseRegion bitmap.frameCount) bitmap
  return ⟨.new maxBuddyBlocks, bitmap⟩

/-- The frames that are released for a region: whole pages from the page of its start on. -/
def MemoryRegion.Releases (region : MemoryRegion) (frame : Nat) : Prop :=
  isAllocatable region.kind = true ∧ region.start / pageSize ≤ frame ∧
    frame < region.start / pageSize + region.length / pageSize

/-- The bytes of a region. -/
def MemoryRegion.Holds (region : MemoryRegion) (byte : Nat) : Prop :=
  region.start ≤ byte ∧ byte < region.start + region.length

namespace BootInfo

/-- The number of frames that have a bit. -/
def tracked (boot : BootInfo) : Nat := trackedWords boot.memoryMap * 64

/-- The frames reserved for the kernel. -/
def InKernel (boot : BootInfo) (frame : Nat) : Prop :=
  boot.kernelPhysicalBase / pageSize ≤ frame ∧
    frame < boot.kernelPhysicalBase / pageSize + kernelFrames

/-- The tracked frames that some region releases. -/
def Released (boot : BootInfo) (frame : Nat) : Prop :=
  frame < boot.tracked ∧ ∃ region ∈ boot.memoryMap, region.Releases frame

/-- What has to hold of a free frame: all its bytes may be handed out, and none is the kernel's. -/
structure MayBeFree (boot : BootInfo) (frame : Nat) : Prop where
  allocatable : ∀ byte, byte / pageSize = frame →
    ∃ region ∈ boot.memoryMap, isAllocatable region.kind = true ∧ region.Holds byte
  unmixed : ∀ byte, byte / pageSize = frame → ∀ region ∈ boot.memoryMap, region.Holds byte →
    isAllocatable region.kind = true
  outside : ¬ boot.InKernel frame

end BootInfo

/-- A bitmap that tracks exactly the frames of its words, with the frames that are free. -/
structure Records (bitmap : FrameBitmap) (words : Nat) (free : Nat → Prop) : Prop where
  length : bitmap.bits.length = words
  frameCount : bitmap.frameCount = words * 64
  bit : ∀ frame, bitmap.bit frame = some false ↔ free frame

section Release

variable {bitmap : FrameBitmap} {words : Nat} {free : Nat → Prop}

theorem releaseRegion_eq {frameCap : Nat} (small : frameCap < 2 ^ 64) (bitmap : FrameBitmap)
    (region : MemoryRegion) :
    ∃ start count, start + count ≤ frameCap ∧ releaseRegion frameCap bitmap region =
        (frames start (start + count)).foldlM setFree bitmap ∧
      ∀ frame, start ≤ frame ∧ frame < start + count ↔
        frame < frameCap ∧ region.Releases frame := by
  unfold releaseRegion MemoryRegion.Releases frameFromPhys
  by_cases kind : isAllocatable region.kind = true
  · by_cases beyond : region.start / pageSize ≥ frameCap
    · refine ⟨0, 0, Nat.zero_le _, by simp [kind, beyond, frames], fun frame => ?_⟩
      omega
    · rw [kind, if_neg (by simp), if_neg beyond]
      refine ⟨region.start / pageSize, min (region.length / pageSize)
        (frameCap - region.start / pageSize), by omega, ?_, fun frame => ?_⟩
      · dsimp only
        congr 2
        split <;> omega
      · simp only [true_and]
        omega
  · exact ⟨0, 0, Nat.zero_le _, by simp [kind, frames], by simp [kind]⟩

theorem Records.releaseRegions (records : Records bitmap words free)
    (limited : words ≤ maxBitmapWords) (regions : List MemoryRegion) :
    ∃ changed, regions.foldlM (releaseRegion (words * 64)) bitmap = .ok changed ∧
      Records changed words fun frame =>
        (frame < words * 64 ∧ ∃ region ∈ regions, region.Releases frame) ∨ free frame := by
  -- Regions release their frames one after the other, and none takes a frame back.
  induction regions generalizing bitmap free with
  | nil => exact ⟨bitmap, rfl, by simpa using records⟩
  | cons region rest ih =>
    rw [maxBitmapWords] at limited
    obtain ⟨start, count, inside, same, member⟩ :=
      releaseRegion_eq (show words * 64 < 2 ^ 64 by omega) bitmap region
    obtain ⟨middle, first⟩ := setRange_returns false
      (show start + count ≤ 64 * bitmap.bits.length by rw [records.length]; omega)
    have marked := marked_of_setRange first
    have stepped : Records middle words fun frame =>
        (start ≤ frame ∧ frame < start + count) ∨ free frame := by
      refine ⟨marked.length.trans records.length, marked.frameCount.trans records.frameCount, ?_⟩
      intro frame
      rw [marked.bit, ← records.bit]
      split
      · simp_all
      · exact (or_iff_right (by assumption)).symm
    obtain ⟨changed, run, result⟩ := ih stepped
    refine ⟨changed, ?_, result.length, result.frameCount, fun frame => (result.bit frame).trans ?_⟩
    · rw [List.foldlM_cons, same]
      change List.foldlM setFree .. = _ at first
      rw [first]
      exact run
    · rw [member, ← or_assoc, ← and_or_left]
      simp only [List.mem_cons, exists_eq_or_imp]
      rw [or_comm (a := ∃ region ∈ rest, region.Releases frame)]

theorem records_markAllUsed (words : Nat) :
    Records (new words (words * 64)).markAllUsed words fun _ => False where
  length := by simp [markAllUsed, new]
  frameCount := rfl
  bit := by
    intro frame
    simp only [bit, markAllUsed, new, List.getElem?_map]
    cases found : (List.replicate words (0#64))[frame / 64]? with
    | none => simp
    | some word =>
      have position : frame % 64 < 64 := Nat.mod_lt frame (by decide)
      simp only [Option.map_some, BitVec.getLsbD_allOnes, position]
      simp

end Release

theorem reserveKernel_eq (bitmap : FrameBitmap) (base : Nat) :
    reserveKernel bitmap base =
      bitmap.setUsedRange (base / pageSize) (base / pageSize + kernelFrames) := by
  rw [reserveKernel, reserve, frameFromPhys, alignDown,
    Nat.mul_div_cancel _ (by decide : 0 < pageSize)]

namespace FrameAllocator

variable {boot : BootInfo} {allocator : FrameAllocator}

theorem new_returns (fits : boot.kernelPhysicalBase / pageSize + kernelFrames ≤ boot.tracked) :
    ∃ bitmap, new boot = .ok ⟨.new maxBuddyBlocks, bitmap⟩ ∧
      ∀ frame, bitmap.isFree frame = .ok true ↔ boot.Released frame := by
  have records := records_markAllUsed (trackedWords boot.memoryMap)
  have present : boot.kernelPhysicalBase / pageSize + kernelFrames ≤
      64 * (FrameBitmap.new (trackedWords boot.memoryMap)
        (trackedWords boot.memoryMap * 64)).markAllUsed.bits.length := by
    rw [records.length, Nat.mul_comm]
    exact fits
  obtain ⟨bitmap, reserved⟩ := setRange_returns true present
  have marked := marked_of_setRange reserved
  have kernel : Records bitmap (trackedWords boot.memoryMap) fun _ => False := by
    refine ⟨marked.length.trans records.length, marked.frameCount.trans records.frameCount, ?_⟩
    intro frame
    rw [marked.bit, ← records.bit frame]
    split <;> simp [records.bit]
  have limited : trackedWords boot.memoryMap ≤ maxBitmapWords := Nat.min_le_right _ _
  obtain ⟨changed, run, result⟩ := kernel.releaseRegions limited boot.memoryMap
  refine ⟨changed, ?_, fun frame => ?_⟩
  · change setUsedRange .. = _ at reserved
    rw [new, reserveKernel_eq, reserved, Exec.ok_bind, kernel.frameCount, run]
    rfl
  · rw [isFree_iff, result.bit, result.frameCount, or_false, BootInfo.Released,
      and_self_left]
    rfl

theorem fits_of_new (booted : new boot = .ok allocator) :
    boot.kernelPhysicalBase / pageSize + kernelFrames ≤ boot.tracked := by
  unfold new at booted
  obtain ⟨bitmap, reserved, -⟩ := Exec.bind_eq_ok.mp booted
  rw [reserveKernel_eq] at reserved
  have marked := marked_of_setRange reserved
  -- The last frame of the kernel has a bit, which was set.
  have last := marked.bit (boot.kernelPhysicalBase / pageSize + (kernelFrames - 1))
  rw [if_pos (by rw [kernelFrames]; omega)] at last
  have inside := bit_isSome.mp (Option.isSome_iff_exists.mpr ⟨true, last⟩)
  rw [marked.length, (records_markAllUsed _).length, kernelFrames] at inside
  rw [BootInfo.tracked, kernelFrames]
  omega

theorem free_iff_of_new (booted : new boot = .ok allocator) :
    allocator.buddy = .new maxBuddyBlocks ∧
      ∀ frame, allocator.bitmap.isFree frame = .ok true ↔ boot.Released frame := by
  obtain ⟨bitmap, run, free⟩ := new_returns (fits_of_new booted)
  cases booted.symm.trans run
  exact ⟨rfl, free⟩

end FrameAllocator

/-- The allocator is built, and each of its free frames may be handed out. -/
def BootInfo.Sound (boot : BootInfo) : Prop :=
  ∃ allocator, FrameAllocator.new boot = .ok allocator ∧
    ∀ frame, allocator.bitmap.isFree frame = .ok true → boot.MayBeFree frame

/--
The accounting at boot is sound exactly for the memory maps that release no wrong frame.

A region releases its length in whole frames from the frame of its start on, however the start is
aligned, and it does so after the kernel's frames have been reserved.
-/
theorem boot_sound_iff (boot : BootInfo) :
    boot.Sound ↔ boot.kernelPhysicalBase / pageSize + kernelFrames ≤ boot.tracked ∧
      ∀ frame, boot.Released frame → boot.MayBeFree frame := by
  constructor
  · rintro ⟨allocator, booted, sound⟩
    refine ⟨FrameAllocator.fits_of_new booted, fun frame released => sound frame ?_⟩
    exact ((FrameAllocator.free_iff_of_new booted).2 frame).mpr released
  · rintro ⟨fits, sound⟩
    obtain ⟨bitmap, run, free⟩ := FrameAllocator.new_returns fits
    exact ⟨_, run, fun frame isFree => sound frame ((free frame).mp isFree)⟩

/-- A machine with 32 MiB of usable memory and the kernel at 1 MiB. -/
def smallMachine : BootInfo := ⟨0x100000, [⟨0, 32 * 1024 * 1024, .usable⟩]⟩

theorem smallMachine_fits :
    smallMachine.kernelPhysicalBase / pageSize + kernelFrames ≤ smallMachine.tracked := by
  decide

theorem smallMachine_released {frame : Nat} (below : frame < 8192) :
    smallMachine.Released frame := by
  refine ⟨?_, _, List.mem_singleton_self _, rfl, Nat.zero_le _, ?_⟩
  · exact Nat.lt_of_lt_of_le below (by decide)
  · exact Nat.lt_of_lt_of_le below (by decide)

/-- The frames of the kernel are released again with the region it lies in. -/
theorem kernel_frames_released : smallMachine.InKernel 256 ∧
    ∃ allocator, FrameAllocator.new smallMachine = .ok allocator ∧
      allocator.bitmap.isFree 256 = .ok true := by
  obtain ⟨bitmap, run, free⟩ := FrameAllocator.new_returns smallMachine_fits
  exact ⟨⟨by decide, by decide⟩, _, run, (free 256).mpr (smallMachine_released (by decide))⟩

/-- An aligned block of frames that are all free. -/
def FreeRun (allocator : FrameAllocator) (block : Block) : Prop :=
  block.Aligned ∧ ∀ frame, block.Covers frame → allocator.bitmap.isFree frame = .ok true

/-- If there is a free run of an order, then one is handed out and no longer free. -/
def ServesRun (allocator : FrameAllocator) (order node : Nat) : Prop :=
  (∃ block : Block, block.order = order ∧ FreeRun allocator block) →
    ∃ descriptor changed, allocator.allocOrder order node = .ok (some (descriptor, changed)) ∧
      descriptor.order = order ∧ FreeRun allocator descriptor.block ∧
        ∀ frame, descriptor.block.Covers frame → changed.bitmap.isFree frame = .ok false

theorem allocOrder_new {boot : BootInfo} {allocator : FrameAllocator} {order : Nat}
    (booted : FrameAllocator.new boot = .ok allocator) (low : 1 ≤ order) (node : Nat) :
    allocator.allocOrder order node = .ok none := by
  obtain ⟨buddy, bitmap⟩ := allocator
  cases (FrameAllocator.free_iff_of_new booted).1
  exact FrameAllocator.allocOrder_new _ bitmap node low

/--
At boot, requests for more than one frame are served exactly while there is no run to serve.

The higher orders come from the buddy allocator alone, which is built without any region.
-/
theorem serves_run_iff {boot : BootInfo} {allocator : FrameAllocator} {order : Nat}
    (booted : FrameAllocator.new boot = .ok allocator) (low : 1 ≤ order) (node : Nat) :
    ServesRun allocator order node ↔
      ¬ ∃ block : Block, block.order = order ∧ FreeRun allocator block := by
  constructor
  · intro serves found
    obtain ⟨descriptor, changed, served, -⟩ := serves found
    cases (allocOrder_new booted low node).symm.trans served
  · exact fun none found => absurd found none

/-- The theorem at the small machine and at pairs of frames. -/
theorem serves_run_iff_pair : ∃ allocator, FrameAllocator.new smallMachine = .ok allocator ∧
    (ServesRun allocator 1 0 ↔
      ¬ ∃ block : Block, block.order = 1 ∧ FreeRun allocator block) := by
  obtain ⟨bitmap, run, -⟩ := FrameAllocator.new_returns smallMachine_fits
  exact ⟨_, run, serves_run_iff run (by decide) 0⟩

/-- The first two frames of the small machine are free, and a pair of frames is refused. -/
theorem free_pair_refused : ∃ allocator, FrameAllocator.new smallMachine = .ok allocator ∧
    FreeRun allocator ⟨0, 1⟩ ∧ allocator.allocOrder 1 0 = .ok none := by
  obtain ⟨bitmap, run, free⟩ := FrameAllocator.new_returns smallMachine_fits
  refine ⟨_, run, ⟨Nat.dvd_zero _, fun frame covered => (free frame).mpr ?_⟩,
    allocOrder_new run (by decide) 0⟩
  have below : frame < 0 + 2 ^ 1 := covered.2
  exact smallMachine_released (by omega)

end TheoryKernel.Mm.Phys
