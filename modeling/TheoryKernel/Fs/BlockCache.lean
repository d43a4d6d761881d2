import Mathlib.Algebra.GroupWithZero.Nat
import Mathlib.Data.Fin.Basic
import Mathlib.Data.List.FinRange
import Mathlib.Data.List.Induction
import Mathlib.Logic.Function.Basic

/-! The cache of blocks of the devices. -/

namespace TheoryKernel.Fs

open Function

/-- The number of bytes of a block. -/
def blockSize : Nat := 4096

/-- The number of blocks that the cache has room for. -/
def cacheSlots : Nat := 64

instance : NeZero cacheSlots := ⟨by decide⟩

/-- The bytes of a block. -/
abbrev Block : Type := Fin blockSize → BitVec 8

/-- A slot of the cache. -/
structure CacheEntry where
  deviceId : BitVec 32
  block : BitVec 64
  data : Block
  dirty : Bool
  valid : Bool

namespace CacheEntry

/-- A slot that has not been used yet. -/
def empty : CacheEntry := ⟨BitVec.allOnes 32, 0, fun _ => 0, false, false⟩

/-- Whether a slot holds a block of a device. -/
def isFor (entry : CacheEntry) (deviceId : BitVec 32) (block : BitVec 64) : Bool :=
  entry.valid && entry.deviceId == deviceId && entry.block == block

end CacheEntry

/-- The slots of the cache, and the one that is used next for a block that is not there. -/
structure BufferCache where
  entries : Fin cacheSlots → CacheEntry
  next : Fin cacheSlots

namespace BufferCache

/-- No slot has been used yet. -/
def new : BufferCache := ⟨fun _ => .empty, 0⟩

/-- The first slot that holds a block. -/
def find (cache : BufferCache) (deviceId : BitVec 32) (block : BitVec 64) :
    Option (Fin cacheSlots) :=
  (List.finRange cacheSlots).find? fun slot => (cache.entries slot).isFor deviceId block

/-- The cache with another entry in a slot. -/
def put (cache : BufferCache) (slot : Fin cacheSlots) (entry : CacheEntry) : BufferCache :=
  { cache with entries := update cache.entries slot entry }

/-- The slots are used in turn. What was changed in one is not written back. -/
def evictSlot (cache : BufferCache) : Fin cacheSlots × BufferCache :=
  (cache.next, { cache.put cache.next { cache.entries cache.next with dirty := false } with
    next := cache.next + 1 })

end BufferCache

/-- The contents of the devices, by the numbers of devices and of blocks. -/
abbrev Devices : Type := BitVec 32 → BitVec 64 → Block

/-- The devices after a block was written. -/
def Devices.write (devices : Devices) (deviceId : BitVec 32) (block : BitVec 64) (buf : Block) :
    Devices :=
  update devices deviceId (update (devices deviceId) block buf)

/-- The devices, and the cache before them. -/
structure Storage where
  cache : BufferCache
  devices : Devices

namespace Storage

/-- A block is read from the cache, or from its device into the cache. -/
def readBlock (storage : Storage) (deviceId : BitVec 32) (block : BitVec 64) : Block × Storage :=
  match storage.cache.find deviceId block with
  | some slot => ((storage.cache.entries slot).data, storage)
  | none =>
    let (slot, cache) := storage.cache.evictSlot
    let data := storage.devices deviceId block
    (data, { storage with cache := cache.put slot ⟨deviceId, block, data, false, true⟩ })

/-- A block is written to its device, and to the cache if it is there. -/
def writeBlock (storage : Storage) (deviceId : BitVec 32) (block : BitVec 64) (buf : Block) :
    Storage where
  cache :=
    match storage.cache.find deviceId block with
    | some slot =>
      storage.cache.put slot { storage.cache.entries slot with data := buf, dirty := true }
    | none => storage.cache
  devices := storage.devices.write deviceId block buf

/-- One slot is written to its device if it is one of the device and has changed. -/
def flushSlot (deviceId : BitVec 32) (storage : Storage) (slot : Fin cacheSlots) : Storage :=
  let entry := storage.cache.entries slot
  if entry.valid && entry.deviceId == deviceId && entry.dirty then
    ⟨storage.cache.put slot { entry with dirty := false },
      storage.devices.write deviceId entry.block entry.data⟩
  else storage

/-- All slots of a device that have changed are written to it. -/
def flushDevice (storage : Storage) (deviceId : BitVec 32) : Storage :=
  (List.finRange cacheSlots).foldl (flushSlot deviceId) storage

/-- The operations on blocks. -/
inductive Op where
  | read (deviceId : BitVec 32) (block : BitVec 64)
  | write (deviceId : BitVec 32) (block : BitVec 64) (buf : Block)
  | flush (deviceId : BitVec 32)

/-- What the operations do. -/
def step (storage : Storage) : Op → Storage
  | .read deviceId block => (storage.readBlock deviceId block).2
  | .write deviceId block buf => storage.writeBlock deviceId block buf
  | .flush deviceId => storage.flushDevice deviceId

/-- Reading a block if the device may fail; then the slot holds what was read so far, if anything. -/
def tryReadBlock (storage : Storage) (deviceId : BitVec 32) (block : BitVec 64) :
    Option Block → Option Block × Storage
  | none => ((storage.readBlock deviceId block).1, (storage.readBlock deviceId block).2)
  | some filled =>
    match storage.cache.find deviceId block with
    | some slot => (some (storage.cache.entries slot).data, storage)
    | none =>
      let (slot, cache) := storage.cache.evictSlot
      let entry := { storage.cache.entries slot with data := filled, dirty := false }
      (none, { storage with cache := cache.put slot entry })

/-- Writing a block if the device may fail, which is seen only after the cache was changed. -/
def tryWriteBlock (storage : Storage) (deviceId : BitVec 32) (block : BitVec 64) (buf : Block)
    (fails : Bool) : Storage :=
  let after := storage.writeBlock deviceId block buf
  if fails then { after with devices := storage.devices } else after

/-- The operations on blocks of devices that may fail. -/
inductive DeviceOp where
  | read (deviceId : BitVec 32) (block : BitVec 64) (failure : Option Block)
  | write (deviceId : BitVec 32) (block : BitVec 64) (buf : Block) (fails : Bool)

/-- What the operations do when devices may fail. -/
def deviceStep (storage : Storage) : DeviceOp → Storage
  | .read deviceId block failure => (storage.tryReadBlock deviceId block failure).2
  | .write deviceId block buf fails => storage.tryWriteBlock deviceId block buf fails

/--
A failed read leaves a slot in use as it was, and a failed write of a cached block changes
nothing.
-/
def Harmless (storage : Storage) : DeviceOp → Prop
  | .read deviceId block failure => ∀ filled, failure = some filled →
    storage.cache.find deviceId block = none →
      (storage.cache.entries storage.cache.next).valid = true →
        filled = (storage.cache.entries storage.cache.next).data
  | .write deviceId block buf fails => fails = true →
    storage.cache.find deviceId block ≠ none → buf = storage.devices deviceId block

/-- Every read that succeeds gives what the device holds. -/
def Faithful (storage : Storage) : Prop := ∀ deviceId block failure data,
  (storage.tryReadBlock deviceId block failure).1 = some data → data = storage.devices deviceId block

/-- Slots in use hold what their device holds, and no two of them hold the same block. -/
structure Coherent (storage : Storage) : Prop where
  same : ∀ slot, (storage.cache.entries slot).valid = true →
    (storage.cache.entries slot).data =
      storage.devices (storage.cache.entries slot).deviceId (storage.cache.entries slot).block
  unique : ∀ slot other deviceId block, (storage.cache.entries slot).isFor deviceId block = true →
    (storage.cache.entries other).isFor deviceId block = true → slot = other

variable {storage after : Storage} {deviceId : BitVec 32} {block : BitVec 64}
  {slot : Fin cacheSlots} {entry : CacheEntry} {buf : Block}

theorem isFor_iff : entry.isFor deviceId block = true ↔
    entry.valid = true ∧ entry.deviceId = deviceId ∧ entry.block = block := by
  simp [CacheEntry.isFor, and_assoc]

theorem isFor_of_find (found : storage.cache.find deviceId block = some slot) :
    (storage.cache.entries slot).isFor deviceId block = true := by
  have known := List.find?_some found
  exact known

theorem not_isFor_of_find (missing : storage.cache.find deviceId block = none)
    (slot : Fin cacheSlots) : (storage.cache.entries slot).isFor deviceId block ≠ true :=
  List.find?_eq_none.mp missing slot (List.mem_finRange slot)

theorem write_self (devices : Devices) : devices.write deviceId block buf deviceId block = buf := by
  rw [Devices.write, update_self, update_self]

theorem write_same (devices : Devices) :
    devices.write deviceId block (devices deviceId block) = devices := by
  rw [Devices.write, update_eq_self, update_eq_self]

theorem write_other (devices : Devices) (valid : entry.valid = true)
    (other : entry.isFor deviceId block ≠ true) :
    devices.write deviceId block buf entry.deviceId entry.block =
      devices entry.deviceId entry.block := by
  rw [ne_eq, isFor_iff, not_and, not_and] at other
  unfold Devices.write
  by_cases same : entry.deviceId = deviceId
  · rw [same, update_self, update_of_ne (other valid same)]
  · rw [update_of_ne same]

namespace Coherent

variable (coherent : Coherent storage)

include coherent

theorem data_eq (found : storage.cache.find deviceId block = some slot) :
    (storage.cache.entries slot).data = storage.devices deviceId block := by
  obtain ⟨valid, rfl, rfl⟩ := isFor_iff.mp (isFor_of_find found)
  exact coherent.same slot valid

theorem readBlock_fst (deviceId : BitVec 32) (block : BitVec 64) :
    (storage.readBlock deviceId block).1 = storage.devices deviceId block := by
  unfold Storage.readBlock
  split
  · rename_i found
    exact coherent.data_eq found
  · rfl

theorem put (changed : after.cache.entries = update storage.cache.entries slot entry)
    (fits : entry.valid = true → entry.data = after.devices entry.deviceId entry.block)
    (others : ∀ other, other ≠ slot → (storage.cache.entries other).valid = true →
      (entry.valid = true →
        (storage.cache.entries other).isFor entry.deviceId entry.block ≠ true) ∧
        after.devices (storage.cache.entries other).deviceId (storage.cache.entries other).block =
          storage.devices (storage.cache.entries other).deviceId
            (storage.cache.entries other).block) : Coherent after := by
  have alone : ∀ other deviceId block, other ≠ slot → entry.isFor deviceId block = true →
      (storage.cache.entries other).isFor deviceId block ≠ true := by
    intro other deviceId block different here there
    obtain ⟨valid, rfl, rfl⟩ := isFor_iff.mp here
    exact (others other different (isFor_iff.mp there).1).1 valid there
  constructor
  · rw [changed]
    refine (Function.forall_update_iff _ fun _ (entry : CacheEntry) => entry.valid = true →
      entry.data = after.devices entry.deviceId entry.block).mpr ⟨fits, ?_⟩
    intro other different valid
    rw [(others other different valid).2]
    exact coherent.same other valid
  · intro first second deviceId block one two
    rw [changed] at one two
    by_cases isFirst : first = slot
    · by_cases isSecond : second = slot
      · rw [isFirst, isSecond]
      · rw [isFirst, update_self] at one
        rw [update_of_ne isSecond] at two
        exact absurd two (alone second deviceId block isSecond one)
    · rw [update_of_ne isFirst] at one
      by_cases isSecond : second = slot
      · rw [isSecond, update_self] at two
        exact absurd one (alone first deviceId block isFirst two)
      · rw [update_of_ne isSecond] at two
        exact coherent.unique first second deviceId block one two

theorem readBlock : Coherent (storage.readBlock deviceId block).2 := by
  unfold Storage.readBlock
  split
  · exact coherent
  · rename_i missing
    refine coherent.put (update_idem ..) (fun _ => rfl) fun other _ _ => ⟨?_, rfl⟩
    exact fun _ => not_isFor_of_find missing other

theorem writeBlock : Coherent (storage.writeBlock deviceId block buf) := by
  unfold Storage.writeBlock
  split
  · rename_i slot found
    have here := isFor_of_find found
    obtain ⟨-, rfl, rfl⟩ := isFor_iff.mp here
    refine coherent.put rfl (fun _ => (write_self _).symm) fun other different valid => ?_
    have apart : (storage.cache.entries other).isFor (storage.cache.entries slot).deviceId
        (storage.cache.entries slot).block ≠ true :=
      fun there => different (coherent.unique other slot _ _ there here)
    exact ⟨fun _ => apart, write_other _ valid apart⟩
  · rename_i missing
    refine ⟨fun slot valid => ?_, coherent.unique⟩
    exact (coherent.same slot valid).trans
      (write_other _ valid (not_isFor_of_find missing slot)).symm

theorem flushSlot : Coherent (storage.flushSlot deviceId slot) := by
  unfold Storage.flushSlot
  dsimp only
  split
  · rename_i flushes
    simp only [Bool.and_eq_true, beq_iff_eq] at flushes
    obtain ⟨⟨valid, rfl⟩, -⟩ := flushes
    -- The device holds the data of the slot already.
    rw [coherent.same slot valid, write_same]
    refine coherent.put rfl (fun _ => rfl) fun other different _ => ⟨?_, rfl⟩
    intro _ there
    exact different (coherent.unique other slot _ _ there (isFor_iff.mpr ⟨valid, rfl, rfl⟩))
  · exact coherent

theorem step (op : Op) : Coherent (storage.step op) := by
  cases op with
  | read deviceId block => exact coherent.readBlock
  | write deviceId block buf => exact coherent.writeBlock
  | flush deviceId =>
    have all : ∀ (slots : List (Fin cacheSlots)) (storage : Storage), Coherent storage →
        Coherent (slots.foldl (Storage.flushSlot deviceId) storage) := by
      intro slots
      induction slots with
      | nil => exact fun _ coherent => coherent
      | cons slot slots ih => exact fun _ coherent => ih _ coherent.flushSlot
    exact all _ _ coherent

theorem faithful : Faithful storage := by
  rintro deviceId block (none | filled) data returned
  · exact (Option.some.inj returned).symm.trans (coherent.readBlock_fst deviceId block)
  · simp only [tryReadBlock] at returned
    split at returned
    · rename_i found
      cases returned
      exact coherent.data_eq found
    · cases returned

theorem deviceStep {op : DeviceOp} (harmless : Harmless storage op) :
    Coherent (storage.deviceStep op) := by
  rcases op with ⟨deviceId, block, none | filled⟩ | ⟨deviceId, block, buf, fails⟩
  · exact coherent.readBlock
  · -- The slot keeps its block, and must keep its data as well.
    unfold Storage.deviceStep tryReadBlock
    dsimp only
    split
    · exact coherent
    · rename_i missing
      refine coherent.put (update_idem ..) (fun valid => ?_) fun other different _ => ⟨?_, rfl⟩
      · exact (harmless filled rfl missing valid).trans (coherent.same _ valid)
      · intro valid there
        exact different (coherent.unique other _ _ _ there (isFor_iff.mpr ⟨valid, rfl, rfl⟩))
  · have written : Coherent (storage.writeBlock deviceId block buf) := coherent.writeBlock
    cases fails with
    | false => exact written
    | true =>
      by_cases missing : storage.cache.find deviceId block = none
      · have same : (storage.writeBlock deviceId block buf).cache = storage.cache := by
          rw [Storage.writeBlock, missing]
        exact ⟨same ▸ coherent.same, same ▸ coherent.unique⟩
      · have same : (storage.writeBlock deviceId block buf).devices = storage.devices := by
          rw [harmless rfl missing]
          exact write_same _
        exact ⟨same ▸ written.same, written.unique⟩

end Coherent

theorem coherent_new (devices : Devices) : Coherent ⟨.new, devices⟩ :=
  ⟨fun _ valid => (by cases valid), fun _ _ _ _ held => (by cases held)⟩

/-- Reads give what the device holds as long as failures are harmless. -/
theorem tryReadBlock_faithful (devices : Devices) (ops : List DeviceOp)
    (harmless : ∀ before op, before ++ [op] <+: ops →
      Harmless (before.foldl deviceStep ⟨.new, devices⟩) op) :
    Faithful (ops.foldl deviceStep ⟨.new, devices⟩) := by
  apply Coherent.faithful
  induction ops using List.reverseRecOn with
  | nil => exact coherent_new devices
  | append_singleton ops op ih =>
    rw [List.foldl_append]
    refine (ih fun before other lies => ?_).deviceStep (harmless ops op (List.prefix_refl _))
    exact harmless before other (lies.trans (List.prefix_append ..))

/-- A failed write of a block that is not cached, though another one is. -/
theorem uncached_faithful : Faithful ([DeviceOp.read 0 0 none,
    .write 0 1 (fun _ => 1) true].foldl deviceStep ⟨.new, fun _ _ _ => 0⟩) := by
  refine tryReadBlock_faithful _ _ fun before op lies => ?_
  rcases before with _ | ⟨first, _ | ⟨second, rest⟩⟩
  · obtain rfl : op = .read 0 0 none := by simpa using lies
    exact nofun
  · obtain ⟨rfl, rfl⟩ : first = .read 0 0 none ∧ op = .write 0 1 (fun _ => 1) true := by
      simpa using lies
    exact fun _ cached => absurd (by decide) cached
  · simp at lies

/-- A failed write of a cached block is read afterwards although the device does not hold it. -/
theorem cached_not_faithful : ¬ Faithful ([DeviceOp.read 0 0 none,
    .write 0 0 (fun _ => 1) true].foldl deviceStep ⟨.new, fun _ _ _ => 0⟩) :=
  fun faithful => absurd (congrFun (faithful 0 0 none (fun _ => 1) rfl) ⟨0, by decide⟩) (by decide)

/--
The cache of blocks cannot be seen.

After any operations on devices with any contents, reading a block gives what its device holds, and
no two slots in use hold the same block.
-/
theorem readBlock_eq_device (devices : Devices) (ops : List Op) (deviceId : BitVec 32)
    (block : BitVec 64) :
    ((ops.foldl step ⟨.new, devices⟩).readBlock deviceId block).1 =
        (ops.foldl step ⟨.new, devices⟩).devices deviceId block ∧
      ∀ slot other, ((ops.foldl step ⟨.new, devices⟩).cache.entries slot).isFor deviceId block =
          true →
        ((ops.foldl step ⟨.new, devices⟩).cache.entries other).isFor deviceId block = true →
        slot = other := by
  have all : ∀ storage, Coherent storage → Coherent (ops.foldl step storage) := by
    induction ops with
    | nil => exact fun _ coherent => coherent
    | cons op ops ih => exact fun _ coherent => ih _ (coherent.step op)
  have coherent := all _ (coherent_new devices)
  exact ⟨coherent.readBlock_fst deviceId block,
    fun slot other => coherent.unique slot other deviceId block⟩

end Storage

end TheoryKernel.Fs
