import TheoryKernel.Fs.Inode

/-! The cache of the names that have been looked up in directories. -/

namespace TheoryKernel.Fs

open List

/-- The number of names that the cache has room for. -/
def dentrySlots : Nat := 512

/-- The number of bytes of a name that are kept. -/
def dentryNameSize : Nat := 64

/-- What a name in a directory stood for when it was looked up. -/
structure Dentry where
  parent : InodeId
  nameHash : BitVec 64
  nameLen : Nat
  name : Bytes
  inode : InodeId
  generation : BitVec 64
  fits : nameLen ≤ name.length
  deriving DecidableEq, Repr

namespace Dentry

/-- The name of an entry, as far as it is kept. -/
def key (dentry : Dentry) : Bytes := dentry.name.take dentry.nameLen

/-- As much of a name is kept as its length says. -/
theorem length_key (dentry : Dentry) : dentry.key.length = dentry.nameLen := by
  rw [key, length_take, Nat.min_eq_left dentry.fits]

end Dentry

/-- The cache: a number of slots, some of which are in use. -/
structure DentryCache where
  entries : List (Option Dentry)
  size : entries.length = dentrySlots

namespace DentryCache

/-- A cache without names. -/
def new : DentryCache := ⟨List.replicate dentrySlots none, length_replicate⟩

/-- The number that a name in a directory is looked for by. -/
def hash (parent : InodeId) (name : Bytes) : BitVec 64 :=
  name.foldl (fun sum byte => sum * 0x100000001b3 + byte.setWidth 64)
    (parent.mount.setWidth 64 ^^^ parent.ino * 0x9E3779B9)

/-- Whether an entry is for a name in a directory. -/
def isFor (parent : InodeId) (name : Bytes) (entry : Dentry) : Bool :=
  entry.parent = parent && entry.nameHash = hash parent name && entry.nameLen = name.length &&
    entry.key = name

/-- The first entry for a name in a directory. -/
def get (cache : DentryCache) (parent : InodeId) (name : Bytes) : Option Dentry :=
  (cache.entries.filterMap fun slot => slot).find? (isFor parent name)

/-- The slots with a new entry, in place of one with the same number or in the first free slot. -/
def insertInto (dentry : Dentry) : List (Option Dentry) → List (Option Dentry)
  | [] => []
  | none :: rest => some dentry :: rest
  | some entry :: rest =>
    if entry.parent = dentry.parent ∧ entry.nameHash = dentry.nameHash then some dentry :: rest
    else some entry :: insertInto dentry rest

theorem length_insertInto (dentry : Dentry) (slots : List (Option Dentry)) :
    (insertInto dentry slots).length = slots.length := by
  induction slots with
  | nil => rfl
  | cons slot rest ih =>
    cases slot with
    | none => rfl
    | some entry =>
      rw [insertInto]
      split
      · rfl
      · rw [length_cons, length_cons, ih]

/-- The cache with a new entry, unless it is full. -/
def insert (cache : DentryCache) (dentry : Dentry) : DentryCache :=
  ⟨insertInto dentry cache.entries, (length_insertInto dentry cache.entries).trans cache.size⟩

/-- The cache without the entries that lead to a file. -/
def invalidateInode (cache : DentryCache) (inode : InodeId) : DentryCache where
  entries := cache.entries.map fun slot =>
    if slot.any fun entry => entry.inode = inode then none else slot
  size := (length_map _).trans cache.size

/-- An entry is in one of the slots. -/
instance : Membership Dentry DentryCache := ⟨fun cache entry => some entry ∈ cache.entries⟩

variable {cache : DentryCache} {parent inode : InodeId} {name : Bytes} {entry dentry : Dentry}

/-- What makes an entry one for a name in a directory. -/
theorem isFor_iff : isFor parent name entry = true ↔
    entry.parent = parent ∧ entry.nameHash = hash parent name ∧ entry.nameLen = name.length ∧
      entry.key = name := by
  rw [isFor]
  simp only [Bool.and_eq_true, decide_eq_true_eq, and_assoc]

theorem mem_used {slots : List (Option Dentry)} :
    entry ∈ slots.filterMap (fun slot => slot) ↔ some entry ∈ slots := by
  simp

/-- An entry that is found is in the cache and for the name. -/
theorem mem_of_get (found : cache.get parent name = some entry) :
    entry ∈ cache ∧ isFor parent name entry = true :=
  ⟨mem_used.mp (mem_of_find?_eq_some found), List.find?_some found⟩

/-- If no entry is found then none is for the name. -/
theorem not_isFor_of_get (missing : cache.get parent name = none) (member : entry ∈ cache) :
    isFor parent name entry = false := by
  have none := List.find?_eq_none.mp missing entry (mem_used.mpr member)
  exact Bool.eq_false_iff.mpr none

/-- An empty cache has no entries. -/
theorem not_mem_new : entry ∉ new := by
  intro member
  cases eq_of_mem_replicate member

theorem mem_insertInto {slots : List (Option Dentry)}
    (member : some entry ∈ insertInto dentry slots) : entry = dentry ∨ some entry ∈ slots := by
  induction slots with
  | nil => cases member
  | cons slot rest ih =>
    cases slot with
    | none =>
      rw [insertInto] at member
      rcases mem_cons.mp member with new | old
      · exact .inl (Option.some.inj new)
      · exact .inr (mem_cons_of_mem _ old)
    | some other =>
      rw [insertInto] at member
      split at member
      · rcases mem_cons.mp member with new | old
        · exact .inl (Option.some.inj new)
        · exact .inr (mem_cons_of_mem _ old)
      · rcases mem_cons.mp member with first | later
        · exact .inr (first ▸ mem_cons_self)
        · exact (ih later).imp_right (mem_cons_of_mem _)

/-- The entries behind an insertion are the new one and entries from before. -/
theorem mem_of_mem_insert (member : entry ∈ cache.insert dentry) : entry = dentry ∨ entry ∈ cache :=
  mem_insertInto member

/-- What remains behind an invalidation was there before and leads elsewhere. -/
theorem mem_of_mem_invalidate (member : entry ∈ cache.invalidateInode inode) :
    entry ∈ cache ∧ entry.inode ≠ inode := by
  obtain ⟨slot, before, kept⟩ := mem_map.mp member
  split at kept
  · cases kept
  · rename_i other
    subst kept
    refine ⟨before, fun same => other ?_⟩
    simp [same]

end DentryCache

end TheoryKernel.Fs
