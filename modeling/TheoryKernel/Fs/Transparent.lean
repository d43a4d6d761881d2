import TheoryKernel.Fs.Path
import TheoryKernel.Fs.TmpfsTree

/-! When the cache of names tells what the directories would tell. -/

namespace TheoryKernel.Fs

open DentryCache (hash isFor)
open Stateful (Gives GivesThat)

/-- What is kept of a name is not taken for the whole of another name in the directory. -/
def isPlain (parent : InodeId) (name : Bytes) : Bool :=
  name.length ≤ dentryNameSize || hash parent name != hash parent (name.take dentryNameSize)

/-- An entry can be found by what is kept of its name. -/
def Dentry.Findable (entry : Dentry) : Prop := entry.nameHash = hash entry.parent entry.key

/--
An entry tells what its directory would tell.

Either the directory has the name, for the same file and in the same state, or both are gone.
-/
structure Serves (fs : TmpFs) (entry : Dentry) : Prop where
  parentHere : entry.parent.mount = fs.mountId
  inodeHere : entry.inode.mount = fs.mountId
  parentOld : entry.parent.ino.toNat < fs.nextIno.toNat
  inodeOld : entry.inode.ino.toNat < fs.nextIno.toNat
  text : isUtf8 entry.key = true
  directory : ∀ attr, fs.attr? entry.parent.ino = some attr → attr.fileType = .directory
  answer : (fs.entry entry.parent.ino entry.key = some entry.inode.ino ∧
      ∃ attr, fs.attr? entry.inode.ino = some attr ∧ attr.generation = entry.generation) ∨
    (fs.entry entry.parent.ino entry.key = none ∧ fs.attr? entry.inode.ino = none)

/-- A file system whose numbers are in order and whose names are all told apart. -/
structure Kept (fs : TmpFs) : Prop where
  tree : fs.Tree
  plain : ∀ dir name child, fs.entry dir name = some child →
    isPlain ⟨fs.mountId, dir⟩ name = true

/-- Every entry that can be found tells what its directory would tell. -/
structure Sound (mounts : List Mount) (cache : DentryCache) : Prop where
  kept : ∀ id fs, mountFs mounts id = some fs → Kept fs
  served : ∀ entry ∈ cache, entry.Findable →
    ∃ fs, mountFs mounts entry.parent.mount = some fs ∧ Serves fs entry

/-- A sound cache that has only grown by names that the directories have. -/
structure Grown (mounts : List Mount) (start cache : DentryCache) : Prop where
  sound : Sound mounts cache
  known : ∀ entry ∈ cache, entry ∈ start ∨ (entry.Findable →
    ∀ fs, mountFs mounts entry.parent.mount = some fs →
      fs.entry entry.parent.ino entry.key ≠ none)

section Lookup

variable {mounts : List Mount} {fs : TmpFs} {entry : Dentry} {name : Bytes} {dir : InodeId}
  {child : ResolvedInode} {start cache : DentryCache}

theorem child_eq_ok : fs.child dir name = .ok child ↔
    fs.lookup dir name = .ok child.inode ∧ fs.getattr child.inode = .ok child.attr := by
  unfold TmpFs.child
  constructor
  · intro found
    obtain ⟨inode, named, rest⟩ := Fallible.bind_eq_ok.mp found
    obtain ⟨attr, there, same⟩ := Fallible.bind_eq_ok.mp rest
    cases same
    exact ⟨named, there⟩
  · intro found
    exact Fallible.bind_eq_ok.mpr ⟨_, found.1, Fallible.bind_eq_ok.mpr ⟨_, found.2, rfl⟩⟩

theorem mount_of_child (found : fs.child dir name = .ok child) : child.inode.mount = dir.mount := by
  obtain ⟨named, _⟩ := child_eq_ok.mp found
  obtain ⟨here, _, _, number, _, same⟩ := TmpFs.lookup_eq_ok.mp named
  rw [same, here]

theorem Serves.tells (serves : Serves fs entry) :
    (∃ attr, fs.getattr entry.inode = .ok attr ∧ attr.generation = entry.generation ∧
      fs.child entry.parent entry.key = .ok ⟨entry.inode, attr⟩) ∨
    (fs.getattr entry.inode = Fallible.fail .notFound ∧
      fs.child entry.parent entry.key = Fallible.fail .notFound) := by
  rcases serves.answer with ⟨named, attr, there, same⟩ | ⟨unnamed, gone⟩
  · left
    have found : fs.getattr entry.inode = .ok attr :=
      TmpFs.getattr_eq_ok.mpr ⟨serves.inodeHere, there⟩
    -- A directory with a name in it is there.
    obtain ⟨node, inside, _⟩ := Option.bind_eq_some_iff.mp named
    have parent := TmpFs.attr?_of_inodes inside
    refine ⟨attr, found, same, child_eq_ok.mpr ⟨TmpFs.lookup_eq_ok.mpr ?_, found⟩⟩
    refine ⟨serves.parentHere, serves.text, ⟨_, parent, serves.directory _ parent⟩, _, named, ?_⟩
    rw [← serves.inodeHere]
  · right
    refine ⟨TmpFs.getattr_of_missing gone, ?_⟩
    rw [TmpFs.child, TmpFs.lookup_of_missing serves.text serves.directory unnamed]
    rfl

theorem key_ofChild (dir : InodeId) (name : Bytes) (child : ResolvedInode) :
    (Dentry.ofChild dir name child).key = name.take dentryNameSize := by
  change (name.take dentryNameSize ++ List.replicate (dentryNameSize - name.length) 0).take
    (min name.length dentryNameSize) = _
  rw [List.take_append_of_le_length (by rw [List.length_take, Nat.min_comm]), List.take_take]
  rcases Nat.le_total name.length dentryNameSize with short | long
  · rw [Nat.min_eq_left (by omega), List.take_of_length_le short,
      List.take_of_length_le (by omega)]
  · rw [Nat.min_eq_right long, Nat.min_self]

theorem serves_ofChild (kept : Kept fs) (found : fs.child dir name = .ok child)
    (findable : (Dentry.ofChild dir name child).Findable) :
    Serves fs (.ofChild dir name child) ∧
      fs.entry dir.ino (Dentry.ofChild dir name child).key ≠ none := by
  obtain ⟨named, there⟩ := child_eq_ok.mp found
  obtain ⟨here, text, ⟨parent, parentThere, directory⟩, number, inside, same⟩ :=
    TmpFs.lookup_eq_ok.mp named
  -- A name that is longer than what is kept of it cannot be found by that.
  have whole : (Dentry.ofChild dir name child).key = name := by
    have plain := kept.plain dir.ino name number inside
    rw [← here] at plain
    rw [Dentry.Findable, key_ofChild] at findable
    rw [key_ofChild]
    simp only [isPlain, Bool.or_eq_true, decide_eq_true_eq, bne_iff_ne, ne_eq] at plain
    rcases plain with short | different
    · exact List.take_of_length_le short
    · exact absurd findable different
  have attr := (TmpFs.getattr_eq_ok.mp there).2
  refine ⟨⟨here, ?_, kept.tree.used _ _ parentThere, ?_, ?_, ?_, ?_⟩, ?_⟩
  · change child.inode.mount = _
    rw [same]
  · exact kept.tree.used _ _ attr
  · rw [whole, text]
  · intro other known
    change fs.attr? dir.ino = some other at known
    rw [parentThere] at known
    cases known
    exact directory
  · left
    refine ⟨?_, child.attr, attr, rfl⟩
    rw [whole]
    change fs.entry dir.ino name = some child.inode.ino
    rw [inside, same]
  · rw [whole, inside]
    simp

theorem lookupCached_gives (here : mountFs mounts dir.mount = some fs) :
    Gives (Grown mounts start) (lookupCached fs dir name) (fs.child dir name) := by
  intro cache grown
  have sound := grown.sound
  unfold lookupCached
  rw [Stateful.exec_lift]
  cases hit : cache.get dir name with
  | some entry =>
    obtain ⟨member, isFor⟩ := DentryCache.mem_of_get hit
    obtain ⟨parent, hashed, _, key⟩ := DentryCache.isFor_iff.mp isFor
    have findable : entry.Findable := by rw [Dentry.Findable, hashed, parent, key]
    obtain ⟨other, there, serves⟩ := sound.served entry member findable
    rw [parent, here] at there
    cases there
    -- The entry leads to the file of the name, or the name and the file are both gone.
    have answer := serves.tells
    rw [parent, key] at answer
    dsimp only
    rcases answer with ⟨attr, found, same, child⟩ | ⟨missing, child⟩
    · rw [found, child]
      dsimp only
      rw [if_neg (not_not.mpr same)]
      exact ⟨cache, rfl, grown⟩
    · rw [missing, child]
      exact ⟨cache, rfl, grown⟩
  | none =>
    dsimp only
    cases found : fs.child dir name with
    | error failure => exact ⟨cache, rfl, grown⟩
    | ok child =>
      refine ⟨_, rfl, ⟨sound.kept, ?_⟩, ?_⟩
      · intro entry member findable
        rcases DentryCache.mem_of_mem_insert member with new | old
        · subst new
          exact ⟨fs, here, (serves_ofChild (sound.kept _ _ here) found findable).1⟩
        · exact sound.served entry old findable
      · intro entry member
        rcases DentryCache.mem_of_mem_insert member with new | old
        · subst new
          right
          intro findable other there
          change mountFs mounts dir.mount = some other at there
          rw [here] at there
          cases there
          exact (serves_ofChild (sound.kept _ _ here) found findable).2
        · exact grown.known entry old

end Lookup

section Resolution

variable {σ : Type} {inv : σ → Prop} {fs : TmpFs}

theorem resolveLoop_gives (Here : ResolvedInode → Prop) {There : ResolvedInode → Prop}
    {next : InodeId → Bytes → Stateful σ (Failure FsError) ResolvedInode}
    {next' : InodeId → Bytes → Fallible FsError ResolvedInode}
    {nested : Bytes → Stateful σ (Failure FsError) ResolvedInode}
    {nested' : Bytes → Fallible FsError ResolvedInode} {followFinal : Bool} {symlinkDepth : Nat}
    (agree : ∀ current name, Here current →
      GivesThat inv Here (next current.inode name) (next' current.inode name))
    (agreeNested : ∀ target, GivesThat inv There (nested target) (nested' target))
    (arrive : ∀ current, Here current → There current) (names : List Bytes)
    (current : ResolvedInode) (here : Here current) :
    GivesThat inv There (resolveLoop next nested fs followFinal symlinkDepth names current)
      (resolveLoop next' nested' fs followFinal symlinkDepth names current) := by
  induction names generalizing current with
  | nil => exact .pure (arrive current here)
  | cons name rest ih =>
    rw [resolveLoop, resolveLoop]
    split
    · -- A link among the names takes over the path.
      split
      · exact .ofExcept nofun
      · exact (GivesThat.ofExcept fun _ same => same).bind fun target _ => agreeNested target
    · split
      · exact .ofExcept nofun
      · exact (agree current name here).bind ih

/-- A file that is there, with its attributes. -/
def Located (mounts : List Mount) (resolved : ResolvedInode) : Prop :=
  ∃ fs, mountFs mounts resolved.inode.mount = some fs ∧
    fs.getattr resolved.inode = .ok resolved.attr

/-- With a sound cache, a path leads where the directories lead. -/
theorem resolveAt_gives (mounts : List Mount) (start : DentryCache) (followFinal : Bool)
    (depth : Nat) (path : Bytes) :
    GivesThat (Grown mounts start) (Located mounts)
      (resolveAtWith lookupCached mounts followFinal depth path)
      (resolveAtWith TmpFs.child mounts followFinal depth path) := by
  induction depth generalizing path with
  | zero => exact .ofExcept nofun
  | succ depth ih =>
    rw [resolveAtWith, resolveAtWith]
    dsimp only
    cases mounted : mountFs mounts (findMountForPath mounts path).1 with
    | none => exact .ofExcept nofun
    | some fs =>
      apply (GivesThat.ofExcept fun _ same => same).bind
      intro attr there
      split
      · exact GivesThat.pure ⟨fs, mounted, there⟩
      · -- The names are looked up on one file system.
        refine resolveLoop_gives (fun current => mountFs mounts current.inode.mount = some fs ∧
          fs.getattr current.inode = .ok current.attr) ?_ ih
          (fun current here => ⟨fs, here⟩) _ _ ⟨mounted, there⟩
        intro current name here
        refine ⟨lookupCached_gives here.1, fun child found => ?_⟩
        rw [mount_of_child found]
        exact ⟨here.1, (child_eq_ok.mp found).2⟩

variable {resolve : Bytes → Stateful σ (Failure FsError) ResolvedInode}
  {resolve' : Bytes → Fallible FsError ResolvedInode} {Found : ResolvedInode → Prop}
  (agree : ∀ path, GivesThat inv Found (resolve path) (resolve' path)) (path : Bytes)

include agree

/-- Only the resolution of a path depends on the state. -/
theorem fromKernelPath_gives :
    GivesThat inv Found (fromKernelPath resolve path) (fromKernelPath resolve' path) := by
  unfold fromKernelPath
  split
  · exact .ofExcept nofun
  · exact agree path

/-- Only the resolution of the path of the directory depends on the state. -/
theorem lookupParentWith_gives :
    GivesThat inv (fun place => ∃ attr, Found ⟨place.1, attr⟩) (lookupParentWith resolve path)
      (lookupParentWith resolve' path) := by
  unfold lookupParentWith
  split
  · exact .ofExcept nofun
  · split
    · exact GivesThat.ofExcept nofun
    · apply (GivesThat.ofExcept fun _ same => same).bind
      intro lengths _
      dsimp only
      split
      · exact .ofExcept nofun
      · exact (agree _).bind fun parent found => .pure ⟨parent.attr, found⟩

end Resolution

end TheoryKernel.Fs
