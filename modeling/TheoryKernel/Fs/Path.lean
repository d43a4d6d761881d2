import TheoryKernel.Fs.Dentry
import TheoryKernel.Fs.Tmpfs
import TheoryKernel.Lib.Stateful

/-! How a path leads to a file, with the cache of names and without it. -/

namespace TheoryKernel.Fs

open Fallible Stateful

/-- How many links one path may lead through. -/
def maxSymlinkDepth : Nat := 8

/-- The size of the buffer for a path. -/
def maxPath : Nat := 4096

/-- The byte between the names of a path. -/
def slash : BitVec 8 := 0x2F

/-- A file system and the path that it is mounted at. -/
structure Mount where
  path : Bytes
  fs : TmpFs

/-- The better one of the mount that was found so far and another one. -/
def betterMount (path : Bytes) (best : BitVec 32 × Nat) (candidate : Mount × Nat) :
    BitVec 32 × Nat :=
  let mount := candidate.1.path
  let id := BitVec.ofNat 32 candidate.2
  if mount = [] then if path = [] ∨ path.head? = some slash then (id, 0) else best
  else if mount.isPrefixOf path then
    if path[mount.length]? = some slash ∨ path[mount.length]? = none then
      if best.2 ≤ mount.length then (id, mount.length) else best
    else best
  else best

/-- The mount that a path is on, and how many bytes of the path lead to it. -/
def findMountForPath (mounts : List Mount) (path : Bytes) : BitVec 32 × Nat :=
  mounts.zipIdx.foldl (betterMount path) (0, 0)

/-- The file system of a mount. -/
def mountFs (mounts : List Mount) (id : BitVec 32) : Option TmpFs :=
  mounts[id.toNat]?.map Mount.fs

/-- The file that a path leads to. -/
structure ResolvedInode where
  inode : InodeId
  attr : InodeAttr
  deriving DecidableEq, Repr

/-- The names of a path. -/
def components (path : Bytes) : List Bytes := (path.splitOn slash).filter (· ≠ [])

/-- The file that a directory has under a name, with its attributes. -/
def TmpFs.child (fs : TmpFs) (dir : InodeId) (name : Bytes) : Fallible FsError ResolvedInode := do
  let inode ← fs.lookup dir name
  let attr ← fs.getattr inode
  return ⟨inode, attr⟩

/-- Code that may use the cache of names. -/
abbrev Cached (α : Type) : Type := Stateful DentryCache (Failure FsError) α

/-- The entry for a name that was looked up. The name may be longer than what is kept of it. -/
def Dentry.ofChild (parent : InodeId) (name : Bytes) (child : ResolvedInode) : Dentry where
  parent := parent
  nameHash := DentryCache.hash parent name
  nameLen := min name.length dentryNameSize
  name := name.take dentryNameSize ++ List.replicate (dentryNameSize - name.length) 0
  inode := child.inode
  generation := child.attr.generation
  fits := by
    rw [List.length_append, List.length_take, List.length_replicate]
    omega

/-- The file that a directory has under a name, by the cache if it knows the name. -/
def lookupCached (fs : TmpFs) (current : InodeId) (name : Bytes) : Cached ResolvedInode :=
  lift fun cache =>
    match cache.get current name with
    | some dentry =>
      match fs.getattr dentry.inode with
      | .error failure => (.error failure, cache)
      | .ok attr =>
        -- An entry that is out of date is dropped, and the name is looked for in its file.
        if attr.generation ≠ dentry.generation then
          (fs.child dentry.inode name, cache.invalidateInode dentry.inode)
        else (.ok ⟨dentry.inode, attr⟩, cache)
    | none =>
      match fs.child current name with
      | .error failure => (.error failure, cache)
      | .ok child => (.ok child, cache.insert (.ofChild current name child))

section Resolution

/- How a name is looked up in a directory is left open: by the cache, or by the directory alone. -/
variable {m : Type → Type} [Monad m] [MonadLiftT (Fallible FsError) m]

/-- The names of a path are looked up one after another. A link among them takes over the path. -/
def resolveLoop (next : InodeId → Bytes → m ResolvedInode) (nested : Bytes → m ResolvedInode)
    (fs : TmpFs) (followFinal : Bool) (symlinkDepth : Nat) :
    List Bytes → ResolvedInode → m ResolvedInode
  | [], current => pure current
  | name :: rest, current =>
    if current.attr.fileType = .symlink ∧ (followFinal = true ∨ rest ≠ []) then
      if maxSymlinkDepth ≤ symlinkDepth then
        liftM (fail .tooManyLinks : Fallible FsError ResolvedInode)
      else do
        let target ← liftM (fs.readlink current.inode maxPath)
        nested target
    else if current.attr.fileType ≠ .directory then
      liftM (fail .notDir : Fallible FsError ResolvedInode)
    else do
      let child ← next current.inode name
      resolveLoop next nested fs followFinal symlinkDepth rest child

/--
The file that a path leads to.

The code calls itself for the target of a link, without a limit, and its stack has room for a
number of such calls.
-/
def resolveAtWith (next : TmpFs → InodeId → Bytes → m ResolvedInode) (mounts : List Mount)
    (followFinal : Bool) : Nat → Bytes → m ResolvedInode
  | 0, _ => liftM (fault .diverged : Fallible FsError ResolvedInode)
  | depth + 1, path =>
    let (id, skip) := findMountForPath mounts path
    match mountFs mounts id with
    | none => liftM (fail .notFound : Fallible FsError ResolvedInode)
    | some fs => do
      let root : InodeId := ⟨id, fs.root.ino⟩
      let attr ← liftM (fs.getattr root)
      let rel := path.drop skip
      if rel = [] ∨ rel = [slash] then pure ⟨root, attr⟩
      else
        resolveLoop (next fs) (resolveAtWith next mounts followFinal depth) fs followFinal 0
          (components rel) ⟨root, attr⟩

/-- Only paths that are not empty and fit in the buffer are resolved. -/
def fromKernelPath (resolve : Bytes → m ResolvedInode) (path : Bytes) : m ResolvedInode :=
  if path = [] ∨ maxPath ≤ path.length then
    liftM (fail .invalid : Fallible FsError ResolvedInode)
  else resolve path

/-- The position of the last slash of a path. -/
def lastSlash (path : Bytes) : Option Nat :=
  (List.range path.length).reverse.find? fun position => path[position]? = some slash

/-- The lengths of the path of a directory and of the name in it. -/
def parentAndName (path : Bytes) : Fallible FsError (Nat × Nat) :=
  match lastSlash path with
  | some 0 => if path.length = 1 then .fail .invalid else .ok (1, path.length - 1)
  | some position => .ok (position, path.length - position - 1)
  | none => .ok (0, path.length)

/-- The directory of a path, and the name in it. -/
def lookupParentWith (resolvePath : Bytes → m ResolvedInode) (path : Bytes) :
    m (InodeId × Bytes) :=
  if path = [] then liftM (fail .invalid : Fallible FsError (InodeId × Bytes))
  else if maxPath < path.length then
    liftM (fault .sliceOutOfRange : Fallible FsError (InodeId × Bytes))
  else do
    let (parentLen, nameLen) ← liftM (parentAndName path)
    if nameLen = 0 ∨ 255 < nameLen then
      liftM (fail .invalid : Fallible FsError (InodeId × Bytes))
    else do
      let parent ← resolvePath (if parentLen ≤ 1 then [slash] else path.take parentLen)
      return (parent.inode, path.drop (path.length - nameLen))

end Resolution

/-- The mounted file systems and the cache of names. -/
structure Vfs where
  mounts : List Mount
  cache : DentryCache

namespace Vfs

/-- Code of the virtual file system. -/
abbrev Code (α : Type) : Type := Stateful Vfs (Failure FsError) α

/-- Empty file systems that have been mounted, and an empty cache. -/
def mounted (points : List (Bytes × BitVec 32)) : Vfs where
  mounts := points.map fun point => ⟨point.1, .new point.2⟩
  cache := .new

/-- Code that only uses the cache. -/
def withCache {α : Type} (code : List Mount → Cached α) : Code α :=
  lift fun vfs =>
    let (outcome, cache) := (code vfs.mounts).exec vfs.cache
    (outcome, { vfs with cache := cache })

/-- The file system of a mount in another state. -/
def putFs (vfs : Vfs) (id : BitVec 32) (fs : TmpFs) : Vfs :=
  { vfs with mounts := vfs.mounts.modify id.toNat fun mount => { mount with fs := fs } }

/-- An operation of the file system of a mount. -/
def onFs {α : Type} (id : BitVec 32) (op : TmpFs → Fallible FsError α × TmpFs) : Code α :=
  lift fun vfs =>
    match mountFs vfs.mounts id with
    | none => (fail .notFound, vfs)
    | some fs => ((op fs).1, vfs.putFs id (op fs).2)

/-- An answer of the file system of a mount. -/
def ask {α : Type} (id : BitVec 32) (question : TmpFs → Fallible FsError α) : Code α :=
  lift fun vfs =>
    match mountFs vfs.mounts id with
    | none => (fail .notFound, vfs)
    | some fs => (question fs, vfs)

section Mounts

variable {vfs : Vfs} {id : BitVec 32} {fs : TmpFs}

variable (mounted : mountFs vfs.mounts id = some fs)

include mounted

/-- The file system of a mount is the one that was put there. -/
theorem mountFs_putFs_self (after : TmpFs) :
    mountFs (vfs.putFs id after).mounts id = some after := by
  obtain ⟨mount, there, _⟩ := Option.map_eq_some_iff.mp mounted
  rw [mountFs, putFs, List.getElem?_modify, there]
  simp

omit mounted in
/-- The other mounts are as before. -/
theorem mountFs_putFs_of_ne {other : BitVec 32} (different : other ≠ id) (after : TmpFs) :
    mountFs (vfs.putFs id after).mounts other = mountFs vfs.mounts other := by
  have apart : id.toNat ≠ other.toNat := fun same => different (BitVec.eq_of_toNat_eq same.symm)
  rw [mountFs, putFs, List.getElem?_modify, mountFs]
  simp [apart]

/-- Nothing changes if a file system is put where it is. -/
theorem putFs_self : vfs.putFs id fs = vfs := by
  obtain ⟨mount, there, rfl⟩ := Option.map_eq_some_iff.mp mounted
  have same : vfs.mounts.modify id.toNat (fun other => { other with fs := mount.fs }) =
      vfs.mounts := by
    apply List.ext_getElem?
    intro index
    rw [List.getElem?_modify]
    by_cases here : id.toNat = index
    · subst here
      rw [there]
      simp
    · simp [here]
  rw [putFs, same]

/-- An operation changes the file system of its mount. -/
theorem onFs_exec {α : Type} (op : TmpFs → Fallible FsError α × TmpFs) :
    (onFs id op).exec vfs = ((op fs).1, vfs.putFs id (op fs).2) := by
  unfold onFs
  rw [exec_lift, mounted]

/-- An answer comes from the file system of its mount. -/
theorem ask_exec {α : Type} (question : TmpFs → Fallible FsError α) :
    (ask id question).exec vfs = (question fs, vfs) := by
  unfold ask
  rw [exec_lift, mounted]

end Mounts

variable (depth : Nat)

/-- The file that a path leads to. -/
def resolvePathAt (path : Bytes) (followFinal : Bool) : Code ResolvedInode :=
  withCache fun mounts =>
    fromKernelPath (resolveAtWith lookupCached mounts followFinal depth) path

/-- The file that a path leads to, found in the directories alone. -/
def walkPathAt (vfs : Vfs) (path : Bytes) (followFinal : Bool) : Fallible FsError ResolvedInode :=
  fromKernelPath (resolveAtWith TmpFs.child vfs.mounts followFinal depth) path

/-- The directory of a path, and the name in it. -/
def lookupParent (path : Bytes) : Code (InodeId × Bytes) :=
  lookupParentWith (fun parent => resolvePathAt depth parent true) path

/-- The directory of a path, found in the directories alone, and the name in it. -/
def walkParent (vfs : Vfs) (path : Bytes) : Fallible FsError (InodeId × Bytes) :=
  lookupParentWith (fun parent => walkPathAt depth vfs parent true) path

/-- Whether a file is still as it was when its path was resolved. -/
def revalidate (resolved : ResolvedInode) : Code Unit := do
  let attr ← ask resolved.inode.mount fun fs => fs.getattr resolved.inode
  if attr.generation ≠ resolved.attr.generation then
    Stateful.ofExcept (fail .invalid)
  else pure ()

/-- The names that lead to a file are dropped from the cache. -/
def invalidateDentry (inode : InodeId) : Code Unit :=
  lift fun vfs => (.ok (), { vfs with cache := vfs.cache.invalidateInode inode })

/-- A file is made in the directory of a path, which has then changed. -/
def makeAt (path : Bytes)
    (make : InodeId → Bytes → TmpFs → Fallible FsError InodeId × TmpFs) :
    Code (InodeId × InodeId) := do
  let (parent, name) ← lookupParent depth path
  let made ← onFs parent.mount (make parent name)
  invalidateDentry parent
  return (parent, made)

/-- A regular file is made and opened. -/
def createFile (path : Bytes) (flags : OpenFlags) : Code OpenFile := do
  let (parent, made) ← makeAt depth path fun parent name =>
    TmpFs.create parent name .regular .defaultFile
  let attr ← ask parent.mount fun fs => fs.getattr made
  return ⟨made, 0, flags, attr.generation⟩

/-- A file that was found is opened. -/
def finishOpen (resolved : ResolvedInode) (flags : OpenFlags) : Code OpenFile :=
  let file : OpenFile := ⟨resolved.inode, 0, flags, resolved.attr.generation⟩
  if flags.contains .trunc then do
    revalidate resolved
    onFs resolved.inode.mount (TmpFs.truncate resolved.inode 0)
    return file
  else return file

/-- A file is opened, and made before if it is missing and the flags say so. -/
def openPath (path : Bytes) (flags : OpenFlags) : Code OpenFile :=
  lift fun vfs =>
    match (resolvePathAt depth path (!flags.contains .nofollow)).exec vfs with
    | (.ok resolved, next) => (finishOpen resolved flags).exec next
    | (.error failure, next) =>
      if failure = .error .notFound ∧ flags.contains .creat = true then
        (createFile depth path flags).exec next
      else (.error failure, next)

/-- Bytes are written to an open file, at its position or at its end. -/
def writeFile (file : OpenFile) (buf : Bytes) : Code (Nat × OpenFile) := do
  let attr ← ask file.inode.mount fun fs => fs.getattr file.inode
  if attr.generation ≠ file.generation then Stateful.ofExcept (fail .invalid)
  else do
    revalidate ⟨file.inode, attr⟩
    let offset := if file.flags.contains .append then attr.size else file.offset
    let count ← onFs file.inode.mount (TmpFs.write file.inode offset buf)
    let after ← ask file.inode.mount fun fs => fs.getattr file.inode
    let file := { file with
      offset := offset + BitVec.ofNat 64 count, generation := after.generation }
    return (count, file)

/-- Bytes are read from an open file, at its position. -/
def readFile (file : OpenFile) (room : Nat) : Code (Bytes × OpenFile) := do
  let attr ← ask file.inode.mount fun fs => fs.getattr file.inode
  if attr.generation ≠ file.generation then Stateful.ofExcept (fail .invalid)
  else do
    let bytes ← ask file.inode.mount fun fs => fs.read file.inode file.offset room
    return (bytes, { file with offset := file.offset + BitVec.ofNat 64 bytes.length })

/-- The position that an offset counts from. -/
def seekBase (file : OpenFile) (size : BitVec 64) (whence : BitVec 32) : Option (BitVec 64) :=
  if whence = 0 then some 0
  else if whence = 1 then some file.offset
  else if whence = 2 then some size
  else none

/-- An open file gets another position. -/
def lseekFile (file : OpenFile) (offset : BitVec 64) (whence : BitVec 32) :
    Code (BitVec 64 × OpenFile) := do
  let attr ← ask file.inode.mount fun fs => fs.getattr file.inode
  match seekBase file attr.size whence with
  | none => Stateful.ofExcept (fail .invalid)
  | some base => return (base + offset, { file with offset := base + offset })

/-- The rest of some data is written to a file, a part at a time. -/
def writeRest (inode : InodeId) (data : Bytes) : Nat → Nat → Code Unit
  | 0, _ => Stateful.ofExcept (fault .diverged)
  | rounds + 1, offset =>
    if offset < data.length then do
      let count ← onFs inode.mount
        (TmpFs.write inode (BitVec.ofNat 64 offset) (data.drop offset))
      if count = 0 then pure () else writeRest inode data rounds (offset + count)
    else pure ()

/-- The flags for replacing the data of a file. -/
def writeFlags (create : Bool) : OpenFlags :=
  if create then .wronly ||| .creat ||| .trunc else .wronly ||| .trunc

/-- The data of a file is replaced. The file may be made before. -/
def writePath (path data : Bytes) (create : Bool) : Code Unit :=
  lift fun vfs =>
    match (openPath depth path (writeFlags create)).exec vfs with
    | (.ok file, next) => (writeRest file.inode data (data.length + 1) 0).exec next
    | (.error failure, next) =>
      if failure = .error .notFound ∧ create = true then
        (do
          let file ← createFile depth path (writeFlags create)
          writeRest file.inode data (data.length + 1) 0 : Code Unit).exec next
      else (.error failure, next)

/-- A directory is made. -/
def mkdirPath (path : Bytes) : Code Unit := do
  let _ ← makeAt depth path fun parent name => TmpFs.mkdir parent name .defaultDir
  return ()

/-- A link is made. -/
def symlinkPath (link target : Bytes) : Code Unit := do
  let _ ← makeAt depth link fun parent name => TmpFs.symlink parent name target .defaultFile
  return ()

/-- A file is removed. -/
def sysUnlink (path : Bytes) : Code Unit := do
  let (parent, name) ← lookupParent depth path
  onFs parent.mount (TmpFs.unlink parent name)

end Vfs

end TheoryKernel.Fs
