import Mathlib.Data.List.AList
import TheoryKernel.Base.Slice
import TheoryKernel.Base.Word
import TheoryKernel.Fs.Inode

/-! The file system whose files are kept in memory. -/

namespace TheoryKernel.Fs

/-- The ranges of the bytes that may follow the first byte of a character. -/
def utf8Tail (lead : BitVec 8) : Option (List (BitVec 8 × BitVec 8)) :=
  let any : BitVec 8 × BitVec 8 := (0x80, 0xBF)
  if lead < 0x80 then some []
  else if 0xC2 ≤ lead ∧ lead ≤ 0xDF then some [any]
  -- Longer forms of short characters, surrogates and numbers above the last one are excluded.
  else if lead = 0xE0 then some [(0xA0, 0xBF), any]
  else if lead = 0xED then some [(0x80, 0x9F), any]
  else if 0xE1 ≤ lead ∧ lead ≤ 0xEF then some [any, any]
  else if lead = 0xF0 then some [(0x90, 0xBF), any, any]
  else if 0xF1 ≤ lead ∧ lead ≤ 0xF3 then some [any, any, any]
  else if lead = 0xF4 then some [(0x80, 0x8F), any, any]
  else none

/-- One more byte of a text, of which a number of bytes is still expected. -/
def utf8Step (expected : Option (List (BitVec 8 × BitVec 8))) (byte : BitVec 8) :
    Option (List (BitVec 8 × BitVec 8)) :=
  match expected with
  | none => none
  | some [] => utf8Tail byte
  | some ((low, high) :: rest) => if low ≤ byte ∧ byte ≤ high then some rest else none

/-- Whether a sequence of bytes is a text. -/
def isUtf8 (bytes : Bytes) : Bool := bytes.foldl utf8Step (some []) == some []

/-- A file in memory: its bytes, the files of a directory, or where a link leads. -/
structure TmpInode where
  attr : InodeAttr
  data : Bytes
  children : AList fun _ : Bytes => BitVec 64
  linkTarget : Bytes

/-- A file without contents, of which there is one name for now. -/
def TmpInode.new (ino : BitVec 64) (fileType : FileType) (mode : InodeMode) (nlink : BitVec 32) :
    TmpInode where
  attr := ⟨ino, mode, fileType, 0, nlink, 1, 0⟩
  data := []
  children := ∅
  linkTarget := []

namespace TmpInode

/-- A file that has changed. -/
def bump (node : TmpInode) : TmpInode :=
  { node with attr.generation := node.attr.generation + 1 }

/-- A directory with one more name. -/
def link (node : TmpInode) (name : Bytes) (ino : BitVec 64) : TmpInode :=
  { node with children := node.children.insert name ino }

/-- A directory with one name less. -/
def unlink (node : TmpInode) (name : Bytes) : TmpInode :=
  { node with children := node.children.erase name }

/-- A file with other bytes, and with a number that is given as their number. -/
def setData (node : TmpInode) (data : Bytes) (size : BitVec 64) : TmpInode :=
  { node with data := data, attr.size := size }

/-- A link that leads to a path. -/
def setTarget (node : TmpInode) (target : Bytes) : TmpInode :=
  { node with linkTarget := target, attr.size := BitVec.ofNat 64 target.length }

end TmpInode

/-- The first bytes of some data, or all of it and zeros behind it. -/
def resize (data : Bytes) (size : Nat) : Exec Bytes :=
  -- A vector that grows must stay below the sizes that objects can have.
  if data.length < size ∧ 2 ^ 63 ≤ size then .error .assertionFailed
  else .ok (data.take size ++ List.replicate (size - data.length) 0)

/-- A file system in memory. -/
structure TmpFs where
  mountId : BitVec 32
  nextIno : BitVec 64
  inodes : BitVec 64 → Option TmpInode

namespace TmpFs

/-- The number of the topmost directory. -/
def rootIno : BitVec 64 := 1

/-- A file system with an empty directory. -/
def new (mountId : BitVec 32) : TmpFs where
  mountId := mountId
  nextIno := rootIno + 1
  inodes := Function.update (fun _ => none) rootIno
    (some (.new rootIno .directory .defaultDir 2))

/-- The topmost directory. -/
def root (fs : TmpFs) : InodeId := ⟨fs.mountId, rootIno⟩

/-- The number of a file of this file system. -/
def id (fs : TmpFs) (inode : InodeId) : Fallible FsError (BitVec 64) :=
  if inode.mount ≠ fs.mountId then .fail .notFound else .ok inode.ino

/-- The file system with other contents of a file. -/
def put (fs : TmpFs) (ino : BitVec 64) (node : Option TmpInode) : TmpFs :=
  { fs with inodes := Function.update fs.inodes ino node }

/-- The file system with a new file, which no directory names. -/
def allocInode (fs : TmpFs) (fileType : FileType) (mode : InodeMode) : TmpFs :=
  put { fs with nextIno := fs.nextIno + 1 } fs.nextIno (some (.new fs.nextIno fileType mode 1))

/-- The attributes of a file. -/
def getattr (fs : TmpFs) (inode : InodeId) : Fallible FsError InodeAttr := do
  let ino ← fs.id inode
  match fs.inodes ino with
  | some node => .ok node.attr
  | none => .fail .notFound

/-- The file that a directory has under a name. -/
def lookup (fs : TmpFs) (dir : InodeId) (name : Bytes) : Fallible FsError InodeId := do
  let dirIno ← fs.id dir
  if !isUtf8 name then .fail .invalid
  else
    match fs.inodes dirIno with
    | none => .fail .notFound
    | some node =>
      if node.attr.fileType ≠ .directory then .fail .notDir
      else
        match node.children.lookup name with
        | none => .fail .notFound
        | some child => .ok ⟨fs.mountId, child⟩

/-- A new file in a directory. The file is made before the directory is looked at. -/
def create (dir : InodeId) (name : Bytes) (fileType : FileType) (mode : InodeMode) (fs : TmpFs) :
    Fallible FsError InodeId × TmpFs :=
  match fs.id dir with
  | .error failure => (.error failure, fs)
  | .ok dirIno =>
    if !isUtf8 name || name.isEmpty then (.fail .invalid, fs)
    else
      let grown := fs.allocInode fileType mode
      match grown.inodes dirIno with
      | none => (.fail .notFound, grown)
      | some node =>
        if node.attr.fileType ≠ .directory then (.fail .notDir, grown)
        else if (node.children.lookup name).isSome then (.fail .fileExists, grown)
        else
          (.ok ⟨fs.mountId, fs.nextIno⟩, grown.put dirIno (some (node.link name fs.nextIno).bump))

/-- A new directory in a directory. -/
def mkdir (dir : InodeId) (name : Bytes) (mode : InodeMode) (fs : TmpFs) :
    Fallible FsError InodeId × TmpFs :=
  fs.create dir name .directory mode

/-- A new link in a directory. -/
def symlink (dir : InodeId) (name target : Bytes) (mode : InodeMode) (fs : TmpFs) :
    Fallible FsError InodeId × TmpFs :=
  match fs.create dir name .symlink mode with
  | (.error failure, grown) => (.error failure, grown)
  | (.ok inode, grown) =>
    match grown.inodes inode.ino with
    | none => (.fault .assertionFailed, grown)
    | some node => (.ok inode, grown.put inode.ino (some (node.setTarget target)))

/-- A file is taken out of a directory and is gone. -/
def unlink (dir : InodeId) (name : Bytes) (fs : TmpFs) : Fallible FsError Unit × TmpFs :=
  match fs.id dir with
  | .error failure => (.error failure, fs)
  | .ok dirIno =>
    if !isUtf8 name then (.fail .invalid, fs)
    else
      match fs.inodes dirIno with
      | none => (.fail .notFound, fs)
      | some node =>
        if node.attr.fileType ≠ .directory then (.fail .notDir, fs)
        else
          match node.children.lookup name with
          | none => (.fail .notFound, fs)
          | some childIno =>
            match fs.inodes childIno with
            | none => (.fail .notFound, fs)
            | some child =>
              if child.attr.fileType = .directory ∧ child.children.entries ≠ [] then
                (.fail .notSupported, fs)
              else
                let removed := (fs.put dirIno (some (node.unlink name))).put childIno none
                -- A directory that is gone together with its name has no generation any more.
                match removed.inodes dirIno with
                | none => (.ok (), removed)
                | some left => (.ok (), removed.put dirIno (some left.bump))

/-- The bytes of a file or of a link from an offset on, as far as there is room for them. -/
def read (fs : TmpFs) (inode : InodeId) (offset : BitVec 64) (room : Nat) :
    Fallible FsError Bytes := do
  let ino ← fs.id inode
  match fs.inodes ino with
  | none => .fail .notFound
  | some node =>
    if node.attr.fileType ≠ .regular ∧ node.attr.fileType ≠ .symlink then .fail .notFile
    else
      let data := if node.attr.fileType = .symlink then node.linkTarget else node.data
      if data.length ≤ offset.toNat then .ok []
      else
        match slice data offset.toNat (min (wrapAdd offset.toNat room) data.length) with
        | .ok part => .ok part
        | .error stopped => .fault stopped

/-- Bytes are written over those of a file, which grows if it is too short. -/
def write (inode : InodeId) (offset : BitVec 64) (buf : Bytes) (fs : TmpFs) :
    Fallible FsError Nat × TmpFs :=
  match fs.id inode with
  | .error failure => (.error failure, fs)
  | .ok ino =>
    match fs.inodes ino with
    | none => (.fail .notFound, fs)
    | some node =>
      if node.attr.fileType ≠ .regular then (.fail .notFile, fs)
      else
        let stop := (offset + BitVec.ofNat 64 buf.length).toNat
        let room := if node.data.length < stop then resize node.data stop else .ok node.data
        match room >>= fun room => copyFromSlice room offset.toNat stop buf with
        | .error stopped => (.fault stopped, fs)
        | .ok data =>
          (.ok buf.length,
            fs.put ino (some (node.setData data (BitVec.ofNat 64 data.length)).bump))

/-- A file is cut, or is filled up with zeros. -/
def truncate (inode : InodeId) (size : BitVec 64) (fs : TmpFs) : Fallible FsError Unit × TmpFs :=
  match fs.id inode with
  | .error failure => (.error failure, fs)
  | .ok ino =>
    match fs.inodes ino with
    | none => (.fail .notFound, fs)
    | some node =>
      if node.attr.fileType ≠ .regular then (.fail .notFile, fs)
      else
        match resize node.data size.toNat with
        | .error stopped => (.fault stopped, fs)
        | .ok data => (.ok (), fs.put ino (some (node.setData data size).bump))

/-- Where a link leads, as far as there is room for it. -/
def readlink (fs : TmpFs) (inode : InodeId) (room : Nat) : Fallible FsError Bytes := do
  let ino ← fs.id inode
  match fs.inodes ino with
  | none => .fail .notFound
  | some node =>
    if node.attr.fileType ≠ .symlink then .fail .notSymlink else .ok (node.linkTarget.take room)

end TmpFs

end TheoryKernel.Fs
