import TheoryKernel.Base.Exec

/-! What the virtual file system knows about a file: its number, its attributes, its errors. -/

namespace TheoryKernel.Fs

/-- The errors of a file system. -/
inductive FsError where
  | notFound
  | fileExists
  | notDir
  | isDir
  | notFile
  | notSymlink
  | invalid
  | ioError
  | noSpace
  | notSupported
  | tooManyLinks
  | accessDenied
  deriving DecidableEq, Repr

/-- The kinds of files. -/
inductive FileType where
  | regular
  | directory
  | symlink
  | charDev
  | blockDev
  | fifo
  | socket
  deriving DecidableEq, Repr

/-- The number of a file, together with the file system that it is on. -/
@[ext] structure InodeId where
  mount : BitVec 32
  ino : BitVec 64
  deriving DecidableEq, Repr

/-- The permissions of a file. -/
abbrev InodeMode : Type := BitVec 16

namespace InodeMode

/-- Everybody may read a file, and its owner may write to it. -/
def defaultFile : InodeMode := 0o644

/-- Everybody may search a directory, and its owner may change it. -/
def defaultDir : InodeMode := 0o755

end InodeMode

/-- The attributes of a file. -/
structure InodeAttr where
  ino : BitVec 64
  mode : InodeMode
  fileType : FileType
  size : BitVec 64
  nlink : BitVec 32
  generation : BitVec 64
  rdev : BitVec 32
  deriving DecidableEq, Repr

/-- The flags that a file is opened with. -/
abbrev OpenFlags : Type := BitVec 32

namespace OpenFlags

/-- Writing is allowed, reading is not. -/
def wronly : OpenFlags := 1

/-- The file is made if it is missing. -/
def creat : OpenFlags := 0x40

/-- A link at the end of the path is not followed. -/
def nofollow : OpenFlags := 0x100

/-- The file is emptied. -/
def trunc : OpenFlags := 0x200

/-- Every write goes to the end of the file. -/
def append : OpenFlags := 0x400

/-- Whether a flag is set. -/
def contains (flags flag : OpenFlags) : Bool := flags &&& flag == flag

end OpenFlags

/-- A file that has been opened. -/
structure OpenFile where
  inode : InodeId
  offset : BitVec 64
  flags : OpenFlags
  generation : BitVec 64
  deriving DecidableEq, Repr

end TheoryKernel.Fs
