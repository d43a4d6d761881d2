import TheoryKernel.Fs.Tmpfs

/-! The files in memory as arrays of bytes. -/

namespace TheoryKernel.Fs.TmpFs

open Function List

/-- An array with some bytes written over it. It reaches to their end, with zeros in the gap. -/
def written (array : Bytes) (offset : Nat) (buf : Bytes) : Bytes :=
  (List.range (max array.length (offset + buf.length))).map fun index =>
    if offset ≤ index ∧ index < offset + buf.length then buf.getD (index - offset) 0
    else array.getD index 0

/-- An array that is cut, or is filled up with zeros. -/
def resized (array : Bytes) (size : Nat) : Bytes :=
  (List.range size).map fun index => array.getD index 0

/-- The operations on a file. -/
inductive FileOp where
  | write (offset : BitVec 64) (buf : Bytes)
  | truncate (size : BitVec 64)
  | read (offset : BitVec 64) (room : Nat)
  | getattr

/-- What an operation on a file answers. -/
inductive Reply where
  | done
  | count (number : Nat)
  | bytes (part : Bytes)
  | size (number : Nat)

namespace FileOp

/-- An operation on a file of the file system. -/
def exec (inode : InodeId) (fs : TmpFs) : FileOp → Fallible FsError Reply × TmpFs
  | .write offset buf => ((fs.write inode offset buf).1.map .count, (fs.write inode offset buf).2)
  | .truncate size => ((fs.truncate inode size).1.map fun _ => .done, (fs.truncate inode size).2)
  | .read offset room => ((fs.read inode offset room).map .bytes, fs)
  | .getattr => ((fs.getattr inode).map fun attr => .size attr.size.toNat, fs)

/-- The end of an operation has a number, and a file that it makes longer can have that size. -/
def Fits : FileOp → Prop
  | .write offset buf => offset.toNat + buf.length < 2 ^ 63
  | .truncate size => size.toNat < 2 ^ 63
  | .read offset room => offset.toNat + room < 2 ^ 64
  | .getattr => True

end FileOp

section Bytes

variable {data buf : Bytes} {offset size : Nat}

theorem resize_eq (fits : size < 2 ^ 63) : resize data size = .ok (resized data size) := by
  rw [resize, if_neg (by omega)]
  congr 1
  apply ext_getElem?
  intro index
  simp only [resized, List.getElem?_append, List.getElem?_take, List.getElem?_replicate,
    List.getElem?_map, getD_eq_getElem?_getD, length_take]
  grind

theorem copyFromSlice_eq :
    copyFromSlice (if data.length < offset + buf.length then resized data (offset + buf.length)
      else data) offset (offset + buf.length) buf = .ok (written data offset buf) := by
  -- What is written over is the array, filled up to the end of the bytes.
  have filled : ∀ index, (if data.length < offset + buf.length then
      resized data (offset + buf.length) else data)[index]? =
        if index < max data.length (offset + buf.length) then some (data[index]?.getD 0)
        else none := by
    intro index
    simp only [resized, getD_eq_getElem?_getD]
    grind
  generalize (if data.length < offset + buf.length then resized data (offset + buf.length)
    else data) = room at filled
  have long : room.length = max data.length (offset + buf.length) := by
    have last := filled room.length
    have inside := filled (room.length - 1)
    grind
  rw [copyFromSlice, if_pos ⟨Nat.le_add_right _ _, by omega⟩,
    if_pos (Nat.add_sub_cancel_left _ _).symm]
  congr 1
  apply ext_getElem?
  intro index
  simp only [written, List.getElem?_append, List.getElem?_take, List.getElem?_map,
    getD_eq_getElem?_getD, length_append, length_take, List.getElem?_drop, filled]
  grind

theorem slice_eq {room : Nat} (inside : offset < data.length) :
    slice data offset (min (offset + room) data.length) = .ok ((data.drop offset).take room) := by
  rw [slice, if_pos (by omega)]
  congr 1
  apply ext_getElem?
  intro index
  simp only [List.getElem?_take, List.getElem?_drop]
  grind

end Bytes

variable {fs next : TmpFs} {inode : InodeId} {ino offset : BitVec 64} {data buf : Bytes} {op : FileOp}
  {node : TmpInode} {room : Nat}

/-- The bytes that are read from a file or a link. -/
def contents (node : TmpInode) : Bytes :=
  if node.attr.fileType = .symlink then node.linkTarget else node.data

/-- A write whose end is a size that a file can have writes over an array. -/
theorem write_eq (here : fs.id inode = .ok inode.ino) (found : fs.inodes inode.ino = some node)
    (regular : node.attr.fileType = .regular) (fits : offset.toNat + buf.length < 2 ^ 63) :
    fs.write inode offset buf = (.ok buf.length, fs.put inode.ino
      (some (node.setData (written node.data offset.toNat buf)
        (BitVec.ofNat 64 (written node.data offset.toNat buf).length)).bump)) := by
  have stop : (offset + BitVec.ofNat 64 buf.length).toNat = offset.toNat + buf.length := by
    rw [BitVec.toNat_add, BitVec.toNat_ofNat, Nat.add_mod_mod, Nat.mod_eq_of_lt (by omega)]
  have room : (if node.data.length < offset.toNat + buf.length then
      resize node.data (offset.toNat + buf.length) else .ok node.data) =
        .ok (if node.data.length < offset.toNat + buf.length then
          resized node.data (offset.toNat + buf.length) else node.data) := by
    rw [resize_eq fits]
    exact (apply_ite Except.ok ..).symm
  simp only [write, here, found, regular, ne_eq, not_true_eq_false, if_false, stop, room,
    Exec.ok_bind, copyFromSlice_eq]

/-- A read whose end has a number gives a part of the contents. -/
theorem read_eq (here : fs.id inode = .ok inode.ino) (found : fs.inodes inode.ino = some node)
    (kind : node.attr.fileType = .regular ∨ node.attr.fileType = .symlink)
    (fits : offset.toNat + room < 2 ^ 64) :
    fs.read inode offset room = .ok (((contents node).drop offset.toNat).take room) := by
  rw [read, here, Fallible.ok_bind, found]
  dsimp only
  rw [if_neg (by tauto), ← contents]
  split
  · rename_i behind
    rw [drop_eq_nil_of_le behind, take_nil]
  · rename_i inside
    rw [wrapAdd_eq fits, slice_eq (Nat.lt_of_not_le inside)]

/-- A file system with one empty file besides its directory. -/
def oneFile : TmpFs := (new 0).allocInode .regular .defaultFile

end TheoryKernel.Fs.TmpFs
