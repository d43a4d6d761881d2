import Mathlib.Algebra.Group.Int.Defs
import TheoryKernel.Fs.FileBytes
import TheoryKernel.Fs.Path
import TheoryKernel.Lib.Runs

/-! Open files, and the positions in them. -/

namespace TheoryKernel.Fs.Vfs

open Function Stateful Fallible
open TmpFs (written contents)

/-- The file that has a number. -/
def node (vfs : Vfs) (inode : InodeId) : Option TmpInode :=
  (mountFs vfs.mounts inode.mount).bind fun fs =>
    if inode.mount = fs.mountId then fs.inodes inode.ino else none

/-- Where a write to an open file starts. -/
def writeStart (file : OpenFile) (node : TmpInode) : BitVec 64 :=
  if file.flags.contains .append then node.attr.size else file.offset

/-- A file whose data has been written over. -/
def overwrite (node : TmpInode) (start : Nat) (buf : Bytes) : TmpInode :=
  (node.setData (written node.data start buf)
    (BitVec.ofNat 64 (written node.data start buf).length)).bump

variable {vfs next : Vfs} {file : OpenFile} {inode : InodeId} {node : TmpInode} {buf : Bytes}
  {room : Nat}

theorem node_some (there : vfs.node inode = some node) : ∃ fs,
    mountFs vfs.mounts inode.mount = some fs ∧ inode.mount = fs.mountId ∧
      fs.id inode = .ok inode.ino ∧ fs.inodes inode.ino = some node := by
  obtain ⟨fs, mounted, found⟩ := Option.bind_eq_some_iff.mp there
  split at found
  · rename_i here
    exact ⟨fs, mounted, here, if_neg (not_not.mpr here), found⟩
  · cases found

theorem ask_getattr (vfs : Vfs) (inode : InodeId) :
    (ask inode.mount fun fs => fs.getattr inode).exec vfs =
      ((vfs.node inode).elim (fail .notFound) fun node => .ok node.attr, vfs) := by
  unfold ask Vfs.node TmpFs.getattr TmpFs.id
  rw [exec_lift]
  cases mountFs vfs.mounts inode.mount with
  | none => rfl
  | some fs =>
    by_cases here : inode.mount = fs.mountId
    · simp only [here, ne_eq, not_true_eq_false, if_false, ok_bind, Option.bind_some, if_true]
      cases fs.inodes inode.ino <;> rfl
    · simp [here, fail]

theorem ask_some (there : vfs.node inode = some node) :
    (ask inode.mount fun fs => fs.getattr inode).exec vfs = (.ok node.attr, vfs) := by
  rw [ask_getattr, there]
  rfl

theorem node_putFs {fs : TmpFs} (mounted : mountFs vfs.mounts inode.mount = some fs)
    (here : inode.mount = fs.mountId) (changed : TmpInode) :
    (vfs.putFs inode.mount (fs.put inode.ino (some changed))).node =
      update vfs.node inode (some changed) := by
  funext other
  by_cases same : other = inode
  · rw [same, update_self, Vfs.node, mountFs_putFs_self mounted]
    exact (if_pos here).trans (update_self ..)
  · rw [update_of_ne same, Vfs.node, Vfs.node]
    by_cases mount : other.mount = inode.mount
    · have differ : other.ino ≠ inode.ino := fun equal => same (InodeId.ext mount equal)
      rw [mount, mountFs_putFs_self mounted, mounted]
      exact congrArg (ite _ · none) (update_of_ne differ ..)
    · rw [mountFs_putFs_of_ne mount]

theorem readFile_exec (there : vfs.node file.inode = some node)
    (fits : file.offset.toNat + room < 2 ^ 64) :
    (readFile file room).exec vfs =
      if node.attr.generation ≠ file.generation then (fail .invalid, vfs)
      else if node.attr.fileType ≠ .regular ∧ node.attr.fileType ≠ .symlink then
        (fail .notFile, vfs)
      else (.ok (((contents node).drop file.offset.toNat).take room, { file with
        offset := file.offset + BitVec.ofNat 64
          (((contents node).drop file.offset.toNat).take room).length }), vfs) := by
  obtain ⟨fs, mounted, -, number, found⟩ := node_some there
  rw [readFile, exec_bind_ok (ask_some there)]
  split
  · rfl
  · rw [exec_bind, ask_exec mounted]
    by_cases other : node.attr.fileType ≠ .regular ∧ node.attr.fileType ≠ .symlink
    · rw [if_pos other, TmpFs.read, number, ok_bind, found]
      dsimp only
      rw [if_pos other]
      rfl
    · rw [if_neg other, TmpFs.read_eq number found (by tauto) fits]
      rfl

theorem writeFile_exec (buf : Bytes) (there : vfs.node file.inode = some node)
    (fits : (writeStart file node).toNat + buf.length < 2 ^ 63) : ∃ next,
    (writeFile file buf).exec vfs =
      (if node.attr.generation ≠ file.generation then (fail .invalid, vfs)
      else if node.attr.fileType ≠ .regular then (fail .notFile, vfs)
      else (.ok (buf.length, { file with
        offset := writeStart file node + BitVec.ofNat 64 buf.length
        generation := file.generation + 1 }), next)) ∧
      next.node = update vfs.node file.inode
        (some (overwrite node (writeStart file node).toNat buf)) := by
  obtain ⟨fs, mounted, here, number, found⟩ := node_some there
  have put := node_putFs mounted here (overwrite node (writeStart file node).toNat buf)
  refine ⟨_, ?_, put⟩
  rw [writeFile, exec_bind_ok (ask_some there)]
  split
  · rfl
  · rename_i current
    have valid : (revalidate ⟨file.inode, node.attr⟩).exec vfs = (.ok (), vfs) := by
      rw [revalidate, exec_bind_ok (ask_some there), if_neg (not_not.mpr rfl)]
      rfl
    rw [exec_bind_ok valid, ← writeStart, exec_bind, onFs_exec mounted]
    by_cases regular : node.attr.fileType = .regular
    · rw [if_neg (not_not.mpr regular), TmpFs.write_eq number found regular fits,
        ← not_not.mp current]
      exact exec_bind_ok (ask_some (by rw [put, update_self]))
    · simp only [TmpFs.write, number, found, regular, ne_eq, not_false_eq_true, if_true,
        putFs_self mounted]
      rfl

/-- The calls that use the position of an open file. -/
inductive FileCall where
  | lseek (offset : BitVec 64) (whence : BitVec 32)
  | read (room : Nat)
  | write (buf : Bytes)

/-- What is left of an open file behind a call, which may have returned an error. -/
def settle {α : Type} (file : OpenFile) :
    Fallible FsError (α × OpenFile) × Vfs → Exec (Vfs × OpenFile)
  | (.ok (_, moved), vfs) => .ok (vfs, moved)
  | (.error (.error _), vfs) => .ok (vfs, file)
  | (.error (.fault stopped), _) => .error stopped

/-- A call that uses the position of an open file. -/
def fileStep (state : Vfs × OpenFile) : FileCall → Exec (Vfs × OpenFile)
  | .lseek offset whence => settle state.2 ((lseekFile state.2 offset whence).exec state.1)
  | .read room => settle state.2 ((readFile state.2 room).exec state.1)
  | .write buf => settle state.2 ((writeFile state.2 buf).exec state.1)

/--
What a call needs so that it neither crashes nor leaves a negative position.

A seek asks for a position that is not negative, and a write ends before the positions that are.
Buffers are no longer than half of the address space.
-/
def moderate (state : Vfs × OpenFile) : FileCall → Bool
  | .lseek offset whence => (state.1.node state.2.inode).all fun node =>
      (seekBase state.2 node.attr.size whence).all fun base =>
        0 ≤ base.toInt + offset.toInt ∧ base.toInt + offset.toInt < 2 ^ 63
  | .read room => room < 2 ^ 63
  | .write buf => (state.1.node state.2.inode).all fun node =>
      (writeStart state.2 node).toNat + buf.length < 2 ^ 63

/-- The position is not negative, and neither is that behind the contents. -/
def InRange (state : Vfs × OpenFile) : Prop :=
  state.2.offset.toNat < 2 ^ 63 ∧
    ∀ node, state.1.node state.2.inode = some node → (contents node).length < 2 ^ 63

theorem toNat_add_lt {base offset : BitVec 64} (low : 0 ≤ base.toInt + offset.toInt)
    (high : base.toInt + offset.toInt < 2 ^ 63) : (base + offset).toNat < 2 ^ 63 := by
  simp only [BitVec.toInt_eq_toNat_cond, BitVec.toNat_add] at *
  split at low <;> split at low <;> omega

theorem toNat_add_ofNat_lt {base : BitVec 64} {count : Nat} (small : base.toNat + count < 2 ^ 63) :
    (base + BitVec.ofNat 64 count).toNat < 2 ^ 63 := by
  rw [BitVec.toNat_add, BitVec.toNat_ofNat, Nat.add_mod_mod, Nat.mod_eq_of_lt (by omega)]
  exact small

theorem fileStep_inRange {state : Vfs × OpenFile} {call : FileCall} (inRange : InRange state)
    (checked : moderate state call = true) :
    ∃ next, fileStep state call = .ok next ∧ InRange next := by
  obtain ⟨vfs, file⟩ := state
  obtain ⟨position, sized⟩ := inRange
  change file.offset.toNat < 2 ^ 63 at position
  have stays : ∃ next, .ok (vfs, file) = (.ok next : Exec _) ∧ InRange next :=
    ⟨_, rfl, position, sized⟩
  cases there : vfs.node file.inode with
  | none =>
    -- A file that is gone has no attributes, and every call asks for them first.
    have failed := ask_getattr vfs file.inode
    rw [there] at failed
    cases call <;> (rw [fileStep]; exact (exec_bind_error failed) ▸ stays)
  | some node =>
    have bound := sized node there
    cases call with
    | lseek offset whence =>
      rw [moderate, there, Option.all_some] at checked
      rw [fileStep, lseekFile, exec_bind_ok (ask_some there)]
      cases found : seekBase file node.attr.size whence with
      | none => exact stays
      | some base =>
        rw [found, Option.all_some, decide_eq_true_eq] at checked
        exact ⟨_, rfl, toNat_add_lt checked.1 checked.2, sized⟩
    | read room =>
      have small : room < 2 ^ 63 := of_decide_eq_true checked
      rw [fileStep, readFile_exec there (by omega)]
      split
      · exact stays
      · split
        · exact stays
        · refine ⟨_, rfl, toNat_add_ofNat_lt ?_, sized⟩
          rw [List.length_take, List.length_drop]
          omega
    | write buf =>
      rw [moderate, there, Option.all_some, decide_eq_true_eq] at checked
      change (writeStart file node).toNat + buf.length < 2 ^ 63 at checked
      obtain ⟨next, run, after⟩ := writeFile_exec buf there (by omega)
      rw [fileStep, run]
      split
      · exact stays
      · split
        · exact stays
        · rename_i regular
          refine ⟨_, rfl, toNat_add_ofNat_lt checked, fun other found => ?_⟩
          have kind : node.attr.fileType ≠ .symlink := by rw [not_not.mp regular]; exact nofun
          rw [after, update_self] at found
          cases found
          rw [contents, if_neg kind] at bound
          rw [contents, if_neg (show (overwrite node _ buf).attr.fileType ≠ .symlink from kind)]
          change (written node.data _ buf).length < _
          rw [written, List.length_map, List.length_range]
          omega

/--
Positions stay in range, and no call crashes.

This holds in every run of seeks, reads and writes on an open file that are moderate.
-/
theorem positions_in_range {vfs : Vfs} {file : OpenFile} {calls : List FileCall}
    (start : InRange (vfs, file))
    (checked : Runs.everyStep fileStep moderate (vfs, file) calls = true) :
    ∃ final, Runs.run fileStep (vfs, file) calls = .ok final ∧ final.2.offset.toNat < 2 ^ 63 := by
  obtain ⟨final, run, inRange⟩ := Runs.run_returns InRange
    (fun _ _ inRange checked => fileStep_inRange inRange checked) start checked
  exact ⟨final, run, inRange.1⟩

/-- A file system with one file, and that file. -/
def oneOpen : Vfs × OpenFile := (⟨[⟨[], TmpFs.oneFile⟩], .new⟩, ⟨⟨0, 2⟩, 0, .wronly, 1⟩)

/-- A byte is written, looked for at the end, and read. -/
theorem oneOpen_in_range : ∃ final, Runs.run fileStep oneOpen
    [.write [7], .lseek (-1) 2, .read 8] = .ok final ∧ final.2.offset.toNat < 2 ^ 63 :=
  positions_in_range ⟨by decide, fun node found => by cases found; decide⟩ (by decide)

/-- A position before the start of the file is stored, and a write there stops the kernel. -/
theorem negative_position :
    (∃ final, Runs.run fileStep oneOpen [.lseek (-1) 0] = .ok final ∧ final.2.offset = -1) ∧
      Runs.run fileStep oneOpen [.lseek (-1) 0, .write [7]] = .error .sliceOutOfRange :=
  ⟨⟨_, rfl, rfl⟩, rfl⟩

end TheoryKernel.Fs.Vfs
