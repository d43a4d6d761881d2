import TheoryKernel.Fs.Inode
import TheoryKernel.Proc.Pcb

/-! The numbers that the file system of processes gives to its files. -/

namespace TheoryKernel.Fs.ProcFs

/-- The number of the directory at the top. -/
def rootIno : BitVec 64 := 1

/-- The files that are always there. -/
inductive Fixed where
  | self
  | cpuinfo
  | meminfo
  | fb
  deriving DecidableEq

/-- The number of a file. -/
def Fixed.ino : Fixed → BitVec 64
  | .self => 2
  | .cpuinfo => 3
  | .meminfo => 4
  | .fb => 5

/-- The size that a file is said to have. -/
def Fixed.size : Fixed → BitVec 64
  | .self => 8
  | .cpuinfo | .meminfo => 64
  | .fb => 32

/-- The files in the order in which they are listed. -/
def rootNames : List Fixed := [.self, .cpuinfo, .meminfo, .fb]

/-- A name, by what it reads as. -/
inductive Name where
  | invalid
  | fixed (file : Fixed)
  | number (pid : BitVec 32)
  | status
  | maps
  | other

/-- What a number can stand for. -/
inductive Object where
  | fixed (file : Fixed)
  | process (pid : BitVec 32)
  | status (pid : BitVec 32)
  | maps (pid : BitVec 32)

/-- The process that a number belongs to. -/
def pidFromIno (ino : BitVec 64) : Option (BitVec 32) :=
  if 1000 ≤ ino then some ((ino - 1000).setWidth 32) else none

/-- The number of the directory of a process. -/
def inoForPid (pid : BitVec 32) : BitVec 64 := 1000 + pid.setWidth 64

/-- What the text of a file is about; all other files are empty. -/
def generateFile (ino : BitVec 64) : Option Object :=
  match rootNames.find? (·.ino == ino) with
  | some file => some (.fixed file)
  | none =>
    match pidFromIno ino with
    | none => none
    | some pid =>
      if ino = inoForPid pid + 1 then some (.status pid)
      else if ino = inoForPid pid + 2 then some (.maps pid)
      else none

/-- The attributes of a file. -/
def staticAttr (ino : BitVec 64) (fileType : FileType) (size : BitVec 64) : InodeAttr :=
  ⟨ino, .defaultFile, fileType, size, 1, 1, 0⟩

/-- The attributes of a directory. -/
def dirAttr (ino : BitVec 64) : InodeAttr := ⟨ino, .defaultDir, .directory, 0, 2, 1, 0⟩

/-- The attributes of the file with a number. -/
def getattr (ino : BitVec 64) : Except FsError InodeAttr :=
  if ino = rootIno then .ok (dirAttr rootIno)
  else
    match rootNames.find? (·.ino == ino) with
    | some file => .ok (staticAttr file.ino .regular file.size)
    | none =>
      match pidFromIno ino with
      | none => .error .notFound
      | some pid =>
        if ino = inoForPid pid then .ok (dirAttr ino) else .ok (staticAttr ino .regular 256)

variable (live : Nat → Bool)

/-- Whether the table has a process with a number. -/
def known (pid : BitVec 32) : Bool := decide (pid.toNat < Proc.maxProcesses) && live pid.toNat

/-- The processes of the table in order. -/
def listPids : List (BitVec 32) :=
  ((List.range Proc.maxProcesses).map (BitVec.ofNat 32)).filter (known live)

/-- Looking up a name. -/
def lookup (dir : BitVec 64) (name : Name) : Except FsError (BitVec 64) :=
  match name with
  | .invalid => .error .invalid
  | name =>
    if dir = rootIno then
      match name with
      | .fixed file => .ok file.ino
      | .number pid => if known live pid then .ok (inoForPid pid) else .error .notFound
      | _ => .error .notFound
    else
      match pidFromIno dir with
      | none => .error .notDir
      | some pid =>
        if !known live pid then .error .notFound
        else
          match name with
          | .status => .ok (dir + 1)
          | .maps => .ok (dir + 2)
          | _ => .error .notFound

/-- The name, number and kind at a position of a directory. -/
def readdir (dir : BitVec 64) (index : Nat) :
    Except FsError (Option (Name × BitVec 64 × FileType)) :=
  if dir = rootIno then
    match rootNames[index]? with
    | some file => .ok (some (.fixed file, file.ino, .regular))
    | none =>
      .ok ((listPids live)[index - rootNames.length]?.map fun pid =>
        (.number pid, inoForPid pid, .directory))
  else
    match pidFromIno dir with
    | none => .error .notDir
    | some _ =>
      .ok ([Name.status, Name.maps][index]?.map fun name =>
        (name, dir + BitVec.ofNat 64 index + 1, .regular))

/-- The number that a name of a directory leads to, if it is looked up or listed. -/
def Named (dir : BitVec 64) (name : Name) (ino : BitVec 64) : Prop :=
  lookup live dir name = .ok ino ∨
    ∃ index fileType, readdir live dir index = .ok (some (name, ino, fileType))

/-- The numbers that are given to an object. -/
inductive Issued : Object → BitVec 64 → Prop
  | fixed {file ino} : Named live rootIno (.fixed file) ino → Issued (.fixed file) ino
  | process {pid ino} : Named live rootIno (.number pid) ino → Issued (.process pid) ino
  | status {pid dir ino} : Issued (.process pid) dir → Named live dir .status ino →
      Issued (.status pid) ino
  | maps {pid dir ino} : Issued (.process pid) dir → Named live dir .maps ino →
      Issued (.maps pid) ino

/-- A number is decoded as what it was given to. -/
def Decodes (ino : BitVec 64) : Object → Prop
  | .process _ => getattr ino = .ok (dirAttr ino)
  | object => (∃ size, getattr ino = .ok (staticAttr ino .regular size)) ∧
      generateFile ino = some object

/-- No number is given to two objects, and each is decoded as what it was given to. -/
def Unambiguous : Prop :=
  (∀ first second ino, Issued live first ino → Issued live second ino → first = second) ∧
    ∀ object ino, Issued live object ino → Decodes ino object

variable {live}

theorem pidFromIno_inoForPid (pid : BitVec 32) : pidFromIno (inoForPid pid) = some pid := by
  unfold pidFromIno inoForPid
  rw [if_pos (by bv_omega)]
  congr
  bv_omega

theorem generateFile_directory (pid : BitVec 32) : generateFile (inoForPid pid) = none := by
  have fixed : rootNames.find? (·.ino == inoForPid pid) = none := by
    refine List.find?_eq_none.mpr fun file _ same => ?_
    rw [beq_iff_eq, inoForPid] at same
    cases file <;> simp only [Fixed.ino] at same <;> bv_omega
  simp only [generateFile, fixed, pidFromIno_inoForPid]
  rw [if_neg (by bv_omega), if_neg (by bv_omega)]

theorem issued_status {pid : BitVec 32} (here : known live pid = true) :
    Issued live (.status pid) (inoForPid pid + 1) := by
  have apart : inoForPid pid ≠ rootIno := by
    unfold inoForPid rootIno
    bv_omega
  refine @Issued.status live pid (inoForPid pid) _ (.process (.inl ?_)) (.inl ?_)
  · simp [lookup, here]
  · simp [lookup, apart, pidFromIno_inoForPid, here]

theorem fixed_of_named (none : ∀ pid, known live pid = false) {name : Name} {ino : BitVec 64}
    (named : Named live rootIno name ino) : ∃ file, name = .fixed file ∧ ino = file.ino := by
  rcases named with found | ⟨index, fileType, found⟩
  · cases name <;> simp_all [lookup]
  · have empty : listPids live = [] := List.filter_eq_nil_iff.mpr fun pid _ => by simp [none]
    simp only [readdir, if_true, empty] at found
    split at found <;> cases found
    exact ⟨_, rfl, rfl⟩

theorem fixed_of_issued (none : ∀ pid, known live pid = false) {object : Object} {ino : BitVec 64}
    (issued : Issued live object ino) : ∃ file, object = .fixed file ∧ ino = file.ino := by
  cases issued with
  | fixed named =>
    obtain ⟨_, ⟨⟩, same⟩ := fixed_of_named none named
    exact ⟨_, rfl, same⟩
  | process named => obtain ⟨_, ⟨⟩, -⟩ := fixed_of_named none named
  | status process _ | maps process _ =>
    cases process with
    | process named => obtain ⟨_, ⟨⟩, -⟩ := fixed_of_named none named

/-- Numbers are unambiguous exactly if there is no process. -/
theorem unambiguous_iff (live : Nat → Bool) : Unambiguous live ↔ ∀ pid, known live pid = false := by
  constructor
  · intro unambiguous pid
    rw [← Bool.not_eq_true]
    intro here
    -- The number of the state of a process is that of the directory of the next one.
    have next : inoForPid pid + 1 = inoForPid (pid + 1) := by
      have inside : pid.toNat < Proc.maxProcesses := by simp_all [known]
      unfold inoForPid Proc.maxProcesses at *
      bv_omega
    have decoded := (unambiguous.2 _ _ (issued_status here)).2
    rw [next, generateFile_directory] at decoded
    cases decoded
  · intro none
    constructor
    · intro first second ino one two
      obtain ⟨file, rfl, same⟩ := fixed_of_issued none one
      obtain ⟨other, rfl, equal⟩ := fixed_of_issued none two
      cases file <;> cases other <;> simp_all [Fixed.ino]
    · intro object ino issued
      obtain ⟨file, rfl, rfl⟩ := fixed_of_issued none issued
      cases file <;> exact ⟨⟨_, rfl⟩, rfl⟩

/-- With a single process, the number of its state is decoded as that of a directory. -/
theorem one_process_ambiguous : ¬ Unambiguous (· == 0) := by
  intro unambiguous
  have status : Issued (· == 0) (.status 0) (inoForPid 0 + 1) := issued_status (by decide)
  cases (unambiguous.2 _ _ status).2

end TheoryKernel.Fs.ProcFs
