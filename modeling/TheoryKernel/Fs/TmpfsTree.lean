import TheoryKernel.Fs.Tmpfs

/-! What each operation of the file system in memory changes, and how its numbers are given out. -/

namespace TheoryKernel.Fs.TmpFs

open Fallible

/-- The attributes of a file, if there is such a file. -/
def attr? (fs : TmpFs) (ino : BitVec 64) : Option InodeAttr := (fs.inodes ino).map TmpInode.attr

/-- The file that a name in a directory stands for. -/
def entry (fs : TmpFs) (dir : BitVec 64) (name : Bytes) : Option (BitVec 64) :=
  (fs.inodes dir).bind fun node => node.children.lookup name

section Reading

variable {fs : TmpFs} {ino : BitVec 64} {node : TmpInode} {inode dir : InodeId} {name : Bytes}
  {attr : InodeAttr}

/-- The attributes are those of the file. -/
theorem attr?_of_inodes (found : fs.inodes ino = some node) : fs.attr? ino = some node.attr := by
  rw [attr?, found]
  rfl

theorem inodes_of_attr? (found : fs.attr? ino = some attr) :
    ∃ node, fs.inodes ino = some node ∧ node.attr = attr :=
  Option.map_eq_some_iff.mp found

theorem entry_of_inodes (found : fs.inodes ino = some node) (name : Bytes) :
    fs.entry ino name = node.children.lookup name := by
  rw [entry, found]
  rfl

/-- A file is known by its attributes. -/
theorem getattr_eq_ok : fs.getattr inode = .ok attr ↔
    inode.mount = fs.mountId ∧ fs.attr? inode.ino = some attr := by
  unfold getattr id attr?
  by_cases here : inode.mount = fs.mountId
  · rw [if_neg (not_not.mpr here), ok_bind]
    cases fs.inodes inode.ino with
    | none => simp [fail]
    | some node => simp [here]
  · rw [if_pos here]
    simp [fail, here]

/-- A missing file is not found. -/
theorem getattr_of_missing (missing : fs.attr? inode.ino = none) :
    fs.getattr inode = fail .notFound := by
  unfold getattr id
  split
  · rfl
  · rw [ok_bind, Option.map_eq_none_iff.mp missing]

/-- A name is found in a directory that has it. -/
theorem lookup_eq_ok : fs.lookup dir name = .ok inode ↔
    dir.mount = fs.mountId ∧ isUtf8 name = true ∧
      (∃ attr, fs.attr? dir.ino = some attr ∧ attr.fileType = .directory) ∧
      ∃ child, fs.entry dir.ino name = some child ∧ inode = ⟨fs.mountId, child⟩ := by
  unfold lookup id attr? entry
  by_cases here : dir.mount = fs.mountId
  · rw [if_neg (not_not.mpr here), ok_bind]
    by_cases text : isUtf8 name = true
    · rw [text, if_neg (by decide)]
      cases fs.inodes dir.ino with
      | none => simp [fail]
      | some node =>
        by_cases directory : node.attr.fileType = .directory
        · cases named : node.children.lookup name with
          | none => simp [fail, directory, named]
          | some child => simp [directory, here, named, eq_comm]
        · simp [fail, directory]
    · simp [fail, text]
  · rw [if_pos here]
    simp [fail, here]

/-- A name that a directory does not have is not found, even if the directory is missing. -/
theorem lookup_of_missing (text : isUtf8 name = true)
    (directory : ∀ attr, fs.attr? dir.ino = some attr → attr.fileType = .directory)
    (missing : fs.entry dir.ino name = none) : fs.lookup dir name = fail .notFound := by
  unfold lookup id
  split
  · rfl
  · rw [ok_bind, text, if_neg (by decide)]
    cases found : fs.inodes dir.ino with
    | none => rfl
    | some node =>
      rw [entry_of_inodes found] at missing
      simp only [directory _ (attr?_of_inodes found), missing, ne_eq, not_true_eq_false, if_false]

end Reading

section Writing

variable (fs : TmpFs) (ino : BitVec 64) (node : Option TmpInode)

@[simp] theorem put_inodes_self : (fs.put ino node).inodes ino = node := Function.update_self ..

variable {other : BitVec 64}

theorem put_inodes_of_ne (different : other ≠ ino) :
    (fs.put ino node).inodes other = fs.inodes other := Function.update_of_ne different ..

theorem attr?_put_self : (fs.put ino node).attr? ino = node.map TmpInode.attr := by
  rw [attr?, put_inodes_self]

theorem attr?_put_of_ne (different : other ≠ ino) :
    (fs.put ino node).attr? other = fs.attr? other := by
  rw [attr?, put_inodes_of_ne fs ino node different, attr?]

theorem entry_put_self (name : Bytes) :
    (fs.put ino node).entry ino name = node.bind fun node => node.children.lookup name := by
  rw [entry, put_inodes_self]

theorem entry_put_of_ne (different : other ≠ ino) (name : Bytes) :
    (fs.put ino node).entry other name = fs.entry other name := by
  rw [entry, put_inodes_of_ne fs ino node different, entry]

end Writing

/-- The numbers of the files: which are in use, and what names stand for. -/
structure Tree (fs : TmpFs) : Prop where
  started : rootIno.toNat < fs.nextIno.toNat
  used : ∀ ino attr, fs.attr? ino = some attr → ino.toNat < fs.nextIno.toNat
  named : ∀ dir name child, fs.entry dir name = some child →
    rootIno.toNat < child.toNat ∧ child.toNat < fs.nextIno.toNat
  unique : ∀ dir name dir' name' child, fs.entry dir name = some child →
    fs.entry dir' name' = some child → dir = dir' ∧ name = name'

theorem new_inodes_of_ne {mountId : BitVec 32} {ino : BitVec 64} (different : ino ≠ rootIno) :
    (new mountId).inodes ino = none := by
  dsimp only [new]
  rw [Function.update_of_ne different]

/-- A new file system has no names. -/
theorem entry_new (mountId : BitVec 32) (dir : BitVec 64) (name : Bytes) :
    (new mountId).entry dir name = none := by
  by_cases root : dir = rootIno
  · subst root
    rfl
  · rw [entry, new_inodes_of_ne root]
    rfl

/-- The numbers of a new file system are in order. -/
theorem tree_new (mountId : BitVec 32) : (new mountId).Tree := by
  have first : rootIno.toNat < (rootIno + 1).toNat := by decide
  refine ⟨first, ?_, ?_, ?_⟩
  · intro ino attr found
    by_cases root : ino = rootIno
    · subst root
      exact first
    · rw [attr?, new_inodes_of_ne root] at found
      cases found
  · intro dir name child found
    rw [entry_new] at found
    cases found
  · intro dir name dir' name' child found
    rw [entry_new] at found
    cases found

/-- A file was made that no directory names. -/
structure Allocs (fs next : TmpFs) : Prop where
  mountId : next.mountId = fs.mountId
  nextIno : next.nextIno = fs.nextIno + 1
  kept : ∀ ino, ino ≠ fs.nextIno → next.attr? ino = fs.attr? ino
  entry : ∀ dir name, next.entry dir name = fs.entry dir name

/-- A file was made under a new name in a directory. -/
structure Adds (fs next : TmpFs) (dir : BitVec 64) (name : Bytes) : Prop where
  mountId : next.mountId = fs.mountId
  nextIno : next.nextIno = fs.nextIno + 1
  kept : ∀ ino, ino ≠ fs.nextIno → ino ≠ dir → next.attr? ino = fs.attr? ino
  made : (next.attr? fs.nextIno).isSome
  directory : ∃ before after, fs.attr? dir = some before ∧ next.attr? dir = some after ∧
    before.fileType = .directory ∧ after.fileType = .directory
  free : fs.entry dir name = none
  named : next.entry dir name = some fs.nextIno
  entry : ∀ other otherName, ¬ (other = dir ∧ otherName = name) →
    next.entry other otherName = fs.entry other otherName

/-- The contents of a file were changed. -/
structure Touches (fs next : TmpFs) (ino : BitVec 64) : Prop where
  mountId : next.mountId = fs.mountId
  nextIno : next.nextIno = fs.nextIno
  kept : ∀ other, other ≠ ino → next.attr? other = fs.attr? other
  sameType : ∃ before after, fs.attr? ino = some before ∧ next.attr? ino = some after ∧
    after.fileType = before.fileType
  entry : ∀ dir name, next.entry dir name = fs.entry dir name

/-- A file was removed from a directory. -/
structure Removes (fs next : TmpFs) (dir : BitVec 64) (name : Bytes) (child : BitVec 64) :
    Prop where
  mountId : next.mountId = fs.mountId
  nextIno : next.nextIno = fs.nextIno
  kept : ∀ ino, ino ≠ child → ino ≠ dir → next.attr? ino = fs.attr? ino
  gone : next.attr? child = none
  directory : ∃ before after, fs.attr? dir = some before ∧ next.attr? dir = some after ∧
    before.fileType = .directory ∧ after.fileType = .directory
  named : fs.entry dir name = some child
  empty : ∀ attr, fs.attr? child = some attr → attr.fileType = .directory →
    ∀ inside, fs.entry child inside = none
  cleared : next.entry dir name = none
  childless : ∀ inside, next.entry child inside = none
  entry : ∀ other otherName, other ≠ child → ¬ (other = dir ∧ otherName = name) →
    next.entry other otherName = fs.entry other otherName

section Changes

variable {fs next : TmpFs} {dir child ino : BitVec 64} {name : Bytes}

theorem toNat_nextIno_succ (room : fs.nextIno ≠ BitVec.allOnes 64) :
    (fs.nextIno + 1).toNat = fs.nextIno.toNat + 1 := by
  have small : fs.nextIno.toNat ≠ 2 ^ 64 - 1 := by
    intro last
    exact room (BitVec.eq_of_toNat_eq (last.trans BitVec.toNat_allOnes.symm))
  have bound := fs.nextIno.isLt
  rw [BitVec.toNat_add]
  change (fs.nextIno.toNat + 1) % 2 ^ 64 = _
  omega

theorem Tree.ne_nextIno (tree : Tree fs) {attr : InodeAttr} (found : fs.attr? ino = some attr) :
    ino ≠ fs.nextIno := by
  rintro rfl
  exact Nat.lt_irrefl _ (tree.used _ _ found)

theorem Tree.entry_nextIno (tree : Tree fs) (name : Bytes) : fs.entry fs.nextIno name = none := by
  cases found : fs.inodes fs.nextIno with
  | none => rw [TmpFs.entry, found]; rfl
  | some node => exact absurd rfl (tree.ne_nextIno (attr?_of_inodes found))

/-- No name stands for the topmost directory. -/
theorem Tree.ne_root (tree : Tree fs) (named : fs.entry dir name = some child) :
    child ≠ rootIno := by
  rintro rfl
  exact Nat.lt_irrefl _ (tree.named _ _ _ named).1

theorem allocs_allocInode (tree : Tree fs) (fileType : FileType) (mode : InodeMode) :
    Allocs fs (fs.allocInode fileType mode) := by
  refine ⟨rfl, rfl, ?_, ?_⟩
  · intro ino different
    exact attr?_put_of_ne _ _ _ different
  · intro dir name
    by_cases new : dir = fs.nextIno
    · rw [new, tree.entry_nextIno]
      exact entry_put_self ..
    · exact entry_put_of_ne _ _ _ new name

/-- What every change keeps: the numbers only grow, and a file stays of the kind it is. -/
structure Evolves (fs next : TmpFs) : Prop where
  mountId : next.mountId = fs.mountId
  larger : fs.nextIno.toNat ≤ next.nextIno.toNat
  kinds : ∀ ino attr, next.attr? ino = some attr →
    (ino = fs.nextIno ∧ ino.toNat < next.nextIno.toNat) ∨
      ∃ before, fs.attr? ino = some before ∧ before.fileType = attr.fileType

theorem Evolves.used (evolves : Evolves fs next) (tree : Tree fs) :
    ∀ ino attr, next.attr? ino = some attr → ino.toNat < next.nextIno.toNat := by
  intro ino attr found
  rcases evolves.kinds ino attr found with ⟨-, below⟩ | ⟨before, there, -⟩
  · exact below
  · exact Nat.lt_of_lt_of_le (tree.used ino before there) evolves.larger

/-- The numbers stay in order if every name was there before. -/
theorem Evolves.tree (evolves : Evolves fs next) (tree : Tree fs)
    (old : ∀ {dir name child}, next.entry dir name = some child → fs.entry dir name = some child) :
    Tree next where
  started := Nat.lt_of_lt_of_le tree.started evolves.larger
  used := evolves.used tree
  named := fun dir name child found =>
    (tree.named dir name child (old found)).imp_right (Nat.lt_of_lt_of_le · evolves.larger)
  unique := fun _ _ _ _ _ first second => tree.unique _ _ _ _ _ (old first) (old second)

/-- A file that nobody names is one more file. -/
theorem Allocs.evolves (allocs : Allocs fs next) (room : fs.nextIno ≠ BitVec.allOnes 64) :
    Evolves fs next := by
  have larger := toNat_nextIno_succ room
  rw [← allocs.nextIno] at larger
  refine ⟨allocs.mountId, by omega, fun ino attr found => ?_⟩
  by_cases new : ino = fs.nextIno
  · exact .inl ⟨new, by rw [new]; omega⟩
  · exact .inr ⟨attr, allocs.kept ino new ▸ found, rfl⟩

/-- A file under a new name is one more file, and its directory stays one. -/
theorem Adds.evolves (adds : Adds fs next dir name) (room : fs.nextIno ≠ BitVec.allOnes 64) :
    Evolves fs next := by
  have larger := toNat_nextIno_succ room
  rw [← adds.nextIno] at larger
  refine ⟨adds.mountId, by omega, fun ino attr found => ?_⟩
  by_cases new : ino = fs.nextIno
  · exact .inl ⟨new, by rw [new]; omega⟩
  · right
    by_cases changed : ino = dir
    · obtain ⟨before, after, there, still, was, is⟩ := adds.directory
      rw [changed, still] at found
      cases found
      exact ⟨before, changed ▸ there, was.trans is.symm⟩
    · exact ⟨attr, adds.kept ino new changed ▸ found, rfl⟩

/-- The numbers stay in order when a file is made under a new name. -/
theorem Adds.tree (adds : Adds fs next dir name) (tree : Tree fs)
    (room : fs.nextIno ≠ BitVec.allOnes 64) : Tree next := by
  have evolves := adds.evolves room
  have larger := toNat_nextIno_succ room
  rw [← adds.nextIno] at larger
  have started := tree.started
  -- A name is the new one, which stands for the new number, or one from before.
  have cases : ∀ other otherName child, next.entry other otherName = some child →
      (other = dir ∧ otherName = name ∧ child = fs.nextIno) ∨
        fs.entry other otherName = some child := by
    intro other otherName child found
    by_cases new : other = dir ∧ otherName = name
    · obtain ⟨rfl, rfl⟩ := new
      rw [adds.named] at found
      exact .inl ⟨rfl, rfl, (Option.some.inj found).symm⟩
    · rw [adds.entry other otherName new] at found
      exact .inr found
  refine ⟨by omega, evolves.used tree, ?_, ?_⟩
  · intro other otherName child found
    rcases cases other otherName child found with ⟨_, _, rfl⟩ | old
    · omega
    · have := tree.named other otherName child old
      omega
  · intro dir₁ name₁ dir₂ name₂ child found₁ found₂
    rcases cases dir₁ name₁ child found₁ with ⟨rfl, rfl, rfl⟩ | old₁
    · rcases cases dir₂ name₂ _ found₂ with ⟨rfl, rfl, _⟩ | old₂
      · exact ⟨rfl, rfl⟩
      · exact absurd (tree.named _ _ _ old₂).2 (Nat.lt_irrefl _)
    · rcases cases dir₂ name₂ child found₂ with ⟨rfl, rfl, rfl⟩ | old₂
      · exact absurd (tree.named _ _ _ old₁).2 (Nat.lt_irrefl _)
      · exact tree.unique _ _ _ _ _ old₁ old₂

/-- A file with other contents stays of its kind. -/
theorem Touches.evolves (touches : Touches fs next ino) : Evolves fs next := by
  refine ⟨touches.mountId, Nat.le_of_eq (congrArg _ touches.nextIno.symm), ?_⟩
  intro other attr found
  right
  by_cases changed : other = ino
  · obtain ⟨before, after, there, still, same⟩ := touches.sameType
    rw [changed, still] at found
    cases found
    exact ⟨before, changed ▸ there, same.symm⟩
  · exact ⟨attr, touches.kept other changed ▸ found, rfl⟩

/-- A name that is left behind a removal was there before. -/
theorem Removes.entry_of_next (removes : Removes fs next dir name child) {other : BitVec 64}
    {otherName : Bytes} {number : BitVec 64} (found : next.entry other otherName = some number) :
    fs.entry other otherName = some number := by
  by_cases inside : other = child
  · rw [inside, removes.childless] at found
    cases found
  · by_cases removed : other = dir ∧ otherName = name
    · rw [removed.1, removed.2, removes.cleared] at found
      cases found
    · rwa [removes.entry other otherName inside removed] at found

/-- The files that are left behind a removal stay of their kinds. -/
theorem Removes.evolves (removes : Removes fs next dir name child) : Evolves fs next := by
  refine ⟨removes.mountId, Nat.le_of_eq (congrArg _ removes.nextIno.symm), ?_⟩
  intro ino attr found
  right
  by_cases removed : ino = child
  · rw [removed, removes.gone] at found
    cases found
  · by_cases changed : ino = dir
    · obtain ⟨before, after, there, still, was, is⟩ := removes.directory
      rw [changed, still] at found
      cases found
      exact ⟨before, changed ▸ there, was.trans is.symm⟩
    · exact ⟨attr, removes.kept ino removed changed ▸ found, rfl⟩

end Changes

section Operations

variable {fs : TmpFs} {dir inode : InodeId} {name : Bytes} {attr : InodeAttr}

theorem id_of_getattr (there : fs.getattr inode = .ok attr) :
    fs.id inode = .ok inode.ino := by
  rw [id, if_neg (not_not.mpr (getattr_eq_ok.mp there).1)]

/-- How making a file in a directory that is there may end. -/
def Makes (make : InodeId → Bytes → TmpFs → Fallible FsError InodeId × TmpFs) : Prop :=
  ∀ fs dir name attr, Tree fs → fs.getattr dir = .ok attr →
    (∃ failure, (make dir name fs).1 = .error failure ∧ failure ≠ .error .notFound ∧
      ((make dir name fs).2 = fs ∨ Allocs fs (make dir name fs).2)) ∨
    ((make dir name fs).1 = .ok ⟨fs.mountId, fs.nextIno⟩ ∧
      Adds fs (make dir name fs).2 dir.ino name)

/-- Making a file fails without a trace, leaves a file that nobody names, or succeeds. -/
theorem makes_create (fileType : FileType) (mode : InodeMode) :
    Makes fun dir name => create dir name fileType mode := by
  intro fs dir name attr tree there
  have allocs := allocs_allocInode tree fileType mode
  -- The directory is an older file than the one that is made.
  obtain ⟨node, found, -⟩ := inodes_of_attr? (getattr_eq_ok.mp there).2
  have old : dir.ino ≠ fs.nextIno := tree.ne_nextIno (attr?_of_inodes found)
  have still : (fs.allocInode fileType mode).inodes dir.ino = some node :=
    (put_inodes_of_ne _ _ _ old).trans found
  dsimp only [create]
  rw [id_of_getattr there]
  dsimp only
  split
  · exact .inl ⟨_, rfl, by simp, .inl rfl⟩
  · rw [still]
    dsimp only
    by_cases directory : node.attr.fileType = .directory
    · rw [if_neg (not_not.mpr directory)]
      cases free : node.children.lookup name with
      | some child => exact .inl ⟨_, rfl, by simp, .inr allocs⟩
      | none =>
        refine .inr ⟨rfl, rfl, rfl, ?_, ?_, ?_, ?_, ?_, ?_⟩
        · intro ino new changed
          exact (attr?_put_of_ne _ _ _ changed).trans (allocs.kept ino new)
        · rw [if_neg (by simp), attr?_put_of_ne _ _ _ old.symm, allocInode, attr?_put_self]
          rfl
        · exact ⟨node.attr, _, attr?_of_inodes found, attr?_put_self .., directory, directory⟩
        · rw [entry_of_inodes found, free]
        · rw [if_neg (by simp), entry_put_self]
          exact AList.lookup_insert _
        · intro other otherName different
          rw [if_neg (by simp)]
          by_cases changed : other = dir.ino
          · subst changed
            rw [entry_put_self, entry_of_inodes found]
            exact AList.lookup_insert_ne fun same => different ⟨rfl, same⟩
          · rw [entry_put_of_ne _ _ _ changed, allocs.entry]
    · rw [if_pos directory]
      exact .inl ⟨_, rfl, by simp, .inr allocs⟩

theorem touches_put {ino : BitVec 64} {node other : TmpInode} (found : fs.inodes ino = some node)
    (sameType : other.attr.fileType = node.attr.fileType)
    (sameNames : other.children = node.children) : Touches fs (fs.put ino (some other)) ino := by
  refine ⟨rfl, rfl, fun _ => attr?_put_of_ne _ _ _, ?_, ?_⟩
  · exact ⟨_, _, attr?_of_inodes found, attr?_put_self .., sameType⟩
  · intro dir name
    by_cases changed : dir = ino
    · subst changed
      rw [entry_put_self, entry_of_inodes found, ← sameNames]
      rfl
    · exact entry_put_of_ne _ _ _ changed name

/-- Making a link is making a file and filling it. -/
theorem makes_symlink (target : Bytes) (mode : InodeMode) :
    Makes fun dir name => symlink dir name target mode := by
  intro fs dir name attr tree there
  have outcome := makes_create .symlink mode fs dir name attr tree there
  dsimp only [symlink] at outcome ⊢
  rcases run : create dir name .symlink mode fs with ⟨result, next⟩
  rw [run] at outcome
  rcases outcome with ⟨failure, failed, other, left⟩ | ⟨made, adds⟩
  · cases failed
    exact .inl ⟨failure, rfl, other, left⟩
  · cases made
    have old : dir.ino ≠ fs.nextIno := tree.ne_nextIno (getattr_eq_ok.mp there).2
    -- The file that was made is found again under its number.
    obtain ⟨found, here⟩ := Option.isSome_iff_exists.mp adds.made
    obtain ⟨node, inside, -⟩ := inodes_of_attr? here
    dsimp only at inside ⊢
    rw [inside]
    have touches : Touches next (next.put fs.nextIno (some (node.setTarget target))) fs.nextIno :=
      touches_put inside rfl rfl
    refine .inr ⟨rfl, touches.mountId.trans adds.mountId, touches.nextIno.trans adds.nextIno, ?_,
      ?_, ?_, adds.free, (touches.entry _ _).trans adds.named, ?_⟩
    · intro ino new changed
      exact (touches.kept ino new).trans (adds.kept ino new changed)
    · obtain ⟨_, after, _, there, _⟩ := touches.sameType
      rw [there]
      rfl
    · obtain ⟨before, after, there, still, types⟩ := adds.directory
      exact ⟨before, after, there, (touches.kept _ old).trans still, types⟩
    · intro other otherName different
      exact (touches.entry _ _).trans (adds.entry other otherName different)

/-- Writing to a file changes that file, or nothing. -/
theorem write_cases (fs : TmpFs) (inode : InodeId) (offset : BitVec 64) (buf : Bytes) :
    (write inode offset buf fs).2 = fs ∨
      inode.mount = fs.mountId ∧ Touches fs (write inode offset buf fs).2 inode.ino := by
  dsimp only [write]
  unfold id
  by_cases here : inode.mount = fs.mountId
  · rw [if_neg (not_not.mpr here)]
    dsimp only
    cases found : fs.inodes inode.ino with
    | none => exact .inl rfl
    | some node =>
      dsimp only
      split
      · exact .inl rfl
      · split
        · exact .inl rfl
        · exact .inr ⟨here, touches_put found rfl rfl⟩
  · rw [if_pos here]
    exact .inl rfl

/-- Only a regular file can be cut. -/
theorem truncate_of_not_regular (size : BitVec 64) (there : fs.getattr inode = .ok attr)
    (other : attr.fileType ≠ .regular) : truncate inode size fs = (.fail .notFile, fs) := by
  obtain ⟨node, found, rfl⟩ := inodes_of_attr? (getattr_eq_ok.mp there).2
  dsimp only [truncate]
  rw [id_of_getattr there]
  dsimp only
  rw [found]
  dsimp only
  rw [if_pos other]

theorem removes_put {dir child : BitVec 64} {node childNode : TmpInode}
    (found : fs.inodes dir = some node) (directory : node.attr.fileType = .directory)
    (named : node.children.lookup name = some child) (there : fs.inodes child = some childNode)
    (removable : ¬ (childNode.attr.fileType = .directory ∧ childNode.children.entries ≠ []))
    (different : child ≠ dir) :
    Removes fs (((fs.put dir (some (node.unlink name))).put child none).put dir
      (some (node.unlink name).bump)) dir name child := by
  refine ⟨rfl, rfl, ?_, ?_, ?_, ?_, ?_, ?_, ?_, ?_⟩
  · intro ino removed changed
    rw [attr?_put_of_ne _ _ _ changed, attr?_put_of_ne _ _ _ removed,
      attr?_put_of_ne _ _ _ changed]
  · rw [attr?_put_of_ne _ _ _ different, attr?_put_self]
    rfl
  · exact ⟨node.attr, _, attr?_of_inodes found, attr?_put_self .., directory, directory⟩
  · rw [entry_of_inodes found, named]
  · -- A directory is removed only if nothing is in it.
    intro attr known isDirectory inside
    rw [attr?_of_inodes there] at known
    cases known
    have empty : childNode.children = ∅ := by
      apply AList.ext
      by_contra full
      exact removable ⟨isDirectory, full⟩
    rw [entry_of_inodes there, empty, AList.lookup_empty]
  · rw [entry_put_self]
    exact AList.lookup_erase _ _
  · intro inside
    rw [entry_put_of_ne _ _ _ different, entry_put_self]
    rfl
  · intro other otherName outside kept
    by_cases changed : other = dir
    · subst changed
      rw [entry_put_self, entry_of_inodes found]
      exact AList.lookup_erase_ne fun same => kept ⟨rfl, same⟩
    · rw [entry_put_of_ne _ _ _ changed, entry_put_of_ne _ _ _ outside,
        entry_put_of_ne _ _ _ changed]

/-- Removing a file takes it out of its directory, or changes nothing. -/
theorem unlink_cases (other : ∀ child, fs.entry dir.ino name = some child → child ≠ dir.ino) :
    (unlink dir name fs).2 = fs ∨
      ∃ child, Removes fs (unlink dir name fs).2 dir.ino name child := by
  dsimp only [unlink]
  by_cases here : dir.mount = fs.mountId
  · rw [id, if_neg (not_not.mpr here)]
    dsimp only
    by_cases text : isUtf8 name = true
    · rw [text, if_neg (by decide)]
      cases found : fs.inodes dir.ino with
      | none => exact .inl rfl
      | some node =>
        dsimp only
        by_cases directory : node.attr.fileType = .directory
        · rw [if_neg (not_not.mpr directory)]
          cases named : node.children.lookup name with
          | none => exact .inl rfl
          | some child =>
            dsimp only
            have different : child ≠ dir.ino :=
              other child ((entry_of_inodes found name).trans named)
            cases there : fs.inodes child with
            | none => exact .inl rfl
            | some childNode =>
              dsimp only
              split
              · exact .inl rfl
              · rename_i removable
                -- The directory itself is still there behind the removal.
                have still : ((fs.put dir.ino (some (node.unlink name))).put child none).inodes
                    dir.ino = some (node.unlink name) := by
                  rw [put_inodes_of_ne _ _ _ different.symm, put_inodes_self]
                rw [still]
                exact .inr ⟨child, removes_put found directory named there removable different⟩
        · rw [if_pos directory]
          exact .inl rfl
    · rw [if_pos (by simpa using text)]
      exact .inl rfl
  · rw [id, if_pos here]
    exact .inl rfl

end Operations

end TheoryKernel.Fs.TmpFs
