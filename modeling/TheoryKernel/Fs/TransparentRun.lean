import TheoryKernel.Fs.Transparent
import TheoryKernel.Lib.Runs

/-! Runs of the virtual file system in which nobody can see the cache of names. -/

set_option maxRecDepth 8000

namespace TheoryKernel.Fs

open Stateful TmpFs Runs

open Stateful (GivesThat Keeps)
open TmpFs (Tree Allocs Adds Touches Removes Makes rootIno)

section Effects

variable {fs next : TmpFs} {dir child ino : BitVec 64} {name : Bytes} {entry : Dentry}

section

variable (serves : Serves fs entry)

include serves

theorem Serves.evolve (evolves : Evolves fs next)
    (answer : (next.entry entry.parent.ino entry.key = some entry.inode.ino ∧
        ∃ attr, next.attr? entry.inode.ino = some attr ∧ attr.generation = entry.generation) ∨
      (next.entry entry.parent.ino entry.key = none ∧ next.attr? entry.inode.ino = none)) :
    Serves next entry where
  parentHere := serves.parentHere.trans evolves.mountId.symm
  inodeHere := serves.inodeHere.trans evolves.mountId.symm
  parentOld := Nat.lt_of_lt_of_le serves.parentOld evolves.larger
  inodeOld := Nat.lt_of_lt_of_le serves.inodeOld evolves.larger
  text := serves.text
  directory := by
    intro attr found
    rcases evolves.kinds _ attr found with ⟨new, -⟩ | ⟨before, there, same⟩
    · exact absurd (new ▸ serves.parentOld) (Nat.lt_irrefl _)
    · rw [← same]
      exact serves.directory before there
  answer := answer

theorem Serves.inode_ne : entry.inode.ino ≠ fs.nextIno :=
  fun same => absurd (same ▸ serves.inodeOld) (Nat.lt_irrefl _)

theorem Serves.allocs (allocs : Allocs fs next) (room : fs.nextIno ≠ BitVec.allOnes 64) :
    Serves next entry := by
  apply serves.evolve (allocs.evolves room)
  rw [allocs.entry, allocs.kept _ serves.inode_ne]
  exact serves.answer

theorem Serves.adds (adds : Adds fs next dir name) (room : fs.nextIno ≠ BitVec.allOnes 64)
    (elsewhere : entry.inode.ino ≠ dir)
    (different : ¬ (entry.parent.ino = dir ∧ entry.key = name)) : Serves next entry := by
  apply serves.evolve (adds.evolves room)
  rw [adds.entry _ _ different, adds.kept _ serves.inode_ne elsewhere]
  exact serves.answer

theorem Serves.touches (touches : Touches fs next ino) (elsewhere : entry.inode.ino ≠ ino) :
    Serves next entry := by
  apply serves.evolve touches.evolves
  rw [touches.entry, touches.kept _ elsewhere]
  exact serves.answer

theorem Serves.removes (removes : Removes fs next dir name child) (tree : Tree fs)
    (top : dir = rootIno) : Serves next entry := by
  apply serves.evolve removes.evolves
  rcases serves.answer with ⟨named, attr, there, same⟩ | ⟨unnamed, gone⟩
  · by_cases removed : entry.inode.ino = child
    · -- The name of the file that is removed is the one that is taken away.
      obtain ⟨parent, key⟩ := tree.unique _ _ _ _ _ named (removed ▸ removes.named)
      right
      rw [parent, key, removed]
      exact ⟨removes.cleared, removes.gone⟩
    · left
      have inTop : entry.inode.ino ≠ dir := top ▸ tree.ne_root named
      refine ⟨?_, attr, ?_, same⟩
      · rw [removes.entry]
        · exact named
        · intro inside
          rw [inside] at named
          obtain ⟨node, found, _⟩ := Option.bind_eq_some_iff.mp named
          have known := attr?_of_inodes found
          rw [removes.empty _ known (serves.directory _ (inside ▸ known))] at named
          cases named
        · rintro ⟨parent, key⟩
          rw [parent, key, removes.named] at named
          exact removed (Option.some.inj named).symm
      · rw [removes.kept _ removed inTop, there]
  · -- A name that was not there is not there now.
    right
    constructor
    · cases left : next.entry entry.parent.ino entry.key with
      | none => rfl
      | some number => rw [removes.entry_of_next left] at unnamed; cases unnamed
    · by_cases removed : entry.inode.ino = child
      · rw [removed, removes.gone]
      · rw [removes.kept _ removed, gone]
        intro isDir
        obtain ⟨before, _, there, _⟩ := removes.directory
        rw [isDir, there] at gone
        cases gone

end

theorem Kept.evolve (kept : Kept fs) (evolves : Evolves fs next)
    (old : ∀ {dir name child}, next.entry dir name = some child → fs.entry dir name = some child) :
    Kept next := by
  refine ⟨evolves.tree kept.tree old, ?_⟩
  intro dir name child found
  rw [evolves.mountId]
  exact kept.plain dir name child (old found)

theorem Kept.adds (kept : Kept fs) (adds : Adds fs next dir name)
    (room : fs.nextIno ≠ BitVec.allOnes 64) (plain : isPlain ⟨fs.mountId, dir⟩ name = true) :
    Kept next := by
  refine ⟨adds.tree kept.tree room, ?_⟩
  intro other otherName child found
  rw [adds.mountId]
  by_cases new : other = dir ∧ otherName = name
  · rw [new.1, new.2, plain]
  · rw [adds.entry _ _ new] at found
    exact kept.plain other otherName child found

end Effects

namespace Vfs

variable {vfs start next : Vfs} {id : BitVec 32} {fs : TmpFs} {depth : Nat} {path name : Bytes}
  {inode parent made : InodeId}

/-- The cache tells what the directories would tell. -/
def Sound (vfs : Vfs) : Prop := Fs.Sound vfs.mounts vfs.cache

/-- The cache has grown by names that were looked up, and nothing else has happened. -/
structure Beside (start vfs : Vfs) : Prop where
  mounts : vfs.mounts = start.mounts
  grown : Grown start.mounts start.cache vfs.cache

theorem Sound.beside (sound : vfs.Sound) : Beside vfs vfs :=
  ⟨rfl, sound, fun _ member => .inl member⟩

theorem Beside.sound (beside : Beside start vfs) : vfs.Sound := by
  rw [Sound, beside.mounts]
  exact beside.grown.sound

theorem resolvePathAt_gives (depth : Nat) (path : Bytes) (followFinal : Bool) :
    GivesThat (Beside start) (Located start.mounts) (resolvePathAt depth path followFinal)
      (walkPathAt depth start path followFinal) := by
  have agree := fromKernelPath_gives
    (resolveAt_gives start.mounts start.cache followFinal depth) path
  refine ⟨fun vfs beside => ?_, agree.value⟩
  obtain ⟨cache, run, grown⟩ := agree.gives vfs.cache beside.grown
  refine ⟨{ vfs with cache := cache }, ?_, beside.mounts, grown⟩
  unfold resolvePathAt withCache
  rw [exec_lift, beside.mounts, run]
  rfl

theorem lookupParent_gives (path : Bytes) :
    GivesThat (Beside start) (fun place => ∃ attr, Located start.mounts ⟨place.1, attr⟩)
      (lookupParent depth path) (walkParent depth start path) :=
  lookupParentWith_gives (fun parent => resolvePathAt_gives depth parent true) path

section Changing

variable {after : TmpFs}

theorem Sound.change (sound : vfs.Sound) (mounted : mountFs vfs.mounts id = some fs)
    (kept : Kept after) {cache : DentryCache}
    (keep : ∀ entry ∈ cache, entry ∈ vfs.cache ∧
      (entry.parent.mount = id → entry.Findable → Serves fs entry → Serves after entry)) :
    Sound { vfs.putFs id after with cache := cache } := by
  constructor
  · intro other otherFs there
    by_cases here : other = id
    · subst here
      rw [mountFs_putFs_self mounted] at there
      cases there
      exact kept
    · rw [mountFs_putFs_of_ne here] at there
      exact sound.kept other otherFs there
  · intro entry member findable
    obtain ⟨before, change⟩ := keep entry member
    obtain ⟨entryFs, there, serves⟩ := sound.served entry before findable
    by_cases here : entry.parent.mount = id
    · rw [here, mounted] at there
      cases there
      exact ⟨after, by rw [here]; exact mountFs_putFs_self mounted after,
        change here findable serves⟩
    · exact ⟨entryFs, by rw [← there]; exact mountFs_putFs_of_ne here after, serves⟩

/-- No entry that can be found leads to a file. -/
def Unnamed (vfs : Vfs) (inode : InodeId) : Prop :=
  ∀ entry ∈ vfs.cache, entry.Findable → entry.inode ≠ inode

/-- Whether a name may be added: nothing is left of an older file of that name. -/
def isFresh (vfs : Vfs) (parent : InodeId) (name : Bytes) : Bool :=
  (vfs.cache.get parent name).isNone && isPlain parent name &&
    match mountFs vfs.mounts parent.mount with
    | some fs => fs.nextIno != BitVec.allOnes 64
    | none => true

/-- Whether a file may be made at a path. -/
def mayMake (depth : Nat) (vfs : Vfs) (path : Bytes) : Bool :=
  match walkParent depth vfs path with
  | .ok (parent, name) => vfs.isFresh parent name
  | .error _ => true

/-- How making a file at a path may end. -/
structure MakeEnds (depth : Nat) (vfs : Vfs) (path : Bytes)
    (outcome : Fallible FsError (InodeId × InodeId)) (next : Vfs) : Prop where
  sound : next.Sound
  unnamed : ∀ parent made, outcome = .ok (parent, made) → next.Unnamed made
  located : ∀ parent made, outcome = .ok (parent, made) →
    ∃ fs attr, mountFs next.mounts parent.mount = some fs ∧ fs.getattr made = .ok attr
  missing : outcome = .error (.error .notFound) →
    walkParent depth vfs path = .error (.error .notFound) ∧ Beside vfs next

theorem Sound.unnamed_nextIno (sound : vfs.Sound) (mounted : mountFs vfs.mounts id = some fs)
    (here : fs.mountId = id) : vfs.Unnamed ⟨fs.mountId, fs.nextIno⟩ := by
  intro entry member findable same
  obtain ⟨other, there, serves⟩ := sound.served entry member findable
  have mount : entry.parent.mount = id := by
    rw [serves.parentHere, ← serves.inodeHere, same, ← here]
  rw [mount, mounted] at there
  cases there
  have old := serves.inodeOld
  rw [same] at old
  exact Nat.lt_irrefl _ old

/-- A new name leaves the cache sound, since no entry was found for it. -/
theorem Beside.sound_adds (beside : Beside vfs next) (fresh : vfs.isFresh parent name = true)
    (mounted : mountFs vfs.mounts parent.mount = some fs) (here : parent.mount = fs.mountId)
    (adds : Adds fs after parent.ino name) :
    Sound { next.putFs parent.mount after with cache := next.cache.invalidateInode parent } := by
  have sound := beside.sound
  have mounted' : mountFs next.mounts parent.mount = some fs := beside.mounts ▸ mounted
  rw [isFresh, mounted] at fresh
  simp only [Bool.and_eq_true, Option.isNone_iff_eq_none, bne_iff_ne, ne_eq] at fresh
  obtain ⟨⟨missing, plain⟩, room⟩ := fresh
  have kept : Kept after := by
    apply (sound.kept _ _ mounted').adds adds room
    rw [← here]
    exact plain
  apply sound.change mounted' kept
  intro entry member
  obtain ⟨before, elsewhere⟩ := DentryCache.mem_of_mem_invalidate member
  refine ⟨before, fun mount findable serves => serves.adds adds room ?_ ?_⟩
  · intro same
    apply elsewhere
    have sameMount : entry.inode.mount = parent.mount := by rw [serves.inodeHere, here]
    exact InodeId.ext sameMount same
  · rintro ⟨dir, rfl⟩
    obtain rfl : entry.parent = parent := InodeId.ext mount dir
    rcases beside.grown.known entry before with old | known
    · -- An entry from before would have been found.
      have never := DentryCache.not_isFor_of_get missing old
      rw [DentryCache.isFor_iff.mpr ⟨rfl, findable, entry.length_key.symm, rfl⟩] at never
      cases never
    · exact known findable fs mounted adds.free

theorem Beside.sound_fails (beside : Beside vfs next) (fresh : vfs.isFresh parent name = true)
    (mounted : mountFs vfs.mounts parent.mount = some fs) (left : after = fs ∨ Allocs fs after) :
    Sound (next.putFs parent.mount after) := by
  have sound := beside.sound
  have mounted' : mountFs next.mounts parent.mount = some fs := beside.mounts ▸ mounted
  rcases left with rfl | allocs
  · rw [putFs_self mounted']
    exact sound
  · rw [isFresh, mounted] at fresh
    simp only [Bool.and_eq_true, bne_iff_ne, ne_eq] at fresh
    have room := fresh.2
    have kept : Kept after := (sound.kept _ _ mounted').evolve (allocs.evolves room)
      fun found => (allocs.entry ..).symm.trans found
    exact sound.change mounted' kept
      fun entry member => ⟨member, fun _ _ serves => serves.allocs allocs room⟩

/-- Making a file keeps the cache sound, and no entry leads to the new file. -/
theorem makeAt_ends {make : InodeId → Bytes → TmpFs → Fallible FsError InodeId × TmpFs}
    (makes : Makes make) (before : Beside start vfs) (may : mayMake depth start path = true) :
    MakeEnds depth start path ((makeAt depth path make).exec vfs).1
      ((makeAt depth path make).exec vfs).2 := by
  obtain ⟨mid, found, beside⟩ := (lookupParent_gives path).gives vfs before
  unfold makeAt
  cases walked : walkParent depth start path with
  | error failure =>
    rw [walked] at found
    rw [exec_bind_error found]
    refine ⟨beside.sound, ?_, ?_, ?_⟩
    · nofun
    · nofun
    · intro missing
      cases missing
      exact ⟨walked, beside⟩
  | ok place =>
    obtain ⟨parent, name⟩ := place
    rw [walked] at found
    rw [mayMake, walked] at may
    obtain ⟨attr, fs, mounted, there⟩ := (lookupParent_gives path).value _ walked
    have here := (getattr_eq_ok.mp there).1
    have mounted' : mountFs mid.mounts parent.mount = some fs := beside.mounts ▸ mounted
    have run := onFs_exec mounted' (make parent name)
    rw [exec_bind_ok found]
    dsimp only
    rcases makes fs parent name attr (beside.sound.kept _ _ mounted').tree there with
      ⟨failure, failed, other, left⟩ | ⟨madeThere, adds⟩
    · rw [failed] at run
      rw [exec_bind_error run]
      refine ⟨beside.sound_fails may mounted left, ?_, ?_, ?_⟩
      · nofun
      · nofun
      · intro missing
        cases missing
        exact absurd rfl other
    · rw [madeThere] at run
      rw [exec_bind_ok run]
      change MakeEnds depth start path (.ok (parent, _)) { mid.putFs parent.mount _ with
        cache := mid.cache.invalidateInode parent }
      refine ⟨beside.sound_adds may mounted here adds, ?_, ?_, ?_⟩
      · intro _ made same
        cases same
        intro entry member findable
        exact beside.sound.unnamed_nextIno mounted' here.symm entry
          (DentryCache.mem_of_mem_invalidate member).1 findable
      · intro _ made same
        cases same
        obtain ⟨attr, known⟩ := Option.isSome_iff_exists.mp adds.made
        exact ⟨_, attr, mountFs_putFs_self mounted' _,
          getattr_eq_ok.mpr ⟨adds.mountId.symm, known⟩⟩
      · nofun

end Changing

section Operations

variable {flags : OpenFlags} {file : OpenFile}

/-- How opening a file may end, if what is opened may be written to. -/
structure OpenEnds (outcome : Fallible FsError OpenFile) (next : Vfs) : Prop where
  sound : next.Sound
  unnamed : ∀ file, outcome = .ok file → next.Unnamed file.inode

theorem createFile_ends (flags : OpenFlags) (before : Beside start vfs)
    (may : mayMake depth start path = true) :
    OpenEnds ((createFile depth path flags).exec vfs).1
      ((createFile depth path flags).exec vfs).2 ∧
    (((createFile depth path flags).exec vfs).1 = .error (.error .notFound) →
      Beside start ((createFile depth path flags).exec vfs).2) := by
  have ends := makeAt_ends (makes_create .regular .defaultFile) before may
  unfold createFile
  rcases run : (makeAt depth path fun parent name =>
    create parent name .regular .defaultFile).exec vfs with ⟨outcome, next⟩
  rw [run] at ends
  cases outcome with
  | error failure =>
    rw [exec_bind_error run]
    refine ⟨⟨ends.sound, ?_⟩, ?_⟩
    · nofun
    · intro missing
      cases missing
      exact (ends.missing rfl).2
  | ok place =>
    obtain ⟨parent, made⟩ := place
    obtain ⟨fs, attr, mounted, there⟩ := ends.located parent made rfl
    -- The file that was made is still there when it is opened.
    have asked := ask_exec mounted fun fs => fs.getattr made
    rw [there] at asked
    rw [exec_bind_ok run]
    dsimp only
    rw [exec_bind_ok asked]
    refine ⟨⟨ends.sound, ?_⟩, ?_⟩
    · intro file same
      cases same
      exact ends.unnamed parent made rfl
    · nofun

/-- Whether a file may be opened: none is emptied, and one that is made has a fresh name. -/
def mayOpen (depth : Nat) (vfs : Vfs) (path : Bytes) (flags : OpenFlags) : Bool :=
  match walkPathAt depth vfs path (!flags.contains .nofollow) with
  | .ok resolved => !flags.contains .trunc || resolved.attr.fileType != .regular
  | .error failure =>
    !(failure = .error .notFound && flags.contains .creat) || mayMake depth vfs path

theorem finishOpen_of_not_regular {resolved : ResolvedInode}
    (located : Located vfs.mounts resolved) (emptied : flags.contains .trunc = true)
    (other : resolved.attr.fileType ≠ .regular) :
    (finishOpen resolved flags).exec vfs = (Fallible.fail .notFile, vfs) := by
  obtain ⟨fs, mounted, there⟩ := located
  have asked := ask_exec mounted fun fs => fs.getattr resolved.inode
  rw [there] at asked
  have valid : (revalidate resolved).exec vfs = (.ok (), vfs) := by
    unfold revalidate
    rw [exec_bind_ok asked, if_neg (not_not.mpr rfl)]
    rfl
  have cut := onFs_exec mounted (truncate resolved.inode 0)
  rw [truncate_of_not_regular 0 there other, putFs_self mounted] at cut
  unfold finishOpen
  dsimp only
  rw [if_pos emptied, exec_bind_ok valid, exec_bind_error cut]
  rfl

/-- Opening a path keeps the cache sound, whether it makes a file or not. -/
theorem openPath_ends (sound : vfs.Sound) (may : mayOpen depth vfs path flags = true) :
    ((openPath depth path flags).exec vfs).2.Sound ∧
    (flags.contains .trunc = true → OpenEnds ((openPath depth path flags).exec vfs).1
      ((openPath depth path flags).exec vfs).2) ∧
    (flags.contains .trunc = true → flags.contains .creat = true →
      ((openPath depth path flags).exec vfs).1 = .error (.error .notFound) →
        Beside vfs ((openPath depth path flags).exec vfs).2 ∧ mayMake depth vfs path = true) := by
  obtain ⟨mid, found, beside⟩ :=
    (resolvePathAt_gives depth path (!flags.contains .nofollow)).gives vfs sound.beside
  unfold openPath
  rw [exec_lift, found]
  unfold mayOpen at may
  cases walked : walkPathAt depth vfs path (!flags.contains .nofollow) with
  | ok resolved =>
    rw [walked] at may
    have located := (resolvePathAt_gives depth path _).value _ walked
    rw [← beside.mounts] at located
    dsimp only
    by_cases emptied : flags.contains .trunc = true
    · -- Only a file that is not regular may be asked to be emptied, and that fails.
      rw [emptied] at may
      rw [finishOpen_of_not_regular located emptied (by simpa using may)]
      refine ⟨beside.sound, fun _ => ⟨beside.sound, ?_⟩, ?_⟩
      · nofun
      · nofun
    · unfold finishOpen
      dsimp only
      rw [if_neg emptied]
      exact ⟨beside.sound, fun isEmptied => absurd isEmptied emptied,
        fun isEmptied => absurd isEmptied emptied⟩
  | error failure =>
    rw [walked] at may
    dsimp only
    by_cases making : failure = .error .notFound ∧ flags.contains .creat = true
    · rw [if_pos making]
      have mayMake : mayMake depth vfs path = true := by simpa [making] using may
      obtain ⟨ends, missing⟩ := createFile_ends flags beside mayMake
      exact ⟨ends.sound, fun _ => ends, fun _ _ failed => ⟨missing failed, mayMake⟩⟩
    · rw [if_neg making]
      refine ⟨beside.sound, fun _ => ⟨beside.sound, ?_⟩, ?_⟩
      · nofun
      · intro _ creates failed
        exact absurd ⟨Except.error.inj failed, creates⟩ making

/-- The cache is sound, and no entry leads to a file. -/
def Quiet (inode : InodeId) (vfs : Vfs) : Prop := vfs.Sound ∧ vfs.Unnamed inode

theorem ask_keeps {α : Type} {inv : Vfs → Prop} (id : BitVec 32)
    (question : TmpFs → Fallible FsError α) : Keeps inv (ask id question) := by
  intro vfs holds
  unfold ask
  rw [exec_lift]
  cases mountFs vfs.mounts id with
  | none => exact holds
  | some fs => cases answer : question fs <;> simpa only [answer] using holds

theorem onFs_write_keeps (offset : BitVec 64) (buf : Bytes) :
    Keeps (Quiet inode) (onFs inode.mount (write inode offset buf)) := by
  intro vfs ⟨sound, unnamed⟩
  cases mounted : mountFs vfs.mounts inode.mount with
  | none =>
    unfold onFs
    rw [exec_lift, mounted]
    exact ⟨sound, unnamed⟩
  | some fs =>
    have quiet : Quiet inode (vfs.putFs inode.mount (write inode offset buf fs).2) := by
      rcases write_cases fs inode offset buf with same | ⟨here, touches⟩
      · rw [same, putFs_self mounted]
        exact ⟨sound, unnamed⟩
      · have kept := (sound.kept _ _ mounted).evolve touches.evolves
          fun found => (touches.entry ..).symm.trans found
        refine ⟨sound.change mounted kept ?_, unnamed⟩
        intro entry member
        refine ⟨member, fun mount findable serves => serves.touches touches ?_⟩
        intro same
        have sameMount : entry.inode.mount = inode.mount := by rw [serves.inodeHere, here]
        exact unnamed entry member findable (InodeId.ext sameMount same)
    rw [onFs_exec mounted]
    cases (write inode offset buf fs).1 <;> exact quiet

theorem writeRest_keeps (data : Bytes) (rounds offset : Nat) :
    Keeps (Quiet inode) (writeRest inode data rounds offset) := by
  induction rounds generalizing offset with
  | zero => exact fun _ quiet => quiet
  | succ rounds ih =>
    rw [writeRest]
    split
    · refine (onFs_write_keeps _ _).bind fun count => ?_
      split
      · exact fun _ quiet => quiet
      · exact ih (offset + count)
    · exact fun _ quiet => quiet

theorem writeFile_keeps (buf : Bytes) : Keeps (Quiet file.inode) (writeFile file buf) := by
  refine (ask_keeps _ _).bind fun attr => ?_
  split
  · exact fun _ quiet => quiet
  · have valid : Keeps (Quiet file.inode) (revalidate ⟨file.inode, attr⟩) := by
      refine (ask_keeps _ _).bind fun again => ?_
      split <;> exact fun _ quiet => quiet
    refine valid.bind fun _ => (onFs_write_keeps _ buf).bind fun count => ?_
    exact (ask_keeps _ _).bind fun after => fun _ quiet => quiet

theorem writePath_sound (data : Bytes) (create : Bool) (sound : vfs.Sound)
    (may : mayOpen depth vfs path (writeFlags create) = true) :
    ((writePath depth path data create).exec vfs).2.Sound := by
  have emptied : (writeFlags create).contains .trunc = true := by cases create <;> rfl
  obtain ⟨-, ends, missing⟩ := openPath_ends sound may
  unfold writePath
  rw [exec_lift]
  rcases run : (openPath depth path (writeFlags create)).exec vfs with ⟨outcome, next⟩
  rw [run] at ends missing
  cases outcome with
  | ok file =>
    exact ((writeRest_keeps data _ 0).state
      ⟨(ends emptied).sound, (ends emptied).unnamed file rfl⟩).1
  | error failure =>
    dsimp only
    split
    · -- The file is tried to be made once more, and its directory is still not found.
      rename_i again
      obtain ⟨rfl, rfl⟩ := again
      obtain ⟨beside, mayMake⟩ := missing emptied rfl rfl
      obtain ⟨made, -⟩ := createFile_ends (writeFlags true) beside mayMake
      rcases second : (createFile depth path (writeFlags true)).exec next with ⟨outcome, last⟩
      rw [second] at made
      cases outcome with
      | error failure =>
        rw [exec_bind_error second]
        exact made.sound
      | ok file =>
        rw [exec_bind_ok second]
        exact ((writeRest_keeps data _ 0).state ⟨made.sound, made.unnamed file rfl⟩).1
    · exact (ends emptied).sound

/-- Whether a file may be removed: it is in the topmost directory, or it is not there. -/
def mayUnlink (depth : Nat) (vfs : Vfs) (path : Bytes) : Bool :=
  match walkParent depth vfs path with
  | .error _ => true
  | .ok (parent, name) =>
    parent.ino = rootIno ||
      match mountFs vfs.mounts parent.mount with
      | none => true
      | some fs => (fs.entry parent.ino name).isNone

theorem sysUnlink_sound (sound : vfs.Sound) (may : mayUnlink depth vfs path = true) :
    ((sysUnlink depth path).exec vfs).2.Sound := by
  obtain ⟨mid, found, beside⟩ := (lookupParent_gives path).gives vfs sound.beside
  unfold sysUnlink
  cases walked : walkParent depth vfs path with
  | error failure =>
    rw [walked] at found
    rw [exec_bind_error found]
    exact beside.sound
  | ok place =>
    obtain ⟨parent, name⟩ := place
    rw [walked] at found
    obtain ⟨attr, fs, mounted, there⟩ := (lookupParent_gives path).value _ walked
    have mounted' : mountFs mid.mounts parent.mount = some fs := beside.mounts ▸ mounted
    have kept := beside.sound.kept _ _ mounted'
    -- If there is such a name then its directory is the topmost one.
    have top : ∀ child, fs.entry parent.ino name = some child → parent.ino = rootIno := by
      intro child named
      rw [mayUnlink, walked] at may
      dsimp only at may
      rw [mounted] at may
      simpa [named] using may
    rw [exec_bind_ok found]
    dsimp only
    rw [onFs_exec mounted']
    have other : ∀ child, fs.entry parent.ino name = some child → child ≠ parent.ino :=
      fun child named => top child named ▸ kept.tree.ne_root named
    rcases unlink_cases other with same | ⟨child, removes⟩
    · rw [same, putFs_self mounted']
      exact beside.sound
    · have left := kept.evolve removes.evolves removes.entry_of_next
      exact beside.sound.change mounted' left fun entry member =>
        ⟨member, fun _ _ serves => serves.removes removes kept.tree (top child removes.named)⟩

end Operations

/-- The operations on files. -/
inductive Op where
  | resolve (path : Bytes) (followFinal : Bool)
  | openPath (path : Bytes) (flags : OpenFlags)
  | writeFile (file : OpenFile) (buf : Bytes)
  | writePath (path data : Bytes) (create : Bool)
  | mkdir (path : Bytes)
  | symlink (link target : Bytes)
  | unlink (path : Bytes)

namespace Op

/-- The code of an operation. Its result is not kept. -/
def code (depth : Nat) : Op → Code Unit
  | .resolve path followFinal => do let _ ← resolvePathAt depth path followFinal; return ()
  | .openPath path flags => do let _ ← Vfs.openPath depth path flags; return ()
  | .writeFile file buf => do let _ ← Vfs.writeFile file buf; return ()
  | .writePath path data create => Vfs.writePath depth path data create
  | .mkdir path => mkdirPath depth path
  | .symlink link target => symlinkPath depth link target
  | .unlink path => sysUnlink depth path

/--
Whether an operation leaves no entry behind that is out of date.

No file is changed that an entry leads to, a name that is made has no entry of an older file, and
files are removed from the topmost directory only, to which no entry leads.
-/
def isQuiet (depth : Nat) (vfs : Vfs) : Op → Bool
  | .resolve _ _ => true
  | .openPath path flags => mayOpen depth vfs path flags
  | .writeFile file _ =>
    !vfs.cache.entries.any fun slot => slot.any fun entry => entry.inode = file.inode
  | .writePath path _ create => mayOpen depth vfs path (writeFlags create)
  | .mkdir path => mayMake depth vfs path
  | .symlink link _ => mayMake depth vfs link
  | .unlink path => mayUnlink depth vfs path

end Op

/-- One operation, which returns with or without an error. -/
def step (depth : Nat) (vfs : Vfs) (op : Op) : Exec Vfs :=
  match (op.code depth).exec vfs with
  | (.error (.fault stopped), _) => .error stopped
  | (_, next) => .ok next

variable {op : Op}

theorem step_eq_ok (stepped : step depth vfs op = .ok next) :
    ((op.code depth).exec vfs).2 = next := by
  unfold step at stepped
  split at stepped
  · cases stepped
  · rename_i run
    rw [run]
    exact Except.ok.inj stepped

theorem exec_discard {α : Type} (code : Code α) :
    ((do let _ ← code; return () : Code Unit).exec vfs).2 = (code.exec vfs).2 := by
  rw [exec_bind]
  rcases code.exec vfs with ⟨outcome, after⟩
  cases outcome with
  | ok value | error failure => rfl

theorem code_sound (sound : vfs.Sound) (quiet : op.isQuiet depth vfs = true) :
    ((op.code depth).exec vfs).2.Sound := by
  cases op with
  | resolve path followFinal =>
    obtain ⟨mid, found, beside⟩ :=
      (resolvePathAt_gives depth path followFinal).gives vfs sound.beside
    rw [Op.code, exec_discard, found]
    exact beside.sound
  | openPath path flags =>
    rw [Op.code, exec_discard]
    exact (openPath_ends sound quiet).1
  | writeFile file buf =>
    rw [Op.code, exec_discard]
    refine ((writeFile_keeps buf).state ⟨sound, ?_⟩).1
    intro entry member _ same
    simp only [Op.isQuiet, Bool.not_eq_true', List.any_eq_false] at quiet
    exact quiet _ member (by simp [same])
  | writePath path data create => exact writePath_sound data create sound quiet
  | mkdir path =>
    rw [Op.code, mkdirPath, exec_discard]
    exact (makeAt_ends (makes_create .directory .defaultDir) sound.beside quiet).sound
  | symlink link target =>
    rw [Op.code, symlinkPath, exec_discard]
    exact (makeAt_ends (makes_symlink target .defaultFile) sound.beside quiet).sound
  | unlink path => exact sysUnlink_sound sound quiet

theorem sound_mounted (points : List (Bytes × BitVec 32)) : (mounted points).Sound := by
  constructor
  · intro id fs there
    obtain ⟨mount, found, rfl⟩ := Option.map_eq_some_iff.mp there
    obtain ⟨point, _, rfl⟩ := List.mem_map.mp (List.mem_of_getElem? found)
    refine ⟨tree_new _, ?_⟩
    intro dir name child named
    rw [entry_new] at named
    cases named
  · intro entry member
    exact absurd member DentryCache.not_mem_new

/--
In a run whose operations leave no entry behind that is out of date, the cache cannot be seen.

Whatever the path is, resolving it leads to the same file with the same attributes, or to the same
error, as looking up its names in the directories from the mount on.
-/
theorem resolvePathAt_eq_walk (depth : Nat) (points : List (Bytes × BitVec 32)) (ops : List Op)
    (final : Vfs)
    (quiet : everyStep (step depth) (fun vfs op => op.isQuiet depth vfs) (mounted points) ops =
      true)
    (returned : run (step depth) (mounted points) ops = .ok final) (room : Nat) (path : Bytes)
    (followFinal : Bool) :
    ((resolvePathAt room path followFinal).exec final).1 =
      walkPathAt room final path followFinal := by
  have sound : final.Sound := by
    refine holds_of_run Vfs.Sound ?_ (sound_mounted points) quiet returned
    intro vfs op next sound quiet stepped
    rw [← step_eq_ok stepped]
    exact code_sound sound quiet
  obtain ⟨after, run, _⟩ :=
    (resolvePathAt_gives room path followFinal).gives final sound.beside
  rw [run]

/-- One file system, mounted at the top. -/
def oneMount : Vfs := mounted [([], 0)]

/-- A file in the topmost directory. -/
def topFile : Bytes := [slash, 0x61]

/-- A directory in the topmost one. -/
def topDir : Bytes := [slash, 0x64]

/-- The path of a file in that directory. -/
def fileIn (name : BitVec 8) : Bytes := topDir ++ [slash, name]

/-- A directory is made and a file in it, and another file is made and removed. -/
def sampleOps : List Op :=
  [.mkdir topDir, .writePath (fileIn 0x61) [1] true, .resolve (fileIn 0x61) true,
    .openPath topFile .creat, .resolve topFile true, .unlink topFile]

/-- None of the sample operations leaves an entry behind that is out of date. -/
theorem sampleOps_eq_walk : ∃ final, run (step 2) oneMount sampleOps = .ok final ∧
    ((resolvePathAt 2 (fileIn 0x61) true).exec final).1 =
      walkPathAt 2 final (fileIn 0x61) true := by
  have quiet : everyStep (step 2) (fun vfs op => op.isQuiet 2 vfs) oneMount sampleOps = true :=
    by decide
  have passed : passes (fun _ => True) (run (step 2) oneMount sampleOps) = true := by
    decide
  obtain ⟨final, returned, -⟩ := exists_of_passes passed
  exact ⟨final, returned, resolvePathAt_eq_walk 2 _ sampleOps final quiet returned 2 _ true⟩

/-- A name that is longer than what is kept of it, and that has the same number as the rest. -/
def longName : Bytes :=
  List.replicate 64 0x61 ++
    [0x4e, 0x4c, 0x59, 0x4e, 0x57, 0x5b, 0x5b, 0x51, 0x4f, 0x48, 0x4e, 0x49, 0x4d, 0x58]

/--
Runs behind which resolving a path fails, or leads elsewhere, although the directories have it.

A file is removed and made again, a file is written to after its path was resolved, a file is
removed from a directory that was resolved, and the first bytes of a long name are looked up.
-/
theorem resolvePathAt_ne_walk :
    (∃ final, run (step 2) oneMount [.openPath topFile .creat, .resolve topFile true,
        .unlink topFile, .openPath topFile .creat] = .ok final ∧
      ((resolvePathAt 2 topFile true).exec final).1 = Fallible.fail .notFound ∧
      (walkPathAt 2 final topFile true).toOption.map (·.inode) = some ⟨0, 3⟩) ∧
    (∃ final, run (step 2) oneMount [.openPath topFile .creat, .resolve topFile true,
        .writeFile ⟨⟨0, 2⟩, 0, .wronly, 1⟩ [1]] = .ok final ∧
      ((resolvePathAt 2 topFile true).exec final).1 = Fallible.fail .notDir ∧
      (walkPathAt 2 final topFile true).toOption.map (·.inode) = some ⟨0, 2⟩) ∧
    (∃ final, run (step 2) oneMount [.mkdir topDir, .openPath (fileIn 0x61) .creat,
        .openPath (fileIn 0x62) .creat, .unlink (fileIn 0x61)] = .ok final ∧
      ((resolvePathAt 2 (fileIn 0x62) true).exec final).1 = Fallible.fail .notFound ∧
      (walkPathAt 2 final (fileIn 0x62) true).toOption.map (·.inode) = some ⟨0, 4⟩) ∧
    ∃ final, run (step 2) oneMount [.openPath (slash :: longName) .creat,
        .resolve (slash :: longName) true] = .ok final ∧
      ((resolvePathAt 2 (slash :: longName.take 64) true).exec final).1.toOption.map (·.inode) =
        some ⟨0, 2⟩ ∧
      walkPathAt 2 final (slash :: longName.take 64) true = Fallible.fail .notFound :=
  ⟨exists_of_passes (by decide), exists_of_passes (by decide),
    exists_of_passes (by decide), exists_of_passes (by decide)⟩

end Vfs

end TheoryKernel.Fs
