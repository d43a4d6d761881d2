import TheoryKernel.Proc.ExecImage

/-! The stack that a new program finds, and the arguments for which it cannot be built. -/

namespace TheoryKernel.Proc

open Mm ByteMemory List

section Pages

variable {table : PageTable} {roots : Set Nat} {machine changed : Machine} {addr length : Nat}

theorem writeUserLoop_wrote {written budget : Nat} (bytes : Nat → BitVec 8)
    (backed : Backed table addr (addr + length) machine) (small : addr + length < 2 ^ 64)
    (progress : written ≤ length) (enough : length - written ≤ budget) :
    ∃ changed, writeUserLoop table addr length bytes budget written machine = (.ok (), changed) ∧
      Wrote table (addr + written) (length - written) (fun index => bytes (written + index))
        machine changed := by
  induction budget generalizing written machine with
  | zero =>
    have finished : length - written = 0 := by omega
    rw [finished]
    exact ⟨machine, rfl, .nothing table _ _ machine⟩
  | succ budget ih =>
    rw [writeUserLoop]
    by_cases more : written < length
    · -- One page is written, and the loop goes on behind it.
      have here : wrapAdd addr written = addr + written := wrapAdd_eq (by omega)
      obtain ⟨phys, found, -⟩ := backed.mapped (addr + written) (by omega) (by omega)
      obtain ⟨target, resolved, physEq⟩ := Option.map_eq_some_iff.mp found
      have offset : addr + written - alignDown (addr + written) pageSize =
          (addr + written) % pageSize := by
        unfold alignDown pageSize
        omega
      obtain ⟨count, countEq⟩ : ∃ count,
          min (pageSize - (addr + written) % pageSize) (length - written) = count := ⟨_, rfl⟩
      have inPage : (addr + written) % pageSize < pageSize := Nat.mod_lt _ (by decide)
      have within := backed.mono (Nat.le_add_right addr written)
        (by omega : addr + written + count ≤ addr + length)
      have first := wrote_page (fun index => bytes (written + index)) within (by omega) found
        (by omega)
      obtain ⟨changed, run, rest⟩ := ih (backed.wrote first)
        (by omega : written + count ≤ length) (by omega)
      refine ⟨changed, ?_, ?_⟩
      · rw [if_pos more]
        simp only [here, offset, countEq, PageTable.resolve_alignDown, resolved, physEq]
        exact run
      · have parts : length - written = count + (length - (written + count)) := by omega
        rw [parts]
        apply Wrote.append (backed.mono (Nat.le_add_right addr written) (by omega)) first
        have place : addr + (written + count) = addr + written + count := by omega
        rw [place] at rest
        simpa only [Nat.add_assoc] using rest
    · rw [if_neg more]
      have finished : length - written = 0 := by omega
      rw [finished]
      exact ⟨machine, rfl, .nothing table _ _ machine⟩

/-- Bytes are written to a range whose pages are mapped to frames of their own. -/
theorem writeUserRegion_wrote (bytes : Nat → BitVec 8)
    (backed : Backed table addr (addr + length) machine) (small : addr + length < 2 ^ 64) :
    ∃ changed, writeUserRegion table addr length bytes machine = (.ok (), changed) ∧
      Wrote table addr length bytes machine changed := by
  obtain ⟨changed, run, wrote⟩ := writeUserLoop_wrote bytes backed small (Nat.zero_le length)
    (Nat.le_refl (length - 0))
  simp only [Nat.zero_add] at wrote
  exact ⟨changed, run, wrote⟩

theorem mapStackLoop_ok {bottom : Nat} {indices : List Nat}
    (exclusive : Exclusive table roots machine)
    (mapped : mapStackLoop table bottom indices machine = (.ok (), changed)) :
    Exclusive table roots changed ∧
      (∀ virt, table.translate virt machine ≠ none → table.translate virt changed ≠ none) ∧
      ∀ index ∈ indices, ∀ virt, pageNumber virt = pageNumber (bottom + index * pageSize) →
        table.translate virt changed ≠ none := by
  induction indices generalizing machine with
  | nil =>
    cases mapped
    exact ⟨exclusive, fun _ found => found, fun _ inside => absurd inside not_mem_nil⟩
  | cons index rest ih =>
    rw [mapStackLoop] at mapped
    split at mapped
    · cases mapped
    · rename_i frame allocated served
      split at mapped
      · -- The new page is mapped, and the loop keeps it.
        rename_i after run
        obtain ⟨exclusive', -, -, translate⟩ := exclusive.mapFresh served
          (by unfold IsFlags stackFlags; decide) (by decide) run
        obtain ⟨final, kept, pages⟩ := ih exclusive' mapped
        refine ⟨final, ?_, ?_⟩
        · intro virt found
          apply kept
          rw [translate virt]
          split
          · exact Option.some_ne_none _
          · exact found
        · intro other member virt here
          rcases mem_cons.mp member with rfl | later
          · apply kept
            rw [translate virt, if_pos here]
            exact Option.some_ne_none _
          · exact pages other later virt here
      · cases mapped

theorem mapUserStack_backed {space final : AddressSpace}
    (exclusive : Exclusive space.pageTable roots machine)
    (mapped : mapUserStack space machine = (.ok (), final, changed)) :
    final.pageTable = space.pageTable ∧
      Backed space.pageTable (userStackTop - regionSize) userStackTop changed := by
  unfold mapUserStack at mapped
  simp only at mapped
  split at mapped
  · cases mapped
  · rename_i areas added
    generalize loop : mapStackLoop space.pageTable (userStackTop - regionSize)
      (List.range stackPages) machine = outcome at mapped
    obtain ⟨result, after⟩ := outcome
    cases mapped
    obtain ⟨exclusive', -, pages⟩ := mapStackLoop_ok exclusive loop
    refine ⟨rfl, exclusive'.backed (by decide) ?_⟩
    intro virt above below
    unfold userStackTop regionSize stackPages pageSize at *
    apply pages ((virt - (0x700000000000 - 16 * 4096)) / 4096) (mem_range.mpr (by omega))
    unfold pageNumber
    omega

end Pages

/-- A pointer into the stack, to a string with its terminator. -/
def PointsToString (memory : Memory) (pointer : Nat) (string : Bytes) : Prop :=
  userStackTop - regionSize ≤ pointer ∧ pointer + string.length < userStackTop ∧
    StringAt memory pointer string

/--
The tables of a stack.

From the stack pointer upwards there are the number of arguments, the pointers to them and a null,
the pointers to the environment and a null, and the auxiliary vector with its last entry.
-/
structure StartTables (memory : Memory) (sp argGap envGap : Nat) (argv envp : List Bytes)
    (argPtrs envPtrs : List Nat) (entries : List (Nat × Nat)) : Prop where
  argc : loadWord memory sp = BitVec.ofNat 64 argv.length
  args : WordsAt memory (sp + 8 + argGap) (argPtrs ++ [0])
  envs : WordsAt memory (sp + 8 + argGap + 8 * (argv.length + 1) + envGap) (envPtrs ++ [0])
  auxv : WordsAt memory
    (sp + 8 + argGap + 8 * (argv.length + 1) + envGap + 8 * (envp.length + 1))
    ((entries.flatMap fun entry => [entry.1, entry.2]) ++ [atNull, 0])
  tags : ∀ entry ∈ entries, entry.1 ≠ atNull
  argStrings : List.Forall₂ (PointsToString memory) argPtrs argv
  envStrings : List.Forall₂ (PointsToString memory) envPtrs envp

/-- The stack with which a program has to start: aligned, and without gaps between the tables. -/
def StartupStack (memory : Memory) (sp : Nat) (argv envp : List Bytes) : Prop :=
  sp % 16 = 0 ∧ ∃ argPtrs envPtrs entries,
    StartTables memory sp 0 0 argv envp argPtrs envPtrs entries

section Layout

variable {table : PageTable} {machine changed : Machine} {argv envp : List Bytes}
  {launch : Launch} {execfn : Bytes} {sp : Nat}

theorem auxWords_entries (launch : Launch) (strings : Strings) :
    ∃ entries : List (Nat × Nat),
      auxWords launch strings = (entries.flatMap fun entry => [entry.1, entry.2]) ++ [atNull, 0] ∧
      ∀ entry ∈ entries, entry.1 ≠ atNull := by
  have reversed : ∀ entries : List (Nat × Nat),
      (entries.flatMap fun entry => [entry.2, entry.1]).reverse =
        entries.reverse.flatMap fun entry => [entry.1, entry.2] := by
    intro entries
    induction entries with
    | nil => rfl
    | cons entry entries ih =>
      rw [flatMap_cons, reverse_append, ih, @List.reverse_cons _ entry, flatMap_append]
      rfl
  have tags : ∀ tag ∈ (auxEntries launch.loaded launch.cred strings.execfnAddr
      strings.randomAddr).tail.map Prod.fst, tag ≠ atNull := by
    unfold auxEntries
    cases launch.loaded.isDynamic with
    | true =>
      exact (by decide : ∀ tag ∈ [atExecfn, atRandom, atSecure, atEgid, atEuid, atGid, atUid, atBase,
        atEntry, atPagesz, atPhnum, atPhent, atPhdr], tag ≠ atNull)
    | false =>
      exact (by decide : ∀ tag ∈ [atExecfn, atRandom, atSecure, atEgid, atEuid, atGid, atUid,
        atEntry, atPagesz, atPhnum, atPhent, atPhdr], tag ≠ atNull)
  refine ⟨(auxEntries launch.loaded launch.cred strings.execfnAddr
    strings.randomAddr).tail.reverse, ?_, ?_⟩
  · rw [auxWords, reversed, auxEntries]
    simp [flatMap_append]
  · intro entry member
    exact tags entry.1 (mem_map_of_mem (mem_reverse.mp member))

/-- The upper part of the image was copied to the stack. -/
def Copied (image : Image) (low : Nat) (memory : Memory) : Prop :=
  ∀ position, low ≤ position → position < regionSize →
    memory (userStackTop - regionSize + position) = image position

section Copy

variable {image : Image} {memory : Memory} {low offset : Nat} (copied : Copied image low memory)

include copied

theorem Copied.loadWord_eq (above : low ≤ offset) (below : offset + 8 ≤ regionSize) :
    loadWord memory (userStackTop - regionSize + offset) = loadWord image offset := by
  apply assemble_congr
  intro index inside
  rw [Nat.add_assoc]
  exact copied (offset + index) (by omega) (by omega)

theorem Copied.wordsAt {words : List Nat} (at_ : WordsAt image offset words)
    (above : low ≤ offset) (below : offset + 8 * words.length ≤ regionSize) :
    WordsAt memory (userStackTop - regionSize + offset) words := by
  intro index inside
  rw [← at_ index inside, Nat.add_assoc]
  exact copied.loadWord_eq (by omega) (by omega)

theorem Copied.strings {pointers : List Nat} {strings : List Bytes}
    (points : List.Forall₂ (Points (userStackTop - regionSize) low image) pointers strings) :
    List.Forall₂ (PointsToString memory) pointers strings := by
  have top : userStackTop - regionSize + regionSize = userStackTop := by decide
  apply points.imp
  rintro pointer string ⟨above, below, content, terminator⟩
  -- The pointer is a place of the image above its lower end.
  obtain ⟨position, rfl⟩ := Nat.exists_eq_add_of_le (by omega :
    userStackTop - regionSize ≤ pointer)
  rw [Nat.add_sub_cancel_left] at content terminator
  refine ⟨by omega, by omega, ?_, ?_⟩
  · intro index inside
    rw [← content index inside, Nat.add_assoc]
    exact copied (position + index) (by omega) (by omega)
  · rw [← terminator, Nat.add_assoc]
    exact copied (position + string.length) (by omega) (by omega)

end Copy

theorem roomy_userStack : Roomy (userStackTop - regionSize) regionSize :=
  ⟨by decide, by decide, by decide, Nat.le_refl _⟩

theorem tablesNeed_mod (argc envc : Nat) {aux : Nat} (even : aux % 2 = 0) :
    tablesNeed argc envc aux % 16 = 8 := by
  unfold tablesNeed gap
  split <;> split <;> omega

theorem stackNeed_mod (argv envp : List Bytes) (loaded : Elf.LoadedElf) (execfn : Bytes) :
    stackNeed argv envp loaded execfn % 16 = 8 := by
  have strings := allStringsNeed_even argv envp execfn
  have even : auxCount loaded % 2 = 0 := by
    unfold auxCount
    split <;> rfl
  have tables := tablesNeed_mod argv.length envp.length even
  unfold stackNeed
  omega

theorem buildStackOn_fits (backed : Backed table (userStackTop - regionSize) userStackTop machine)
    (fits : stackNeed argv envp launch.loaded execfn ≤ regionSize) :
    ∃ strings image changed, buildStackOn table userStackTop argv envp launch execfn machine =
        .ok (.ok (userStackTop - stackNeed argv envp launch.loaded execfn), changed) ∧
      Copied image (regionSize - stackNeed argv envp launch.loaded execfn)
        (table.userMemory changed) ∧
      StackLayout image (regionSize - stackNeed argv envp launch.loaded execfn) strings.argPtrs
        strings.envPtrs (auxWords launch strings) ∧
      List.Forall₂ (Points (userStackTop - regionSize)
        (regionSize - stackNeed argv envp launch.loaded execfn) image) strings.argPtrs argv ∧
      List.Forall₂ (Points (userStackTop - regionSize)
        (regionSize - stackNeed argv envp launch.loaded execfn) image) strings.envPtrs envp := by
  obtain ⟨strings, image, built, layout, args, envs⟩ := buildImage_fits roomy_userStack launch fits
  generalize stackNeed argv envp launch.loaded execfn = need at *
  have top : userStackTop - regionSize + regionSize = userStackTop := by decide
  have high : userStackTop < 2 ^ 63 := by decide
  have spEq : userStackTop - regionSize + (regionSize - need) = userStackTop - need := by omega
  rw [top, spEq] at built
  have offset : wrapSub (userStackTop - need) (userStackTop - regionSize) = regionSize - need := by
    rw [wrapSub_eq (by omega) (by omega)]
    omega
  have length : regionSize - (regionSize - need) = need := by omega
  have stop : userStackTop - need + need = userStackTop := by omega
  have within : Backed table (userStackTop - need) (userStackTop - need + need) machine :=
    backed.mono (by omega) (by omega)
  obtain ⟨changed, run, wrote⟩ := writeUserRegion_wrote
    (fun index => image (regionSize - need + index)) within (by omega)
  refine ⟨strings, image, changed, ?_, ?_, layout, args, envs⟩
  · rw [buildStackOn, built]
    simp only [offset, length]
    rw [if_pos (by omega), run]
  · intro position above below
    have written := wrote.inside (position - (regionSize - need)) (by omega)
    have place : userStackTop - need + (position - (regionSize - need)) =
        userStackTop - regionSize + position := by omega
    have index : regionSize - need + (position - (regionSize - need)) = position := by omega
    rw [place, index] at written
    rw [PageTable.userMemory, written]
    rfl

theorem buildStackOn_ok
    (built : buildStackOn table userStackTop argv envp launch execfn machine =
      .ok (.ok sp, changed)) : stackNeed argv envp launch.loaded execfn ≤ regionSize := by
  unfold buildStackOn at built
  split at built
  · cases built
  · cases built
  · rename_i image run
    by_contra excess
    exact (buildImage_over roomy_userStack launch (by omega)).never _ run

/--
The stack of a program never starts at a multiple of sixteen.

Everything is on it, but there is a gap below the pointers to an even number of arguments, and one
below the pointers to an even number of strings of the environment.
-/
theorem startup_stack_is_shifted
    (backed : Backed table (userStackTop - regionSize) userStackTop machine)
    (built : buildStackOn table userStackTop argv envp launch execfn machine =
      .ok (.ok sp, changed)) :
    sp % 16 = 8 ∧ ¬ StartupStack (table.userMemory changed) sp argv envp ∧
      ∃ argPtrs envPtrs entries, StartTables (table.userMemory changed) sp (gap argv.length)
        (gap envp.length) argv envp argPtrs envPtrs entries := by
  have fits := buildStackOn_ok built
  obtain ⟨strings, image, changed', run, copied, layout, args, envs⟩ := buildStackOn_fits backed fits
  cases built.symm.trans run
  obtain ⟨entries, auxEq, tags⟩ := auxWords_entries launch strings
  have argLength := args.length_eq
  have envLength := envs.length_eq
  have auxLength := auxWords_length launch strings
  have top : userStackTop - regionSize + regionSize = userStackTop := by decide
  obtain ⟨argc, argv_, envp_, auxv⟩ := layout
  rw [argLength] at argc argv_ envp_ auxv
  rw [envLength] at envp_ auxv
  -- The room of the stack is that of its strings and tables.
  have needEq : stackNeed argv envp launch.loaded execfn = allStringsNeed argv envp execfn +
      (8 + gap argv.length + 8 * (argv.length + 1) + gap envp.length + 8 * (envp.length + 1) +
        8 * auxCount launch.loaded) := rfl
  have whole : userStackTop % 16 = 0 := by decide
  have needMod := stackNeed_mod argv envp launch.loaded execfn
  generalize stackNeed argv envp launch.loaded execfn = need at *
  have spEq : userStackTop - need = userStackTop - regionSize + (regionSize - need) := by omega
  have shifted : (userStackTop - need) % 16 = 8 := by omega
  refine ⟨shifted, ?_, strings.argPtrs, strings.envPtrs, entries, ?_, ?_, ?_, ?_, tags,
    copied.strings args, copied.strings envs⟩
  · rintro ⟨aligned, -⟩
    omega
  · rw [spEq, copied.loadWord_eq (Nat.le_refl _) (by omega), argc]
  · have at_ := copied.wordsAt argv_ (by omega) (by
      rw [length_append, argLength, length_singleton]
      omega)
    rw [spEq]
    simpa only [Nat.add_assoc] using at_
  · have at_ := copied.wordsAt envp_ (by omega) (by
      rw [length_append, envLength, length_singleton]
      omega)
    rw [spEq]
    simpa only [Nat.add_assoc] using at_
  · have at_ := copied.wordsAt auxv (by omega) (by
      rw [auxLength]
      omega)
    rw [spEq, ← auxEq]
    simpa only [Nat.add_assoc] using at_

/-- A program without a dynamic loader. -/
def plainLaunch : Launch where
  loaded := ⟨0x400000, 0x400040, 1, 56, 0, false⟩
  cred := Credentials.root
  tsc := 0
  tick := 0

/-- The new address space with its stack. -/
def stackSpace : Except ExecError Unit × AddressSpace × Machine :=
  mapUserStack newSpace.1 newSpace.2

/-- The pages of the stack are mapped to frames of their own. -/
theorem backed_stackSpace : Backed stackSpace.2.1.pageTable (userStackTop - regionSize)
    userStackTop stackSpace.2.2 := by
  have done : stackSpace.1.isOk = true := by decide +kernel
  have mapped : mapUserStack newSpace.1 newSpace.2 = (.ok (), stackSpace.2.1, stackSpace.2.2) := by
    change stackSpace = _
    generalize stackSpace = outcome at done
    obtain ⟨result, space, machine⟩ := outcome
    cases result with
    | ok _ => rfl
    | error _ => cases done
  obtain ⟨tableEq, backed⟩ := mapUserStack_backed newSpace_exclusive mapped
  rw [tableEq]
  exact backed

/-- Two arguments and a string of the environment start in the middle of a block. -/
theorem startup_stack_is_shifted_two :
    ∃ sp changed, buildStackOn stackSpace.2.1.pageTable userStackTop [[97], [98, 99]] [[61]]
        plainLaunch [97] stackSpace.2.2 = .ok (.ok sp, changed) ∧ sp % 16 = 8 := by
  obtain ⟨strings, image, changed, run, -⟩ := buildStackOn_fits backed_stackSpace (by decide :
    stackNeed [[97], [98, 99]] [[61]] plainLaunch.loaded [97] ≤ regionSize)
  exact ⟨_, changed, run, (startup_stack_is_shifted backed_stackSpace run).1⟩

/-- The stack of a program with a single argument is not the stack it has to start with. -/
theorem single_argument_stack_is_wrong :
    ∃ sp changed, buildStackOn stackSpace.2.1.pageTable userStackTop [[97]] [] plainLaunch [97]
        stackSpace.2.2 = .ok (.ok sp, changed) ∧
      ¬ StartupStack (stackSpace.2.1.pageTable.userMemory changed) sp [[97]] [] := by
  obtain ⟨strings, image, changed, run, -⟩ := buildStackOn_fits backed_stackSpace (by decide :
    stackNeed [[97]] [] plainLaunch.loaded [97] ≤ regionSize)
  refine ⟨_, changed, run, ?_⟩
  rintro ⟨aligned, -⟩
  exact absurd aligned (by decide)

/--
The arguments for which a stack is built or refused.

In all other cases the kernel is stopped by a range of the image that is reversed.
-/
theorem build_stack_returns_iff
    (backed : Backed table (userStackTop - regionSize) userStackTop machine)
    (short : ∀ string ∈ argv ++ envp, string.length ≤ 254) (nameShort : execfn.length ≤ 254) :
    (∃ result changed,
        buildStackOn table userStackTop argv envp launch execfn machine = .ok (result, changed) ∧
        (result = .error .tooBig ∨ ∃ sp, result = .ok sp)) ↔
      stackNeed argv envp launch.loaded execfn ≤ regionSize ∨ Refused argv envp execfn := by
  by_cases fits : stackNeed argv envp launch.loaded execfn ≤ regionSize
  · obtain ⟨strings, image, changed, run, -⟩ := buildStackOn_fits backed fits
    exact iff_of_true ⟨_, _, run, .inr ⟨_, rfl⟩⟩ (.inl fits)
  · have top : userStackTop - regionSize + regionSize = userStackTop := by decide
    obtain ⟨refused, run⟩ | ⟨goes, fault, run⟩ := (buildImage_over roomy_userStack
      launch (by omega)).ends ⟨short, nameShort⟩
    · rw [top] at run
      refine iff_of_true ⟨_, machine, ?_, .inl rfl⟩ (.inr refused)
      rw [buildStackOn, run]
      rfl
    · rw [top] at run
      refine iff_of_false ?_ (not_or.mpr ⟨fits, goes⟩)
      rintro ⟨result, changed, returned, -⟩
      rw [buildStackOn, run] at returned
      cases returned

/-- Two arguments and a string of the environment are no problem. -/
theorem build_stack_returns_iff_two :
    ∃ result changed, buildStackOn stackSpace.2.1.pageTable userStackTop [[97], [98, 99]] [[61]]
        plainLaunch [97] stackSpace.2.2 = .ok (result, changed) ∧
      (result = .error .tooBig ∨ ∃ sp, result = .ok sp) :=
  (build_stack_returns_iff backed_stackSpace (by decide) (by decide)).mpr (.inl (by decide))

/-- As many strings as a program can pass on, of 239 bytes each. -/
def longStrings : List Bytes := List.replicate 257 (List.replicate 239 97)

theorem stringsNeed_replicate (count : Nat) :
    stringsNeed (List.replicate count (List.replicate 239 97)) = 240 * count := by
  have each : stringNeed (List.replicate 239 97) = 240 := by
    rw [stringNeed, length_replicate]
  induction count with
  | zero => rfl
  | succ count ih =>
    rw [replicate_succ, stringsNeed_cons, ih, each]
    omega

theorem not_refused_longStrings : ¬ Refused longStrings longStrings [97] := by
  have size : regionSize = 65536 := by decide
  rintro (⟨before, string, after, split, full, -⟩ | ⟨full, -⟩)
  · rw [longStrings, reverse_replicate, replicate_append_replicate] at split
    have same : before = List.replicate before.length (List.replicate 239 97) := by
      apply eq_replicate_of_mem
      intro other member
      have inside : other ∈ List.replicate (257 + 257) (List.replicate 239 (97 : BitVec 8)) := by
        rw [split]
        exact mem_append_left _ member
      exact eq_of_mem_replicate inside
    rw [same, stringsNeed_replicate, size] at full
    omega
  · rw [longStrings, stringsNeed_replicate, size] at full
    omega

/-- As many arguments and strings of the environment as a program can pass on stop the kernel. -/
theorem long_arguments_stop_the_kernel :
    ∃ fault, buildStackOn stackSpace.2.1.pageTable userStackTop longStrings longStrings plainLaunch
      [97] stackSpace.2.2 = .error fault := by
  have top : userStackTop - regionSize + regionSize = userStackTop := by decide
  have size : regionSize = 65536 := by decide
  have need : stringsNeed longStrings = 240 * 257 := stringsNeed_replicate 257
  have short : ∀ string ∈ longStrings ++ longStrings, string.length ≤ 254 := by
    intro string member
    rw [longStrings, replicate_append_replicate] at member
    rw [eq_of_mem_replicate member, length_replicate]
    decide
  have excess : regionSize < stackNeed longStrings longStrings plainLaunch.loaded [97] := by
    rw [stackNeed, allStringsNeed, need, size]
    omega
  obtain ⟨refused, -⟩ | ⟨-, fault, run⟩ :=
    (buildImage_over roomy_userStack plainLaunch excess).ends ⟨short, by decide⟩
  · exact absurd refused not_refused_longStrings
  · rw [top] at run
    refine ⟨fault, ?_⟩
    rw [buildStackOn, run]
    rfl

end Layout

end TheoryKernel.Proc
