import TheoryKernel.Proc.ExecStack

/-! When the image of a new stack can be built, and what is in it. -/

namespace TheoryKernel.Proc

open Mm ByteMemory List Fallible

section Room

variable {strings before after : List Bytes} {room : Nat}

theorem stringsNeed_reverse (strings : List Bytes) :
    stringsNeed strings.reverse = stringsNeed strings := by
  rw [stringsNeed, stringsNeed, map_reverse, sum_reverse]

theorem StopsFull.lt (stops : StopsFull strings room) : room < stringsNeed strings := by
  obtain ⟨before, string, after, rfl, full, -⟩ := stops
  have whole : stringsNeed (before ++ string :: after) =
      stringsNeed before + (stringNeed string + stringsNeed after) := by
    rw [← stringsNeed_cons, stringsNeed, map_append, sum_append]
    rfl
  have positive : 0 < stringNeed string := by
    unfold stringNeed
    omega
  omega

theorem stopsFull_append :
    StopsFull (before ++ after) room ↔ StopsFull before room ∨
      (stringsNeed before ≤ room ∧ StopsFull after (room - stringsNeed before)) := by
  induction before generalizing room with
  | nil =>
    have nothing : ¬ StopsFull [] room := by
      rintro ⟨before, string, after, split, -⟩
      cases before <;> cases split
    simp [nothing, stringsNeed]
  | cons string before ih =>
    rw [cons_append, stopsFull_cons, stopsFull_cons, ih, stringsNeed_cons]
    constructor
    · rintro (full | ⟨fits, early | ⟨fits', late⟩⟩)
      · exact .inl (.inl full)
      · exact .inl (.inr ⟨fits, early⟩)
      · rw [Nat.sub_sub] at late
        exact .inr ⟨by omega, late⟩
    · rintro ((full | ⟨fits, early⟩) | ⟨fits, late⟩)
      · exact .inl full
      · exact .inr ⟨fits, .inl early⟩
      · rw [← Nat.sub_sub] at late
        exact .inr ⟨by omega, .inr ⟨by omega, late⟩⟩

end Room

/-- The number of words of the auxiliary vector. -/
def auxCount (loaded : Elf.LoadedElf) : Nat := if loaded.isDynamic then 28 else 26

/-- The auxiliary vector has as many words as expected. -/
theorem auxWords_length (launch : Launch) (strings : Strings) :
    (auxWords launch strings).length = auxCount launch.loaded := by
  rw [auxWords, length_reverse, auxEntries, auxCount]
  cases launch.loaded.isDynamic <;> rfl

/-- The room that the strings of a stack take, with the seed for random numbers. -/
def allStringsNeed (argv envp : List Bytes) (execfn : Bytes) : Nat :=
  stringsNeed argv + stringsNeed envp + 16 + stringNeed execfn

/-- The room that a stack takes. -/
def stackNeed (argv envp : List Bytes) (loaded : Elf.LoadedElf) (execfn : Bytes) : Nat :=
  allStringsNeed argv envp execfn + tablesNeed argv.length envp.length (auxCount loaded)

/--
A stack that is refused in the proper way.

A string is refused only if the stack is exactly full when it comes, and only if the string and its
terminator do not make up whole blocks.
-/
def Refused (argv envp : List Bytes) (execfn : Bytes) : Prop :=
  StopsFull (argv.reverse ++ envp.reverse) regionSize ∨
    (stringsNeed argv + stringsNeed envp + 16 = regionSize ∧ (execfn.length + 1) % 16 ≠ 0)

/-- The strings take a number of blocks. -/
theorem allStringsNeed_even (argv envp : List Bytes) (execfn : Bytes) :
    allStringsNeed argv envp execfn % 16 = 0 := by
  have argEven := stringsNeed_even argv
  have envEven := stringsNeed_even envp
  unfold allStringsNeed stringNeed
  omega

theorem Refused.lt {argv envp : List Bytes} {execfn : Bytes} (refused : Refused argv envp execfn) :
    regionSize < allStringsNeed argv envp execfn := by
  unfold allStringsNeed stringNeed
  rcases refused with stops | ⟨full, -⟩
  · have more := stops.lt
    have both : stringsNeed (argv.reverse ++ envp.reverse) = stringsNeed argv + stringsNeed envp := by
      rw [← stringsNeed_reverse argv, ← stringsNeed_reverse envp, stringsNeed, map_append,
        sum_append]
      rfl
    omega
  · omega

/-- The strings of a stack are in the image, above some offset. -/
structure StringsLaid (base room : Nat) (argv envp : List Bytes) (execfn : Bytes)
    (strings : Strings) : Prop where
  args : List.Forall₂ (Points base room strings.image) strings.argPtrs argv
  envs : List.Forall₂ (Points base room strings.image) strings.envPtrs envp
  lowest : strings.execfnAddr = base + room

theorem pushAll_fits {base room : Nat} (image : Image) (strings : List Bytes)
    (roomy : Roomy base room) (even : room % 16 = 0) (fits : stringsNeed strings ≤ room) :
    ∃ pointers rest changed,
      pushStrs base strings.reverse [] (base + room) image = .ok (pointers, base + rest, changed) ∧
      rest + stringsNeed strings = room ∧ Roomy base rest ∧ rest % 16 = 0 ∧
      List.Forall₂ (Points base rest changed) pointers strings ∧ KeepsAbove room image changed := by
  have blocks := stringsNeed_even strings
  rw [← stringsNeed_reverse] at fits blocks
  obtain ⟨pointers, changed, run, points, keeps⟩ :=
    pushStrs_fits roomy even fits (List.Forall₂.nil : List.Forall₂ (Points base room image) [] [])
  rw [reverse_reverse, append_nil] at points
  refine ⟨pointers, _, changed, run, ?_, roomy.sub _, by omega, points, keeps⟩
  rw [← stringsNeed_reverse strings]
  omega

section Strings

variable {base : Nat} {argv envp : List Bytes} {execfn : Bytes} {launch : Launch}
  (roomy : Roomy base regionSize)

include roomy

theorem buildStrings_fits (launch : Launch) (fits : allStringsNeed argv envp execfn ≤ regionSize) :
    ∃ strings, buildStrings (base + regionSize) argv envp launch execfn = .ok strings ∧
      StringsLaid base (regionSize - allStringsNeed argv envp execfn) argv envp execfn strings := by
  have whole : regionSize % 16 = 0 := by decide
  unfold allStringsNeed at *
  have execEven : stringNeed execfn % 16 = 0 := by
    unfold stringNeed
    omega
  -- The strings are put below one another, and each leaves those above it alone.
  obtain ⟨argPtrs, room₁, image₁, run₁, used₁, roomy₁, even₁, points₁, -⟩ :=
    pushAll_fits _ argv roomy whole (by omega)
  obtain ⟨envPtrs, room₂, image₂, run₂, used₂, roomy₂, even₂, points₂, keeps₂⟩ :=
    pushAll_fits image₁ envp roomy₁ even₁ (by omega)
  obtain ⟨image₃, run₃, keeps₃⟩ :=
    fillRandom_fits image₂ launch.tsc launch.tick roomy₂ (by omega)
  obtain ⟨room₃, eq₃⟩ : ∃ room₃, room₂ - 16 = room₃ := ⟨_, rfl⟩
  rw [eq₃] at run₃
  have roomy₃ : Roomy base room₃ := eq₃ ▸ roomy₂.sub _
  obtain ⟨image₄, run₄, -, keeps₄⟩ := pushStr_fits image₃ execfn roomy₃ (by omega) (by omega)
  obtain ⟨room₄, eq₄⟩ : ∃ room₄, room₃ - stringNeed execfn = room₄ := ⟨_, rfl⟩
  rw [eq₄] at run₄
  have last : regionSize - (stringsNeed argv + stringsNeed envp + 16 + stringNeed execfn) =
      room₄ := by omega
  have keepsAll : KeepsAbove room₂ image₂ image₄ := keeps₃.trans keeps₄ (by omega)
  refine ⟨⟨argPtrs, envPtrs, base + room₃, base + room₄, image₄⟩, ?_, ?_, ?_, ?_⟩
  · have start := align16_even roomy.aligned even₂
    have random : base + room₂ - 16 = base + room₃ := by omega
    have enough : ¬ base + room₂ < 16 := by omega
    rw [buildStrings, Nat.add_sub_cancel]
    simp only []
    rw [run₁, ok_bind]
    simp only []
    rw [run₂, ok_bind]
    simp only [start, random]
    rw [if_neg enough, run₃, ok_bind, run₄, ok_bind]
  · rw [last]
    exact points_keep (points_keep points₁ keeps₂ (by omega)) keepsAll (by omega)
  · rw [last]
    exact points_keep points₂ keepsAll (by omega)
  · rw [last]

theorem buildStrings_over (launch : Launch)
    (excess : regionSize < allStringsNeed argv envp execfn) :
    Crowded ((∀ string ∈ argv ++ envp, string.length ≤ 254) ∧ execfn.length ≤ 254)
      (Refused argv envp execfn) (buildStrings (base + regionSize) argv envp launch execfn) := by
  have whole : regionSize % 16 = 0 := by decide
  have low := roomy.low
  have argNeed := stringsNeed_reverse argv
  have envNeed := stringsNeed_reverse envp
  have execEven : stringNeed execfn % 16 = 0 := by
    unfold stringNeed
    omega
  unfold allStringsNeed at excess
  rw [buildStrings, Nat.add_sub_cancel]
  simp only []
  by_cases argFits : stringsNeed argv ≤ regionSize
  · obtain ⟨argPtrs, room₁, image₁, run₁, used₁, roomy₁, even₁, -⟩ :=
      pushAll_fits _ argv roomy whole argFits
    have eq₁ : regionSize - stringsNeed argv = room₁ := by omega
    have argGoes : ¬ StopsFull argv.reverse regionSize := by
      intro stops
      have more := stops.lt
      omega
    rw [run₁, ok_bind]
    simp only []
    by_cases envFits : stringsNeed envp ≤ room₁
    · obtain ⟨envPtrs, room₂, image₂, run₂, used₂, roomy₂, even₂, -⟩ :=
        pushAll_fits image₁ envp roomy₁ even₁ envFits
      -- The strings of the program fit, so only the last one may be refused.
      have refusedIff : Refused argv envp execfn ↔
          room₂ = 16 ∧ (execfn.length + 1) % 16 ≠ 0 := by
        rw [Refused, stopsFull_append, argNeed, eq₁]
        constructor
        · rintro ((stops | ⟨-, stops⟩) | ⟨exact_, partial_⟩)
          · exact absurd stops argGoes
          · have more := stops.lt
            omega
          · exact ⟨by omega, partial_⟩
        · exact fun full => .inr ⟨by omega, full.2⟩
      have start := align16_even roomy.aligned even₂
      rw [run₂, ok_bind]
      simp only [start]
      rw [if_neg (by omega)]
      by_cases full : room₂ = 0
      · -- There is no room for the seed.
        subst full
        rw [Nat.add_zero, fillRandom_faults image₂ launch.tsc launch.tick roomy₂]
        refine .of_fault rfl fun refused => ?_
        exact absurd (refusedIff.mp refused).1 (by decide)
      · obtain ⟨image₃, run₃, -⟩ :=
          fillRandom_fits image₂ launch.tsc launch.tick roomy₂ (by omega)
        have random : base + room₂ - 16 = base + (room₂ - 16) := by omega
        rw [random, run₃, ok_bind]
        refine ((pushStr_over image₃ execfn (roomy₂.sub 16) (by omega) (by omega)).bind _).congr
          And.right (refusedIff.trans ?_)
        exact and_congr_left' (by omega)
    · -- The strings of the environment do not fit.
      refine ((pushStrs_over image₁ [] roomy₁ (by omega)
        (by omega : room₁ < stringsNeed envp.reverse)).bind _).congr ?_ ?_
      · rintro ⟨short, -⟩ string member
        exact short string (mem_append_right argv (mem_reverse.mp member))
      · rw [Refused, stopsFull_append, argNeed, eq₁]
        constructor
        · rintro ((stops | ⟨-, stops⟩) | ⟨exact_, -⟩)
          · exact absurd stops argGoes
          · exact stops
          · omega
        · exact fun stops => .inl (.inr ⟨argFits, stops⟩)
  · -- The arguments do not fit.
    refine ((pushStrs_over _ [] roomy whole
      (by omega : regionSize < stringsNeed argv.reverse)).bind _).congr ?_ ?_
    · rintro ⟨short, -⟩ string member
      exact short string (mem_append_left envp (mem_reverse.mp member))
    · rw [Refused, stopsFull_append, argNeed]
      constructor
      · rintro ((stops | ⟨fits, -⟩) | ⟨exact_, -⟩)
        · exact stops
        · omega
        · omega
      · exact fun stops => .inl (.inl stops)

/-- A stack that fits is put into the image. -/
theorem buildImage_fits (launch : Launch)
    (fits : stackNeed argv envp launch.loaded execfn ≤ regionSize) :
    ∃ strings image, buildImage (base + regionSize) argv envp launch execfn =
        .ok (base + (regionSize - stackNeed argv envp launch.loaded execfn), image) ∧
      StackLayout image (regionSize - stackNeed argv envp launch.loaded execfn) strings.argPtrs
        strings.envPtrs (auxWords launch strings) ∧
      List.Forall₂ (Points base (regionSize - stackNeed argv envp launch.loaded execfn) image)
        strings.argPtrs argv ∧
      List.Forall₂ (Points base (regionSize - stackNeed argv envp launch.loaded execfn) image)
        strings.envPtrs envp := by
  unfold stackNeed at *
  have whole : regionSize % 16 = 0 := by decide
  have stringsEven := allStringsNeed_even argv envp execfn
  obtain ⟨strings, run, laid⟩ := buildStrings_fits roomy launch (by omega :
    allStringsNeed argv envp execfn ≤ regionSize)
  have argLength := laid.args.length_eq
  have envLength := laid.envs.length_eq
  have auxLength := auxWords_length launch strings
  rw [← argLength, ← envLength, ← auxLength] at fits ⊢
  obtain ⟨room, eq⟩ : ∃ room, regionSize - allStringsNeed argv envp execfn = room := ⟨_, rfl⟩
  have roomy' : Roomy base room := eq ▸ roomy.sub _
  obtain ⟨image, tables, layout, keeps⟩ := pushTables_fits strings.envPtrs strings.argPtrs roomy'
    (by omega) (auxWords_even launch strings) strings.image (by omega)
  have last : room - tablesNeed strings.argPtrs.length strings.envPtrs.length
      (auxWords launch strings).length = regionSize - (allStringsNeed argv envp execfn +
        tablesNeed strings.argPtrs.length strings.envPtrs.length
          (auxWords launch strings).length) := by omega
  rw [last] at tables layout
  refine ⟨strings, image, ?_, layout, ?_, ?_⟩
  · rw [buildImage, run, ok_bind, buildTables_eq, Nat.add_sub_cancel, laid.lowest, eq,
      ← argLength]
    exact tables
  · exact points_keep laid.args (eq ▸ keeps) (by omega)
  · exact points_keep laid.envs (eq ▸ keeps) (by omega)

/-- A stack that does not fit is refused or stops the kernel. -/
theorem buildImage_over (launch : Launch)
    (excess : regionSize < stackNeed argv envp launch.loaded execfn) :
    Crowded ((∀ string ∈ argv ++ envp, string.length ≤ 254) ∧ execfn.length ≤ 254)
      (Refused argv envp execfn) (buildImage (base + regionSize) argv envp launch execfn) := by
  by_cases fits : allStringsNeed argv envp execfn ≤ regionSize
  · have stringsEven := allStringsNeed_even argv envp execfn
    have whole : regionSize % 16 = 0 := by decide
    unfold stackNeed at excess
    obtain ⟨strings, run, laid⟩ := buildStrings_fits roomy launch fits
    have faults := pushTables_over strings.envPtrs strings.argPtrs
      (roomy.sub (allStringsNeed argv envp execfn)) (by omega) (auxWords_even launch strings)
      strings.image argv.length (by
        rw [laid.args.length_eq, laid.envs.length_eq, auxWords_length]
        omega)
    rw [buildImage, run, ok_bind, buildTables_eq, Nat.add_sub_cancel, laid.lowest, faults]
    exact .of_fault rfl fun refused => absurd refused.lt (by omega)
  · exact (buildStrings_over roomy launch (by omega)).bind _

end Strings

end TheoryKernel.Proc
