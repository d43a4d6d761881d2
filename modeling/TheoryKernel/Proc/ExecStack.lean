import TheoryKernel.Proc.Exec

/-! How much room the parts of a new stack take, and where they end up. -/

namespace TheoryKernel.Proc

open Mm ByteMemory List Fallible

/-- The room that a string with its terminator takes. -/
def stringNeed (string : Bytes) : Nat := (string.length + 1 + 15) / 16 * 16

/-- The room that strings take together. -/
def stringsNeed (strings : List Bytes) : Nat := (strings.map stringNeed).sum

/-- A stack with room for some bytes, whose lower end is far from both ends of memory. -/
structure Roomy (base room : Nat) : Prop where
  aligned : base % 16 = 0
  low : 512 ≤ base
  high : base + regionSize < 2 ^ 63
  fits : room ≤ regionSize

/-- Room that is used up leaves less room. -/
theorem Roomy.sub {base room : Nat} (roomy : Roomy base room) (used : Nat) :
    Roomy base (room - used) :=
  { roomy with fits := Nat.le_trans (Nat.sub_le _ _) roomy.fits }

/-- Bytes of the image that are below some offset may have changed, and no other. -/
def KeepsAbove (offset : Nat) (image changed : Image) : Prop :=
  ∀ other, offset ≤ other → changed other = image other

/-- Bytes that are kept twice are kept. -/
theorem KeepsAbove.trans {offset offset' : Nat} {image changed final : Image}
    (first : KeepsAbove offset image changed) (second : KeepsAbove offset' changed final)
    (lower : offset' ≤ offset) : KeepsAbove offset image final := by
  intro other above
  rw [second other (by omega), first other above]

/-- A string and its terminator are in the image. -/
def StringAt (image : Image) (offset : Nat) (string : Bytes) : Prop :=
  (∀ index < string.length, image (offset + index) = string.getD index 0) ∧
    image (offset + string.length) = 0

/-- Words are in the image, one after another. -/
def WordsAt (image : Image) (offset : Nat) (words : List Nat) : Prop :=
  ∀ index < words.length, loadWord image (offset + 8 * index) = BitVec.ofNat 64 (words.getD index 0)

theorem StringAt.keep {image changed : Image} {offset bound : Nat} {string : Bytes}
    (at_ : StringAt image offset string) (keeps : KeepsAbove bound image changed)
    (above : bound ≤ offset) : StringAt changed offset string := by
  refine ⟨?_, ?_⟩
  · intro index inside
    rw [keeps _ (by omega)]
    exact at_.1 index inside
  · rw [keeps _ (by omega)]
    exact at_.2

theorem WordsAt.keep {image changed : Image} {offset bound : Nat} {words : List Nat}
    (at_ : WordsAt image offset words) (keeps : KeepsAbove bound image changed)
    (above : bound ≤ offset) : WordsAt changed offset words := by
  intro index inside
  rw [← at_ index inside]
  apply loadWord_congr
  intro position _
  exact keeps _ (by omega)

/--
How putting something on a stack that is too small for it ends.

It never succeeds. If the parts are short then it is refused, or it stops the kernel.
-/
structure Crowded {α : Type} (short refused : Prop) (run : Fallible ExecError α) : Prop where
  never : ∀ result, run ≠ .ok result
  ends : short → refused ∧ run = .fail .tooBig ∨ ¬ refused ∧ ∃ fault, run = .fault fault

namespace Crowded

variable {α β : Type} {short short' refused refused' : Prop} {run : Fallible ExecError α}

/-- What stops the kernel is not refused. -/
theorem of_fault {fault : Fault} (stopped : run = .fault fault) (notRefused : ¬ refused) :
    Crowded short refused run := by
  subst stopped
  exact ⟨nofun, fun _ => .inr ⟨notRefused, fault, rfl⟩⟩

/-- What comes afterwards does not matter. -/
theorem bind (crowded : Crowded short refused run) (rest : α → Fallible ExecError β) :
    Crowded short refused (run >>= rest) := by
  refine ⟨fun result returned => ?_, fun isShort => ?_⟩
  · obtain ⟨value, early, -⟩ := bind_eq_ok.mp returned
    exact crowded.never value early
  · rcases crowded.ends isShort with ⟨isRefused, rfl⟩ | ⟨notRefused, fault, rfl⟩
    · exact .inl ⟨isRefused, rfl⟩
    · exact .inr ⟨notRefused, fault, rfl⟩

/-- The conditions may be put in other words. -/
theorem congr (crowded : Crowded short refused run) (shorter : short' → short)
    (same : refused' ↔ refused) : Crowded short' refused' run := by
  rw [same]
  exact ⟨crowded.never, fun isShort => crowded.ends (shorter isShort)⟩

end Crowded

section Pushes

variable {base room : Nat} (image : Image) (string : Bytes) (value : Nat)

section

variable (roomy : Roomy base room)

include roomy

/-- A string that fits is put into the image. -/
theorem pushStr_fits (even : room % 16 = 0) (fits : stringNeed string ≤ room) :
    ∃ changed, pushStr image base (base + room) string =
        .ok (base + (room - stringNeed string), changed) ∧
      StringAt changed (room - stringNeed string) string ∧ KeepsAbove room image changed := by
  have aligned := roomy.aligned
  have high := roomy.high
  have bound := roomy.fits
  unfold stringNeed at *
  have enough : ¬ base + room < string.length + 1 := by omega
  have place : align16 (base + room - (string.length + 1)) =
      base + (room - (string.length + 1 + 15) / 16 * 16) := by
    unfold align16
    omega
  generalize offset : room - (string.length + 1 + 15) / 16 * 16 = off at *
  have offEq : wrapSub (base + off) base = off := by
    rw [wrapSub_eq (by omega) (by omega)]
    omega
  have stopEq : wrapAdd off string.length = off + string.length :=
    wrapAdd_eq (by omega)
  have endEq : wrapAdd (off + string.length) 1 = off + string.length + 1 := wrapAdd_eq (by omega)
  have length : off + string.length - off = string.length := Nat.add_sub_cancel_left _ _
  refine ⟨Function.update (store image off string.length fun index => string.getD index 0)
    (off + string.length) 0, ?_, ?_, ?_⟩
  · rw [pushStr, if_neg enough]
    simp only [place, offEq, stopEq, endEq]
    rw [if_neg (by omega), copySlice, if_pos ⟨by omega, by omega⟩, ok_bind, setByte,
      if_pos (by omega), ok_bind, length]
  · refine ⟨?_, Function.update_self _ _ _⟩
    intro index inside
    rw [Function.update_of_ne (by omega), store_inside inside]
  · intro other above
    rw [Function.update_of_ne (by omega), store_outside (by omega)]

theorem pushStr_faults (even : room % 16 = 0) (short : string.length ≤ 254)
    (crowded : room < stringNeed string) (other : room ≠ 0 ∨ (string.length + 1) % 16 = 0) :
    pushStr image base (base + room) string = .fault .sliceOutOfRange := by
  have aligned := roomy.aligned
  have low := roomy.low
  have high := roomy.high
  have bound := roomy.fits
  unfold stringNeed at crowded
  -- The stack pointer is below the image, by no more than the string is long.
  have below : ∃ excess, align16 (base + room - (string.length + 1)) + excess = base ∧
      0 < excess ∧ excess ≤ string.length + 1 := by
    refine ⟨base - align16 (base + room - (string.length + 1)), ?_⟩
    unfold align16
    omega
  obtain ⟨excess, place, positive, small⟩ := below
  have offEq : wrapSub (align16 (base + room - (string.length + 1))) base = 2 ^ 64 - excess := by
    unfold wrapSub
    omega
  -- So the end of the string wraps around to a place inside of it.
  have endEq : wrapAdd (wrapAdd (2 ^ 64 - excess) string.length) 1 = string.length + 1 - excess := by
    unfold wrapAdd
    omega
  have reversed : ¬ (2 ^ 64 - excess ≤ wrapAdd (2 ^ 64 - excess) string.length ∧
      wrapAdd (2 ^ 64 - excess) string.length ≤ regionSize) := by
    unfold wrapAdd regionSize stackPages pageSize
    omega
  have smaller : ¬ regionSize < string.length + 1 - excess := by
    unfold regionSize stackPages pageSize
    omega
  rw [pushStr, if_neg (by omega)]
  simp only [offEq, endEq]
  rw [if_neg smaller, copySlice, if_neg reversed]
  rfl

/-- A string that does not fit is refused if nothing is left, unless its terminator ends a block. -/
theorem pushStr_over (even : room % 16 = 0) (excess : room < stringNeed string) :
    Crowded (string.length ≤ 254) (room = 0 ∧ (string.length + 1) % 16 ≠ 0)
      (pushStr image base (base + room) string) := by
  have aligned := roomy.aligned
  have low := roomy.low
  have high := roomy.high
  refine ⟨fun result returned => ?_, fun short => ?_⟩
  · have bound := roomy.fits
    unfold stringNeed at excess
    rw [pushStr] at returned
    split at returned
    · cases returned
    · -- The stack pointer is below the image, so its offset is far above the end of the image.
      have below : align16 (base + room - (string.length + 1)) < base := by
        unfold align16
        omega
      have far : regionSize < wrapSub (align16 (base + room - (string.length + 1))) base := by
        unfold wrapSub regionSize stackPages pageSize
        omega
      simp only at returned
      split at returned
      · cases returned
      · rw [copySlice, if_neg (by omega)] at returned
        cases returned
  · by_cases full : room = 0 ∧ (string.length + 1) % 16 ≠ 0
    · refine .inl ⟨full, ?_⟩
      rw [full.1, Nat.add_zero, pushStr, if_neg (by omega)]
      apply if_pos
      unfold wrapAdd wrapSub align16 regionSize stackPages pageSize
      omega
    · exact .inr ⟨full, _, pushStr_faults image string roomy even short excess (by omega)⟩

theorem pushU64_fits (fits : 8 ≤ room) :
    ∃ changed, pushU64 image base (base + room) value = .ok (base + (room - 8), changed) ∧
      loadWord changed (room - 8) = BitVec.ofNat 64 value ∧ KeepsAbove room image changed := by
  have high := roomy.high
  have bound := roomy.fits
  have spEq : base + room - 8 = base + (room - 8) := by omega
  have offEq : wrapSub (base + (room - 8)) base = room - 8 := by
    rw [wrapSub_eq (by omega) (by omega)]
    omega
  have stopEq : wrapAdd (room - 8) 8 = room := by
    rw [wrapAdd_eq (by omega)]
    omega
  have length : room - (room - 8) = 8 := by omega
  refine ⟨storeWord image (room - 8) (BitVec.ofNat 64 value), ?_, loadWord_storeWord, ?_⟩
  · rw [pushU64, if_neg (by omega)]
    simp only [spEq, offEq, stopEq]
    rw [if_neg (by omega), copySlice, if_pos ⟨by omega, by omega⟩, ok_bind, length]
    rfl
  · intro other above
    exact store_outside (by omega)

end

theorem pushU64_faults (roomy : Roomy base 0) :
    pushU64 image base (base + 0) value = .fault .sliceOutOfRange := by
  have low := roomy.low
  have high := roomy.high
  have offEq : wrapSub (base - 8) base = 2 ^ 64 - 8 := by
    unfold wrapSub
    omega
  have stopEq : wrapAdd (2 ^ 64 - 8) 8 = 0 := by decide
  have reversed : ¬ (2 ^ 64 - 8 ≤ 0 ∧ 0 ≤ regionSize) := by decide
  rw [Nat.add_zero, pushU64, if_neg (by omega)]
  simp only [offEq, stopEq]
  rw [if_neg (by decide), copySlice, if_neg reversed]
  rfl

/-- The seed that fits is put into the image. -/
theorem fillRandom_fits (tsc tick : BitVec 64) (roomy : Roomy base room) (fits : 16 ≤ room) :
    ∃ changed, fillRandom image base (base + (room - 16)) tsc tick = .ok changed ∧
      KeepsAbove room image changed := by
  have high := roomy.high
  have bound := roomy.fits
  have offEq : wrapSub (base + (room - 16)) base = room - 16 := by
    rw [wrapSub_eq (by omega) (by omega)]
    omega
  have stopEq : wrapAdd (room - 16) 16 = room := by
    rw [wrapAdd_eq (by omega)]
    omega
  -- Every byte of the seed is below the room that was left.
  have loop : ∀ (positions : List Nat) (image : Image), (∀ position ∈ positions, position < 16) →
      ∃ changed, fillLoop tsc tick (room - 16) positions image = .ok changed ∧
        KeepsAbove room image changed := by
    intro positions
    induction positions with
    | nil => exact fun image _ => ⟨image, rfl, fun _ _ => rfl⟩
    | cons position rest ih =>
      intro image inside
      have here := inside position mem_cons_self
      have place : wrapAdd (room - 16) position = room - 16 + position := wrapAdd_eq (by omega)
      obtain ⟨changed, run, keeps⟩ := ih
        (Function.update image (room - 16 + position) (seedByte tsc tick position))
        fun other later => inside other (mem_cons_of_mem position later)
      refine ⟨changed, ?_, ?_⟩
      · rw [fillLoop, place, setByte, if_pos (by omega), ok_bind, run]
      · intro other above
        rw [keeps other above, Function.update_of_ne (by omega)]
  obtain ⟨changed, run, keeps⟩ := loop (List.range 16) image fun _ => mem_range.mp
  refine ⟨changed, ?_, keeps⟩
  simp only [fillRandom, offEq, stopEq]
  rw [if_neg (by omega), run]

/-- The seed stops the kernel if nothing is left. -/
theorem fillRandom_faults (tsc tick : BitVec 64) (roomy : Roomy base 0) :
    fillRandom image base (base - 16) tsc tick = .fault .indexOutOfBounds := by
  have low := roomy.low
  have high := roomy.high
  have offEq : wrapSub (base - 16) base = 2 ^ 64 - 16 := by
    unfold wrapSub
    omega
  simp only [fillRandom, offEq]
  rfl

end Pushes

section Strings

variable {base room low lower : Nat} {image changed : Image} {strings done : List Bytes}
  {pointers : List Nat}

/-- A pointer into the image, above some offset, to a string. -/
def Points (base low : Nat) (image : Image) (pointer : Nat) (string : Bytes) : Prop :=
  base + low ≤ pointer ∧ pointer + string.length < base + regionSize ∧
    StringAt image (pointer - base) string

/-- Pointers stay good while what is below them changes. -/
theorem points_keep (points : List.Forall₂ (Points base low image) pointers strings)
    (keeps : KeepsAbove low image changed) (below : lower ≤ low) :
    List.Forall₂ (Points base lower changed) pointers strings := by
  apply points.imp
  rintro pointer string ⟨above, inside, at_⟩
  exact ⟨by omega, inside, at_.keep keeps (by omega)⟩

/-- The room of strings is that of the first one and of the others. -/
theorem stringsNeed_cons (string : Bytes) (strings : List Bytes) :
    stringsNeed (string :: strings) = stringNeed string + stringsNeed strings := by
  rw [stringsNeed, map_cons, sum_cons]
  rfl

/-- The room of strings is a number of blocks. -/
theorem stringsNeed_even (strings : List Bytes) : stringsNeed strings % 16 = 0 := by
  induction strings with
  | nil => rfl
  | cons string strings ih =>
    rw [stringsNeed_cons]
    unfold stringNeed
    omega

/-- Strings that fit are put into the image. -/
theorem pushStrs_fits (roomy : Roomy base room) (even : room % 16 = 0)
    (fits : stringsNeed strings ≤ room)
    (points : List.Forall₂ (Points base room image) pointers done) :
    ∃ pointers' changed, pushStrs base strings pointers (base + room) image =
        .ok (pointers', base + (room - stringsNeed strings), changed) ∧
      List.Forall₂ (Points base (room - stringsNeed strings) changed) pointers'
        (strings.reverse ++ done) ∧ KeepsAbove room image changed := by
  induction strings generalizing room image pointers done with
  | nil => exact ⟨pointers, image, rfl, points, fun _ _ => rfl⟩
  | cons string strings ih =>
    rw [stringsNeed_cons] at fits ⊢
    have bound := roomy.fits
    have needEven : stringNeed string % 16 = 0 := by
      unfold stringNeed
      omega
    have shorter : string.length + 1 ≤ stringNeed string := by
      unfold stringNeed
      omega
    obtain ⟨next, push, at_, keeps⟩ := pushStr_fits image string roomy even (by omega)
    have here : Points base (room - stringNeed string) next
        (base + (room - stringNeed string)) string := by
      refine ⟨Nat.le_refl _, by omega, ?_⟩
      rwa [Nat.add_sub_cancel_left]
    have points' := List.Forall₂.cons here (points_keep points keeps (Nat.sub_le _ _))
    obtain ⟨pointers', final, run, good, keeps'⟩ :=
      ih (roomy.sub (stringNeed string)) (by omega) (by omega) points'
    rw [Nat.sub_sub] at run good
    refine ⟨pointers', final, ?_, ?_, keeps.trans keeps' (Nat.sub_le _ _)⟩
    · rw [pushStrs, push, ok_bind]
      exact run
    · rw [reverse_cons, append_assoc]
      exact good

/-- Strings of which one comes to a stack that is exactly full, and does not end a block. -/
def StopsFull (strings : List Bytes) (room : Nat) : Prop :=
  ∃ before string after, strings = before ++ string :: after ∧ stringsNeed before = room ∧
    (string.length + 1) % 16 ≠ 0

/-- Either the first string comes to a full stack, or one of the others does. -/
theorem stopsFull_cons {string : Bytes} :
    StopsFull (string :: strings) room ↔
      (room = 0 ∧ (string.length + 1) % 16 ≠ 0) ∨
        (stringNeed string ≤ room ∧ StopsFull strings (room - stringNeed string)) := by
  constructor
  · rintro ⟨before, last, after, split, full, partial_⟩
    cases before with
    | nil =>
      cases split
      exact .inl ⟨full.symm, partial_⟩
    | cons first before =>
      cases split
      rw [stringsNeed_cons] at full
      exact .inr ⟨by omega, before, last, after, rfl, by omega, partial_⟩
  · rintro (⟨rfl, partial_⟩ | ⟨fits, before, last, after, rfl, full, partial_⟩)
    · exact ⟨[], string, strings, rfl, rfl, partial_⟩
    · refine ⟨string :: before, last, after, rfl, ?_, partial_⟩
      rw [stringsNeed_cons]
      omega

/-- Strings that do not fit are refused or stop the kernel. -/
theorem pushStrs_over (image : Image) (pointers : List Nat) (roomy : Roomy base room)
    (even : room % 16 = 0) (excess : room < stringsNeed strings) :
    Crowded (∀ string ∈ strings, string.length ≤ 254) (StopsFull strings room)
      (pushStrs base strings pointers (base + room) image) := by
  induction strings generalizing room image pointers with
  | nil => exact absurd excess (Nat.not_lt_zero _)
  | cons string strings ih =>
    have needEven : stringNeed string % 16 = 0 ∧ 0 < stringNeed string := by
      unfold stringNeed
      omega
    rw [stringsNeed_cons] at excess
    rw [stopsFull_cons, pushStrs]
    by_cases fits : stringNeed string ≤ room
    · -- The first string fits, and one of the others does not.
      obtain ⟨next, push, -, -⟩ := pushStr_fits image string roomy even fits
      rw [push, ok_bind]
      refine (ih next _ (roomy.sub (stringNeed string)) (by omega) (by omega)).congr
        (fun short other later => short other (mem_cons_of_mem string later)) ?_
      exact ⟨fun stops => (stops.resolve_left (by omega)).2, fun stops => .inr ⟨fits, stops⟩⟩
    · refine ((pushStr_over image string roomy even (by omega)).bind _).congr
        (fun short => short string mem_cons_self) ?_
      exact ⟨fun stops => stops.resolve_right fun later => fits later.1, .inl⟩

end Strings

section Words

variable {base room : Nat} (image : Image)

theorem pushWords_fits (words : List Nat) (roomy : Roomy base room)
    (fits : 8 * words.length ≤ room) :
    ∃ changed, pushWords base words (base + room) image =
        .ok (base + (room - 8 * words.length), changed) ∧
      WordsAt changed (room - 8 * words.length) words.reverse ∧ KeepsAbove room image changed := by
  induction words generalizing room image with
  | nil => exact ⟨image, rfl, fun _ impossible => absurd impossible (Nat.not_lt_zero _), fun _ _ => rfl⟩
  | cons value words ih =>
    rw [length_cons] at fits ⊢
    have bound := roomy.fits
    obtain ⟨next, push, stored, keeps⟩ := pushU64_fits image value roomy (by omega)
    obtain ⟨changed, run, at_, keeps'⟩ := ih next (roomy.sub 8) (by omega)
    have place : room - 8 - 8 * words.length = room - 8 * (words.length + 1) := by omega
    rw [place] at run at_
    refine ⟨changed, ?_, ?_, keeps.trans keeps' (Nat.sub_le _ _)⟩
    · rw [pushWords, push, ok_bind]
      exact run
    · intro index inside
      rw [reverse_cons] at inside ⊢
      rw [length_append, length_reverse, length_singleton] at inside
      by_cases last : index = words.length
      · -- The first word that was put there is the last one now.
        have kept : loadWord changed (room - 8) = loadWord next (room - 8) :=
          loadWord_congr fun position _ => keeps' _ (by omega)
        have offset : room - 8 * (words.length + 1) + 8 * words.length = room - 8 := by omega
        rw [last, offset, kept, stored]
        simp
      · rw [at_ index (by rw [length_reverse]; omega), getD_append _ _ _ _ (by
          rw [length_reverse]
          omega)]

theorem pushWords_over (words : List Nat) (roomy : Roomy base room) (even : room % 8 = 0)
    (excess : room < 8 * words.length) :
    pushWords base words (base + room) image = .fault .sliceOutOfRange := by
  induction words generalizing room image with
  | nil => exact absurd excess (Nat.not_lt_zero _)
  | cons value words ih =>
    rw [length_cons] at excess
    have bound := roomy.fits
    by_cases full : room = 0
    · subst full
      rw [pushWords, pushU64_faults image value roomy]
      rfl
    · obtain ⟨next, push, -, -⟩ := pushU64_fits image value roomy (by omega)
      rw [pushWords, push, ok_bind]
      exact ih next (roomy.sub 8) (by omega) (by omega)

theorem pushAuxvs_eq (entries : List (Nat × Nat)) (sp : Nat) :
    pushAuxvs base entries sp image =
      pushWords base (entries.flatMap fun entry => [entry.2, entry.1]) sp image := by
  induction entries generalizing sp image with
  | nil => rfl
  | cons entry entries ih =>
    rw [pushAuxvs, pushAuxv, flatMap_cons, cons_append, cons_append,
      nil_append, pushWords]
    simp only [bind_assoc]
    congr 1
    funext first
    rw [pushWords]
    congr 1
    funext second
    exact ih second.2 second.1

end Words

section Tables

/-- The gap that alignment leaves below a table for some strings and a null. -/
def gap (count : Nat) : Nat := if count % 2 = 0 then 8 else 0

/-- The tables of the stack, from the number of arguments upwards. -/
structure StackLayout (image : Image) (start : Nat) (argPtrs envPtrs auxWords : List Nat) :
    Prop where
  argc : loadWord image start = BitVec.ofNat 64 argPtrs.length
  argv : WordsAt image (start + 8 + gap argPtrs.length) (argPtrs ++ [0])
  envp : WordsAt image (start + 8 + gap argPtrs.length + 8 * (argPtrs.length + 1) +
    gap envPtrs.length) (envPtrs ++ [0])
  auxv : WordsAt image (start + 8 + gap argPtrs.length + 8 * (argPtrs.length + 1) +
    gap envPtrs.length + 8 * (envPtrs.length + 1)) auxWords

/-- The room that the tables take. -/
def tablesNeed (argc envc auxWords : Nat) : Nat :=
  8 + gap argc + 8 * (argc + 1) + gap envc + 8 * (envc + 1) + 8 * auxWords

/-- The words of the auxiliary vector, in the order of their addresses. -/
def auxWords (launch : Launch) (strings : Strings) : List Nat :=
  ((auxEntries launch.loaded launch.cred strings.execfnAddr strings.randomAddr).flatMap
    fun entry => [entry.2, entry.1]).reverse

variable {base room : Nat} {launch : Launch} {strings : Strings}

/-- Three tables of words and the number of arguments, with the stack pointer aligned between. -/
def pushTables (base : Nat) (aux envPtrs argPtrs : List Nat) (argc sp : Nat) (image : Image) :
    Fallible ExecError (Nat × Image) := do
  let (sp, image) ← pushWords base aux.reverse (align16 sp) image
  let (sp, image) ← pushWords base (envPtrs ++ [0]).reverse (align16 sp) image
  let (sp, image) ← pushWords base (argPtrs ++ [0]).reverse (align16 sp) image
  pushU64 image base (align16 sp) argc

/-- The tables of the stack are tables of words. -/
theorem buildTables_eq (stackTop argc : Nat) :
    buildTables stackTop argc launch strings =
      pushTables (stackTop - regionSize) (auxWords launch strings) strings.envPtrs strings.argPtrs
        argc strings.execfnAddr strings.image := by
  simp only [buildTables, pushTables, pushAuxvs_eq, auxWords, reverse_reverse,
    reverse_append, reverse_singleton, singleton_append, pushWords, bind_assoc]

/-- The auxiliary vector has two words for each entry. -/
theorem auxWords_even (launch : Launch) (strings : Strings) :
    (auxWords launch strings).length % 2 = 0 := by
  rw [auxWords, length_reverse]
  generalize auxEntries launch.loaded launch.cred strings.execfnAddr strings.randomAddr = entries
  induction entries with
  | nil => rfl
  | cons entry entries ih =>
    rw [flatMap_cons, length_append]
    simp only [length_cons, length_nil]
    omega

theorem align16_add (aligned : base % 16 = 0) : align16 (base + room) = base + room / 16 * 16 := by
  unfold align16
  omega

/-- A stack pointer above a number of blocks is aligned. -/
theorem align16_even (aligned : base % 16 = 0) (even : room % 16 = 0) :
    align16 (base + room) = base + room := by
  rw [align16_add aligned]
  omega

theorem pushTable_fits (image : Image) (words : List Nat) (roomy : Roomy base room)
    (even : room % 16 = 0) (fits : 8 * (words.length + 1) ≤ room) :
    ∃ sp rest changed, pushWords base (words ++ [0]).reverse (base + room) image = .ok (sp, changed) ∧
      align16 sp = base + rest ∧ rest + gap words.length + 8 * (words.length + 1) = room ∧
      Roomy base rest ∧ rest % 16 = 0 ∧ WordsAt changed (rest + gap words.length) (words ++ [0]) ∧
      KeepsAbove room image changed := by
  have length : (words ++ [0]).reverse.length = words.length + 1 := by simp
  obtain ⟨changed, run, at_, keeps⟩ := pushWords_fits image (words ++ [0]).reverse roomy (by omega)
  rw [length] at run at_
  rw [reverse_reverse] at at_
  -- What is left below the table is a number of blocks and the gap.
  obtain ⟨rest, blocks⟩ : ∃ rest, rest = (room - 8 * (words.length + 1)) / 16 * 16 := ⟨_, rfl⟩
  have used : rest + gap words.length + 8 * (words.length + 1) = room := by
    unfold gap
    split <;> omega
  have place : room - 8 * (words.length + 1) = rest + gap words.length := by omega
  have bound := roomy.fits
  refine ⟨_, rest, changed, run, ?_, used, ?_, by omega, place ▸ at_, keeps⟩
  · rw [align16_add roomy.aligned, blocks]
  · exact { roomy with fits := by omega }

variable {aux : List Nat} (envPtrs argPtrs : List Nat) (roomy : Roomy base room)
  (even : room % 16 = 0) (auxEven : aux.length % 2 = 0)

include roomy even auxEven

/-- Tables that fit are put into the image. -/
theorem pushTables_fits (image : Image)
    (fits : tablesNeed argPtrs.length envPtrs.length aux.length ≤ room) :
    ∃ changed, pushTables base aux envPtrs argPtrs argPtrs.length (base + room) image =
        .ok (base + (room - tablesNeed argPtrs.length envPtrs.length aux.length), changed) ∧
      StackLayout changed (room - tablesNeed argPtrs.length envPtrs.length aux.length) argPtrs
        envPtrs aux ∧ KeepsAbove room image changed := by
  have aligned := roomy.aligned
  unfold tablesNeed at *
  -- The tables are put below one another, and each leaves the ones above it alone.
  obtain ⟨image₁, run₁, words₁, keeps₁⟩ :=
    pushWords_fits image aux.reverse roomy (by rw [length_reverse]; omega)
  rw [length_reverse] at run₁ words₁
  rw [reverse_reverse] at words₁
  have even₁ : (room - 8 * aux.length) % 16 = 0 := by omega
  obtain ⟨sp₂, room₂, image₂, run₂, align₂, used₂, roomy₂, even₂, words₂, keeps₂⟩ :=
    pushTable_fits image₁ envPtrs (roomy.sub _) even₁ (by omega)
  obtain ⟨sp₃, room₃, image₃, run₃, align₃, used₃, roomy₃, even₃, words₃, keeps₃⟩ :=
    pushTable_fits image₂ argPtrs roomy₂ even₂ (by omega)
  obtain ⟨image₄, run₄, word₄, keeps₄⟩ := pushU64_fits image₃ argPtrs.length roomy₃ (by omega)
  refine ⟨image₄, ?_, ⟨?_, ?_, ?_, ?_⟩, ?_⟩
  · rw [pushTables, align16_even aligned even, run₁, ok_bind]
    simp only [align16_even aligned even₁]
    rw [run₂, ok_bind]
    simp only [align₂]
    rw [run₃, ok_bind]
    simp only [align₃]
    rw [run₄]
    congr 2
    omega
  · rw [← word₄]
    congr 1
    omega
  · have at_ := words₃.keep keeps₄ (by omega)
    convert at_ using 1
    omega
  · have at_ := (words₂.keep keeps₃ (by omega)).keep keeps₄ (by omega)
    convert at_ using 1
    omega
  · have at_ := ((words₁.keep keeps₂ (by omega)).keep keeps₃ (by omega)).keep keeps₄ (by omega)
    convert at_ using 1
    omega
  · exact ((keeps₁.trans keeps₂ (by omega)).trans keeps₃ (by omega)).trans keeps₄ (by omega)

/-- Tables that do not fit stop the kernel. -/
theorem pushTables_over (image : Image) (argc : Nat)
    (excess : room < tablesNeed argPtrs.length envPtrs.length aux.length) :
    pushTables base aux envPtrs argPtrs argc (base + room) image = .fault .sliceOutOfRange := by
  have aligned := roomy.aligned
  unfold tablesNeed at excess
  have short : ∀ words : List Nat, (words ++ [0]).reverse.length = words.length + 1 := by simp
  rw [pushTables, align16_even aligned even]
  by_cases fits₁ : 8 * aux.length ≤ room
  · obtain ⟨image₁, run₁, -, -⟩ :=
      pushWords_fits image aux.reverse roomy (by rw [length_reverse]; exact fits₁)
    have even₁ : (room - 8 * aux.length) % 16 = 0 := by omega
    have roomy₁ := roomy.sub (8 * aux.length)
    rw [run₁, length_reverse, ok_bind]
    simp only [align16_even aligned even₁]
    by_cases fits₂ : 8 * (envPtrs.length + 1) ≤ room - 8 * aux.length
    · obtain ⟨sp₂, room₂, image₂, run₂, align₂, used₂, roomy₂, even₂, -⟩ :=
        pushTable_fits image₁ envPtrs roomy₁ even₁ fits₂
      rw [run₂, ok_bind]
      simp only [align₂]
      by_cases fits₃ : 8 * (argPtrs.length + 1) ≤ room₂
      · -- Only the number of arguments is left, and there is no room for it.
        obtain ⟨sp₃, room₃, image₃, run₃, align₃, used₃, roomy₃, even₃, -⟩ :=
          pushTable_fits image₂ argPtrs roomy₂ even₂ fits₃
        obtain rfl : room₃ = 0 := by omega
        rw [run₃, ok_bind]
        simp only [align₃]
        exact pushU64_faults image₃ argc roomy₃
      · rw [pushWords_over image₂ _ roomy₂ (by omega) (by rw [short]; omega)]
        rfl
    · rw [pushWords_over image₁ _ roomy₁ (by omega) (by rw [short]; omega)]
      rfl
  · rw [pushWords_over image _ roomy (by omega) (by rw [length_reverse]; omega)]
    rfl

end Tables

end TheoryKernel.Proc
