import Mathlib.Data.List.TakeWhile
import TheoryKernel.Base.Slice

/-! The first line of a script, which names its interpreter. -/

namespace TheoryKernel.Mm.Elf

open List

/-- The two bytes that a script starts with. -/
def shebang : List (BitVec 8) := [0x23, 0x21]

/-- Whether a byte is a space or a tab. -/
def isBlank (byte : BitVec 8) : Bool := byte == 0x20 || byte == 0x09

/-- Whether a byte ends a line. -/
def isNewline (byte : BitVec 8) : Bool := byte == 0x0a

/-- The path of the interpreter of a script, and the rest of the first line. -/
def parseShebang (data : List (BitVec 8)) :
    Exec (Option (List (BitVec 8) × List (BitVec 8))) :=
  if shebang.isPrefixOf data = false then .ok none
  else do
    let line ← slice data 2 (data.findIdx isNewline)
    let start := line.findIdx fun byte => !isBlank byte
    if line.length ≤ start then .ok none
    else
      let rest ← slice line start line.length
      let pathEnd := rest.findIdx isBlank
      .ok (some (← slice rest 0 pathEnd, ← slice rest pathEnd rest.length))

/-- The first line of a text, without its end. -/
def firstLine (data : List (BitVec 8)) : List (BitVec 8) :=
  data.takeWhile fun byte => !isNewline byte

theorem slice_findIdx {data : List (BitVec 8)} {stops : BitVec 8 → Bool} :
    slice data 0 (data.findIdx stops) = .ok (data.takeWhile fun byte => !stops byte) ∧
      slice data (data.findIdx stops) data.length =
        .ok (data.dropWhile fun byte => !stops byte) := by
  have inside : data.findIdx stops ≤ data.length := findIdx_le_length
  constructor
  · rw [slice_zero inside, takeWhile_eq_take_findIdx_not]
    simp
  · rw [slice, if_pos ⟨inside, Nat.le_refl _⟩, dropWhile_eq_drop_findIdx_not,
      take_of_length_le (by simp)]
    simp

theorem parseShebang_eq (tail : List (BitVec 8)) :
    parseShebang (shebang ++ tail) =
      match (firstLine tail).dropWhile isBlank with
      | [] => .ok none
      | first :: rest => .ok (some ((first :: rest).takeWhile fun byte => !isBlank byte,
          (first :: rest).dropWhile fun byte => !isBlank byte)) := by
  -- Neither of the two bytes ends the line, so the slice behind them is in range.
  have line : slice (shebang ++ tail) 2 ((shebang ++ tail).findIdx isNewline) =
      .ok (firstLine tail) := by
    have behind : (shebang ++ tail).findIdx isNewline = tail.findIdx isNewline + 2 := by
      simp [shebang, findIdx_cons, isNewline]
    have inside : tail.findIdx isNewline ≤ tail.length := findIdx_le_length
    rw [behind, slice, if_pos (by simp [shebang]; omega), firstLine,
      takeWhile_eq_take_findIdx_not]
    simp [shebang]
  have start := (@slice_findIdx (firstLine tail) fun byte => !isBlank byte).2
  have left : ((firstLine tail).dropWhile isBlank).length =
      (firstLine tail).length - (firstLine tail).findIdx fun byte => !isBlank byte := by
    rw [dropWhile_eq_drop_findIdx_not, length_drop]
  simp only [Bool.not_not] at start
  rw [parseShebang, if_neg (by simp [shebang]), line, Exec.ok_bind]
  cases skipped : (firstLine tail).dropWhile isBlank with
  | nil =>
    rw [skipped, length_nil] at left
    exact if_pos (by omega)
  | cons first rest =>
    rw [skipped] at left start
    rw [length_cons] at left
    rw [if_neg (by omega), start, Exec.ok_bind]
    dsimp only
    rw [slice_findIdx.1, Exec.ok_bind, slice_findIdx.2]
    rfl

/--
The first line of a script is parsed exactly.

The parser succeeds exactly if the text starts with the two bytes and something other than blanks
follows on the first line. The parts that it returns, with the blanks in front of them, are that
line.
-/
theorem parseShebang_exact (data : List (BitVec 8)) :
    ((∃ path rest, parseShebang data = .ok (some (path, rest))) ↔
      shebang <+: data ∧ ∃ byte ∈ (firstLine data).drop 2, isBlank byte = false) ∧
    ∀ path rest, parseShebang data = .ok (some (path, rest)) →
      path ≠ [] ∧ (∀ byte ∈ path, isBlank byte = false) ∧
      (∀ byte ∈ rest.head?, isBlank byte = true) ∧
      ∃ blanks, (∀ byte ∈ blanks, isBlank byte = true) ∧
        firstLine data = shebang ++ blanks ++ path ++ rest := by
  by_cases starts : shebang <+: data
  · obtain ⟨tail, rfl⟩ := starts
    have line : firstLine (shebang ++ tail) = shebang ++ firstLine tail := by
      simp [firstLine, shebang, isNewline]
    rw [parseShebang_eq, line]
    cases skipped : (firstLine tail).dropWhile isBlank with
    | nil =>
      -- Nothing but blanks is on the line.
      rw [dropWhile_eq_nil_iff] at skipped
      refine ⟨?_, nofun⟩
      simpa [shebang] using skipped
    | cons first rest =>
      have visible : isBlank first = false := by
        have stopped := List.head?_dropWhile_not isBlank (firstLine tail)
        rwa [skipped] at stopped
      have whole := takeWhile_append_dropWhile (p := isBlank) (l := firstLine tail)
      rw [skipped] at whole
      constructor
      · refine iff_of_true ⟨_, _, rfl⟩ ⟨prefix_append .., first, ?_, visible⟩
        rw [← whole]
        simp [shebang]
      · rintro path rest' ⟨⟩
        refine ⟨by simp [visible], fun byte inside => ?_, ?_, (firstLine tail).takeWhile isBlank,
          fun byte => mem_takeWhile_imp, ?_⟩
        · simpa using mem_takeWhile_imp inside
        · have stopped := List.head?_dropWhile_not (fun byte => !isBlank byte) (first :: rest)
          intro byte isHead
          rw [isHead] at stopped
          simpa using stopped
        · rw [append_assoc, takeWhile_append_dropWhile, append_assoc, whole]
  · have refused : parseShebang data = .ok none := by
      rw [parseShebang, if_pos (by simpa [← Bool.not_eq_true] using starts)]
    rw [refused]
    exact ⟨iff_of_false nofun fun both => starts both.1, nofun⟩

end TheoryKernel.Mm.Elf
