import TheoryKernel.Lib.Slots
import TheoryKernel.Mm.Vma

/-! The slots for areas hold a list of areas, sorted by where they start. -/

namespace TheoryKernel.Mm

open Function List
open Slots (Packed)

/-- Whether an area shares an address with a range. -/
def Vma.Overlaps (vma : Vma) (start stop : Nat) : Prop := start < vma.stop ∧ vma.start < stop

namespace VmaTree

/-- The used slots are the first ones, and they hold the areas of a list. -/
structure Holds (tree : VmaTree) (vmas : List Vma) : Prop where
  len : tree.len = vmas.length
  room : vmas.length ≤ maxVmas
  packed : Packed tree.entries vmas

variable {tree changed : VmaTree} {vmas before after : List Vma} {vma left right : Vma}
  {index start stop : Nat}

/-- The areas that are visited are those that are held. -/
theorem Holds.iter_eq (holds : tree.Holds vmas) : tree.iter = vmas := by
  rw [iter, holds.len]
  exact holds.packed.filterMap_range

theorem Holds.overlaps_iff (holds : tree.Holds vmas) :
    tree.overlaps start stop = true ↔ ∃ vma ∈ vmas, vma.Overlaps start stop := by
  rw [overlaps, holds.iter_eq, any_eq_true]
  simp only [Bool.and_eq_true, decide_eq_true_eq, Vma.Overlaps]

section Sorting

theorem unwrapSlot_eq (packed : Packed tree.entries (before ++ vma :: after))
    (room : before.length < maxVmas) : tree.unwrapSlot before.length = .ok vma := by
  have held : tree.entries before.length = some vma := by simp [packed before.length]
  rw [unwrapSlot, slot, if_pos room, held]
  rfl

theorem swap_returns (packed : Packed tree.entries (before ++ left :: right :: after))
    (room : before.length + 1 < maxVmas) :
    ∃ changed, tree.swap before.length (before.length + 1) = .ok changed ∧
      changed.len = tree.len ∧ Packed changed.entries (before ++ right :: left :: after) := by
  have first : tree.entries before.length = some left := by simp [packed before.length]
  have second : tree.entries (before.length + 1) = some right := by
    simp [packed (before.length + 1)]
  refine ⟨⟨update (update tree.entries before.length (some right))
    (before.length + 1) (some left), tree.len⟩, ?_, rfl, packed.swap⟩
  simp only [swap, slot, setSlot, if_pos (Nat.lt_of_succ_lt room), if_pos room, first, second,
    Exec.ok_bind]

theorem sinkEntry_returns (packed : Packed tree.entries (before ++ vma :: after))
    (room : before.length < maxVmas) :
    ∃ changed sorted, sinkEntry before.length tree = .ok changed ∧ changed.len = tree.len ∧
      Packed changed.entries (sorted ++ after) ∧ sorted.Perm (vma :: before) ∧
      (before.Pairwise (fun first second => first.start ≤ second.start) →
        sorted.Pairwise fun first second => first.start ≤ second.start) := by
  -- The area passes the ones before it from the last to the first.
  induction before using List.reverseRecOn generalizing tree after with
  | nil => exact ⟨tree, [vma], rfl, rfl, packed, List.Perm.refl _, fun _ => pairwise_singleton _ _⟩
  | append_singleton before left ih =>
    have regroup : before ++ [left] ++ vma :: after = before ++ left :: vma :: after := by simp
    have length : (before ++ [left]).length = before.length + 1 := by simp
    rw [regroup] at packed
    rw [length] at room ⊢
    have readLeft : tree.unwrapSlot before.length = .ok left :=
      unwrapSlot_eq packed (Nat.lt_of_succ_lt room)
    have readRight : tree.unwrapSlot (before.length + 1) = .ok vma := by
      rw [← length]
      rw [← regroup] at packed
      exact unwrapSlot_eq packed (length ▸ room)
    rw [sinkEntry, readLeft, readRight]
    simp only [Exec.ok_bind]
    by_cases ordered : left.start ≤ vma.start
    · -- The area stays behind the one that does not start later.
      rw [if_pos ordered]
      refine ⟨tree, before ++ [left] ++ [vma], rfl, rfl, by simpa using packed, ?_, ?_⟩
      · exact perm_append_singleton vma (before ++ [left])
      · intro sorted
        apply Slots.pairwise_concat sorted
        intro other inside
        rcases mem_append.mp inside with earlier | isLeft
        · have below := (pairwise_append.mp sorted).2.2 other earlier left (by simp)
          exact Nat.le_trans below ordered
        · rw [mem_singleton.mp isLeft]
          exact ordered
    · -- The two areas are exchanged, and the search goes on below.
      rw [if_neg ordered]
      obtain ⟨swapped, swapping, sameLen, packed'⟩ := swap_returns packed room
      obtain ⟨final, sorted, run, len, packed'', perm, sorts⟩ :=
        ih packed' (Nat.lt_of_succ_lt room)
      rw [swapping]
      refine ⟨final, sorted ++ [left], run, len.trans sameLen, by simpa using packed'', ?_, ?_⟩
      · exact ((perm.append_right [left]).trans (List.Perm.refl _))
      · intro allSorted
        obtain ⟨beforeSorted, -, belowLeft⟩ := pairwise_append.mp allSorted
        apply Slots.pairwise_concat (sorts beforeSorted)
        intro other inside
        rcases mem_cons.mp (perm.mem_iff.mp inside) with rfl | earlier
        · omega
        · exact belowLeft other earlier left (by simp)

theorem sortLoop_returns (packed : Packed tree.entries (before ++ after))
    (room : before.length + after.length ≤ maxVmas)
    (sorted : before.Pairwise fun first second => first.start ≤ second.start) :
    ∃ changed vmas, (List.range' before.length after.length).foldlM
        (fun tree index => sinkEntry index tree) tree = .ok changed ∧ changed.len = tree.len ∧
      Packed changed.entries vmas ∧ vmas.Perm (before ++ after) ∧
      vmas.Pairwise fun first second => first.start ≤ second.start := by
  induction after generalizing tree before with
  | nil =>
    rw [append_nil] at packed
    exact ⟨tree, before, rfl, rfl, packed, by simp, sorted⟩
  | cons vma after ih =>
    rw [length_cons] at room
    obtain ⟨next, front, run, sameLen, packed', perm, sorts⟩ :=
      sinkEntry_returns packed (by omega)
    have length : front.length = before.length + 1 := by simpa using perm.length_eq
    obtain ⟨final, vmas, rest, len, packed'', perm', ordered⟩ :=
      ih packed' (by omega) (sorts sorted)
    refine ⟨final, vmas, ?_, len.trans sameLen, packed'', ?_, ordered⟩
    · rw [length_cons, range'_succ, foldlM_cons, run, ← length]
      exact rest
    · have moved : (front ++ after).Perm (vma :: before ++ after) := perm.append_right after
      exact perm'.trans (moved.trans perm_middle.symm)

end Sorting

section Insert

/-- An area that overlaps no other one is added if there is room, and the areas are sorted. -/
theorem Holds.insert_returns (holds : tree.Holds vmas) (room : vmas.length < maxVmas)
    (apart : ∀ other ∈ vmas, ¬ other.Overlaps vma.start vma.stop) :
    ∃ changed sorted, tree.insert vma = .ok (.ok (), changed) ∧ changed.Holds sorted ∧
      sorted.Perm (vma :: vmas) ∧
      sorted.Pairwise fun first second => first.start ≤ second.start := by
  have free : tree.overlaps vma.start vma.stop = false := by
    rw [Bool.eq_false_iff]
    intro overlap
    obtain ⟨other, member, shares⟩ := holds.overlaps_iff.mp overlap
    exact apart other member shares
  have hasRoom : ¬ maxVmas ≤ tree.len := by
    rw [holds.len]
    omega
  -- The area is put into the first unused slot, and the slots are sorted one after another.
  let added : VmaTree := ⟨update tree.entries tree.len (some vma), tree.len + 1⟩
  have packed : Packed added.entries (vmas ++ [vma]) := by
    have pushed := holds.packed.push vma
    rw [← holds.len] at pushed
    exact pushed
  have sorts : ∃ changed sorted, sortEntries added = .ok changed ∧ changed.len = added.len ∧
      Packed changed.entries sorted ∧ sorted.Perm (vmas ++ [vma]) ∧
      sorted.Pairwise fun first second => first.start ≤ second.start := by
    cases vmas with
    | nil =>
      refine ⟨added, [vma], ?_, rfl, packed, List.Perm.refl _, pairwise_singleton _ _⟩
      have single : added.len - 1 = 0 := congrArg (· + 1 - 1) holds.len
      rw [sortEntries, single]
      rfl
    | cons first rest =>
      have split : Packed added.entries ([first] ++ (rest ++ [vma])) := packed
      have loop := sortLoop_returns split (by
        rw [length_append, length_singleton, length_singleton]
        rw [length_cons] at room
        omega) (pairwise_singleton _ _)
      have rounds : added.len - 1 = (rest ++ [vma]).length := by
        rw [length_append, length_singleton]
        exact congrArg (· + 1 - 1) holds.len
      rw [sortEntries, rounds]
      exact loop
  obtain ⟨changed, sorted, run, len, packed', perm, ordered⟩ := sorts
  have perm' : sorted.Perm (vma :: vmas) := perm.trans (perm_append_singleton vma vmas)
  have length : sorted.length = vmas.length + 1 := by simpa using perm'.length_eq
  refine ⟨changed, sorted, ?_, ⟨?_, ?_, packed'⟩, perm', ordered⟩
  · rw [insert, free, Bool.or_false, if_neg (by simpa using hasRoom), setSlot,
      if_pos (Nat.lt_of_not_le hasRoom)]
    simp only [Exec.ok_bind]
    rw [show sortEntries { entries := _, len := _ } = Except.ok changed from run]
    rfl
  · rw [len, length, ← holds.len]
  · omega

/-- An area is refused if there is no room for it or it overlaps another one. -/
theorem Holds.insert_refused (holds : tree.Holds vmas)
    (refused : vmas.length = maxVmas ∨ ∃ other ∈ vmas, other.Overlaps vma.start vma.stop) :
    tree.insert vma = .ok (.error .noSpace, tree) := by
  rw [insert, if_pos]
  rw [Bool.or_eq_true, decide_eq_true_eq, holds.len, holds.overlaps_iff]
  rcases refused with full | shares
  · exact .inl (Nat.le_of_eq full.symm)
  · exact .inr shares

end Insert

section Remove

/-- The slots up to a position have been compacted, and those behind it are still to be visited. -/
structure Compacting (tree : VmaTree) (kept : List Vma) (position : Nat)
    (cells : List (Option Vma)) : Prop where
  below : kept.length ≤ position
  room : position + cells.length ≤ maxVmas
  front : ∀ index < kept.length, tree.entries index = kept[index]?
  behind : ∀ index < cells.length, tree.entries (position + index) = cells[index]?.join

theorem compactLoop_returns {kept : List Vma} {position : Nat} {cells : List (Option Vma)}
    (state : Compacting tree kept position cells) :
    ∃ changed, compactLoop (List.range' position cells.length) kept.length tree =
        .ok ((kept ++ cells.reduceOption).length, changed) ∧
      Compacting changed (kept ++ cells.reduceOption) (position + cells.length) [] ∧
      ∀ index, position + cells.length ≤ index → changed.entries index = tree.entries index := by
  induction cells generalizing tree kept position with
  | nil =>
    rw [reduceOption_nil, append_nil]
    exact ⟨tree, rfl, state, fun _ _ => rfl⟩
  | cons cell cells ih =>
    have room : position + (cells.length + 1) ≤ maxVmas := state.room
    have here : tree.entries position = cell := by simpa using state.behind 0 (by simp)
    have next : position + 1 + cells.length = position + (cells.length + 1) := by omega
    have later : ∀ index < cells.length,
        tree.entries (position + 1 + index) = cells[index]?.join := by
      intro index inside
      have found := state.behind (index + 1) (by simpa using inside)
      rw [List.getElem?_cons_succ] at found
      rw [← found]
      congr 1
      omega
    have read : tree.slot position = .ok cell := by
      rw [slot, if_pos (by omega), here]
    rw [length_cons, range'_succ, compactLoop, read]
    simp only [Exec.ok_bind]
    cases cell with
    | none =>
      -- An unused slot is passed over.
      rw [reduceOption_cons_of_none, ← next]
      have below := state.below
      exact ih ⟨by omega, by omega, state.front, later⟩
    | some vma =>
      have below := state.below
      -- The area is moved down, unless it is in its place already.
      have moves : ∃ moved, tree.moveEntry kept.length position vma = .ok moved ∧
          moved.entries = update tree.entries kept.length (some vma) := by
        by_cases inPlace : kept.length = position
        · refine ⟨tree, if_pos inPlace, ?_⟩
          rw [inPlace, ← here, update_eq_self]
        · refine ⟨_, (if_neg inPlace).trans (if_pos (by omega)), rfl⟩
      obtain ⟨moved, moving, entries⟩ := moves
      have state' : Compacting moved (kept ++ [vma]) (position + 1) cells := by
        refine ⟨by simpa using below, by omega, ?_, ?_⟩
        · intro index inside
          rw [length_append, length_singleton] at inside
          rw [entries]
          by_cases last : index = kept.length
          · rw [last, update_self]
            simp
          · rw [update_of_ne last, state.front index (by omega),
              List.getElem?_append_left (by omega)]
        · intro index inside
          rw [entries, update_of_ne (by omega)]
          exact later index inside
      obtain ⟨changed, run, done, same⟩ := ih state'
      have regroup : kept ++ (some vma :: cells).reduceOption =
          kept ++ [vma] ++ cells.reduceOption := by
        rw [reduceOption_cons_of_some]
        simp
      simp only [moving, regroup, ← next, Exec.ok_bind]
      rw [length_append, length_singleton] at run
      refine ⟨changed, run, done, ?_⟩
      intro index beyond
      rw [same index beyond, entries, update_of_ne (by omega)]

theorem Holds.compact_returns (holds : tree.Holds vmas) (inside : index < vmas.length) :
    ∃ changed, compact { tree with entries := update tree.entries index none } =
        .ok changed ∧ changed.Holds (vmas.eraseIdx index) := by
  let cleared : VmaTree := { tree with entries := update tree.entries index none }
  let cells : List (Option Vma) := (vmas.map some).set index none
  have length : cells.length = tree.len := by
    rw [length_set, length_map, holds.len]
  have contents : ∀ position < cells.length,
      cleared.entries (0 + position) = cells[position]?.join := by
    intro position within
    rw [Nat.zero_add]
    by_cases here : position = index
    · rw [here, List.getElem?_set_self (by simpa using inside)]
      exact update_self _ _ _
    · rw [List.getElem?_set_ne (Ne.symm here), List.getElem?_map, ← holds.packed position]
      refine (update_of_ne here _ _).trans ?_
      cases tree.entries position <;> rfl
  have room : tree.len ≤ maxVmas := holds.len ▸ holds.room
  obtain ⟨moved, run, done, same⟩ := compactLoop_returns
    (⟨Nat.le_refl 0, by omega, fun _ impossible => absurd impossible (Nat.not_lt_zero _), contents⟩ :
      Compacting cleared [] 0 cells)
  rw [nil_append, Slots.reduceOption_set_none, length, ← range_eq_range'] at run
  rw [nil_append, Slots.reduceOption_set_none, length, Nat.zero_add] at done
  have fits : (vmas.eraseIdx index).length ≤ tree.len := by simpa using done.below
  let final : VmaTree := ⟨fun position =>
    if (vmas.eraseIdx index).length ≤ position ∧ position < tree.len then none
    else moved.entries position, (vmas.eraseIdx index).length⟩
  refine ⟨final, ?_, ?_⟩
  · rw [compact, show compactLoop (List.range cleared.len) 0 cleared = _ from run, Exec.ok_bind]
    exact if_pos ⟨fits, room⟩
  · refine ⟨rfl, Nat.le_trans fits room, ?_⟩
    intro position
    -- The slots are those of the kept areas, the cleared ones, and those never used.
    by_cases front : position < (vmas.eraseIdx index).length
    · rw [← done.front position front]
      exact if_neg (by omega)
    · rw [List.getElem?_eq_none (by omega)]
      by_cases middle : position < tree.len
      · exact if_pos ⟨by omega, middle⟩
      · refine (if_neg (by omega)).trans ?_
        rw [same position (by omega)]
        refine (update_of_ne ?_ _ _).trans ?_
        · rw [holds.len] at middle
          omega
        · rw [holds.packed position, List.getElem?_eq_none]
          rw [← holds.len]
          omega

theorem removeLoop_passes {rest : List Nat} (inside : index < maxVmas)
    (held : tree.entries index = some vma) (other : ¬ (vma.start = start ∧ vma.stop = stop)) :
    tree.removeLoop start stop (index :: rest) = tree.removeLoop start stop rest := by
  rw [removeLoop, slot, if_pos inside, held, Exec.ok_bind]
  exact if_neg other

/-- The area with a range is removed if no area before it has the same range. -/
theorem Holds.removeLoop_found (holds : tree.Holds (before ++ vma :: after))
    (first : ∀ other ∈ before, ¬ (other.start = vma.start ∧ other.stop = vma.stop)) :
    ∃ changed, tree.removeLoop vma.start vma.stop (List.range tree.len) =
      .ok (.ok vma, changed) ∧ changed.Holds (before ++ after) := by
  have length : tree.len = before.length + (after.length + 1) := by
    rw [holds.len, length_append, length_cons]
  have room : tree.len ≤ maxVmas := holds.len ▸ holds.room
  have within : before.length < (before ++ vma :: after).length := by simp
  obtain ⟨changed, run, held⟩ := holds.compact_returns within
  rw [eraseIdx_append_of_length_le (Nat.le_refl _), Nat.sub_self, eraseIdx_cons_zero]
    at held
  refine ⟨changed, ?_, held⟩
  -- The slots before the one of the area are passed over.
  rw [length, Slots.range_around, holds.packed.skip fun index rest other member below held =>
    removeLoop_passes (by omega) held (first other member), removeLoop]
  have found : tree.slot before.length = .ok (some vma) := by
    rw [slot, if_pos (by omega), holds.packed]
    simp
  rw [found, Exec.ok_bind]
  simp only [and_self, if_true]
  rw [setSlot, if_pos (by omega), Exec.ok_bind, run]
  rfl

/-- Nothing is removed if no area has the range. -/
theorem Holds.removeLoop_missing (holds : tree.Holds vmas)
    (missing : ∀ vma ∈ vmas, ¬ (vma.start = start ∧ vma.stop = stop)) :
    tree.removeLoop start stop (List.range tree.len) = .ok (.error .notFound, tree) := by
  have packed : Packed tree.entries (vmas ++ []) := by simpa using holds.packed
  rw [holds.len, ← append_nil (List.range _)]
  exact packed.skip (fun index rest vma member below held =>
    removeLoop_passes (Nat.lt_of_lt_of_le below holds.room) held (missing vma member)) []

end Remove

section UpdateProt

variable {prot : ProtFlags}

theorem updateProtLoop_passes {rest : List Nat} (held : tree.entries index = some vma)
    (other : ¬ (vma.start = start ∧ vma.stop = stop)) :
    tree.updateProtLoop start stop prot (index :: rest) =
      tree.updateProtLoop start stop prot rest := by
  rw [updateProtLoop, held]
  exact if_neg other

/-- The protection of the area with a range is changed if no area before it has that range. -/
theorem Holds.updateProtLoop_found (holds : tree.Holds (before ++ vma :: after))
    (first : ∀ other ∈ before, ¬ (other.start = vma.start ∧ other.stop = vma.stop)) :
    ∃ changed, tree.updateProtLoop vma.start vma.stop prot (List.range tree.len) =
      (.ok (), changed) ∧ changed.Holds (before ++ { vma with prot } :: after) := by
  have length : tree.len = before.length + (after.length + 1) := by
    rw [holds.len, length_append, length_cons]
  have within : before.length < (before ++ vma :: after).length := by simp
  refine ⟨⟨update tree.entries before.length (some { vma with prot }), tree.len⟩, ?_,
    ⟨?_, ?_, ?_⟩⟩
  · rw [congrArg List.range length, Slots.range_around,
      holds.packed.skip fun index rest other member _ held =>
        updateProtLoop_passes held (first other member), updateProtLoop]
    have found : tree.entries before.length = some vma := by
      rw [holds.packed]
      simp
    rw [found]
    exact if_pos ⟨rfl, rfl⟩
  · rw [length_append, length_cons]
    exact length
  · have room := holds.room
    rw [length_append, length_cons] at room ⊢
    exact room
  · have packed := holds.packed.set within { vma with prot }
    simpa using packed

/-- Nothing is changed if no area has the range. -/
theorem Holds.updateProtLoop_missing (holds : tree.Holds vmas)
    (missing : ∀ vma ∈ vmas, ¬ (vma.start = start ∧ vma.stop = stop)) :
    tree.updateProtLoop start stop prot (List.range tree.len) = (.error .notFound, tree) := by
  have packed : Packed tree.entries (vmas ++ []) := by simpa using holds.packed
  rw [holds.len, ← append_nil (List.range _)]
  exact packed.skip (fun index rest vma member _ held =>
    updateProtLoop_passes held (missing vma member)) []

end UpdateProt

end VmaTree

end TheoryKernel.Mm
