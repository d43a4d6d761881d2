import Mathlib.Algebra.BigOperators.Group.Finset.Basic
import Mathlib.Data.List.Induction
import Mathlib.Data.List.ReduceOption
import Mathlib.Logic.Function.Basic

/-! Arrays of optional slots whose used slots come first. -/

namespace Slots

open Function List

variable {α : Type}

/-- The slots hold the items of a list, in order and from the first slot on. -/
def Packed (slots : Nat → Option α) (items : List α) : Prop := ∀ index, slots index = items[index]?

variable {slots : Nat → Option α} {items before after : List α} {item left right : α} {index : Nat}

/-- The contents of the slots determine the items. -/
theorem Packed.filterMap_range (packed : Packed slots items) :
    (List.range items.length).filterMap slots = items := by
  -- The last item is in the last of the slots, and the others are in the slots before it.
  induction items using List.reverseRecOn generalizing slots with
  | nil => rfl
  | append_singleton items item ih =>
    have last : slots items.length = some item := by simp [packed items.length]
    have earlier : (List.range items.length).filterMap slots =
        (List.range items.length).filterMap fun index => items[index]? := by
      apply filterMap_congr
      intro index inside
      rw [packed index, List.getElem?_append_left (mem_range.mp inside)]
    rw [length_append, length_singleton, range_succ, filterMap_append, earlier,
      ih fun _ => rfl]
    simp [last]

/-- An item may be replaced in its slot. -/
theorem Packed.set (packed : Packed slots items) (inside : index < items.length) (item : α) :
    Packed (update slots index (some item)) (items.set index item) := by
  intro other
  by_cases same : other = index
  · rw [same, update_self, List.getElem?_set_self inside]
  · rw [update_of_ne same, packed other, List.getElem?_set_ne (Ne.symm same)]

/-- An item may be added in the first unused slot. -/
theorem Packed.push (packed : Packed slots items) (item : α) :
    Packed (update slots items.length (some item)) (items ++ [item]) := by
  intro other
  by_cases same : other = items.length
  · rw [same, update_self]
    simp
  · rw [update_of_ne same, packed other]
    rcases Nat.lt_or_gt_of_ne same with below | above
    · rw [List.getElem?_append_left below]
    · rw [List.getElem?_eq_none (by omega), List.getElem?_eq_none (by simp; omega)]

/-- Two neighbours may be exchanged. -/
theorem Packed.swap (packed : Packed slots (before ++ left :: right :: after)) :
    Packed (update (update slots before.length (some right))
      (before.length + 1) (some left)) (before ++ right :: left :: after) := by
  have inside : before.length < (before ++ left :: right :: after).length := by simp
  have first := packed.set inside right
  have inside' : before.length + 1 <
      ((before ++ left :: right :: after).set before.length right).length := by simp
  have second := first.set inside' left
  simpa using second

/-- A search along the slots goes past the items that it passes one by one. -/
theorem Packed.skip {β : Type} {search : List Nat → β} (packed : Packed slots (before ++ after))
    (passes : ∀ index rest, ∀ item ∈ before, index < before.length → slots index = some item →
      search (index :: rest) = search rest)
    (rest : List Nat) : search (List.range before.length ++ rest) = search rest := by
  induction before using List.reverseRecOn generalizing after rest with
  | nil => rfl
  | append_singleton before item ih =>
    have regroup : Packed slots (before ++ item :: after) := by simpa using packed
    have last : slots before.length = some item := by simp [regroup before.length]
    rw [length_append, length_singleton, range_succ, append_assoc,
      ih regroup fun index rest other member below =>
        passes index rest other (mem_append_left _ member) (by simp; omega)]
    exact passes before.length rest item (by simp) (by simp) last

/-- A list whose items are in order stays so when an item behind all of them is added. -/
theorem pairwise_concat {relation : α → α → Prop} (ordered : items.Pairwise relation)
    (behind : ∀ other ∈ items, relation other item) : (items ++ [item]).Pairwise relation := by
  rw [pairwise_append]
  refine ⟨ordered, pairwise_singleton _ _, ?_⟩
  intro other inside last isLast
  rw [mem_singleton.mp isLast]
  exact behind other inside

/-- Dropping one item leaves those before and behind it. -/
theorem reduceOption_set_none (items : List α) (index : Nat) :
    ((items.map some).set index none).reduceOption = items.eraseIdx index := by
  induction items generalizing index with
  | nil => rfl
  | cons item items ih =>
    cases index with
    | zero => simp [List.reduceOption]
    | succ index =>
      rw [map_cons, set_cons_succ, reduceOption_cons_of_some, ih,
        eraseIdx_cons_succ]

/-- The positions before one, that one, and those behind it. -/
theorem range_around (before behind : Nat) :
    List.range (before + (behind + 1)) =
      List.range before ++ before :: List.range' (before + 1) behind := by
  rw [range_eq_range', range_eq_range', ← range'_append_1, Nat.zero_add,
    range'_succ]

/-- A slot holds what was written to it, or is another one and holds what it did before. -/
theorem of_update {κ β : Type} [DecidableEq κ] {cells : κ → β} {key other : κ} {new value : β}
    (found : update cells key new other = value) :
    other = key ∧ new = value ∨ other ≠ key ∧ cells other = value := by
  by_cases same : other = key
  · subst same
    exact .inl ⟨rfl, (update_self ..).symm.trans found⟩
  · exact .inr ⟨same, (update_of_ne same ..).symm.trans found⟩

/-- What holds of the items in all slots holds after an item of which it holds is written. -/
theorem forall_update {κ : Type} [DecidableEq κ] {cells : κ → Option α} {key : κ}
    {holds : κ → α → Prop} (new : holds key item)
    (all : ∀ other found, cells other = some found → holds other found) :
    ∀ other found, update cells key (some item) other = some found → holds other found := by
  intro other found there
  rcases of_update there with ⟨rfl, ⟨⟩⟩ | ⟨-, there⟩
  · exact new
  · exact all other found there

/-- A sum over the slots follows the weight of the slot that is written. -/
theorem sum_update {β : Type} (weight : β → Nat) (cells : Nat → β) {size index : Nat}
    (inside : index < size) (item : β) :
    ∑ cell ∈ Finset.range size, weight (update cells index item cell) +
        weight (cells index) =
      ∑ cell ∈ Finset.range size, weight (cells cell) + weight item := by
  -- The slots other than the written one add up to the same on both sides.
  have member : index ∈ Finset.range size := Finset.mem_range.mpr inside
  have others : ∑ cell ∈ (Finset.range size).erase index,
      weight (update cells index item cell) =
        ∑ cell ∈ (Finset.range size).erase index, weight (cells cell) := by
    apply Finset.sum_congr rfl
    intro cell left
    rw [update_of_ne (Finset.ne_of_mem_erase left)]
  have written := Finset.add_sum_erase _ (fun cell => weight (update cells index item cell))
    member
  have before := Finset.add_sum_erase _ (fun cell => weight (cells cell)) member
  simp only [update_self] at written
  omega

end Slots
