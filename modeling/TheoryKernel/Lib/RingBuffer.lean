import Mathlib.Logic.Function.Basic
import Mathlib.Tactic.Common

/-! Ring buffers, and the queues of items that they stand for. -/

/-- The cells of a ring, where the next item is read and written, and how many items it holds. -/
structure RingBuffer (α : Type) where
  cells : Nat → α
  head : Nat
  tail : Nat
  len : Nat

namespace RingBuffer

open List

variable {α : Type}

/-- A ring without items. -/
def empty (blank : α) : RingBuffer α := ⟨fun _ => blank, 0, 0, 0⟩

/-- Writing an item behind the others; there is no result if the cell is outside the ring. -/
def put (capacity : Nat) (ring : RingBuffer α) (item : α) : Option (RingBuffer α) :=
  if ring.tail < capacity then
    some { ring with
      cells := Function.update ring.cells ring.tail item
      tail := (ring.tail + 1) % capacity
      len := ring.len + 1 }
  else none

/-- Reading the first item; there is no result if the cell is outside the ring. -/
def take (capacity : Nat) (ring : RingBuffer α) : Option (α × RingBuffer α) :=
  if ring.head < capacity then
    some (ring.cells ring.head,
      { ring with head := (ring.head + 1) % capacity, len := ring.len - 1 })
  else none

/-- Writing items until the ring is full, with the number of items that were written. -/
def write (capacity : Nat) : List α → RingBuffer α → Option (Nat × RingBuffer α)
  | [], ring => some (0, ring)
  | item :: rest, ring =>
    if capacity ≤ ring.len then some (0, ring)
    else do
      let next ← ring.put capacity item
      let (written, final) ← write capacity rest next
      some (written + 1, final)

/-- Reading items until the ring is empty or the reader has no room left. -/
def read (capacity : Nat) : Nat → RingBuffer α → Option (List α × RingBuffer α)
  | 0, ring => some ([], ring)
  | room + 1, ring =>
    if ring.len = 0 then some ([], ring)
    else do
      let (item, next) ← ring.take capacity
      let (items, final) ← read capacity room next
      some (item :: items, final)

/-- The items of a ring, from the first one to the last one. -/
def items (capacity : Nat) (ring : RingBuffer α) : List α :=
  (List.range ring.len).map fun index => ring.cells ((ring.head + index) % capacity)

/-- A ring whose indices are those of a queue with at most as many items as there are cells. -/
structure Queues (capacity : Nat) (ring : RingBuffer α) : Prop where
  head : ring.head < capacity
  fits : ring.len ≤ capacity
  tail : ring.tail = (ring.head + ring.len) % capacity

variable {capacity room : Nat} {ring : RingBuffer α} {item : α}

@[simp] theorem items_length : (ring.items capacity).length = ring.len := by
  simp [items]

/-- Nothing is written to a full ring. -/
theorem write_full (full : capacity ≤ ring.len) (data : List α) :
    ring.write capacity data = some (0, ring) := by
  cases data with
  | nil => rfl
  | cons item rest => rw [write, if_pos full]

/-- A ring to which nothing is written stays as it is. -/
theorem eq_of_write_zero {data : List α} {final : RingBuffer α}
    (wrote : ring.write capacity data = some (0, final)) : final = ring := by
  cases data with
  | nil =>
    cases wrote
    rfl
  | cons item rest =>
    rw [write] at wrote
    split at wrote
    · cases wrote
      rfl
    · -- One item that is written makes the count positive.
      simp only [Option.bind_eq_bind, Option.bind_eq_some_iff,
        Option.some.injEq, Prod.mk.injEq] at wrote
      obtain ⟨-, -, ⟨count, _⟩, -, positive, -⟩ := wrote
      exact absurd positive (Nat.succ_ne_zero count)

/-- A ring whose next item is in a cell of it gives as many items as it has and are asked for. -/
theorem read_length (inside : ring.head < capacity) (room : Nat) :
    ∃ items final, ring.read capacity room = some (items, final) ∧
      items.length = min ring.len room := by
  induction room generalizing ring with
  | zero => exact ⟨[], ring, rfl, (Nat.min_zero _).symm⟩
  | succ room ih =>
    rw [read]
    split
    · rename_i empty
      exact ⟨[], ring, rfl, by rw [empty, Nat.zero_min, length_nil]⟩
    · rename_i nonempty
      -- The next cell is again one of the ring.
      have positive : 0 < capacity := Nat.lt_of_le_of_lt (Nat.zero_le _) inside
      let next : RingBuffer α :=
        { ring with head := (ring.head + 1) % capacity, len := ring.len - 1 }
      have taken : ring.take capacity = some (ring.cells ring.head, next) := if_pos inside
      have inside' : next.head < capacity := Nat.mod_lt _ positive
      obtain ⟨items, final, run, length⟩ := ih inside'
      refine ⟨ring.cells ring.head :: items, final, ?_, ?_⟩
      · simp only [taken, Option.bind_eq_bind, Option.bind_some, run]
      · have fewer : next.len = ring.len - 1 := rfl
        rw [length_cons, length, fewer]
        omega

/-- Items are read from cells of the ring only. -/
theorem head_lt_of_read {items : List α} {final : RingBuffer α}
    (run : ring.read capacity room = some (items, final)) (nonempty : items ≠ []) :
    ring.head < capacity := by
  cases room with
  | zero =>
    cases run
    exact absurd rfl nonempty
  | succ room =>
    rw [read] at run
    split at run
    · cases run
      exact absurd rfl nonempty
    · by_contra outside
      have missing : ring.take capacity = none := if_neg outside
      rw [missing] at run
      cases run

/-- A ring without items stands for the empty queue. -/
theorem queues_empty (blank : α) (positive : 0 < capacity) :
    (empty blank).Queues capacity ∧ (empty blank).items capacity = [] :=
  ⟨⟨positive, Nat.zero_le _, (Nat.zero_mod capacity).symm⟩, rfl⟩

namespace Queues

variable (queues : ring.Queues capacity)

include queues

private theorem put (room : ring.len < capacity) (item : α) :
    ∃ next, ring.put capacity item = some next ∧ next.Queues capacity ∧
      next.items capacity = ring.items capacity ++ [item] := by
  have positive : 0 < capacity := Nat.lt_of_le_of_lt (Nat.zero_le _) room
  have inside : ring.tail < capacity := by
    rw [queues.tail]
    exact Nat.mod_lt _ positive
  refine ⟨_, if_pos inside, ⟨queues.head, room, ?_⟩, ?_⟩
  · -- One more item moves the tail by one.
    change (ring.tail + 1) % capacity = (ring.head + (ring.len + 1)) % capacity
    rw [queues.tail, Nat.mod_add_mod, Nat.add_assoc]
  · simp only [items, range_succ, map_append, map_singleton]
    congr 1
    · -- The cell of the new item is none of the others.
      apply map_congr_left
      intro index member
      have early : index < ring.len := mem_range.mp member
      rw [Function.update_of_ne]
      rw [queues.tail]
      intro same
      have inside := queues.head
      -- Both sums are below twice the capacity, so at most one of them wraps.
      rcases Nat.lt_or_ge (ring.head + ring.len) capacity with small | large
      · rw [Nat.mod_eq_of_lt small, Nat.mod_eq_of_lt (by omega)] at same
        omega
      · rw [Nat.mod_eq_sub_mod large, Nat.mod_eq_of_lt (a := ring.head + ring.len - capacity) (by omega)]
          at same
        rcases Nat.lt_or_ge (ring.head + index) capacity with below | above
        · rw [Nat.mod_eq_of_lt below] at same
          omega
        · rw [Nat.mod_eq_sub_mod above, Nat.mod_eq_of_lt (by omega)] at same
          omega
    · rw [← queues.tail, Function.update_self]

private theorem take (nonempty : ring.len ≠ 0) :
    ∃ item next, ring.take capacity = some (item, next) ∧ next.Queues capacity ∧
      ring.items capacity = item :: next.items capacity := by
  have inside := queues.head
  have fits := queues.fits
  have positive : 0 < capacity := Nat.lt_of_le_of_lt (Nat.zero_le _) inside
  obtain ⟨rest, more⟩ := Nat.exists_eq_succ_of_ne_zero nonempty
  refine ⟨_, _, if_pos inside, ⟨Nat.mod_lt _ positive, ?_, ?_⟩, ?_⟩
  · change ring.len - 1 ≤ capacity
    omega
  · change ring.tail = ((ring.head + 1) % capacity + (ring.len - 1)) % capacity
    rw [queues.tail, Nat.mod_add_mod, more]
    congr 1
    omega
  · change _ = _ :: (List.range (ring.len - 1)).map fun index =>
      ring.cells (((ring.head + 1) % capacity + index) % capacity)
    rw [items, more, Nat.succ_sub_one, range_succ_eq_map, map_cons, map_map]
    congr 1
    · rw [Nat.add_zero, Nat.mod_eq_of_lt inside]
    · apply map_congr_left
      intro index _
      change ring.cells ((ring.head + (index + 1)) % capacity) = _
      rw [Nat.mod_add_mod, Nat.add_assoc, Nat.add_comm 1 index]

/-- As many items are written as fit, behind the others and in their order. -/
theorem write (data : List α) :
    ∃ final, ring.write capacity data = some (min data.length (capacity - ring.len), final) ∧
      final.Queues capacity ∧ final.items capacity =
        ring.items capacity ++ data.take (min data.length (capacity - ring.len)) := by
  induction data generalizing ring with
  | nil => exact ⟨ring, by simp [RingBuffer.write], queues, by simp⟩
  | cons item rest ih =>
    have fits := queues.fits
    rw [RingBuffer.write]
    by_cases full : capacity ≤ ring.len
    · -- Nothing fits into a full ring.
      have none : capacity - ring.len = 0 := by omega
      rw [if_pos full, none, Nat.min_zero]
      exact ⟨ring, rfl, queues, by simp⟩
    · obtain ⟨next, first, queues', added⟩ := queues.put (by omega) item
      obtain ⟨final, later, queues'', filled⟩ := ih queues'
      have longer : next.len = ring.len + 1 := by
        have lengths := congrArg List.length added
        simpa using lengths
      have count : min (item :: rest).length (capacity - ring.len) =
          min rest.length (capacity - next.len) + 1 := by
        rw [length_cons, longer]
        omega
      rw [if_neg full, first, count]
      refine ⟨final, ?_, queues'', ?_⟩
      · simp only [Option.bind_eq_bind, Option.bind_some, later]
      · rw [filled, added, take_succ_cons, append_assoc, singleton_append]

/-- The first items are read, as many as there is room for, and the others stay. -/
theorem read (room : Nat) :
    ∃ final, ring.read capacity room = some ((ring.items capacity).take room, final) ∧
      final.Queues capacity ∧ final.items capacity = (ring.items capacity).drop room := by
  induction room generalizing ring with
  | zero => exact ⟨ring, rfl, queues, rfl⟩
  | succ room ih =>
    rw [RingBuffer.read]
    by_cases blank : ring.len = 0
    · have nothing : ring.items capacity = [] := by
        rw [items, blank]
        rfl
      rw [if_pos blank, nothing]
      exact ⟨ring, rfl, queues, nothing⟩
    · obtain ⟨item, next, first, queues', split⟩ := queues.take blank
      obtain ⟨final, later, queues'', left⟩ := ih queues'
      rw [if_neg blank, first, split]
      refine ⟨final, ?_, queues'', left⟩
      simp only [Option.bind_eq_bind, Option.bind_some, later, take_succ_cons]

end Queues

end RingBuffer
