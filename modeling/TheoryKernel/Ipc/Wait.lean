import Mathlib.Algebra.Group.Nat.Defs
import Mathlib.Data.List.Basic
import Mathlib.Logic.Function.Basic

/-! Queues of threads that wait for something. -/

namespace TheoryKernel.Ipc

open List

/-- The number of threads that a queue can hold. -/
def waitCapacity : Nat := 32

/-- The threads of a queue, with the latest one last. -/
structure WaitQueue where
  threads : Nat → Nat
  len : Nat

namespace WaitQueue

/-- A queue without threads. -/
def new : WaitQueue := ⟨fun _ => 2 ^ 32 - 1, 0⟩

/-- Adding a thread, unless the queue is full. -/
def push (queue : WaitQueue) (tid : Nat) : Bool × WaitQueue :=
  if waitCapacity ≤ queue.len then (false, queue)
  else (true, ⟨Function.update queue.threads queue.len tid, queue.len + 1⟩)

/-- Taking the thread that was added last. -/
def pop (queue : WaitQueue) : Option Nat × WaitQueue :=
  if queue.len = 0 then (none, queue)
  else (some (queue.threads (queue.len - 1)), { queue with len := queue.len - 1 })

variable {queue : WaitQueue} {tid : Nat}

/-- The threads that wait, in the order in which they were added. -/
def list (queue : WaitQueue) : List Nat := (List.range queue.len).map queue.threads

/-- A thread that finds room is listed last. -/
theorem list_push (room : queue.len < waitCapacity) :
    (queue.push tid).2.list = queue.list ++ [tid] := by
  -- The cells before the new one are not written.
  have before : (List.range queue.len).map (Function.update queue.threads queue.len tid) =
      (List.range queue.len).map queue.threads := by
    apply map_congr_left
    intro cell member
    exact Function.update_of_ne (Nat.ne_of_lt (mem_range.mp member)) _ _
  rw [push, if_neg (Nat.not_le_of_lt room)]
  simp only [list, range_succ, map_append, map_singleton, Function.update_self,
    before]

/-- The thread that is taken was listed last. -/
theorem list_pop {next : Nat} {rest : WaitQueue} (taken : queue.pop = (some next, rest)) :
    queue.list = rest.list ++ [next] := by
  unfold pop at taken
  split at taken
  · cases taken
  · rename_i nonempty
    cases taken
    obtain ⟨len, size⟩ := Nat.exists_eq_succ_of_ne_zero nonempty
    simp only [list, size, Nat.succ_sub_one, range_succ, map_append,
      map_singleton]

/-- Nothing is taken from an empty queue only. -/
theorem pop_none {rest : WaitQueue} (refused : queue.pop = (none, rest)) :
    queue.list = [] ∧ rest = queue := by
  unfold pop at refused
  split at refused
  · rename_i empty
    cases refused
    refine ⟨?_, rfl⟩
    rw [list, empty]
    rfl
  · cases refused

/-- Taking a number of threads, or all of them if there are fewer. -/
def popMany : Nat → WaitQueue → List Nat × WaitQueue
  | 0, queue => ([], queue)
  | count + 1, queue =>
    match queue.pop with
    | (some tid, rest) => (tid :: (rest.popMany count).1, (rest.popMany count).2)
    | (none, rest) => ([], rest)

/-- The threads that are taken were listed last, and they are as many as were asked for. -/
theorem list_popMany (count : Nat) (queue : WaitQueue) :
    queue.list = (queue.popMany count).2.list ++ (queue.popMany count).1.reverse ∧
      (queue.popMany count).1.length = min count queue.list.length := by
  induction count generalizing queue with
  | zero => exact ⟨(append_nil _).symm, (Nat.zero_min _).symm⟩
  | succ count ih =>
    unfold popMany
    cases taken : queue.pop with
    | mk next rest =>
      cases next with
      | none =>
        obtain ⟨empty, rfl⟩ := pop_none taken
        refine ⟨(append_nil _).symm, ?_⟩
        rw [empty, length_nil, Nat.min_zero]
      | some tid =>
        -- The rest of the queue comes first, and the thread is behind it.
        obtain ⟨split, length⟩ := ih rest
        have listed := list_pop taken
        constructor
        · rw [reverse_cons, ← append_assoc, ← split]
          exact listed
        · rw [length_cons, length, listed, length_append, length_singleton]
          omega

end WaitQueue

end TheoryKernel.Ipc
