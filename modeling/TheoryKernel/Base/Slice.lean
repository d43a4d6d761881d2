import TheoryKernel.Base.Exec

/-! Slices of an array, which are checked against its length when they are taken. -/

namespace TheoryKernel

open List

variable {α : Type}

/-- The items of a range. -/
def slice (data : List α) (start stop : Nat) : Exec (List α) :=
  if start ≤ stop ∧ stop ≤ data.length then .ok ((data.drop start).take (stop - start))
  else .error .sliceOutOfRange

/-- Writing items over a range, which must have their number. -/
def copyFromSlice (buf : List α) (start stop : Nat) (src : List α) : Exec (List α) :=
  if start ≤ stop ∧ stop ≤ buf.length then
    if src.length = stop - start then .ok (buf.take start ++ src ++ buf.drop stop)
    else .error .lengthMismatch
  else .error .sliceOutOfRange

/-- Writing one item. -/
def setAt (buf : List α) (index : Nat) (item : α) : Exec (List α) :=
  if index < buf.length then .ok (buf.set index item) else .error .indexOutOfBounds

variable {data buf written rest src : List α} {start stop : Nat} {item : α}

/-- The first items of an array. -/
theorem slice_zero (inside : stop ≤ data.length) : slice data 0 stop = .ok (data.take stop) := by
  rw [slice, if_pos ⟨Nat.zero_le stop, inside⟩, drop_zero, Nat.sub_zero]

/-- An item inside an array may be written. -/
theorem setAt_eq {index : Nat} (inside : index < buf.length) :
    setAt buf index item = .ok (buf.set index item) :=
  if_pos inside

/-- A range inside an array may be written over, and the array keeps its length. -/
theorem copyFromSlice_length (stops : start + src.length = stop) (inside : stop ≤ buf.length) :
    ∃ next, copyFromSlice buf start stop src = .ok next ∧ next.length = buf.length := by
  refine ⟨_, (if_pos ⟨by omega, inside⟩).trans (if_pos (by omega)), ?_⟩
  simp only [length_append, length_take, length_drop]
  omega

/-- A range may be written over with as many items. -/
theorem copyFromSlice_replace {old : List α} (starts : written.length = start)
    (stops : start + src.length = stop) (same : old.length = src.length) :
    copyFromSlice (written ++ old ++ rest) start stop src = .ok (written ++ src ++ rest) := by
  subst starts stops
  have inside : written.length ≤ written.length + src.length ∧
      written.length + src.length ≤ (written ++ old ++ rest).length := by
    rw [length_append, length_append]
    omega
  have before : (written ++ old ++ rest).take written.length = written := by
    rw [append_assoc, take_left]
  have behind : (written ++ old ++ rest).drop (written.length + src.length) = rest := by
    rw [← same, ← length_append, drop_left]
  rw [copyFromSlice, if_pos inside, if_pos (Nat.add_sub_cancel_left _ _).symm, before, behind]

/-- A buffer whose first items have been written, while the others are as before. -/
def Filled (buf written current : List α) : Prop := current = written ++ buf.drop written.length

namespace Filled

variable {current : List α}

/-- Nothing has been written to a buffer at first. -/
theorem nothing (buf : List α) : Filled buf [] buf := rfl

/-- Items are written behind those that were written before. -/
theorem copyFromSlice (filled : Filled buf written current) (start stop : Nat) (src : List α)
    (starts : written.length = start) (stops : start + src.length = stop)
    (room : stop ≤ buf.length) :
    ∃ next, TheoryKernel.copyFromSlice current start stop src = .ok next ∧
      Filled buf (written ++ src) next := by
  -- What is written over is the part of the buffer up to the end of the range.
  have split : current = written ++ (buf.drop start).take src.length ++ buf.drop stop := by
    rw [filled, append_assoc, starts, ← stops, ← drop_drop, take_append_drop]
  have enough : ((buf.drop start).take src.length).length = src.length := by
    rw [length_take, length_drop]
    omega
  refine ⟨written ++ src ++ buf.drop stop, ?_, ?_⟩
  · rw [split, copyFromSlice_replace starts stops enough]
  · rw [Filled, length_append, starts, stops]

/-- An item is written behind those that were written before. -/
theorem setAt (filled : Filled buf written current) (start : Nat) (item : α)
    (starts : written.length = start) (room : start < buf.length) :
    ∃ next, TheoryKernel.setAt current start item = .ok next ∧
      Filled buf (written ++ [item]) next := by
  subst starts
  have split : current = written ++ buf[written.length] :: buf.drop (written.length + 1) := by
    rw [filled, drop_eq_getElem_cons room]
  have inside : written.length < current.length := by
    rw [split, length_append, length_cons]
    omega
  refine ⟨written ++ item :: buf.drop (written.length + 1), ?_, ?_⟩
  · rw [TheoryKernel.setAt, if_pos inside, split, set_append_right _ _ (Nat.le_refl _),
      Nat.sub_self, set_cons_zero]
  · rw [Filled, length_append, length_singleton, append_assoc]
    rfl

end Filled

end TheoryKernel
