import Mathlib.Data.List.Perm.Basic
import Mathlib.Tactic.Common

/-! Ranges of addresses that share no address. -/

/-- A range of addresses. -/
structure Extent where
  start : Nat
  size : Nat
  deriving DecidableEq, Repr

namespace Extent

/-- Two ranges of which one ends before the other starts. -/
def Apart (first second : Extent) : Prop :=
  first.start + first.size ≤ second.start ∨ second.start + second.size ≤ first.start

/-- A range that is part of another one. -/
def Inside (inner outer : Extent) : Prop :=
  outer.start ≤ inner.start ∧ inner.start + inner.size ≤ outer.start + outer.size

variable {first second inner outer other : Extent} {extents extents' rest : List Extent}
  {start size part : Nat}

/-- Being apart is the same in both orders. -/
theorem Apart.symm (apart : first.Apart second) : second.Apart first := Or.symm apart

/-- Part of a range is apart from what the range is apart from. -/
theorem Apart.inside (apart : outer.Apart other) (inside : inner.Inside outer) :
    inner.Apart other := by
  unfold Apart Inside at *
  omega

/-- Ranges that share no address with each other. -/
def Separate (extents : List Extent) : Prop := extents.Pairwise Apart

/-- The order of the ranges does not matter. -/
theorem Separate.perm (separate : Separate extents) (same : extents.Perm extents') :
    Separate extents' := (same.pairwise_iff Apart.symm).mp separate

/-- The first range is apart from each of the others. -/
theorem separate_cons :
    Separate (first :: rest) ↔ (∀ other ∈ rest, first.Apart other) ∧ Separate rest :=
  List.pairwise_cons

/-- A range may be replaced by a part of it. -/
theorem Separate.shrink (separate : Separate (outer :: rest)) (inside : inner.Inside outer) :
    Separate (inner :: rest) := by
  obtain ⟨apart, separate⟩ := separate_cons.mp separate
  exact separate_cons.mpr ⟨fun other member => (apart other member).inside inside, separate⟩

/-- A range may be cut in two. -/
theorem Separate.cut (separate : Separate (⟨start, size⟩ :: rest)) (fits : part ≤ size) :
    Separate (⟨start, part⟩ :: ⟨start + part, size - part⟩ :: rest) := by
  obtain ⟨apart, separate⟩ := separate_cons.mp separate
  refine separate_cons.mpr ⟨?_, separate_cons.mpr ⟨?_, separate⟩⟩
  · intro other member
    rcases List.mem_cons.mp member with rfl | later
    · exact .inl (Nat.le_refl _)
    · exact (apart other later).inside ⟨Nat.le_refl _, by simp only; omega⟩
  · intro other member
    exact (apart other member).inside ⟨Nat.le_add_right _ _, by simp only; omega⟩

end Extent
