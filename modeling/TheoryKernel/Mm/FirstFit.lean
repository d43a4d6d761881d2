import Mathlib.Order.Bounds.Basic
import TheoryKernel.Mm.Vma

/-! The search for a free range takes the first place that fits. -/

namespace TheoryKernel.Mm.VmaTree

variable {tree : VmaTree} {hint length limit cursor : Nat}

/-- A range at the hint, or at a page above it, that ends by the limit and meets no area. -/
structure Fits (tree : VmaTree) (hint length limit addr : Nat) : Prop where
  candidate : addr = hint ∨ hint < addr ∧ addr % pageSize = 0
  below : addr + length ≤ limit
  free : ∀ vma ∈ tree.iter, ∀ place, addr ≤ place → place < addr + length →
    vma.contains place = false

/-- The result of a search: the least address that fits, if there is one. -/
def FirstFit (tree : VmaTree) (hint length limit : Nat) (found : Option Nat) : Prop :=
  (∀ addr, found = some addr ↔ IsLeast {other | tree.Fits hint length limit other} addr) ∧
    (found = none ↔ ∀ other, ¬ tree.Fits hint length limit other)

theorem firstFit_of_least {addr : Nat}
    (least : IsLeast {other | tree.Fits hint length limit other} addr) :
    tree.FirstFit hint length limit (some addr) := by
  refine ⟨fun other => ⟨?_, fun isLeast => congrArg some (least.unique isLeast)⟩, ?_⟩
  · rintro ⟨⟩
    exact least
  · exact iff_of_false nofun fun nowhere => nowhere addr least.1

theorem firstFit_none (nowhere : ∀ other, ¬ tree.Fits hint length limit other) :
    tree.FirstFit hint length limit none :=
  ⟨fun addr => iff_of_false nofun fun least => nowhere addr least.1, iff_of_true rfl nowhere⟩

theorem overlaps_iff (formed : ∀ vma ∈ tree.iter, vma.start < vma.stop) (nonempty : 0 < length) :
    tree.overlaps cursor (cursor + length) = true ↔
      ∃ vma ∈ tree.iter, ∃ place, cursor ≤ place ∧ place < cursor + length ∧
        vma.contains place = true := by
  simp only [overlaps, List.any_eq_true, Bool.and_eq_true, decide_eq_true_eq, Vma.contains]
  refine exists_congr fun vma => and_congr_right fun member => ⟨?_, ?_⟩
  · -- The later one of the two starts is shared.
    rintro ⟨before, after⟩
    have proper := formed vma member
    exact ⟨max cursor vma.start, by omega, by omega, by omega, by omega⟩
  · rintro ⟨place, above, below, inside, inside'⟩
    omega

theorem fits_next_iff (taken : ¬ tree.Fits cursor length limit cursor) (addr : Nat) :
    tree.Fits ((cursor / pageSize + 1) * pageSize) length limit addr ↔
      tree.Fits cursor length limit addr := by
  refine ⟨fun fits => ⟨.inr ?_, fits.below, fits.free⟩, fun fits => ⟨?_, fits.below, fits.free⟩⟩
  · have candidate := fits.candidate
    unfold pageSize at *
    omega
  · have differ : addr ≠ cursor := fun same => taken (same ▸ fits)
    have candidate := fits.candidate
    unfold pageSize at *
    omega

theorem alignUp_next (small : cursor + pageSize < 2 ^ 64) :
    alignUp (wrapAdd cursor 1) pageSize = (cursor / pageSize + 1) * pageSize := by
  unfold pageSize at *
  rw [wrapAdd_eq (by omega), alignUp, wrapAdd_eq (by omega), alignDown]
  omega

theorem findGapLoop_firstFit (formed : ∀ vma ∈ tree.iter, vma.start < vma.stop)
    (nonempty : 0 < length) (low : cursor + length < 2 ^ 64)
    (high : limit + length + pageSize < 2 ^ 64) {budget : Nat}
    (enough : limit / pageSize < cursor / pageSize + budget) :
    ∃ found, tree.findGapLoop length limit (budget + 1) cursor = .ok found ∧
      tree.FirstFit cursor length limit found := by
  -- Each round goes on to the next page, and the budget covers the pages up to the limit.
  induction budget generalizing cursor with
  | zero =>
    have beyond : limit < cursor := by
      unfold pageSize at enough
      omega
    rw [findGapLoop, wrapAdd_eq low, if_neg (by omega)]
    refine ⟨none, rfl, firstFit_none fun other fits => ?_⟩
    have := fits.candidate
    have := fits.below
    omega
  | succ budget ih =>
    rw [findGapLoop, wrapAdd_eq low]
    by_cases inside : cursor + length ≤ limit
    · rw [if_pos inside]
      by_cases taken : tree.overlaps cursor (cursor + length) = true
      · -- The place is taken, so that what fits from the next page on is all that fits.
        rw [if_pos taken, alignUp_next (by omega)]
        obtain ⟨vma, member, place, above, below, held⟩ := (overlaps_iff formed nonempty).mp taken
        have notHere : ¬ tree.Fits cursor length limit cursor := by
          intro fits
          rw [fits.free vma member place above below] at held
          cases held
        obtain ⟨found, run, first⟩ := @ih ((cursor / pageSize + 1) * pageSize)
          (by unfold pageSize at *; omega) (by unfold pageSize at *; omega)
        refine ⟨found, run, ?_⟩
        rwa [FirstFit, funext fun addr => propext (fits_next_iff notHere addr)] at first
      · rw [if_neg taken]
        refine ⟨some cursor, rfl, firstFit_of_least ⟨⟨Or.inl rfl, inside, ?_⟩, ?_⟩⟩
        · intro vma member place above below
          rw [← Bool.not_eq_true]
          intro held
          exact taken ((overlaps_iff formed nonempty).mpr ⟨vma, member, place, above, below, held⟩)
        · rintro other ⟨rfl | ⟨above, -⟩, -, -⟩
          · exact le_rfl
          · exact above.le
    · rw [if_neg inside]
      refine ⟨none, rfl, firstFit_none fun other fits => ?_⟩
      have := fits.candidate
      have := fits.below
      omega

/--
The search for a free range is first fit.

It ends, with the least address among the hint and the pages above it where the range fits, or with
nothing if there is no such address.
-/
theorem findGap_first_fit (formed : ∀ vma ∈ tree.iter, vma.start < vma.stop)
    (nonempty : 0 < length) (low : hint + length < 2 ^ 64)
    (high : limit + length + pageSize < 2 ^ 64) :
    ∃ found, tree.findGap hint length limit = .ok found ∧
      tree.FirstFit hint length limit found := by
  refine findGapLoop_firstFit formed nonempty low high ?_
  unfold pageSize at *
  omega

/-- A search from a hint that lies in the only area. -/
theorem findGap_first_fit_one :
    ∃ found, VmaTree.findGap ⟨fun _ => some (.new 0 4096 0 0 .mmap), 1⟩ 5 4096 8192 = .ok found ∧
      VmaTree.FirstFit ⟨fun _ => some (.new 0 4096 0 0 .mmap), 1⟩ 5 4096 8192 found :=
  findGap_first_fit (by decide) (by decide) (by decide) (by decide)

end TheoryKernel.Mm.VmaTree
