import Mathlib.Data.List.Pairwise
import TheoryKernel.Lib.Runs
import TheoryKernel.Mm.VmaList

/-! The areas of an address space are a finite set of disjoint ranges. -/

namespace TheoryKernel.Mm

open List

namespace VmaTree

/-- The areas are not empty, sorted by where they start, and share no address. -/
structure Areas (tree : VmaTree) (vmas : List Vma) : Prop extends Holds tree vmas where
  nonempty : ∀ vma ∈ vmas, vma.start < vma.stop
  sorted : vmas.Pairwise fun first second => first.start ≤ second.start
  apart : vmas.Pairwise fun first second => ¬ first.Overlaps second.start second.stop

variable {tree changed : VmaTree} {vmas before after : List Vma} {vma other : Vma}
  {start stop addr : Nat} {prot : ProtFlags}

theorem overlaps_comm :
    vma.Overlaps other.start other.stop ↔ other.Overlaps vma.start vma.stop := by
  unfold Vma.Overlaps
  omega

theorem areas_new : VmaTree.new.Areas [] where
  len := rfl
  room := Nat.zero_le _
  packed := fun _ => rfl
  nonempty := fun _ impossible => absurd impossible not_mem_nil
  sorted := List.Pairwise.nil
  apart := List.Pairwise.nil

/-- The conditions for adding an area: a free slot, and no shared address. -/
def Accepts (vmas : List Vma) (vma : Vma) : Prop :=
  vmas.length < maxVmas ∧ ∀ other ∈ vmas, ¬ other.Overlaps vma.start vma.stop

theorem Areas.insert_accepted (areas : tree.Areas vmas) (positive : vma.start < vma.stop)
    (accepts : Accepts vmas vma) :
    ∃ changed after, tree.insert vma = .ok (.ok (), changed) ∧ changed.Areas after ∧
      after.Perm (vma :: vmas) := by
  obtain ⟨changed, sorted, run, holds, perm, ordered⟩ :=
    areas.insert_returns accepts.1 accepts.2
  refine ⟨changed, sorted, run, ⟨holds, ?_, ordered, ?_⟩, perm⟩
  · intro other inside
    rcases mem_cons.mp (perm.mem_iff.mp inside) with rfl | earlier
    · exact positive
    · exact areas.nonempty other earlier
  · -- The areas were apart, and the new one is apart from each of them.
    have symmetric : ∀ {first second : Vma}, ¬ first.Overlaps second.start second.stop →
        ¬ second.Overlaps first.start first.stop :=
      fun apart shares => apart (overlaps_comm.mp shares)
    rw [perm.pairwise_iff symmetric, pairwise_cons]
    exact ⟨fun other inside => symmetric (accepts.2 other inside), areas.apart⟩

theorem Areas.insert_rejected (areas : tree.Areas vmas) (rejects : ¬ Accepts vmas vma) :
    tree.insert vma = .ok (.error .noSpace, tree) := by
  apply areas.insert_refused
  have room := areas.room
  by_cases full : vmas.length = maxVmas
  · exact .inl full
  · refine .inr ?_
    by_contra none
    refine rejects ⟨by omega, ?_⟩
    intro other inside shares
    exact none ⟨other, inside, shares⟩

theorem Areas.first_of_range (areas : tree.Areas (before ++ vma :: after)) :
    ∀ other ∈ before, ¬ (other.start = vma.start ∧ other.stop = vma.stop) := by
  intro other inside same
  have positive := areas.nonempty vma (by simp)
  have apart := (pairwise_append.mp areas.apart).2.2 other inside vma (by simp)
  unfold Vma.Overlaps at apart
  omega

theorem Areas.find_iff (areas : tree.Areas vmas) :
    tree.find addr = some vma ↔ vma ∈ vmas ∧ vma.start ≤ addr ∧ addr < vma.stop := by
  have containsIff : ∀ other : Vma,
      other.contains addr = true ↔ other.start ≤ addr ∧ addr < other.stop := by
    intro other
    simp [Vma.contains]
  rw [find, areas.iter_eq]
  constructor
  · intro found
    have holds : vma.contains addr = true := by simpa using List.find?_some found
    exact ⟨mem_of_find?_eq_some found, (containsIff vma).mp holds⟩
  · rintro ⟨inside, range⟩
    -- Some area is found, and only one area contains the address.
    cases found : vmas.find? fun other => other.contains addr with
    | none =>
      have missed := List.find?_eq_none.mp found vma inside
      exact absurd ((containsIff vma).mpr range) missed
    | some other =>
      have holds : other.contains addr = true := by simpa using List.find?_some found
      have range' := (containsIff other).mp holds
      have symmetric : Std.Symm fun first second : Vma => ¬ first.Overlaps second.start second.stop :=
        ⟨fun _ _ apart shares => apart (overlaps_comm.mp shares)⟩
      by_contra differ
      have apart := areas.apart.forall (mem_of_find?_eq_some found) inside
        fun same => differ (congrArg some same)
      unfold Vma.Overlaps at apart
      omega

end VmaTree

/-- The operations that change the areas. -/
inductive VmaOp where
  | insert (vma : Vma)
  | remove (start length : Nat)
  | updateProt (start length : Nat) (prot : ProtFlags)

namespace VmaOp

/-- Whether the range of an operation is not empty and does not wrap. -/
def valid : VmaOp → Bool
  | .insert vma => vma.start < vma.stop && vma.stop < 2 ^ 64
  | .remove start length => 0 < length && start + length < 2 ^ 64
  | .updateProt start length _ => 0 < length && start + length < 2 ^ 64

/-- An operation on the areas, whose answer is dropped. -/
def step (tree : VmaTree) : VmaOp → Exec VmaTree
  | .insert vma => do
    let (_, changed) ← tree.insert vma
    .ok changed
  | .remove start length => do
    let (_, changed) ← tree.remove start length
    .ok changed
  | .updateProt start length prot => .ok (tree.updateProt start length prot).2

end VmaOp

namespace VmaTree

/-- What the operations on the areas answer, and what they do to the set of the areas. -/
structure Refines (tree : VmaTree) (vmas : List Vma) : Prop where
  areas : tree.Areas vmas
  insert : ∀ vma, (VmaOp.insert vma).valid = true →
    (Accepts vmas vma ∧ ∃ changed after, tree.insert vma = .ok (.ok (), changed) ∧
      changed.Areas after ∧ after.Perm (vma :: vmas)) ∨
    ¬ Accepts vmas vma ∧ tree.insert vma = .ok (.error .noSpace, tree)
  remove : ∀ start length, (VmaOp.remove start length).valid = true →
    (∃ vma ∈ vmas, vma.start = start ∧ vma.stop = start + length ∧ ∃ changed rest,
      tree.remove start length = .ok (.ok vma, changed) ∧ changed.Areas rest ∧
      vmas.Perm (vma :: rest)) ∨
    (¬ ∃ vma ∈ vmas, vma.start = start ∧ vma.stop = start + length) ∧
      tree.remove start length = .ok (.error .notFound, tree)
  updateProt : ∀ start length prot, (VmaOp.updateProt start length prot).valid = true →
    (∃ vma ∈ vmas, vma.start = start ∧ vma.stop = start + length ∧ ∃ changed before after,
      tree.updateProt start length prot = (.ok (), changed) ∧ vmas = before ++ vma :: after ∧
      changed.Areas (before ++ { vma with prot } :: after)) ∨
    (¬ ∃ vma ∈ vmas, vma.start = start ∧ vma.stop = start + length) ∧
      tree.updateProt start length prot = (.error .notFound, tree)
  find : ∀ addr vma,
    tree.find addr = some vma ↔ vma ∈ vmas ∧ vma.start ≤ addr ∧ addr < vma.stop

variable {tree : VmaTree} {vmas : List Vma}

theorem Areas.refines (areas : tree.Areas vmas) : tree.Refines vmas where
  areas := areas
  insert := by
    intro vma isValid
    have positive : vma.start < vma.stop := by
      simp only [VmaOp.valid, Bool.and_eq_true, decide_eq_true_eq] at isValid
      exact isValid.1
    by_cases accepts : Accepts vmas vma
    · exact .inl ⟨accepts, areas.insert_accepted positive accepts⟩
    · exact Or.inr ⟨accepts, areas.insert_rejected accepts⟩
  remove := by
    intro start length isValid
    simp only [VmaOp.valid, Bool.and_eq_true, decide_eq_true_eq] at isValid
    rw [VmaTree.remove, wrapAdd_eq isValid.2]
    by_cases present : ∃ vma ∈ vmas, vma.start = start ∧ vma.stop = start + length
    · obtain ⟨vma, inside, rfl, stop⟩ := present
      obtain ⟨before, after, rfl⟩ := append_of_mem inside
      obtain ⟨changed, run, holds⟩ := areas.removeLoop_found areas.first_of_range
      have sublist : (before ++ after).Sublist (before ++ vma :: after) :=
        List.Sublist.append_left (sublist_cons_self vma after) before
      rw [stop] at run
      refine .inl ⟨vma, inside, rfl, stop, changed, before ++ after, run, ⟨holds, ?_, ?_, ?_⟩,
        perm_middle⟩
      · exact fun other member => areas.nonempty other (sublist.subset member)
      · exact areas.sorted.sublist sublist
      · exact areas.apart.sublist sublist
    · refine Or.inr ⟨present, areas.removeLoop_missing ?_⟩
      exact fun vma inside same => present ⟨vma, inside, same⟩
  updateProt := by
    intro start length prot isValid
    simp only [VmaOp.valid, Bool.and_eq_true, decide_eq_true_eq] at isValid
    rw [VmaTree.updateProt, wrapAdd_eq isValid.2]
    by_cases present : ∃ vma ∈ vmas, vma.start = start ∧ vma.stop = start + length
    · obtain ⟨vma, inside, rfl, stop⟩ := present
      obtain ⟨before, after, rfl⟩ := append_of_mem inside
      obtain ⟨changed, run, holds⟩ := areas.updateProtLoop_found areas.first_of_range
      rw [stop] at run
      refine Or.inl ⟨vma, inside, rfl, stop, changed, before, after, run, rfl, ⟨holds, ?_, ?_, ?_⟩⟩
      · intro other member
        rcases mem_append.mp member with earlier | later
        · exact areas.nonempty other (mem_append_left _ earlier)
        · rcases mem_cons.mp later with rfl | later
          · exact areas.nonempty vma (by simp)
          · exact areas.nonempty other (by simp [later])
      · -- The order depends on the ranges alone, and those are as before.
        have sorted := areas.sorted
        simp only [pairwise_append, pairwise_cons, mem_cons, forall_eq_or_imp]
          at sorted ⊢
        exact sorted
      · have apart := areas.apart
        simp only [pairwise_append, pairwise_cons, mem_cons, forall_eq_or_imp,
          Vma.Overlaps] at apart ⊢
        exact apart
    · refine Or.inr ⟨present, areas.updateProtLoop_missing ?_⟩
      exact fun vma inside same => present ⟨vma, inside, same⟩
  find := fun _ _ => areas.find_iff

theorem Areas.step_returns (areas : tree.Areas vmas) (op : VmaOp) (isValid : op.valid = true) :
    ∃ changed, op.step tree = .ok changed ∧ ∃ after, changed.Areas after := by
  cases op with
  | insert vma =>
    obtain ⟨-, changed, after, run, kept, -⟩ | ⟨-, run⟩ := areas.refines.insert vma isValid
    · exact ⟨changed, by rw [VmaOp.step, run]; rfl, after, kept⟩
    · exact ⟨tree, by rw [VmaOp.step, run]; rfl, vmas, areas⟩
  | remove start length =>
    obtain ⟨vma, -, -, -, changed, rest, run, kept, -⟩ | ⟨-, run⟩ :=
      areas.refines.remove start length isValid
    · exact ⟨changed, by rw [VmaOp.step, run]; rfl, rest, kept⟩
    · exact ⟨tree, by rw [VmaOp.step, run]; rfl, vmas, areas⟩
  | updateProt start length prot =>
    obtain ⟨vma, -, -, -, changed, before, after, run, -, kept⟩ | ⟨-, run⟩ :=
      areas.refines.updateProt start length prot isValid
    · exact ⟨changed, by rw [VmaOp.step, run], _, kept⟩
    · exact ⟨tree, by rw [VmaOp.step, run], vmas, areas⟩

/--
The areas are a finite set of disjoint ranges after every sequence of operations.

Every operation returns, the used slots are the first ones, and each answer is that of the set.
-/
theorem areas_are_disjoint_ranges (ops : List VmaOp) (isValid : ∀ op ∈ ops, op.valid = true) :
    ∃ tree vmas, Runs.run (fun tree op => VmaOp.step tree op) VmaTree.new ops = .ok tree ∧
      tree.Refines vmas := by
  obtain ⟨tree, run, vmas, areas⟩ := Runs.run_returns (fun tree : VmaTree => ∃ vmas, tree.Areas vmas)
    (fun tree op ⟨vmas, areas⟩ allowed => areas.step_returns op allowed) ⟨[], areas_new⟩
    (Runs.everyStep_of_forall isValid)
  exact ⟨tree, vmas, run, areas.refines⟩

/-- A page-sized area. -/
def pageAt (start : Nat) : Vma := Vma.new start pageSize ProtFlags.read MmapFlags.private_ .anonymous

/-- Two areas are added in reverse order, an overlapping one is refused, and one is removed. -/
theorem areas_are_disjoint_ranges_sorted :
    ∃ tree vmas, Runs.run (fun tree op => VmaOp.step tree op) VmaTree.new
        [.insert (pageAt 0x3000), .insert (pageAt 0x1000), .insert (pageAt 0x1800),
          .insert (pageAt 0x2000), .remove 0x3000 0x1000] = .ok tree ∧
      tree.Refines vmas ∧ tree.iter = [pageAt 0x1000, pageAt 0x2000] := by
  obtain ⟨tree, vmas, run, refines⟩ := areas_are_disjoint_ranges
    [.insert (pageAt 0x3000), .insert (pageAt 0x1000), .insert (pageAt 0x1800),
      .insert (pageAt 0x2000), .remove 0x3000 0x1000] (by decide)
  refine ⟨tree, vmas, run, refines, ?_⟩
  have evaluated : (Runs.run (fun tree op => VmaOp.step tree op) VmaTree.new
      [.insert (pageAt 0x3000), .insert (pageAt 0x1000), .insert (pageAt 0x1800),
        .insert (pageAt 0x2000), .remove 0x3000 0x1000]).toOption.map VmaTree.iter =
      some [pageAt 0x1000, pageAt 0x2000] := by decide
  rw [run] at evaluated
  exact Option.some.inj evaluated

end VmaTree

end TheoryKernel.Mm
