import TheoryKernel.Mm.Fault

/-! What a change of protection does to the entries of a page table. -/

namespace TheoryKernel.Mm

open Machine

section Words

variable {flags added bits mask : BitVec 64}

theorem contains_replaced (removed : bits &&& mask = bits) :
    contains ((flags &&& ~~~mask) ||| added) bits = contains added bits := by
  have gone : (flags &&& ~~~mask) &&& bits = 0#64 := by
    rw [← removed]
    ext index
    simp
    grind
  unfold contains
  rw [BitVec.and_or_distrib_right, gone, BitVec.zero_or]

theorem contains_added (there : contains added bits = true) :
    contains (flags ||| added) bits = true := by
  unfold contains at *
  rw [beq_iff_eq] at *
  rw [BitVec.and_or_distrib_right, there]
  ext index
  simp

theorem replaced_twice :
    ((((flags &&& ~~~mask) ||| added) &&& ~~~mask) ||| added) = (flags &&& ~~~mask) ||| added := by
  ext index
  simp
  grind

end Words

namespace PageFlags

theorem fromProt_known (prot : ProtFlags) :
    fromProt prot true &&& all = fromProt prot true := by
  simp only [fromProt, Bool.true_or, if_true]
  cases contains prot ProtFlags.write <;> cases contains prot ProtFlags.exec <;> decide

end PageFlags

namespace Vm

/-- The entry of a present page with another protection. -/
def reword (prot : ProtFlags) (entry : BitVec 64) : BitVec 64 :=
  (entry &&& physMask) ||| reprotect (PageFlags.fromBitsTruncate entry) prot

variable {prot : ProtFlags} {entry bits : BitVec 64}

theorem reword_phys : reword prot entry &&& physMask = entry &&& physMask :=
  and_physMask_entry (isPhys_and entry)
    (((isFlags_truncate entry).and _).or (isFlags_fromProt prot true))

theorem contains_reword (isFlags : IsFlags bits) :
    contains (reword prot entry) bits =
      contains (reprotect (PageFlags.fromBitsTruncate entry) prot) bits :=
  contains_entry (isPhys_and entry) isFlags

/-- A page stays present. -/
@[simp] theorem reword_present : contains (reword prot entry) PageFlags.present = true := by
  rw [contains_reword (by unfold IsFlags; decide)]
  exact contains_added (PageFlags.fromProt_present prot)

/-- A page can be reached by the user. -/
@[simp] theorem reword_user : contains (reword prot entry) PageFlags.user = true := by
  rw [contains_reword (by unfold IsFlags; decide)]
  exact contains_added (PageFlags.fromProt_user prot)

/-- A page can be written if the new protection says so. -/
@[simp] theorem reword_writable :
    contains (reword prot entry) PageFlags.writable = contains prot ProtFlags.write := by
  rw [contains_reword (by unfold IsFlags; decide), reprotect, contains_replaced (by decide),
    PageFlags.fromProt_writable]

/-- A page can be executed if the new protection says so. -/
@[simp] theorem reword_noExecute :
    contains (reword prot entry) PageFlags.noExecute = !contains prot ProtFlags.exec := by
  rw [contains_reword (by unfold IsFlags; decide), reprotect, contains_replaced (by decide),
    PageFlags.fromProt_noExecute]

/-- A second change to the same protection changes nothing. -/
@[simp] theorem reword_reword : reword prot (reword prot entry) = reword prot entry := by
  -- The flags can be read back from the entry, since all of them have a meaning.
  have known : reprotect (PageFlags.fromBitsTruncate entry) prot &&& PageFlags.all =
      reprotect (PageFlags.fromBitsTruncate entry) prot := by
    unfold reprotect PageFlags.fromBitsTruncate
    rw [BitVec.and_or_distrib_right, PageFlags.fromProt_known]
    congr 1
    ext index
    simp
    grind
  have apart : (entry &&& physMask) &&& PageFlags.all = 0#64 := by
    have none : physMask &&& PageFlags.all = 0#64 := by decide
    rw [BitVec.and_assoc, none, BitVec.and_zero]
  have flags : PageFlags.fromBitsTruncate (reword prot entry) =
      reprotect (PageFlags.fromBitsTruncate entry) prot := by
    unfold reword
    unfold PageFlags.fromBitsTruncate at known ⊢
    rw [BitVec.and_or_distrib_right, apart, BitVec.zero_or, known]
  have again : reprotect (reprotect (PageFlags.fromBitsTruncate entry) prot) prot =
      reprotect (PageFlags.fromBitsTruncate entry) prot := replaced_twice
  conv_lhs => rw [reword, reword_phys, flags, again]
  rfl

variable {table : PageTable} {machine changed final : Machine} {roots : Set Nat}
  {first second : Nat → Prop} {virt start length : Nat}

/-- The present pages of a set have another protection, and nothing else has changed. -/
structure Reprotects (machine changed : Machine) (roots : Set Nat) (root : Nat)
    (covered : Nat → Prop) (prot : ProtFlags) : Prop extends Grows machine changed roots where
  hit : ∀ page, covered (pageNumber page) →
    contains (machine.entry root page) PageFlags.present = true →
    changed.entry root page = reword prot (machine.entry root page)
  miss : ∀ other ∈ roots, ∀ page, (other = root → covered (pageNumber page) →
      contains (machine.entry root page) PageFlags.present = false) →
    changed.entry other page = machine.entry other page

theorem Reprotects.nothing (paged : machine.Paged roots) (root : Nat) (prot : ProtFlags) :
    Reprotects machine machine roots root (fun _ => False) prot :=
  ⟨.refl paged, fun _ covered => covered.elim, fun _ _ _ _ => rfl⟩

/-- The presence of a page does not depend on its protection. -/
theorem Reprotects.present {root : Nat} (inRoots : root ∈ roots)
    (changes : Reprotects machine changed roots root first prot) (page : Nat) :
    contains (changed.entry root page) PageFlags.present =
      contains (machine.entry root page) PageFlags.present := by
  by_cases touched : first (pageNumber page) ∧
      contains (machine.entry root page) PageFlags.present = true
  · rw [changes.hit page touched.1 touched.2, reword_present, touched.2]
  · rw [changes.miss root inRoots page]
    intro _ covered
    exact Bool.eq_false_iff.mpr fun present => touched ⟨covered, present⟩

theorem Reprotects.trans {root : Nat} (inRoots : root ∈ roots)
    (before : Reprotects machine changed roots root first prot)
    (after : Reprotects changed final roots root second prot) :
    Reprotects machine final roots root (fun page => first page ∨ second page) prot where
  toGrows := before.toGrows.trans after.toGrows
  hit := by
    intro page covered present
    have still := present
    rw [← before.present inRoots page] at still
    -- A page that is covered twice is as if it were covered once.
    by_cases twice : second (pageNumber page)
    · rw [after.hit page twice still]
      by_cases once : first (pageNumber page)
      · rw [before.hit page once present, reword_reword]
      · rw [before.miss root inRoots page fun _ covered => absurd covered once]
    · rw [after.miss root inRoots page fun _ covered => absurd covered twice]
      exact before.hit page (covered.resolve_right twice) present
  miss := by
    intro other inRoots' page apart
    rw [after.miss other inRoots' page, before.miss other inRoots' page]
    · exact fun same covered => apart same (.inl covered)
    · intro same covered
      rw [before.present inRoots page]
      exact apart same (.inr covered)

end Vm

end TheoryKernel.Mm
