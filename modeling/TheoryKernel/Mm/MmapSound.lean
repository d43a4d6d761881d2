import TheoryKernel.Mm.Vm

/-! When a request for a mapping keeps the areas of a program whole pages apart. -/

namespace TheoryKernel.Mm

/-- An area has bytes on the pages of a range. -/
def Vma.SharesPage (vma : Vma) (start stop : Nat) : Prop :=
  ∃ addr other, vma.start ≤ addr ∧ addr < vma.stop ∧ start ≤ other ∧ other < stop ∧
    addr / pageSize = other / pageSize

/-- A length rounded up to whole pages, as a number without bound. -/
def wholePages (length : Nat) : Nat := (length + (pageSize - 1)) / pageSize * pageSize

/-- One area of whole pages is added at an address, inside the mapping area and apart from others. -/
structure Mapped (before after : AreaTree) (length start : Nat) : Prop where
  aligned : start % pageSize = 0
  positive : 0 < wholePages length
  added : ∃ vma, vma.start = start ∧ vma.stop = start + wholePages length ∧
    after.list.Perm (vma :: before.list)
  above : userAddrMin ≤ start
  below : start + wholePages length ≤ userMmapLimit
  apart : ∀ other ∈ before.list, ¬ other.SharesPage start (start + wholePages length)

theorem alignUp_mod (addr : Nat) : alignUp addr pageSize % pageSize = 0 :=
  Nat.mul_mod_left _ _

theorem alignUp_eq_wholePages {length : Nat} (small : length + pageSize ≤ 2 ^ 64) :
    alignUp length pageSize = wholePages length := by
  have noWrap : length + (pageSize - 1) < 2 ^ 64 := by
    unfold pageSize at *
    omega
  rw [alignUp, alignDown, wrapAdd_eq noWrap, wholePages]

theorem le_wholePages (length : Nat) : length ≤ wholePages length := by
  unfold wholePages pageSize
  omega

theorem Vma.not_sharesPage {vma : Vma} {start length : Nat} (aligned : start % pageSize = 0)
    (apart : ¬ vma.Overlaps start (start + wholePages length)) :
    ¬ vma.SharesPage start (start + wholePages length) := by
  -- The range starts and ends between two pages, so a shared page lies in it as a whole.
  rintro ⟨addr, other, above, below, above', below', same⟩
  apply apart
  unfold wholePages at *
  unfold Vma.Overlaps
  unfold pageSize at *
  omega

namespace VmaTree

variable {tree : VmaTree} {length limit target : Nat}

theorem findGapLoop_some {budget cursor : Nat}
    (found : tree.findGapLoop length limit budget cursor = .ok (some target)) :
    (target = cursor ∧ tree.overlaps cursor (wrapAdd cursor length) = false) ∨
      (target % pageSize = 0 ∧ tree.overlaps cursor (wrapAdd cursor length) = true) := by
  induction budget generalizing cursor with
  | zero => cases found
  | succ budget ih =>
    rw [findGapLoop] at found
    split at found
    · cases taken : tree.overlaps cursor (wrapAdd cursor length) with
      | false =>
        rw [taken] at found
        cases found
        exact .inl ⟨rfl, rfl⟩
      | true =>
        rw [taken, if_pos rfl] at found
        -- From the second round on, the search looks between pages only.
        rcases ih found with ⟨rfl, -⟩ | ⟨aligned, -⟩
        · exact .inr ⟨alignUp_mod _, rfl⟩
        · exact .inr ⟨aligned, rfl⟩
    · cases found

end VmaTree

namespace Vm

variable {space after : AddressSpace} {entropy : AslrEntropy} {addr length target : Nat}
  {prot : ProtFlags} {flags : MmapFlags} {machine changed : Machine}

/-- The address of a request with which its mapping is placed between two pages. -/
def Placeable (areas : AreaTree) (addr length : Nat) (flags : MmapFlags) : Prop :=
  addr % pageSize = 0 ∨
    (contains flags MmapFlags.fixed = false ∧ areas.overlaps addr (wrapAdd addr length) = true)

theorem mmapTarget_aligned_iff {areas : AreaTree}
    (placed : mmapTarget areas entropy addr length flags = .ok (.ok target)) :
    target % pageSize = 0 ↔ Placeable areas addr length flags := by
  unfold mmapTarget at placed
  cases fixed : contains flags MmapFlags.fixed with
  | true =>
    -- The place is the address itself.
    rw [fixed, if_pos rfl] at placed
    have same : target = addr := by
      split at placed
      · cases placed
      · cases placed
        rfl
    rw [Placeable, fixed, same]
    simp
  | false =>
    rw [fixed, if_neg Bool.false_ne_true] at placed
    obtain ⟨found, search, rest⟩ := Exec.bind_eq_ok.mp placed
    cases found with
    | none => cases rest
    | some gap =>
      cases rest
      have ways := VmaTree.findGapLoop_some search
      rw [Placeable, fixed]
      by_cases noHint : addr = 0
      · -- Without an address, the search starts between two pages.
        have base := entropy.userMmapBase_aligned
        rw [mmapHint, if_pos noHint] at ways
        have aligned : target % pageSize = 0 := by
          rcases ways with ⟨rfl, -⟩ | ⟨aligned, -⟩
          · exact base
          · exact aligned
        exact iff_of_true aligned (.inl (by rw [noHint, Nat.zero_mod]))
      · rw [mmapHint, if_neg noHint] at ways
        rcases ways with ⟨rfl, free⟩ | ⟨aligned, taken⟩
        · rw [AreaTree.overlaps, free]
          simp
        · exact iff_of_true aligned (.inr ⟨rfl, taken⟩)

theorem mmapAt_ok {result : Nat}
    (made : mmapAt space target length prot flags machine = (.ok result, after, changed)) :
    result = target ∧ isUserAddress target = true ∧ wrapAdd target length ≤ userMmapLimit ∧
      space.vma.Accepts (Vma.new target length prot flags (mmapKind flags)) ∧
      after.vma.list.Perm (Vma.new target length prot flags (mmapKind flags) :: space.vma.list) := by
  by_cases outside : (!isUserAddress target || decide (userMmapLimit < wrapAdd target length)) = true
  · rw [mmapAt, if_pos outside] at made
    cases made
  · rw [mmapAt, if_neg outside] at made
    rw [Bool.or_eq_true, not_or, Bool.not_eq_true', Bool.not_eq_false, decide_eq_true_eq,
      Nat.not_lt] at outside
    dsimp only at made
    by_cases accepts : space.vma.Accepts (Vma.new target length prot flags (mmapKind flags))
    · obtain ⟨areas, inserted, perm⟩ := AreaTree.insert_accepted accepts
      rw [inserted] at made
      obtain ⟨outcome, rest⟩ := Prod.mk.inj made
      obtain ⟨sameSpace, -⟩ := Prod.mk.inj rest
      rw [← sameSpace]
      refine ⟨?_, outside.1, outside.2, accepts, perm⟩
      cases pages : ((mapVma space.pageTable
          (Vma.new target length prot flags (mmapKind flags))).exec machine).1 with
      | ok _ =>
        rw [pages] at outcome
        exact (Except.ok.inj outcome).symm
      | error error =>
        rw [pages] at outcome
        cases outcome
    · rw [AreaTree.insert_rejected accepts] at made
      cases made

/--
A mapping that is made is sound exactly if its length fits into the mapping area at all and its
address leads to a place between two pages.
-/
theorem mmap_mapped_iff
    (made : mmap space entropy addr length prot flags machine = .ok (.ok target, after, changed)) :
    Mapped space.vma after.vma length target ↔
      length ≤ userMmapLimit ∧ Placeable space.vma addr (alignUp length pageSize) flags := by
  unfold mmap at made
  split at made
  · cases made
  · rename_i nonzero
    obtain ⟨outcome, placed, rest⟩ := Exec.bind_eq_ok.mp made
    cases outcome with
    | error error => cases rest
    | ok place =>
      obtain ⟨rfl, user, within, accepts, perm⟩ := mmapAt_ok (Except.ok.inj rest)
      have aligned := mmapTarget_aligned_iff placed
      rw [isUserAddress, Bool.and_eq_true, decide_eq_true_eq, decide_eq_true_eq] at user
      constructor
      · -- A sound mapping leaves room for its length, and it is placed between two pages.
        intro mapped
        have fits := mapped.below
        have covers := le_wholePages length
        exact ⟨by omega, aligned.mp mapped.aligned⟩
      · rintro ⟨fits, placeable⟩
        have covers := le_wholePages length
        -- Short lengths are rounded without a wrap, and so is the stop of the area.
        have rounded : alignUp length pageSize = wholePages length := by
          apply alignUp_eq_wholePages
          unfold userMmapLimit at fits
          unfold pageSize
          omega
        rw [rounded] at within accepts perm
        have noWrap : target + wholePages length < 2 ^ 64 := by
          unfold wholePages
          unfold userMmapLimit at fits
          unfold userAddrMax at user
          unfold pageSize
          omega
        have stop : (Vma.new target (wholePages length) prot flags (mmapKind flags)).stop =
            target + wholePages length := wrapAdd_eq noWrap
        rw [wrapAdd_eq noWrap] at within
        have isAligned := aligned.mpr placeable
        refine ⟨isAligned, by omega, ⟨_, rfl, stop, perm⟩, user.1, within, ?_⟩
        intro other member
        apply Vma.not_sharesPage isAligned
        rw [← stop]
        exact accepts.2 other member

theorem mmap_made
    (returned : Runs.passes (fun final => final.1.toOption = some target)
      (mmap space entropy addr length prot flags machine) = true) :
    ∃ after changed,
      mmap space entropy addr length prot flags machine = .ok (.ok target, after, changed) := by
  obtain ⟨⟨outcome, after, changed⟩, run, answer⟩ := Runs.exists_of_passes returned
  cases outcome with
  | ok result =>
    cases answer
    exact ⟨after, changed, run⟩
  | error error => cases answer

/-- Two pages at the lowest address are mapped soundly. -/
theorem lowest_mapped :
    ∃ after changed, mmap newSpace.1 ⟨0⟩ userAddrMin 5000 (ProtFlags.read ||| ProtFlags.user)
        (MmapFlags.private_ ||| MmapFlags.fixed) newSpace.2 =
          .ok (.ok userAddrMin, after, changed) ∧
      Mapped newSpace.1.vma after.vma 5000 userAddrMin := by
  obtain ⟨after, changed, made⟩ := @mmap_made newSpace.1 ⟨0⟩ userAddrMin 5000 userAddrMin
    (ProtFlags.read ||| ProtFlags.user) (MmapFlags.private_ ||| MmapFlags.fixed) newSpace.2
    (by decide)
  exact ⟨after, changed, made, (mmap_mapped_iff made).mpr ⟨by decide, .inl (by decide)⟩⟩

/--
Unsound mappings that are made: one without bytes, for a length that is rounded to zero, and one
that does not start between two pages.
-/
theorem mmap_unsound :
    (∃ after changed, mmap newSpace.1 ⟨0⟩ 0 (2 ^ 64 - 1) ProtFlags.read MmapFlags.private_
        newSpace.2 = .ok (.ok userMmapBase, after, changed) ∧
      ¬ Mapped newSpace.1.vma after.vma (2 ^ 64 - 1) userMmapBase) ∧
    ∃ after changed, mmap newSpace.1 ⟨0⟩ 0x10800 4096 ProtFlags.read
        (MmapFlags.private_ ||| MmapFlags.fixed) newSpace.2 =
          .ok (.ok 0x10800, after, changed) ∧
      ¬ Mapped newSpace.1.vma after.vma 4096 0x10800 := by
  constructor
  · obtain ⟨after, changed, made⟩ := @mmap_made newSpace.1 ⟨0⟩ 0 (2 ^ 64 - 1) userMmapBase
      ProtFlags.read MmapFlags.private_ newSpace.2 (by decide)
    refine ⟨after, changed, made, fun mapped => ?_⟩
    have fits := mapped.below
    have covers := le_wholePages (2 ^ 64 - 1)
    unfold userMmapLimit at fits
    omega
  · obtain ⟨after, changed, made⟩ := @mmap_made newSpace.1 ⟨0⟩ 0x10800 4096 0x10800
      ProtFlags.read (MmapFlags.private_ ||| MmapFlags.fixed) newSpace.2 (by decide)
    refine ⟨after, changed, made, fun mapped => ?_⟩
    exact absurd mapped.aligned (by decide)

end Vm

end TheoryKernel.Mm
