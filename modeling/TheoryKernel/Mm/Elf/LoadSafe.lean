import Mathlib.Data.BitVec
import TheoryKernel.Mm.Elf.Load
import TheoryKernel.Mm.Elf.ParseSafe
import TheoryKernel.Mm.PagingAgree

/-! Which files make the loader leave the file. -/

set_option maxRecDepth 8000

namespace TheoryKernel.Mm.Elf

open Fallible Machine Stateful

variable {data : FileData} {hdr : Elf64Ehdr} {ph : Elf64Phdr} {vaddrBase vaddr : Nat}

/-- The bytes of a page of a segment seem to end in the file because their end wraps. -/
def WildCopy (data : FileData) (ph : Elf64Phdr) (vaddrBase vaddr : Nat) : Prop :=
  let copyLo := max vaddrBase vaddr
  let copyHi := min (wrapAdd vaddrBase ph.pFilesz.toNat) (wrapAdd vaddr pageSize)
  let srcOff := wrapAdd ph.pOffset.toNat (copyLo - vaddrBase)
  copyLo < copyHi ∧ 2 ^ 64 ≤ srcOff + (copyHi - copyLo) ∧
    srcOff + (copyHi - copyLo) ≤ 2 ^ 64 + data.length

theorem pageCopy_cases (data : FileData) (ph : Elf64Phdr) (vaddrBase vaddr : Nat) :
    (∃ copy, pageCopy data ph vaddrBase vaddr = .ok copy ∧ ¬ WildCopy data ph vaddrBase vaddr) ∨
      (pageCopy data ph vaddrBase vaddr = .fault .wildAccess ∧
        WildCopy data ph vaddrBase vaddr) := by
  unfold pageCopy WildCopy
  dsimp only
  have limit : wrapAdd ph.pOffset.toNat (max vaddrBase vaddr - vaddrBase) < 2 ^ 64 :=
    Nat.mod_lt _ (by decide)
  have endLimit : wrapAdd vaddr pageSize < 2 ^ 64 := Nat.mod_lt _ (by decide)
  have short := data.fits
  generalize max vaddrBase vaddr = copyLo at *
  generalize wrapAdd ph.pOffset.toNat (copyLo - vaddrBase) = srcOff at *
  have hiLimit : min (wrapAdd vaddrBase ph.pFilesz.toNat) (wrapAdd vaddr pageSize) < 2 ^ 64 := by
    omega
  generalize min (wrapAdd vaddrBase ph.pFilesz.toNat) (wrapAdd vaddr pageSize) = copyHi at *
  by_cases some : copyLo < copyHi
  · rw [if_pos some]
    by_cases wraps : 2 ^ 64 ≤ srcOff + (copyHi - copyLo)
    · have stop : wrapAdd srcOff (copyHi - copyLo) = srcOff + (copyHi - copyLo) - 2 ^ 64 := by
        unfold wrapAdd
        omega
      rw [stop]
      by_cases fits : srcOff + (copyHi - copyLo) - 2 ^ 64 ≤ data.length
      · rw [if_pos fits, if_neg (by omega)]
        exact .inr ⟨rfl, some, wraps, by omega⟩
      · rw [if_neg fits]
        exact .inl ⟨none, rfl, by omega⟩
    · rw [wrapAdd_eq (by omega)]
      by_cases fits : srcOff + (copyHi - copyLo) ≤ data.length
      · rw [if_pos fits, if_pos fits]
        exact .inl ⟨_, rfl, by omega⟩
      · rw [if_neg fits]
        exact .inl ⟨none, rfl, by omega⟩
  · rw [if_neg some]
    exact .inl ⟨none, rfl, by omega⟩

/-- What is copied to a page is not empty and stays on the page. -/
theorem pageCopy_inside {copy : PageCopy}
    (known : pageCopy data ph vaddrBase vaddr = .ok (some copy)) :
    0 < copy.length ∧ copy.dstOff + copy.length ≤ pageSize := by
  have stop : wrapAdd vaddr pageSize ≤ vaddr + pageSize := Nat.mod_le _ _
  unfold pageCopy at known
  dsimp only at known
  split at known
  · split at known
    · split at known
      · cases known
        dsimp only
        omega
      · cases known
    · cases known
  · cases known

/-- Mapping a page to a new frame, whatever is in the frame. -/
def mapBlankPage (table : PageTable) (flags : PageFlags) (vaddr : Nat) (machine : Machine) :
    Option Machine :=
  match machine.allocFrame with
  | none => none
  | some (frame, changed) =>
    match table.mapPage vaddr (physOf frame) flags changed with
    | (.ok (), final) => some final
    | (.error _, _) => none

/-- Mapping pages to new frames, whatever is in the frames. -/
def mapBlank (table : PageTable) (flags : PageFlags) : List Nat → Machine → Option Machine
  | [], machine => some machine
  | vaddr :: rest, machine => (mapBlankPage table flags vaddr machine).bind (mapBlank table flags rest)

/-- No wild copy comes at a page that can be reached and for which there is a frame. -/
def SegmentSafe (data : FileData) (ph : Elf64Phdr) (vaddrBase : Nat) (table : PageTable)
    (pages : List Nat) (machine : Machine) : Prop :=
  ∀ before vaddr after, pages = before ++ vaddr :: after → WildCopy data ph vaddrBase vaddr →
    ∀ reached, mapBlank table (segmentFlags ph) before machine = some reached →
      reached.allocFrame = none

theorem segmentSafe_cons {table : PageTable} {rest : List Nat} {machine : Machine} :
    SegmentSafe data ph vaddrBase table (vaddr :: rest) machine ↔
      (WildCopy data ph vaddrBase vaddr → machine.allocFrame = none) ∧
        ∀ final, mapBlankPage table (segmentFlags ph) vaddr machine = some final →
          SegmentSafe data ph vaddrBase table rest final := by
  constructor
  · intro safe
    constructor
    · exact fun wild => safe [] vaddr rest rfl wild machine rfl
    · intro final mapped before page after split wild reached known
      apply safe (vaddr :: before) page after (by rw [split, List.cons_append]) wild
      rw [mapBlank, mapped]
      exact known
  · rintro ⟨first, others⟩ before page after split wild reached known
    cases before with
    | nil =>
      cases split
      cases known
      exact first wild
    | cons head before =>
      cases split
      obtain ⟨final, mapped, known'⟩ := Option.bind_eq_some_iff.mp known
      exact others final mapped before page after rfl wild reached known'

section Pages

variable {roots : Set Nat} {state : LoadState} {blank changed : Machine} {frame : Nat}
  {pages : List Nat}

theorem agree_store {off length : Nat} {bytes : Nat → BitVec 8} {machine : Machine}
    (paged : blank.Paged roots) (alloc : Allocated blank frame changed)
    (agree : Agree roots changed machine) (inside : off + length ≤ pageSize) :
    Agree roots changed (machine.storePhys (frame * pageSize + off) length bytes) := by
  apply agree.trans
  apply Agree.storePhys
  intro table isTable
  -- A new frame is none of the tables.
  rw [agree.tables_eq, (paged.alloc alloc).2] at isTable
  have apart : table ≠ frame := fun same => paged.not_table alloc.wasFree (same ▸ isTable)
  unfold pageSize at *
  omega

/-- How a page of a segment is mapped, told by a machine that maps it to a blank frame. -/
inductive PageStep (roots : Set Nat) (data : FileData) (ph : Elf64Phdr) (vaddrBase vaddr : Nat)
    (blank : Machine) (state : LoadState) : Prop where
  | noFrame (refused : blank.allocFrame = none)
      (failed : ((mapSegmentPage data ph vaddrBase vaddr).exec state).1 =
        .error (.error .mapFailed))
  | wild (frame : Nat) (changed : Machine) (served : blank.allocFrame = some (frame, changed))
      (wild : WildCopy data ph vaddrBase vaddr)
      (faulted : ((mapSegmentPage data ph vaddrBase vaddr).exec state).1 =
        .error (.fault .wildAccess))
  | unmapped (tame : ¬ WildCopy data ph vaddrBase vaddr)
      (refused : mapBlankPage state.space.pageTable (segmentFlags ph) vaddr blank = none)
      (failed : ((mapSegmentPage data ph vaddrBase vaddr).exec state).1 =
        .error (.error .mapFailed))
  | mapped (tame : ¬ WildCopy data ph vaddrBase vaddr) (final : Machine)
      (mapped : mapBlankPage state.space.pageTable (segmentFlags ph) vaddr blank = some final)
      (paged : final.Paged roots) (next : LoadState)
      (run : (mapSegmentPage data ph vaddrBase vaddr).exec state = (.ok (), next))
      (space : next.space = state.space) (agree : Agree roots final next.machine)

theorem mapSegmentPage_step (agree : Agree roots blank state.machine) (paged : blank.Paged roots)
    (inRoots : state.space.pageTable.root ∈ roots) :
    PageStep roots data ph vaddrBase vaddr blank state := by
  cases served : blank.allocFrame with
  | none =>
    apply PageStep.noFrame served
    apply exec_bind_failed
    rw [newFrame, exec_lift, agree.allocFrame_none served]
  | some result =>
    obtain ⟨frame, changed⟩ := result
    have alloc := allocFrame_some served
    obtain ⟨machine, served', agree'⟩ := agree.allocFrame served
    have allocated : newFrame.exec state = (.ok frame, { state with machine }) := by
      rw [newFrame, exec_lift, served']
    have cleared : Agree roots changed (machine.storePhys (frame * pageSize + 0) pageSize fun _ => 0) :=
      agree_store paged alloc agree' (by omega)
    obtain ⟨copy, known, tame⟩ | ⟨known, wild⟩ := pageCopy_cases data ph vaddrBase vaddr
    · -- The copy stays in the new frame.
      obtain ⟨filled, run, sameSpace, agreeFilled⟩ : ∃ filled : LoadState,
          (mapSegmentPage data ph vaddrBase vaddr).exec state =
            (mapFrame vaddr frame (segmentFlags ph)).exec filled ∧
          filled.space = state.space ∧ Agree roots changed filled.machine := by
        rw [mapSegmentPage, exec_bind_ok allocated,
          exec_bind_ok (storeBytes_exec _ _ _), known,
          exec_bind_ok (parsed_exec_ok _ _)]
        cases copy with
        | none => exact ⟨_, exec_bind_ok rfl, rfl, cleared⟩
        | some copy =>
          exact ⟨_, exec_bind_ok rfl, rfl,
            agree_store paged alloc cleared (pageCopy_inside known).2⟩
      have keeps := (paged.alloc alloc).1
      rw [mapFrame, exec_lift, sameSpace] at run
      cases mapped : state.space.pageTable.mapPage vaddr (physOf frame) (segmentFlags ph) changed with
      | mk outcome final =>
        obtain ⟨final', mapped', agreeFinal⟩ := agreeFilled.mapPage keeps.paged inRoots mapped
        rw [mapped'] at run
        cases outcome with
        | ok value =>
          have blankMapped : mapBlankPage state.space.pageTable (segmentFlags ph) vaddr blank =
              some final := by
            rw [mapBlankPage, served]
            simp only [mapped]
          have pagedFinal : final.Paged roots := by
            obtain ⟨-, -, stores⟩ | ⟨⟨_, refused⟩, -⟩ :=
              PageTable.mapPage_cases keeps.paged inRoots mapped
            · exact stores.paged
            · cases refused
          exact .mapped tame final blankMapped pagedFinal _ run rfl agreeFinal
        | error error =>
          apply PageStep.unmapped tame
          · rw [mapBlankPage, served]
            simp only [mapped]
          · rw [run]
    · apply PageStep.wild frame changed served wild
      rw [mapSegmentPage, exec_bind_ok allocated,
        exec_bind_ok (storeBytes_exec _ _ _), known]
      exact exec_bind_failed rfl

theorem mapPages_returns_iff (agree : Agree roots blank state.machine) (paged : blank.Paged roots)
    (inRoots : state.space.pageTable.root ∈ roots) :
    Returns ((forEach (mapSegmentPage data ph vaddrBase) pages).exec state).1 ↔
      SegmentSafe data ph vaddrBase state.space.pageTable pages blank := by
  induction pages generalizing state blank with
  | nil =>
    refine iff_of_true (returns_ok ()) ?_
    intro before vaddr after split
    cases before <;> cases split
  | cons vaddr rest ih =>
    have step : PageStep roots data ph vaddrBase vaddr blank state :=
      mapSegmentPage_step agree paged inRoots
    rw [segmentSafe_cons]
    cases step with
    | noFrame refused failed =>
      rw [forEach, exec_bind_failed failed]
      refine iff_of_true (returns_fail _) ⟨fun _ => refused, ?_⟩
      intro final mapped
      rw [mapBlankPage, refused] at mapped
      cases mapped
    | wild frame changed served wild faulted =>
      rw [forEach, exec_bind_failed faulted]
      refine iff_of_false (not_returns_fault _) ?_
      rintro ⟨first, -⟩
      rw [served] at first
      cases first wild
    | unmapped tame refused failed =>
      rw [forEach, exec_bind_failed failed]
      refine iff_of_true (returns_fail _) ⟨fun wild => absurd wild tame, ?_⟩
      intro final mapped
      rw [refused] at mapped
      cases mapped
    | mapped tame final mapped paged' next run space agree' =>
      have goOn := ih agree' paged' (space ▸ inRoots)
      rw [forEach, exec_bind_ok run, goOn, space]
      constructor
      · intro safe
        refine ⟨fun wild => absurd wild tame, ?_⟩
        intro other known
        cases mapped.symm.trans known
        exact safe
      · exact fun both => both.2 final mapped

end Pages

/--
The readers of an executable stay in the file, except for numbers whose sums wrap.

A header is read outside the file if its end wraps, the path of the interpreter and the dynamic
section are read outside if their ends wrap, and so is a page of a segment that is reached.
-/
theorem file_reads_return_iff (data : FileData) (hdr : Elf64Ehdr)
    (known : parseEhdr data = .ok hdr) :
    (∀ index, (phdrAt data hdr index).Returns ↔ phdrOff hdr index + phdrSize < 2 ^ 64) ∧
    (∀ loadBias, (phdrVaddrInImage data hdr loadBias).Returns ↔ HeadersSafe hdr) ∧
    ((extractInterpPath data hdr).Returns ↔ HeadersSafe hdr ∧
      ∀ index, FirstHeader data hdr ptInterp index →
        ¬ WrappedSegment data (readPhdr data (phdrOff hdr index))) ∧
    (∀ loadBias, (parseDynamic data hdr loadBias).Returns ↔ HeadersSafe hdr ∧
      ∀ index, FirstHeader data hdr ptDynamic index →
        ¬ WrappedDynamic data (readPhdr data (phdrOff hdr index))) ∧
    ∀ (ph : Elf64Phdr) (loadBias : Nat) (roots : Set Nat) (state : LoadState),
      state.machine.Paged roots → state.space.pageTable.root ∈ roots →
      (Returns ((mapSegment data ph loadBias).exec state).1 ↔
        SegmentSafe data ph (wrapAdd ph.pVaddr.toNat loadBias) state.space.pageTable
          (segmentPages ph (wrapAdd ph.pVaddr.toNat loadBias)) state.machine) := by
  have long := parseEhdr_length known
  refine ⟨fun index => phdrAt_returns_iff long, phdrVaddrInImage_returns_iff long,
    extractInterpPath_returns_iff long, parseDynamic_returns_iff long, ?_⟩
  intro ph loadBias roots state paged inRoots
  rw [← mapPages_returns_iff (Agree.refl state.machine) paged inRoots, mapSegment, exec_bind]
  split
  · rename_i value next run
    rw [run]
    exact iff_of_true (returns_ok _) (returns_ok _)
  · rename_i error next run
    rw [run]

/-- The bytes of a file that is the header of an executable with one segment. -/
def headerOnly (phoff : BitVec 64) : FileData where
  length := 64
  byte := fun index =>
    ([0x7F, 0x45, 0x4C, 0x46, 2, 1] : List (BitVec 8)).getD index
      (if index = 16 then 2 else if index = 18 then 62
        else if 32 ≤ index ∧ index < 40 then ByteMemory.byte phoff (index - 32)
        else if index = 54 then 56 else if index = 56 then 1 else 0)
  fits := by decide

/-- A segment with the header of its file. -/
def headerSegment : Elf64Phdr := ⟨ptLoad, 0, 0, 0x400000, 64, 0x1000⟩

/-- A file without segment headers behind its header is refused, and its header can be mapped. -/
theorem file_reads_return_iff_short :
    ∃ hdr, parseEhdr (headerOnly 64) = .ok hdr ∧ (phdrAt (headerOnly 64) hdr 0).Returns ∧
      Returns ((mapSegment (headerOnly 64) headerSegment 0).exec ⟨newSpace.1, newSpace.2, []⟩).1 := by
  obtain ⟨atIndex, -, -, -, segment⟩ := file_reads_return_iff (headerOnly 64) _ rfl
  refine ⟨_, rfl, (atIndex 0).mpr (by decide), ?_⟩
  rw [segment headerSegment 0 _ _ newSpace_exclusive.paged newSpace_exclusive.inRoots]
  have tame : ∀ vaddr ∈ segmentPages headerSegment (wrapAdd headerSegment.pVaddr.toNat 0),
      ¬ WildCopy (headerOnly 64) headerSegment (wrapAdd headerSegment.pVaddr.toNat 0) vaddr := by
    unfold WildCopy
    decide
  intro before vaddr after split wild
  have member : vaddr ∈ before ++ vaddr :: after := List.mem_append_right _ List.mem_cons_self
  rw [← split] at member
  exact absurd wild (tame vaddr member)

/-- An executable whose segment header starts at the largest address is read before its start. -/
theorem last_header_is_read_outside :
    ∃ hdr, parseEhdr (headerOnly (2 ^ 64 - 1)) = .ok hdr ∧ validateHdr hdr = .ok () ∧
      phdrAt (headerOnly (2 ^ 64 - 1)) hdr 0 = .fault .wildAccess := by
  refine ⟨_, rfl, ?_, ?_⟩
  · decide
  · apply phdrAt_wild <;> decide

end TheoryKernel.Mm.Elf
