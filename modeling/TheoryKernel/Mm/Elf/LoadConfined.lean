import TheoryKernel.Mm.Elf.LoadSafe

/-! Which bytes the loader writes, and which of them belong to the image. -/

namespace TheoryKernel.Mm.Elf

open Machine Stateful Triple WriteStep PageTable List

/-- The frame of a write that is mapped only after the write. -/
def ImageWrite.frame? : ImageWrite → Option Nat
  | .page frame _ _ => some frame
  | .headers frame _ => some frame
  | .relocation _ _ => none

namespace WriteStep

/-- Every byte of a write is in the frame that is about to be mapped, or behind a page. -/
def Confined (step : WriteStep) : Prop :=
  ∀ phys, step.write.addr ≤ phys → phys < step.write.addr + step.write.length →
    step.write.frame? = some (phys / pageSize) ∨ step.table.Maps (phys / pageSize) step.before

/-- A relocation writes the eight bytes of the image at its address and no others. -/
def Exact (step : WriteStep) : Prop :=
  match step.write with
  | .relocation virt phys => ∀ bytes,
      Wrote step.table virt 8 bytes step.before (step.before.storePhys phys 8 bytes)
  | _ => True

/--
The write does not run into a frame that is none of the image's.

The headers fit into one frame or run on in frames of the image. A relocation fits into its page,
or the frame of the next page is also the next frame.
-/
def Fits (step : WriteStep) : Prop :=
  match step.write with
  | .page _ _ _ => True
  | .headers frame length => ∀ further, 0 < further → further * pageSize < length →
      step.table.Maps (frame + further) step.before
  | .relocation virt phys => virt % pageSize + 8 ≤ pageSize ∨
      step.table.translate ((virt / pageSize + 1) * pageSize) step.before =
        some ((phys / pageSize + 1) * pageSize)

end WriteStep

section Step

variable {table : PageTable} {machine : Machine} {roots : Set Nat}
  {frame offset length virt phys : Nat}

theorem headers_right :
    (mk table machine (.headers frame length)).Confined ↔
      (mk table machine (.headers frame length)).Fits := by
  simp only [Confined, Fits, ImageWrite.addr, ImageWrite.length,
    ImageWrite.frame?, Option.some.injEq]
  constructor
  · intro confined further positive reached
    -- The first byte of a further frame is not in the frame of the headers.
    have place : (frame + further) * pageSize / pageSize = frame + further :=
      Nat.mul_div_cancel _ (by decide)
    have first := confined ((frame + further) * pageSize) (by rw [Nat.add_mul]; omega)
      (by rw [Nat.add_mul]; omega)
    rw [place] at first
    rcases first with same | mapped
    · omega
    · exact mapped
  · intro fits other low high
    by_cases same : frame = other / pageSize
    · exact Or.inl same
    · right
      have mapped := fits (other / pageSize - frame)
      have later : frame + (other / pageSize - frame) = other / pageSize := by
        unfold pageSize at *
        omega
      rw [later] at mapped
      unfold pageSize at *
      exact mapped (by omega) (by omega)

section

variable (found : table.translate virt machine = some phys)

include found

theorem relocation_row (fits : (mk table machine (.relocation virt phys)).Fits) :
    ∀ index < 8, table.translate (virt + index) machine = some (phys + index) := by
  intro index small
  have place := translate_mod found
  by_cases here : virt % pageSize + index < pageSize
  · exact translate_add found here
  · -- The byte is on the next page.
    rcases fits with inside | next
    · omega
    · obtain ⟨rest, virtEq⟩ : ∃ rest, virt + index = (virt / pageSize + 1) * pageSize + rest :=
        Nat.exists_eq_add_of_le (by unfold pageSize at *; omega)
      have physEq : phys + index = (phys / pageSize + 1) * pageSize + rest := by
        unfold pageSize at *
        omega
      have short : (virt / pageSize + 1) * pageSize % pageSize + rest < pageSize := by
        rw [Nat.mul_mod_left]
        unfold pageSize at *
        omega
      rw [virtEq, physEq]
      exact translate_add next short

theorem relocation_right (exclusive : Exclusive table roots machine) :
    (mk table machine (.relocation virt phys)).Exact ↔
      (mk table machine (.relocation virt phys)).Fits := by
  constructor
  · intro exactly
    by_cases inside : virt % pageSize + 8 ≤ pageSize
    · exact .inl inside
    · right
      have place := translate_mod found
      -- The first byte of the next frame changes, so it is one of the bytes of the image.
      have wrote := exactly fun index => machine.physByte (phys + index) + 1
      have written : (machine.storePhys phys 8 fun index => machine.physByte (phys + index) + 1).physByte
          ((phys / pageSize + 1) * pageSize) = machine.physByte ((phys / pageSize + 1) * pageSize) + 1 := by
        rw [physByte_storePhys, if_pos (by unfold pageSize at *; omega)]
        congr 2
        unfold pageSize at *
        omega
      have reached : ∃ index < 8,
          table.translate (virt + index) machine = some ((phys / pageSize + 1) * pageSize) := by
        by_contra missed
        have kept := wrote.outside ((phys / pageSize + 1) * pageSize) (by
          intro index small same
          exact missed ⟨index, small, same⟩)
        rw [written] at kept
        have differs : ∀ byte : BitVec 8, byte + 1 ≠ byte := by decide
        exact differs _ kept
      obtain ⟨index, small, translated⟩ := reached
      have place' := translate_mod translated
      have next : virt + index = (virt / pageSize + 1) * pageSize := by
        unfold pageSize at *
        omega
      change table.translate ((virt / pageSize + 1) * pageSize) machine = _
      rwa [← next]
  · intro fits bytes
    have row := relocation_row found fits
    apply wrote_row bytes (by decide) row
    intro index small isTable
    obtain ⟨root, rfl, path, short, reached⟩ := isTable
    exact (exclusive.used _ _ (row index small)).2
      ⟨table.root, exclusive.inRoots, path, short, reached⟩

theorem relocation_confined (fits : (mk table machine (.relocation virt phys)).Fits) :
    (mk table machine (.relocation virt phys)).Confined := by
  intro other low high
  simp only [ImageWrite.addr, ImageWrite.length] at low high
  have translated := relocation_row found fits (other - phys) (by omega)
  rw [Nat.add_sub_cancel' low] at translated
  exact Or.inr (maps_of_translate translated)

end

end Step

/-- What a write needs to be right, and what is known when it happens. -/
structure StepSound (roots : Set Nat) (start : Machine) (step : WriteStep) : Prop where
  right : step.Confined ∧ step.Exact ↔ step.Fits
  exclusive : Exclusive step.table roots step.before
  fresh : ∀ frame, step.write.frame? = some frame → start.Free frame ∧ step.before.Used frame

/-- Each write is sound if all the writes before it fitted. -/
def Sound (roots : Set Nat) (start : Machine) : List WriteStep → Prop
  | [] => True
  | step :: earlier =>
    ((∀ other ∈ earlier, other.Fits) → StepSound roots start step) ∧ Sound roots start earlier

theorem Sound.step {roots : Set Nat} {start : Machine} {later earlier : List WriteStep}
    {step : WriteStep} (sound : Sound roots start (later ++ step :: earlier))
    (fitted : ∀ other ∈ earlier, other.Fits) : StepSound roots start step := by
  induction later with
  | nil => exact sound.1 fitted
  | cons last later ih => exact ih sound.2

/-- The state between two pages, as long as all writes fitted. -/
structure Settled (roots : Set Nat) (start : Machine) (state : LoadState) : Prop where
  exclusive : Exclusive state.space.pageTable roots state.machine
  free : ∀ frame, state.machine.Free frame → start.Free frame
  mapped : ∀ step ∈ state.writes, ∀ frame, step.write.frame? = some frame →
    state.space.pageTable.Maps frame state.machine

/-- The state while a new frame is filled, as long as all writes fitted. -/
structure Pending (roots : Set Nat) (start : Machine) (frame : Nat) (state : LoadState)
    (machine changed : Machine) : Prop where
  exclusive : Exclusive state.space.pageTable roots machine
  served : machine.allocFrame = some (frame, changed)
  agree : Agree roots changed state.machine
  free : ∀ other, machine.Free other → start.Free other
  mapped : ∀ step ∈ state.writes, ∀ other, step.write.frame? = some other →
    other = frame ∨ state.space.pageTable.Maps other machine

/-- Between two pages all writes so far are sound. -/
def Loading (roots : Set Nat) (start : Machine) (state : LoadState) : Prop :=
  Sound roots start state.writes ∧
    ((∀ step ∈ state.writes, step.Fits) → Settled roots start state)

/-- While a frame is filled all writes so far are sound. -/
def Filling (roots : Set Nat) (start : Machine) (frame : Nat) (state : LoadState) : Prop :=
  Sound roots start state.writes ∧
    ((∀ step ∈ state.writes, step.Fits) →
      ∃ machine changed, Pending roots start frame state machine changed)

/-- After a failure all writes so far are sound. -/
def Stopped (roots : Set Nat) (start : Machine) (_ : Failure ElfError) (state : LoadState) : Prop :=
  Sound roots start state.writes

section Parts

variable {α : Type} {roots : Set Nat} {start machine changed : Machine} {state : LoadState}
  {frame : Nat} {write : ImageWrite} {bytes : Nat → BitVec 8} {flags : PageFlags}

/-- A part of the loader that runs between two pages. -/
abbrev Loads (roots : Set Nat) (start : Machine)
    (program : Stateful LoadState (Failure ElfError) α) : Prop :=
  Triple (Loading roots start) program (fun _ => Loading roots start) (Stopped roots start)

/-- A part of the loader that runs while a frame is filled. -/
abbrev Fills (roots : Set Nat) (start : Machine) (frame : Nat)
    (program : Stateful LoadState (Failure ElfError) Unit) : Prop :=
  Triple (Filling roots start frame) program (fun _ => Filling roots start frame)
    (Stopped roots start)

theorem Pending.known (pending : Pending roots start frame state machine changed) :
    Exclusive state.space.pageTable roots state.machine ∧ state.machine.Used frame ∧
      frame ∉ state.machine.tables roots ∧ start.Free frame := by
  have alloc := allocFrame_some pending.served
  obtain ⟨keeps, sameTables⟩ := pending.exclusive.paged.alloc alloc
  have same : ∀ virt, state.space.pageTable.translate virt changed =
      state.space.pageTable.translate virt machine :=
    fun virt => Exclusive.translate_congr
      (keeps.entries _ pending.exclusive.inRoots virt)
  refine ⟨pending.agree.exclusive (pending.exclusive.grow keeps.toGrows same), ?_, ?_,
    pending.free frame alloc.wasFree⟩
  · have used : changed.Used frame := (alloc.used frame).mpr (.inl rfl)
    rwa [Used, ← pending.agree.frames] at used
  · rw [pending.agree.tables_eq, sameTables]
    exact pending.exclusive.paged.not_table alloc.wasFree

theorem clear_of_confined {table : PageTable} (exclusive : Exclusive table roots machine)
    (confined : (mk table machine write).Confined)
    (own : ∀ frame, write.frame? = some frame → frame ∉ machine.tables roots)
    (solid : 0 < write.length ∨ write.addr % pageSize = 0) :
    machine.ClearOf roots write.addr write.length := by
  apply clearOf solid
  intro phys low high
  rcases confined phys low high with isOwn | ⟨virt, translated⟩
  · exact own _ isOwn
  · have outside := (exclusive.used virt _ translated).2
    rwa [Nat.mul_div_cancel _ (by decide : 0 < pageSize)] at outside

theorem newFrame_filling :
    Triple (Loading roots start) newFrame (Filling roots start) (Stopped roots start) := by
  rintro state ⟨sound, settled⟩
  rw [newFrame, exec_lift]
  cases served : state.machine.allocFrame with
  | none => exact sound
  | some result =>
    refine ⟨sound, fun fitted => ⟨state.machine, result.2, ?_⟩⟩
    have known := settled fitted
    exact ⟨known.exclusive, served, .refl _, known.free,
      fun step member other own => .inr (known.mapped step member other own)⟩

theorem storeBytes_filling (own : write.frame? = some frame)
    (right : ∀ table machine, (mk table machine write).Confined ↔ (mk table machine write).Fits)
    (exactly : ∀ table machine, (mk table machine write).Exact)
    (solid : 0 < write.length ∨ write.addr % pageSize = 0) :
    Fills roots start frame (storeBytes write bytes) := by
  rintro state ⟨sound, pending⟩
  rw [storeBytes_exec]
  refine ⟨⟨fun fitted => ?_, sound⟩, fun fitted => ?_⟩
  · obtain ⟨machine, changed, known⟩ := pending fitted
    obtain ⟨exclusive, used, -, fresh⟩ := known.known
    refine ⟨?_, exclusive, ?_⟩
    · rw [and_iff_left (exactly _ _)]
      exact right _ _
    · intro other isOwn
      cases own.symm.trans isOwn
      exact ⟨fresh, used⟩
  · have before : ∀ step ∈ state.writes, step.Fits :=
      fun step member => fitted step (mem_cons_of_mem _ member)
    obtain ⟨machine, changed, known⟩ := pending before
    obtain ⟨exclusive, -, outside, -⟩ := known.known
    have confined := (right _ _).mpr (fitted _ mem_cons_self)
    have clear := clear_of_confined exclusive confined (fun other isOwn => by
      cases own.symm.trans isOwn
      exact outside) solid
    refine ⟨machine, changed, known.exclusive, known.served,
      known.agree.trans (Agree.storePhys clear), known.free, ?_⟩
    intro step member other isOwn
    rcases mem_cons.mp member with rfl | earlier
    · cases own.symm.trans isOwn
      exact .inl rfl
    · exact known.mapped step earlier other isOwn

variable {loadBias length vaddr : Nat} {allowIrelative : Bool}

theorem storePage_filling {offset : Nat} (inside : offset + length ≤ pageSize)
    (solid : 0 < length) :
    Fills roots start frame (storeBytes (.page frame offset length) bytes) := by
  refine storeBytes_filling rfl (fun _ _ => iff_of_true ?_ trivial) (fun _ _ => trivial)
    (Or.inl solid)
  intro other low high
  simp only [ImageWrite.addr, ImageWrite.length, ImageWrite.frame?] at *
  left
  unfold pageSize at *
  congr 1
  omega

theorem storeHeaders_filling : Fills roots start frame (storeBytes (.headers frame length) bytes) :=
  storeBytes_filling rfl (fun _ _ => headers_right) (fun _ _ => trivial)
    (.inr (Nat.mul_mod_left _ _))

theorem mapFrame_loading (isFlags : IsFlags flags)
    (present : contains flags PageFlags.present = true) :
    Triple (Filling roots start frame) (mapFrame vaddr frame flags) (fun _ => Loading roots start)
      (Stopped roots start) := by
  rintro state ⟨sound, pending⟩
  rw [mapFrame, exec_lift]
  rcases mapped : state.space.pageTable.mapPage vaddr (physOf frame) flags state.machine with
    ⟨outcome, final⟩
  cases outcome with
  | error error => exact sound
  | ok value =>
    refine ⟨sound, fun fitted => ?_⟩
    obtain ⟨machine, changed, known⟩ := pending fitted
    have inRoots := known.exclusive.inRoots
    have alloc := allocFrame_some known.served
    have keeps := (known.exclusive.paged.alloc alloc).1
    -- The same page is mapped on the machine whose frame stayed as it was.
    rcases mappedBlank : state.space.pageTable.mapPage vaddr (physOf frame) flags changed with
      ⟨outcome, blank⟩
    obtain ⟨final', mapped', agree⟩ := known.agree.mapPage keeps.paged inRoots mappedBlank
    cases mapped.symm.trans mapped'
    obtain ⟨exclusive, grows, absent, translate⟩ :=
      known.exclusive.mapFresh known.served isFlags present mappedBlank
    · refine ⟨agree.exclusive exclusive, ?_, ?_⟩
      · intro other free
        rw [Free, agree.frames] at free
        exact known.free other (grows.free other free)
      · intro step member other own
        rcases known.mapped step member other own with rfl | ⟨virt, found⟩
        · -- The new page leads to the frame that was filled.
          have here := translate vaddr
          rw [if_pos rfl, ← agree.translate inRoots] at here
          have maps := maps_of_translate here
          have place : (other * pageSize + vaddr % pageSize) / pageSize = other := by
            unfold pageSize
            omega
          rwa [place] at maps
        · refine ⟨virt, ?_⟩
          rw [agree.translate inRoots, translate virt, if_neg, found]
          -- The new page was not mapped before.
          intro same
          have entry : machine.entry state.space.pageTable.root virt =
              machine.entry state.space.pageTable.root vaddr := entry_congr same
          rw [Exclusive.translate_eq, entry] at found
          rw [Exclusive.translate_eq] at absent
          split at absent
          · cases absent
          · rename_i missing
            rw [if_neg missing] at found
            cases found

theorem writeUserU64_loading {addr : Nat} {value : BitVec 64} :
    Loads roots start (writeUserU64 addr value) := by
  rintro state ⟨sound, settled⟩
  rw [writeUserU64, exec_lift]
  dsimp only
  cases resolved : state.space.pageTable.resolve (alignDown addr pageSize) state.machine with
  | none => exact sound
  | some target =>
    dsimp only
    -- The word starts at the translation of its address.
    have found : state.space.pageTable.translate addr state.machine =
        some (target.1.toNat + (addr - alignDown addr pageSize)) := by
      rw [resolve_alignDown] at resolved
      rw [PageTable.translate, resolved, Option.map_some]
      congr 2
      unfold alignDown pageSize
      omega
    generalize target.1.toNat + (addr - alignDown addr pageSize) = phys at found
    refine ⟨⟨fun fitted => ?_, sound⟩, fun fitted => ?_⟩
    · have exclusive := (settled fitted).exclusive
      have right := relocation_right found exclusive
      refine ⟨⟨fun both => right.mp both.2, fun fits => ⟨relocation_confined found fits, right.mpr fits⟩⟩,
        exclusive, ?_⟩
      intro frame own
      cases own
    · have known := settled fun step member => fitted step (mem_cons_of_mem _ member)
      have confined := relocation_confined found (fitted _ mem_cons_self)
      have clear := clear_of_confined known.exclusive confined (fun _ own => by cases own)
        (Or.inl (Nat.zero_lt_succ 7))
      have agree : Agree roots state.machine
          (state.machine.storePhys phys 8 (ByteMemory.byte value)) := Agree.storePhys clear
      refine ⟨agree.exclusive known.exclusive, known.free, ?_⟩
      intro step member frame own
      rcases mem_cons.mp member with rfl | earlier
      · cases own
      · obtain ⟨virt, translated⟩ := known.mapped step earlier frame own
        exact ⟨virt, (agree.translate known.exclusive.inRoots).trans translated⟩

theorem parsed_keeps {outcome : Fallible ParseError α} {pre : LoadState → Prop}
    (stops : ∀ error state, pre state → Stopped roots start error state) :
    Triple pre (parsed outcome) (fun value state => outcome = .ok value ∧ pre state)
      (Stopped roots start) := by
  intro state holds
  match outcome with
  | .ok value => exact ⟨rfl, holds⟩
  | .error (.fault fault) | .error (.error error) => exact stops _ state holds

theorem Loading.stops (error : Failure ElfError) (state : LoadState)
    (loading : Loading roots start state) : Stopped roots start error state := loading.1

theorem Filling.stops (error : Failure ElfError) (state : LoadState)
    (filling : Filling roots start frame state) : Stopped roots start error state := filling.1

theorem fails {failure : Failure ElfError} {post : α → LoadState → Prop} {pre : LoadState → Prop}
    (stops : ∀ error state, pre state → Stopped roots start error state) :
    Triple pre (ofExcept (.error failure)) post (Stopped roots start) :=
  ofExcept nofun fun error _ state => stops error state

theorem parsed_loading {outcome : Fallible ParseError α} : Loads roots start (parsed outcome) :=
  (parsed_keeps Loading.stops).weaken (fun _ holds => holds) fun _ _ both => both.2

theorem segmentFlags_present (ph : Elf64Phdr) :
    IsFlags (segmentFlags ph) ∧ contains (segmentFlags ph) PageFlags.present = true := by
  unfold segmentFlags IsFlags
  dsimp only
  split <;> split <;> decide

variable {data : FileData} {hdr : Elf64Ehdr} {ph : Elf64Phdr}

theorem mapSegmentPage_loading {vaddrBase : Nat} :
    Loads roots start (mapSegmentPage data ph vaddrBase vaddr) := by
  obtain ⟨isFlags, present⟩ := segmentFlags_present ph
  apply bind newFrame_filling
  intro frame
  apply Triple.bind (storePage_filling (by omega) (by decide))
  intro _
  apply Triple.bind (parsed_keeps Filling.stops)
  intro copy
  -- The copy stays on the page.
  have copied : Triple (fun state => pageCopy data ph vaddrBase vaddr = .ok copy ∧
      Filling roots start frame state) (copyToFrame data frame copy)
      (fun _ => Filling roots start frame) (Stopped roots start) := by
    cases copy with
    | none => exact pure fun _ both => both.2
    | some copy =>
      rintro state ⟨known, filling⟩
      obtain ⟨solid, inside⟩ := pageCopy_inside known
      exact storePage_filling inside solid state filling
  apply copied.bind
  intro _
  exact mapFrame_loading isFlags present

theorem mapSegment_loading : Loads roots start (mapSegment data ph loadBias) := by
  apply bind (forEach fun vaddr _ => mapSegmentPage_loading)
  intro _ state loading
  exact ⟨loading.1, fun fitted => ⟨(loading.2 fitted).exclusive, (loading.2 fitted).free,
    (loading.2 fitted).mapped⟩⟩

theorem locateHeaders_loading : Loads roots start (locateHeaders data hdr loadBias) := by
  unfold locateHeaders
  split
  · exact skip
  · exact fails Loading.stops
  · apply bind parsed_loading
    intro least
    apply bind newFrame_filling
    intro frame
    apply Triple.bind (storePage_filling (by omega) (by decide))
    intro _
    apply Triple.seq
    · unfold copyHeaders
      dsimp only
      split
      · split
        · exact storeHeaders_filling
        · exact fails Filling.stops
      · exact skip
    · intro _
      apply Triple.bind (mapFrame_loading (by unfold IsFlags; decide) (by decide))
      intro _
      exact .skip

theorem readRelas_loading {first relaent : Nat} {indices : List Nat} :
    Loads roots start (readRelas first relaent indices) := by
  induction indices with
  | nil => exact skip
  | cons index rest ih =>
    apply seq
    · intro state loading
      rw [readUserRela, exec_lift]
      split
      · rename_i run
        split at run
        · cases run
        · cases run
          exact loading
      · rename_i run
        split at run
        · cases run
          exact loading.1
        · cases run
    · intro rela
      apply bind ih
      intro relas
      exact skip

theorem applyRelaEntry_loading {loadBase : Nat} {rela : Elf64Rela} :
    Loads roots start (applyRelaEntry loadBase allowIrelative rela) := by
  unfold applyRelaEntry
  dsimp only
  split
  · exact skip
  · split
    · exact writeUserU64_loading
    · split
      · exact writeUserU64_loading
      · split
        · exact writeUserU64_loading
        · exact fails Loading.stops

theorem applyRelocations_loading :
    Loads roots start (applyRelocations data hdr loadBias allowIrelative) := by
  apply bind parsed_loading
  intro found
  cases found with
  | none => exact skip
  | some info =>
    dsimp only
    split
    · exact skip
    · apply seq
      · exact ofExcept (fun _ _ _ loading => loading) fun error _ state => Loading.stops error state
      · intro _
        apply bind readRelas_loading
        intro relas
        apply seq
        · unfold readPltRelas
          split
          · exact readRelas_loading
          · exact skip
        · intro pltRelas
          exact forEach fun rela _ => applyRelaEntry_loading

theorem loadImage_loading {isInterp : Bool} : Loads roots start (loadImage data isInterp) := by
  apply bind parsed_loading
  intro hdr
  apply seq
  · unfold computeLoadBias
    split
    · exact skip
    · apply bind parsed_loading
      intro least
      exact skip
  · intro loadBias
    apply seq
    · apply seq
      · apply Triple.forEach
        intro index _
        apply bind parsed_loading
        intro ph
        split
        · exact mapSegment_loading
        · exact skip
      · intro _
        apply bind locateHeaders_loading
        intro phdrVaddr
        apply bind applyRelocations_loading
        intro _
        exact skip
    · intro loaded
      exact skip

theorem loadExecutable_loading {readPath : List (BitVec 8) → Option FileData} :
    Loads roots start (loadExecutable readPath data) := by
  apply bind loadImage_loading
  rintro ⟨hdr, loaded⟩
  apply bind parsed_loading
  intro path
  cases path with
  | none => exact skip
  | some path =>
    dsimp only
    split
    · exact fails Loading.stops
    · apply bind loadImage_loading
      rintro ⟨interpHdr, interp⟩
      exact skip

end Parts

variable {space : AddressSpace}

theorem Loading.start {roots : Set Nat} {start : Machine}
    (exclusive : Exclusive space.pageTable roots start) : Loading roots start ⟨space, start, []⟩ :=
  ⟨trivial, fun _ => ⟨exclusive, fun _ free => free, nofun⟩⟩

theorem loadExecutable_sound {roots : Set Nat} {readPath : List (BitVec 8) → Option FileData}
    {data : FileData} {start : Machine} {final : LoadState}
    {outcome : Except (Failure ElfError) LoadedElf}
    (exclusive : Exclusive space.pageTable roots start)
    (run : (loadExecutable readPath data).exec ⟨space, start, []⟩ = (outcome, final)) :
    Sound roots start final.writes := by
  cases outcome with
  | ok loaded => exact (loadExecutable_loading.ok (.start exclusive) run).1
  | error error => exact loadExecutable_loading.error (.start exclusive) run

/--
The loader writes to its own image as long as its writes fit.

The first write that does not fit leaves the image, or does not write what it has to. If a load
succeeds and all writes fitted, then every frame that was filled was free before and is now behind
a page.
-/
theorem image_writes_right_iff {roots : Set Nat} {readPath : List (BitVec 8) → Option FileData}
    {data : FileData} {space : AddressSpace} {start : Machine} {final : LoadState}
    {outcome : Except (Failure ElfError) LoadedElf}
    (exclusive : Exclusive space.pageTable roots start)
    (run : (loadExecutable readPath data).exec ⟨space, start, []⟩ = (outcome, final)) :
    (∀ later step earlier, final.writes = later ++ step :: earlier →
      (∀ other ∈ earlier, other.Fits) → ((step.Confined ∧ step.Exact ↔ step.Fits) ∧
        ∀ frame, step.write.frame? = some frame → start.Free frame)) ∧
    ((∀ step ∈ final.writes, step.Fits) → ∀ loaded, outcome = .ok loaded →
      ∀ step ∈ final.writes, ∀ frame, step.write.frame? = some frame →
        final.space.pageTable.Maps frame final.machine) := by
  have sound := loadExecutable_sound exclusive run
  constructor
  · intro later step earlier split fitted
    rw [split] at sound
    have known := sound.step fitted
    exact ⟨known.right, fun frame own => (known.fresh frame own).1⟩
  · rintro fitted loaded rfl
    have loading := loadExecutable_loading.ok (Loading.start exclusive) run
    exact (loading.2 fitted).mapped

/-- A file with a segment at 0x400000 and the headers of its segments behind its own header. -/
def segmentFile (phentsize phnum : BitVec 16) (filesz : BitVec 64) (size : BitVec 16) :
    FileData where
  length := size.toNat
  byte := fun index =>
    ([0x7F, 0x45, 0x4C, 0x46, 2, 1] : List (BitVec 8)).getD index
      (if index = 16 then 2 else if index = 18 then 62 else if index = 32 then 64
        else if 54 ≤ index ∧ index < 56 then ByteMemory.byte (phentsize.setWidth 64) (index - 54)
        else if 56 ≤ index ∧ index < 58 then ByteMemory.byte (phnum.setWidth 64) (index - 56)
        else if index = 64 then 1 else if index = 82 then 0x40
        else if 96 ≤ index ∧ index < 104 then ByteMemory.byte filesz (index - 96)
        else if index = 105 then 0x10 else 0)
  fits := Nat.lt_trans size.isLt (by decide)

/-- What is left of a new address space after a file was loaded into it. -/
def loadedState (data : FileData) : Except (Failure ElfError) LoadedElf × LoadState :=
  (loadExecutable (fun _ => none) data).exec ⟨newSpace.1, newSpace.2, []⟩

/-- The writes of the load of a file into a new address space. -/
def loadedWrites (data : FileData) : List ImageWrite := (loadedState data).2.writes.map (·.write)

theorem WriteStep.fits_of_page {step : WriteStep} {frame offset length : Nat}
    (isPage : step.write = .page frame offset length) : step.Fits := by
  unfold Fits
  rw [isPage]
  trivial

/-- A file whose segment covers its headers is loaded with two writes to one frame. -/
theorem image_writes_right_iff_covered :
    loadedWrites (segmentFile 56 1 120 120) = [.page 1 0 120, .page 1 0 4096] ∧
      ∀ step ∈ (loadedState (segmentFile 56 1 120 120)).2.writes, step.Confined ∧ step.Exact := by
  have shape : loadedWrites (segmentFile 56 1 120 120) = [.page 1 0 120, .page 1 0 4096] := by
    decide
  have run : (loadExecutable (fun _ => none) (segmentFile 56 1 120 120)).exec
      ⟨newSpace.1, newSpace.2, []⟩ = ((loadedState (segmentFile 56 1 120 120)).1,
        (loadedState (segmentFile 56 1 120 120)).2) := rfl
  obtain ⟨right, -⟩ := image_writes_right_iff newSpace_exclusive run
  have fits : ∀ step ∈ (loadedState (segmentFile 56 1 120 120)).2.writes, step.Fits := by
    intro step member
    have written : step.write ∈ loadedWrites (segmentFile 56 1 120 120) :=
      mem_map_of_mem member
    rw [shape] at written
    rcases mem_cons.mp written with isPage | written
    · exact fits_of_page isPage
    · exact fits_of_page (mem_singleton.mp written)
  refine ⟨shape, ?_⟩
  intro step member
  obtain ⟨later, earlier, split⟩ := append_of_mem member
  refine ((right later step earlier split ?_).1).mpr (fits step member)
  intro other isEarlier
  apply fits other
  rw [split]
  exact mem_append_right _ (mem_cons_of_mem _ isEarlier)

/-- A file with two headers of 4096 bytes overwrites a frame that belongs to nobody. -/
theorem large_headers_leave_the_image :
    ∃ step ∈ (loadedState (segmentFile 4096 2 0 8256)).2.writes,
      step.write = .headers 5 8192 ∧ ¬ step.Confined := by
  have shape : (loadedState (segmentFile 4096 2 0 8256)).2.writes.map
      (fun step => (step.write, step.before.frames.bitmap.bit 6)) =
      [(.headers 5 8192, some false), (.page 5 0 4096, some false), (.page 1 0 4096, some false)] := by
    decide
  have run : (loadExecutable (fun _ => none) (segmentFile 4096 2 0 8256)).exec
      ⟨newSpace.1, newSpace.2, []⟩ = ((loadedState (segmentFile 4096 2 0 8256)).1,
        (loadedState (segmentFile 4096 2 0 8256)).2) := rfl
  have sound := loadExecutable_sound newSpace_exclusive run
  generalize (loadedState (segmentFile 4096 2 0 8256)).2.writes = writes at *
  obtain ⟨last, earlier, rfl, isHeaders, shape⟩ := map_eq_cons_iff.mp shape
  obtain ⟨headers, free⟩ := Prod.mk.inj isHeaders
  refine ⟨last, mem_cons_self, headers, ?_⟩
  -- The pages fitted, so the headers may only reach frames that are used.
  have known := sound.1 (by
    intro other member
    have written : (other.write, other.before.frames.bitmap.bit 6) ∈
        earlier.map fun step => (step.write, step.before.frames.bitmap.bit 6) :=
      mem_map.mpr ⟨other, member, rfl⟩
    rw [shape] at written
    rcases mem_cons.mp written with isPage | written
    · exact fits_of_page (Prod.mk.inj isPage).1
    · exact fits_of_page (Prod.mk.inj (mem_singleton.mp written)).1)
  obtain ⟨table, before, write⟩ := last
  cases headers
  rw [headers_right]
  intro fits
  obtain ⟨virt, translated⟩ := fits 1 (by decide) (by decide)
  have used : before.frames.bitmap.bit 6 = some true :=
    (known.exclusive.used virt _ translated).1
  cases free.symm.trans used

end TheoryKernel.Mm.Elf
