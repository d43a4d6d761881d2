import TheoryKernel.Mm.Elf.Parse

/-! Which files make the readers of headers leave the file. -/

namespace TheoryKernel.Mm.Elf

open Fallible

variable {data : FileData} {hdr : Elf64Ehdr} {ph : Elf64Phdr} {index : Nat} {pType : BitVec 32}

/-- A file with a header is as long as the header. -/
theorem parseEhdr_length (known : parseEhdr data = .ok hdr) : ehdrSize ≤ data.length := by
  unfold parseEhdr at known
  split at known
  · cases known
  · omega

/-- The header of a segment is in the file. -/
def HeaderFits (data : FileData) (hdr : Elf64Ehdr) (index : Nat) : Prop :=
  phdrOff hdr index + phdrSize ≤ data.length

instance : Decidable (HeaderFits data hdr index) := inferInstanceAs (Decidable (_ ≤ _))

/-- No header of a segment starts so close to the largest address that its end wraps. -/
def HeadersSafe (hdr : Elf64Ehdr) : Prop :=
  hdr.ePhnum = 0 ∨ hdr.ePhoff.toNat + phdrSize < 2 ^ 64

theorem phdrOff_lt (hdr : Elf64Ehdr) (index : Nat) : phdrOff hdr index < 2 ^ 64 :=
  Nat.mod_lt _ (by decide)

theorem phdrOff_zero (hdr : Elf64Ehdr) : phdrOff hdr 0 = hdr.ePhoff.toNat := by
  unfold phdrOff wrapAdd
  rw [Nat.zero_mul, Nat.add_zero]
  exact Nat.mod_eq_of_lt hdr.ePhoff.isLt

theorem phdrAt_eq : phdrAt data hdr index =
    if data.length < wrapAdd (phdrOff hdr index) phdrSize then .fail .invalid
    else if HeaderFits data hdr index then .ok (readPhdr data (phdrOff hdr index))
    else .fault .wildAccess := rfl

theorem phdrAt_fits (fits : HeaderFits data hdr index) :
    phdrAt data hdr index = .ok (readPhdr data (phdrOff hdr index)) := by
  have short := data.fits
  have inside : phdrOff hdr index + phdrSize ≤ data.length := fits
  rw [phdrAt_eq, wrapAdd_eq (by omega), if_neg (by omega), if_pos fits]

theorem phdrAt_behind (behind : ¬ HeaderFits data hdr index)
    (small : phdrOff hdr index + phdrSize < 2 ^ 64) : phdrAt data hdr index = .fail .invalid := by
  unfold HeaderFits at behind
  rw [phdrAt_eq, wrapAdd_eq small, if_pos (by omega)]

/-- A header whose end wraps is read before the start of the file. -/
theorem phdrAt_wild (long : ehdrSize ≤ data.length)
    (wraps : 2 ^ 64 ≤ phdrOff hdr index + phdrSize) :
    phdrAt data hdr index = .fault .wildAccess := by
  have limit := phdrOff_lt hdr index
  have short := data.fits
  unfold ehdrSize at long
  unfold phdrSize at wraps
  have wrapped : wrapAdd (phdrOff hdr index) 56 < 56 := by
    unfold wrapAdd
    omega
  have outside : ¬ HeaderFits data hdr index := by
    unfold HeaderFits phdrSize
    omega
  rw [phdrAt_eq, phdrSize, if_neg (by omega), if_neg outside]

/-- Reading a header returns if its end does not wrap. -/
theorem phdrAt_returns_iff (long : ehdrSize ≤ data.length) :
    (phdrAt data hdr index).Returns ↔ phdrOff hdr index + phdrSize < 2 ^ 64 := by
  constructor
  · intro returns
    by_contra wraps
    rw [phdrAt_wild long (by omega)] at returns
    exact not_returns_fault _ returns
  · intro small
    by_cases fits : HeaderFits data hdr index
    · rw [phdrAt_fits fits]
      exact returns_ok _
    · rw [phdrAt_behind fits small]
      exact returns_fail _

theorem phdrOff_small (first : HeaderFits data hdr 0) (few : index < 2 ^ 16) :
    phdrOff hdr index + phdrSize < 2 ^ 64 := by
  have short := data.fits
  have entry := hdr.ePhentsize.isLt
  rw [HeaderFits, phdrOff_zero] at first
  have distance : index * hdr.ePhentsize.toNat ≤ 2 ^ 16 * 2 ^ 16 :=
    Nat.mul_le_mul (Nat.le_of_lt few) (Nat.le_of_lt entry)
  unfold phdrSize at *
  unfold phdrOff
  rw [wrapAdd_eq (by omega)]
  omega

theorem phIndices_small (member : index ∈ phIndices hdr) : index < 2 ^ 16 :=
  Nat.lt_trans (List.mem_range.mp member) hdr.ePhnum.isLt

theorem overHeaders_returns_iff {α : Type} (loop : List Nat → Fallible ParseError α)
    {next : List Nat → Elf64Phdr → Fallible ParseError α} (long : ehdrSize ≤ data.length)
    (nothing : (loop []).Returns)
    (step : ∀ index rest, loop (index :: rest) = phdrAt data hdr index >>= next rest)
    (body : ∀ rest ph, (loop rest).Returns → (next rest ph).Returns) :
    (loop (phIndices hdr)).Returns ↔ HeadersSafe hdr := by
  have inFile : HeaderFits data hdr 0 → ∀ indices : List Nat,
      (∀ index ∈ indices, index < 2 ^ 16) → (loop indices).Returns := by
    intro first indices small
    induction indices with
    | nil => exact nothing
    | cons index rest ih =>
      rw [step, returns_bind_iff]
      constructor
      · rw [phdrAt_returns_iff long]
        exact phdrOff_small first (small index List.mem_cons_self)
      · intro ph _
        apply body
        exact ih fun other member => small other (List.mem_cons_of_mem index member)
  by_cases empty : hdr.ePhnum = 0
  · -- Without headers nothing is read.
    have none : phIndices hdr = [] := by
      rw [phIndices, empty]
      rfl
    rw [none]
    exact iff_of_true nothing (.inl empty)
  · obtain ⟨rest, indices⟩ : ∃ rest, phIndices hdr = 0 :: rest := by
      have positive : 0 < hdr.ePhnum.toNat := by
        rw [Nat.pos_iff_ne_zero]
        intro zero
        exact empty (BitVec.eq_of_toNat_eq zero)
      refine ⟨(List.range (hdr.ePhnum.toNat - 1)).map Nat.succ, ?_⟩
      rw [phIndices, ← List.range_succ_eq_map, Nat.sub_add_cancel positive]
    have place := phdrOff_zero hdr
    constructor
    · intro returns
      rw [indices, step, returns_bind_iff, phdrAt_returns_iff long, place] at returns
      exact .inr returns.1
    · rintro (none | small)
      · exact absurd none empty
      · by_cases first : HeaderFits data hdr 0
        · exact inFile first _ fun index member => phIndices_small member
        · rw [← place] at small
          rw [indices, step, phdrAt_behind first small]
          exact returns_fail _

theorem findHeader_returns_iff (long : ehdrSize ≤ data.length) :
    (findHeader data hdr pType (phIndices hdr)).Returns ↔ HeadersSafe hdr := by
  apply overHeaders_returns_iff (findHeader data hdr pType) long (returns_ok _) fun index rest => rfl
  intro rest ph returns
  split
  · exact returns_ok _
  · exact returns

/-- The search for the headers returns if no header wraps. -/
theorem phdrVaddrInImage_returns_iff (long : ehdrSize ≤ data.length) (loadBias : Nat) :
    (phdrVaddrInImage data hdr loadBias).Returns ↔ HeadersSafe hdr := by
  rw [phdrVaddrInImage, returns_bind_iff, findHeader_returns_iff long]
  constructor
  · exact fun both => both.1
  · intro safe
    refine ⟨safe, ?_⟩
    rintro (none | ph) -
    · apply (overHeaders_returns_iff (coveringLoop data hdr loadBias) long (returns_fail _)
        (fun index rest => rfl) ?_).mpr safe
      intro rest ph returns
      dsimp only
      split
      · exact returns_ok _
      · exact returns
    · exact returns_ok _

/-- The first segment of a type, which is reached if all headers up to it are in the file. -/
structure FirstHeader (data : FileData) (hdr : Elf64Ehdr) (pType : BitVec 32) (index : Nat) :
    Prop where
  inside : index < hdr.ePhnum.toNat
  fits : ∀ before ≤ index, HeaderFits data hdr before
  isType : (readPhdr data (phdrOff hdr index)).pType = pType
  first : ∀ before < index, (readPhdr data (phdrOff hdr before)).pType ≠ pType

theorem findHeader_some_iff {count start : Nat} :
    findHeader data hdr pType (List.range' start count) = .ok (some ph) ↔
      ∃ index, start ≤ index ∧ index < start + count ∧
        (∀ before, start ≤ before → before ≤ index → HeaderFits data hdr before) ∧
        ph = readPhdr data (phdrOff hdr index) ∧ ph.pType = pType ∧
        ∀ before, start ≤ before → before < index →
          (readPhdr data (phdrOff hdr before)).pType ≠ pType := by
  induction count generalizing start with
  | zero =>
    constructor
    · nofun
    · rintro ⟨index, low, high, -⟩
      omega
  | succ count ih =>
    rw [List.range'_succ, findHeader]
    by_cases fits : HeaderFits data hdr start
    · rw [phdrAt_fits fits, Fallible.ok_bind]
      by_cases isType : (readPhdr data (phdrOff hdr start)).pType = pType
      · rw [if_pos isType]
        constructor
        · intro same
          cases same
          refine ⟨start, Nat.le_refl _, by omega, ?_, rfl, isType, by omega⟩
          intro before low high
          rwa [Nat.le_antisymm high low]
        · rintro ⟨index, low, -, -, rfl, -, first⟩
          by_cases here : index = start
          · rw [here]
          · exact absurd isType (first start (Nat.le_refl _) (by omega))
      · rw [if_neg isType, ih]
        constructor
        · rintro ⟨index, low, high, fits', same, isType', first⟩
          refine ⟨index, by omega, by omega, ?_, same, isType', ?_⟩
          · intro before low' high'
            by_cases here : before = start
            · rwa [here]
            · exact fits' before (by omega) high'
          · intro before low' high'
            by_cases here : before = start
            · rwa [here]
            · exact first before (by omega) high'
        · rintro ⟨index, low, high, fits', same, isType', first⟩
          have later : index ≠ start := by
            rintro rfl
            exact isType (same ▸ isType')
          exact ⟨index, by omega, by omega, fun before low' => fits' before (by omega), same, isType',
            fun before low' => first before (by omega)⟩
    · -- A header outside the file ends the search.
      constructor
      · intro found
        obtain ⟨read, known, -⟩ := Fallible.bind_eq_ok.mp found
        rw [phdrAt_eq, if_neg fits] at known
        split at known <;> cases known
      · rintro ⟨index, low, -, fits', -⟩
        exact absurd (fits' start (Nat.le_refl _) low) fits

theorem findHeader_iff :
    findHeader data hdr pType (phIndices hdr) = .ok (some ph) ↔
      ∃ index, FirstHeader data hdr pType index ∧ ph = readPhdr data (phdrOff hdr index) := by
  rw [phIndices, List.range_eq_range', findHeader_some_iff]
  constructor
  · rintro ⟨index, -, high, fits, rfl, isType, first⟩
    exact ⟨index, ⟨by omega, fun before => fits before (Nat.zero_le _), isType,
      fun before => first before (Nat.zero_le _)⟩, rfl⟩
  · rintro ⟨index, found, rfl⟩
    have inside := found.inside
    exact ⟨index, Nat.zero_le _, by omega, fun before _ => found.fits before, rfl, found.isType,
      fun before _ => found.first before⟩

theorem withHeader_returns_iff {α : Type} {next : Option Elf64Phdr → Fallible ParseError α}
    {Wild : Elf64Phdr → Prop} (long : ehdrSize ≤ data.length)
    (body : ∀ ph, (next (some ph)).Returns ↔ ¬ Wild ph) (nothing : (next none).Returns) :
    (findHeader data hdr pType (phIndices hdr) >>= next).Returns ↔ HeadersSafe hdr ∧
      ∀ index, FirstHeader data hdr pType index → ¬ Wild (readPhdr data (phdrOff hdr index)) := by
  rw [returns_bind_iff, findHeader_returns_iff long]
  refine and_congr_right fun safe => ?_
  constructor
  · intro returns index found
    rw [← body]
    exact returns _ (findHeader_iff.mpr ⟨index, found, rfl⟩)
  · rintro tame (none | ph) known
    · exact nothing
    · obtain ⟨index, found, rfl⟩ := findHeader_iff.mp known
      exact (body _).mpr (tame index found)

/-- The bytes of a segment seem to end in the file because their end wraps. -/
def WrappedSegment (data : FileData) (ph : Elf64Phdr) : Prop :=
  2 ^ 64 ≤ ph.pOffset.toNat + ph.pFilesz.toNat ∧
    ph.pOffset.toNat + ph.pFilesz.toNat ≤ 2 ^ 64 + data.length

/-- The path of the interpreter is extracted if its end does not wrap. -/
theorem extractInterpPath_returns_iff (long : ehdrSize ≤ data.length) :
    (extractInterpPath data hdr).Returns ↔ HeadersSafe hdr ∧
      ∀ index, FirstHeader data hdr ptInterp index →
        ¬ WrappedSegment data (readPhdr data (phdrOff hdr index)) := by
  refine withHeader_returns_iff long (fun ph => ?_) (returns_ok _)
  have startSmall := ph.pOffset.isLt
  have sizeSmall := ph.pFilesz.isLt
  have short := data.fits
  generalize offset : ph.pOffset.toNat = start at startSmall
  generalize size : ph.pFilesz.toNat = filesz at sizeSmall
  simp only [offset, size, WrappedSegment]
  by_cases wraps : 2 ^ 64 ≤ start + filesz
  · have stop : wrapAdd start filesz = start + filesz - 2 ^ 64 := by
      unfold wrapAdd
      omega
    rw [stop]
    by_cases behind : data.length < start + filesz - 2 ^ 64
    · rw [if_pos behind]
      exact iff_of_true (returns_fail _) (by omega)
    · -- The range is reversed.
      rw [if_neg behind, fileSlice, if_neg (by omega)]
      exact iff_of_false (not_returns_fault _) (by omega)
  · have stop : wrapAdd start filesz = start + filesz := wrapAdd_eq (by omega)
    rw [stop]
    by_cases behind : data.length < start + filesz
    · rw [if_pos behind]
      exact iff_of_true (returns_fail _) (by omega)
    · rw [if_neg behind, fileSlice, if_pos ⟨by omega, by omega⟩]
      exact iff_of_true (returns_ok _) (by omega)

/-- The dynamic section starts so close to the largest address that the end of an entry wraps. -/
def WrappedDynamic (data : FileData) (ph : Elf64Phdr) : Prop :=
  2 ^ 64 ≤ ph.pOffset.toNat + 16 ∧ 16 ≤ ph.pFilesz.toNat ∧
    ph.pOffset.toNat + ph.pFilesz.toNat ≤ 2 ^ 64 + data.length

theorem dynamicLoop_returns {loadBias stop budget off : Nat} {info : DynamicInfo}
    (inFile : stop ≤ data.length) (small : off + 16 < 2 ^ 64) (positive : 0 < budget)
    (enough : stop < off + budget) : (dynamicLoop data loadBias stop budget off info).Returns := by
  have short := data.fits
  -- Each entry takes sixteen bytes of what is left, and one of the budget.
  induction budget generalizing off info with
  | zero => omega
  | succ budget ih =>
    rw [dynamicLoop, wrapAdd_eq small]
    by_cases more : off + 16 ≤ stop
    · rw [if_pos more, if_pos (by omega)]
      dsimp only
      split
      · exact returns_ok _
      · exact ih (by omega) (by omega) (by omega)
    · rw [if_neg more]
      exact returns_ok _

/-- The dynamic section is read if the end of its first entry does not wrap. -/
theorem parseDynamic_returns_iff (long : ehdrSize ≤ data.length) (loadBias : Nat) :
    (parseDynamic data hdr loadBias).Returns ↔ HeadersSafe hdr ∧
      ∀ index, FirstHeader data hdr ptDynamic index →
        ¬ WrappedDynamic data (readPhdr data (phdrOff hdr index)) := by
  refine withHeader_returns_iff long (fun ph => ?_) (returns_ok _)
  have startSmall := ph.pOffset.isLt
  have sizeSmall := ph.pFilesz.isLt
  have short := data.fits
  generalize offset : ph.pOffset.toNat = start at startSmall
  generalize size : ph.pFilesz.toNat = filesz at sizeSmall
  simp only [offset, size, WrappedDynamic]
  by_cases wraps : 2 ^ 64 ≤ start + filesz
  · have stop : wrapAdd start filesz = start + filesz - 2 ^ 64 := by
      unfold wrapAdd
      omega
    rw [stop]
    by_cases behind : data.length < start + filesz - 2 ^ 64
    · rw [if_pos behind]
      exact iff_of_true (returns_fail _) (by omega)
    · rw [if_neg behind, dynamicLoop]
      by_cases close : 2 ^ 64 ≤ start + 16
      · have entry : wrapAdd start 16 = start + 16 - 2 ^ 64 := by
          unfold wrapAdd
          omega
        rw [entry]
        by_cases room : 16 ≤ filesz
        · rw [if_pos (by omega), if_neg (by omega)]
          exact iff_of_false (not_returns_fault _) (by omega)
        · rw [if_neg (by omega)]
          exact iff_of_true (returns_ok _) (by omega)
      · -- The section ends before it starts, so it has no entries.
        rw [wrapAdd_eq (by omega), if_neg (by omega)]
        exact iff_of_true (returns_ok _) (by omega)
  · have stop : wrapAdd start filesz = start + filesz := wrapAdd_eq (by omega)
    rw [stop]
    by_cases behind : data.length < start + filesz
    · rw [if_pos behind]
      exact iff_of_true (returns_fail _) (by omega)
    · rw [if_neg behind, returns_bind_iff]
      refine iff_of_true ⟨?_, fun info _ => returns_ok _⟩ (by omega)
      exact dynamicLoop_returns (by omega) (by omega) (by omega) (by omega)

end TheoryKernel.Mm.Elf
