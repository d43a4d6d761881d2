import TheoryKernel.Lib.Stateful
import TheoryKernel.Mm.AddressSpace
import TheoryKernel.Mm.Elf.Parse

/-! Loading an executable file into an address space. -/

namespace TheoryKernel.Mm.Elf

open ByteMemory Stateful

/-- What the loader tells about a program. -/
structure LoadedElf where
  entry : Nat
  phdrVaddr : Nat
  phdrCount : Nat
  phdrEntrySize : Nat
  loadBias : Nat
  isDynamic : Bool
  deriving DecidableEq, Repr

/-- The reasons for which a file cannot be loaded. -/
inductive ElfError where
  | invalid
  | notElf
  | notExec
  | mapFailed
  | interpMissing
  | relocFailed
  deriving DecidableEq, Repr

/-- The error of the loader for an error of the headers. -/
def ParseError.toElf : ParseError → ElfError
  | .notElf => .notElf
  | .badMachine => .notExec
  | .badType => .notExec
  | .invalid => .invalid

/-- What the loader writes: bytes of a new frame, headers to a new frame, or a relocated word. -/
inductive ImageWrite where
  | page (frame offset length : Nat)
  | headers (frame length : Nat)
  | relocation (virt phys : Nat)
  deriving DecidableEq, Repr

namespace ImageWrite

/-- The physical address of a write. -/
def addr : ImageWrite → Nat
  | .page frame offset _ => frame * pageSize + offset
  | .headers frame _ => frame * pageSize
  | .relocation _ phys => phys

/-- The number of bytes of a write. -/
def length : ImageWrite → Nat
  | .page _ _ length => length
  | .headers _ length => length
  | .relocation _ _ => 8

end ImageWrite

/-- A write, and the machine just before it. -/
structure WriteStep where
  table : PageTable
  before : Machine
  write : ImageWrite

/-- The address space that is being built, and the writes so far with the latest first. -/
structure LoadState where
  space : AddressSpace
  machine : Machine
  writes : List WriteStep

/-- A part of the loader. -/
abbrev Loader (α : Type) : Type := Stateful LoadState (Failure ElfError) α

/-- A part of the loader that only looks at the file. -/
def parsed {α : Type} : Fallible ParseError α → Loader α
  | .ok value => Stateful.ofExcept (.ok value)
  | .error (.fault fault) => Stateful.ofExcept (.error (.fault fault))
  | .error (.error error) => Stateful.ofExcept (.error (.error error.toElf))

/-- A new frame, with whatever it held before. -/
def newFrame : Loader Nat := lift fun state =>
  match state.machine.allocFrame with
  | none => (.error (.error .mapFailed), state)
  | some (frame, machine) => (.ok frame, { state with machine })

/-- The state after a write, which is kept in mind. -/
def LoadState.stored (state : LoadState) (write : ImageWrite) (bytes : Nat → BitVec 8) :
    LoadState :=
  { state with
    machine := state.machine.storePhys write.addr write.length bytes
    writes := ⟨state.space.pageTable, state.machine, write⟩ :: state.writes }

/-- Writing bytes through the linear alias of physical memory. -/
def storeBytes (write : ImageWrite) (bytes : Nat → BitVec 8) : Loader Unit :=
  lift fun state => (.ok (), state.stored write bytes)

/-- A write always happens. -/
theorem storeBytes_exec (write : ImageWrite) (bytes : Nat → BitVec 8) (state : LoadState) :
    (storeBytes write bytes).exec state = (.ok (), state.stored write bytes) := rfl

/-- A value that was read from the file. -/
theorem parsed_exec_ok {α : Type} (value : α) (state : LoadState) :
    (parsed (.ok value)).exec state = (.ok value, state) := rfl

/-- Mapping a page to a frame. -/
def mapFrame (vaddr frame : Nat) (flags : PageFlags) : Loader Unit := lift fun state =>
  match state.space.pageTable.mapPage vaddr (physOf frame) flags state.machine with
  | (.ok (), machine) => (.ok (), { state with machine })
  | (.error _, machine) => (.error (.error .mapFailed), { state with machine })

/-- A range of the file that is copied to a place of a page. -/
structure PageCopy where
  dstOff : Nat
  srcOff : Nat
  length : Nat
  deriving DecidableEq, Repr

/-- What is copied to a page of a segment, read without a check if the end of it seems to fit. -/
def pageCopy (data : FileData) (ph : Elf64Phdr) (vaddrBase vaddr : Nat) :
    Fallible ParseError (Option PageCopy) :=
  let copyLo := max vaddrBase vaddr
  let copyHi := min (wrapAdd vaddrBase ph.pFilesz.toNat) (wrapAdd vaddr pageSize)
  if copyLo < copyHi then
    let srcOff := wrapAdd ph.pOffset.toNat (copyLo - vaddrBase)
    let length := copyHi - copyLo
    if wrapAdd srcOff length ≤ data.length then
      if srcOff + length ≤ data.length then .ok (some ⟨copyLo - vaddr, srcOff, length⟩)
      else .fault .wildAccess
    else .ok none
  else .ok none

/-- Copying a range of the file to a frame. -/
def copyToFrame (data : FileData) (frame : Nat) : Option PageCopy → Loader Unit
  | none => pure ()
  | some copy => storeBytes (.page frame copy.dstOff copy.length) fun index =>
      data.byte (copy.srcOff + index)

/-- The flags of the pages of a segment. -/
def segmentFlags (ph : Elf64Phdr) : PageFlags :=
  let flags := PageFlags.present ||| PageFlags.user
  let flags := if ph.pFlags &&& pfW ≠ 0 then flags ||| PageFlags.writable else flags
  if ph.pFlags &&& pfX = 0 then flags ||| PageFlags.noExecute else flags

/-- A page of a segment: a blank frame gets its bytes of the file and is mapped. -/
def mapSegmentPage (data : FileData) (ph : Elf64Phdr) (vaddrBase vaddr : Nat) : Loader Unit := do
  let frame ← newFrame
  storeBytes (.page frame 0 pageSize) fun _ => 0
  let copy ← parsed (pageCopy data ph vaddrBase vaddr)
  copyToFrame data frame copy
  mapFrame vaddr frame (segmentFlags ph)

/-- The first page of a segment. -/
def segStart (vaddrBase : Nat) : Nat := alignDown vaddrBase pageSize

/-- The end of the last page of a segment. -/
def segEnd (ph : Elf64Phdr) (vaddrBase : Nat) : Nat :=
  alignUp (wrapAdd vaddrBase ph.pMemsz.toNat) pageSize

/-- The addresses of the pages of a segment; there are none if its end has wrapped. -/
def segmentPages (ph : Elf64Phdr) (vaddrBase : Nat) : List Nat :=
  (List.range ((segEnd ph vaddrBase - segStart vaddrBase) / pageSize)).map fun index =>
    segStart vaddrBase + index * pageSize

/-- The area of a segment is recorded, if that is possible. -/
def recordSegment (ph : Elf64Phdr) (vaddrBase : Nat) : Loader Unit := lift fun state =>
  let prot := ProtFlags.user ||| ProtFlags.read
  let prot := if ph.pFlags &&& pfW ≠ 0 then prot ||| ProtFlags.write else prot
  let prot := if ph.pFlags &&& pfX ≠ 0 then prot ||| ProtFlags.exec else prot
  let start := segStart vaddrBase
  let vma := Vma.new start (wrapSub (segEnd ph vaddrBase) start) prot MmapFlags.private_ .file
  (.ok (), { state with space := { state.space with vma := (state.space.vma.insert vma).2 } })

/-- Mapping the pages of a segment. -/
def mapSegment (data : FileData) (ph : Elf64Phdr) (loadBias : Nat) : Loader Unit := do
  let vaddrBase := wrapAdd ph.pVaddr.toNat loadBias
  forEach (mapSegmentPage data ph vaddrBase) (segmentPages ph vaddrBase)
  recordSegment ph vaddrBase

/-- The number of bytes that the headers of the segments take. -/
def phdrBytes (hdr : Elf64Ehdr) : Nat := hdr.ePhnum.toNat * hdr.ePhentsize.toNat

/-- Copying the headers of the segments to a frame, if their end seems to fit. -/
def copyHeaders (data : FileData) (hdr : Elf64Ehdr) (frame : Nat) : Loader Unit :=
  let src := hdr.ePhoff.toNat
  if wrapAdd src (phdrBytes hdr) ≤ data.length then
    if src + phdrBytes hdr ≤ data.length then
      storeBytes (.headers frame (phdrBytes hdr)) fun index => data.byte (src + index)
    else Stateful.ofExcept (.error (.fault .wildAccess))
  else pure ()

/-- The flags of the page with the headers. -/
def headerFlags : PageFlags := PageFlags.present ||| PageFlags.user ||| PageFlags.noExecute

/-- A page with the headers of the segments, below the first segment. -/
def mapPhdrCopy (data : FileData) (hdr : Elf64Ehdr) (loadBias : Nat) : Loader Nat := do
  let least ← parsed (minLoadVaddr data hdr)
  let size := alignUp (phdrBytes hdr) pageSize
  let va := alignDown (wrapSub (wrapAdd least loadBias) size) pageSize
  let frame ← newFrame
  storeBytes (.page frame 0 pageSize) fun _ => 0
  copyHeaders data hdr frame
  mapFrame va frame headerFlags
  pure va

/-- A relocation. -/
structure Elf64Rela where
  rOffset : BitVec 64
  rInfo : BitVec 64
  rAddend : BitVec 64
  deriving DecidableEq, Repr

/-- Reading bytes of the program, page by page. -/
def readUserLoop (table : PageTable) (machine : Machine) (addr length : Nat) :
    Nat → Nat → (Nat → BitVec 8) → Option (Nat → BitVec 8)
  | 0, _, buf => some buf
  | budget + 1, done, buf =>
    if done < length then
      let page := alignDown (wrapAdd addr done) pageSize
      let off := wrapAdd addr done - page
      match table.resolve page machine with
      | none => none
      | some (phys, _) =>
        let count := min (pageSize - off) (length - done)
        readUserLoop table machine addr length budget (done + count)
          (store buf done count fun index => machine.physByte (phys.toNat + off + index))
    else some buf

/-- Reading bytes of the program to a buffer; every round reads at least one byte. -/
def readUserBytes (table : PageTable) (machine : Machine) (addr length : Nat)
    (buf : Nat → BitVec 8) : Option (Nat → BitVec 8) :=
  readUserLoop table machine addr length length 0 buf

/-- A relocation in the memory of the program. -/
def readUserRela (addr : Nat) : Loader Elf64Rela := lift fun state =>
  match readUserLoop state.space.pageTable state.machine addr relaSize relaSize 0 fun _ => 0 with
  | none => (.error (.error .invalid), state)
  | some buf => (.ok ⟨loadWord buf 0, loadWord buf 8, loadWord buf 16⟩, state)

/-- Relocations in the memory of the program, one after another. -/
def readRelas (start relaent : Nat) : List Nat → Loader (List Elf64Rela)
  | [] => pure []
  | index :: rest => do
    let rela ← readUserRela (wrapAdd start (index * relaent))
    let relas ← readRelas start relaent rest
    pure (rela :: relas)

/-- Writing a word of the program with a single store. -/
def writeUserU64 (addr : Nat) (value : BitVec 64) : Loader Unit := lift fun state =>
  let page := alignDown addr pageSize
  match state.space.pageTable.resolve page state.machine with
  | none => (.error (.error .relocFailed), state)
  | some (phys, _) =>
    (.ok (), state.stored (.relocation addr (phys.toNat + (addr - page))) (byte value))

def rX8664None : Nat := 0
def rX866464 : Nat := 1
def rX8664GlobDat : Nat := 6
def rX8664JumpSlot : Nat := 7
def rX8664Relative : Nat := 8
def rX8664Irelative : Nat := 37

/-- Applying a relocation; symbols have no values. -/
def applyRelaEntry (loadBase : Nat) (allowIrelative : Bool) (rela : Elf64Rela) : Loader Unit :=
  let rType := rela.rInfo.toNat % 2 ^ 32
  let based := BitVec.ofNat 64 loadBase + rela.rAddend
  if rType = rX8664None then pure ()
  else if rType = rX8664Relative then writeUserU64 rela.rOffset.toNat based
  else if rType = rX866464 ∨ rType = rX8664GlobDat ∨ rType = rX8664JumpSlot then
    writeUserU64 rela.rOffset.toNat rela.rAddend
  else if rType = rX8664Irelative ∧ allowIrelative then writeUserU64 rela.rOffset.toNat based
  else Stateful.ofExcept (.error (.error .relocFailed))

/-- The number of relocations in a table. -/
def relaCount (relasz relaent : Nat) : Nat := if relaent = 0 then 0 else relasz / relaent

/-- Room for a number of relocations, of which there must not be too many. -/
def reserveRelas (count : Nat) : Loader Unit :=
  Stateful.ofExcept (if count * relaSize < 2 ^ 63 then .ok () else .error (.fault .assertionFailed))

/-- The relocations of the second table, if there is one. -/
def readPltRelas (info : DynamicInfo) : Loader (List Elf64Rela) :=
  if 0 < info.pltrelsz ∧ info.jmprel ≠ 0 then
    readRelas info.jmprel info.relaent (List.range (relaCount info.pltrelsz info.relaent))
  else pure []

/-- Applying the relocations of a file. -/
def applyRelocations (data : FileData) (hdr : Elf64Ehdr) (loadBias : Nat) (allowIrelative : Bool) :
    Loader Unit := do
  match ← parsed (parseDynamic data hdr loadBias) with
  | none => pure ()
  | some info =>
    if info.relaent = 0 then pure ()
    else
      let count := relaCount info.relasz info.relaent
      reserveRelas count
      let relas ← readRelas info.rela info.relaent (List.range count)
      let pltRelas ← readPltRelas info
      forEach (applyRelaEntry loadBias allowIrelative) (relas ++ pltRelas)

/-- The load address of a program that can be at any address. -/
def pieLoadBase : Nat := 0x400000

/-- How far a file is moved from the addresses it names. -/
def computeLoadBias (data : FileData) (hdr : Elf64Ehdr) : Loader Nat :=
  if hdr.eType = etExec then pure 0
  else do
    let least ← parsed (minLoadVaddr data hdr)
    pure (if least = 0 then pieLoadBase else 0)

/-- Mapping a segment that is to be loaded. -/
def mapHeader (data : FileData) (hdr : Elf64Ehdr) (loadBias index : Nat) : Loader Unit := do
  let ph ← parsed (phdrAt data hdr index)
  if ph.pType = ptLoad then mapSegment data ph loadBias else pure ()

/-- The address of the headers of the segments, for which there may have to be a page. -/
def locateHeaders (data : FileData) (hdr : Elf64Ehdr) (loadBias : Nat) : Loader Nat :=
  match phdrVaddrInImage data hdr loadBias with
  | .ok va => pure va
  | .error (.fault fault) => Stateful.ofExcept (.error (.fault fault))
  | .error (.error _) => mapPhdrCopy data hdr loadBias

/-- Mapping the segments of a file. -/
def mapImage (data : FileData) (hdr : Elf64Ehdr) (loadBias : Nat) (isInterp : Bool) :
    Loader LoadedElf := do
  forEach (mapHeader data hdr loadBias) (phIndices hdr)
  let phdrVaddr ← locateHeaders data hdr loadBias
  applyRelocations data hdr loadBias isInterp
  pure {
    entry := wrapAdd hdr.eEntry.toNat loadBias
    phdrVaddr
    phdrCount := hdr.ePhnum.toNat
    phdrEntrySize := hdr.ePhentsize.toNat
    loadBias
    isDynamic := isInterp }

/-- The header of a file that is checked. -/
def checkedHeader (data : FileData) : Fallible ParseError Elf64Ehdr :=
  match parseEhdr data with
  | .error error => .fail error
  | .ok hdr =>
    match validateHdr hdr with
    | .error error => .fail error
    | .ok () => .ok hdr

/-- Loading a file, without the program that loads it. -/
def loadImage (data : FileData) (isInterp : Bool) : Loader (Elf64Ehdr × LoadedElf) := do
  let hdr ← parsed (checkedHeader data)
  let loadBias ← computeLoadBias data hdr
  let loaded ← mapImage data hdr loadBias isInterp
  pure (hdr, loaded)

/-- Loading a file, and the program that loads it if the file asks for one. -/
def loadExecutable (readPath : List (BitVec 8) → Option FileData) (data : FileData) :
    Loader LoadedElf := do
  let (hdr, loaded) ← loadImage data false
  match ← parsed (extractInterpPath data hdr) with
  | none => pure loaded
  | some path =>
    match readPath path with
    | none => Stateful.ofExcept (.error (.error .interpMissing))
    | some interpData =>
      let (_, interp) ← loadImage interpData true
      pure { loaded with
        entry := interp.entry
        phdrVaddr := interp.phdrVaddr
        phdrCount := interp.phdrCount
        phdrEntrySize := interp.phdrEntrySize
        isDynamic := true }

end TheoryKernel.Mm.Elf
