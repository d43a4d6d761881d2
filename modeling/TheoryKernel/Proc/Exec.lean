import TheoryKernel.Mm.Elf.Load
import TheoryKernel.Proc.Pcb

/-! The stack with which a new program starts. -/

namespace TheoryKernel.Proc

open Mm Mm.Elf

/-- The reasons for which a program cannot be started. -/
inductive ExecError where
  | notFound
  | invalid
  | noMemory
  | tooBig
  deriving DecidableEq, Repr

def atNull : Nat := 0
def atPhdr : Nat := 3
def atPhent : Nat := 4
def atPhnum : Nat := 5
def atPagesz : Nat := 6
def atBase : Nat := 7
def atEntry : Nat := 9
def atUid : Nat := 11
def atEuid : Nat := 12
def atGid : Nat := 13
def atEgid : Nat := 14
def atSecure : Nat := 23
def atRandom : Nat := 25
def atExecfn : Nat := 31

/-- The number of pages of the stack. -/
def stackPages : Nat := 16

/-- The number of bytes of the stack. -/
def regionSize : Nat := stackPages * pageSize

/-- The end of the stack. -/
def userStackTop : Nat := 0x700000000000

/-- The flags of a page of the stack. -/
def stackFlags : PageFlags := PageFlags.present ||| PageFlags.user ||| PageFlags.writable

/-- The pages of the stack are mapped one after another, each to a frame as it was found. -/
def mapStackLoop (table : PageTable) (bottom : Nat) :
    List Nat → Machine → Except ExecError Unit × Machine
  | [], machine => (.ok (), machine)
  | index :: rest, machine =>
    match machine.allocFrame with
    | none => (.error .noMemory, machine)
    | some (frame, machine) =>
      match table.mapPage (bottom + index * pageSize) (physOf frame) stackFlags machine with
      | (.ok (), machine) => mapStackLoop table bottom rest machine
      | (.error _, machine) => (.error .noMemory, machine)

/-- Mapping the stack of a program. -/
def mapUserStack (space : AddressSpace) (machine : Machine) :
    Except ExecError Unit × AddressSpace × Machine :=
  let bottom := userStackTop - regionSize
  let vma := Vma.new bottom regionSize (ProtFlags.user ||| ProtFlags.read ||| ProtFlags.write)
    (MmapFlags.private_ ||| MmapFlags.anonymous ||| MmapFlags.stack) .stack
  match space.vma.insert vma with
  | (.error _, _) => (.error .noMemory, space, machine)
  | (.ok (), vma) =>
    let (outcome, machine) := mapStackLoop space.pageTable bottom (List.range stackPages) machine
    (outcome, { space with vma }, machine)

/-- The stack as it is put together, before it is copied to the program. -/
abbrev Image : Type := Nat → BitVec 8

/-- Rounding down to a multiple of sixteen. -/
def align16 (value : Nat) : Nat := value / 16 * 16

/-- Copying into a range of the image, which faults if the range is reversed or reaches outside. -/
def copySlice (image : Image) (start stop : Nat) (bytes : Nat → BitVec 8) :
    Fallible ExecError Image :=
  if start ≤ stop ∧ stop ≤ regionSize then .ok (ByteMemory.store image start (stop - start) bytes)
  else .fault .sliceOutOfRange

/-- Writing a byte of the image, which faults outside. -/
def setByte (image : Image) (index : Nat) (value : BitVec 8) : Fallible ExecError Image :=
  if index < regionSize then .ok (Function.update image index value) else .fault .indexOutOfBounds

/-- Putting a string and its terminator below the stack pointer. -/
def pushStr (image : Image) (base sp : Nat) (string : Bytes) :
    Fallible ExecError (Nat × Image) := do
  if sp < string.length + 1 then .fail .tooBig
  else
    let sp := align16 (sp - (string.length + 1))
    let off := wrapSub sp base
    if regionSize < wrapAdd (wrapAdd off string.length) 1 then .fail .tooBig
    else
      let image ← copySlice image off (wrapAdd off string.length) fun index => string.getD index 0
      let image ← setByte image (wrapAdd off string.length) 0
      .ok (sp, image)

/-- Putting a word below the stack pointer. -/
def pushU64 (image : Image) (base sp value : Nat) : Fallible ExecError (Nat × Image) := do
  if sp < 8 then .fail .tooBig
  else
    let sp := sp - 8
    let off := wrapSub sp base
    if regionSize < wrapAdd off 8 then .fail .tooBig
    else
      let image ← copySlice image off (wrapAdd off 8) (ByteMemory.byte (BitVec.ofNat 64 value))
      .ok (sp, image)

/-- A byte of the seed for the random numbers of the program. -/
def seedByte (tsc tick : BitVec 64) (index : Nat) : BitVec 8 :=
  ((tsc >>> (index * 4)) ^^^ (tick >>> index)).setWidth 8

/-- Writing the bytes of the seed one after another. -/
def fillLoop (tsc tick : BitVec 64) (off : Nat) : List Nat → Image → Fallible ExecError Image
  | [], image => .ok image
  | index :: rest, image => do
    fillLoop tsc tick off rest (← setByte image (wrapAdd off index) (seedByte tsc tick index))

/-- Writing the seed for the random numbers of the program, if there is room for it. -/
def fillRandom (image : Image) (base addr : Nat) (tsc tick : BitVec 64) :
    Fallible ExecError Image :=
  let off := wrapSub addr base
  if regionSize < wrapAdd off 16 then .ok image
  else fillLoop tsc tick off (List.range 16) image

/-- Putting an entry of the auxiliary vector below the stack pointer. -/
def pushAuxv (image : Image) (base sp tag value : Nat) : Fallible ExecError (Nat × Image) := do
  let (sp, image) ← pushU64 image base sp value
  pushU64 image base sp tag

/-- Strings that are put below the stack pointer from the last to the first, and their addresses. -/
def pushStrs (base : Nat) : List Bytes → List Nat → Nat → Image →
    Fallible ExecError (List Nat × Nat × Image)
  | [], pointers, sp, image => .ok (pointers, sp, image)
  | string :: rest, pointers, sp, image => do
    let (sp, image) ← pushStr image base sp string
    pushStrs base rest (sp :: pointers) sp image

/-- Entries of the auxiliary vector, from the last to the first. -/
def pushAuxvs (base : Nat) : List (Nat × Nat) → Nat → Image → Fallible ExecError (Nat × Image)
  | [], sp, image => .ok (sp, image)
  | (tag, value) :: rest, sp, image => do
    let (sp, image) ← pushAuxv image base sp tag value
    pushAuxvs base rest sp image

/-- Words, from the last to the first. -/
def pushWords (base : Nat) : List Nat → Nat → Image → Fallible ExecError (Nat × Image)
  | [], sp, image => .ok (sp, image)
  | value :: rest, sp, image => do
    let (sp, image) ← pushU64 image base sp value
    pushWords base rest sp image

/-- The entries of the auxiliary vector, from the last to the first. -/
def auxEntries (loaded : LoadedElf) (cred : Credentials) (execfnAddr randomAddr : Nat) :
    List (Nat × Nat) :=
  let secure := cred.uid ≠ cred.euid ∨ cred.gid ≠ cred.egid
  [(atNull, 0), (atExecfn, execfnAddr), (atRandom, randomAddr),
    (atSecure, if secure then 1 else 0), (atEgid, cred.egid.toNat), (atEuid, cred.euid.toNat),
    (atGid, cred.gid.toNat), (atUid, cred.uid.toNat)] ++
  (if loaded.isDynamic then [(atBase, loaded.loadBias)] else []) ++
  [(atEntry, loaded.entry), (atPagesz, pageSize), (atPhnum, loaded.phdrCount),
    (atPhent, loaded.phdrEntrySize), (atPhdr, loaded.phdrVaddr)]

/-- What the new stack is made from, besides the strings. -/
structure Launch where
  loaded : LoadedElf
  cred : Credentials
  tsc : BitVec 64
  tick : BitVec 64

/-- The part of the image that holds strings, and the addresses in it. -/
structure Strings where
  argPtrs : List Nat
  envPtrs : List Nat
  randomAddr : Nat
  execfnAddr : Nat
  image : Image

/-- The strings at the upper end of the stack. -/
def buildStrings (stackTop : Nat) (argv envp : List Bytes) (launch : Launch) (execfn : Bytes) :
    Fallible ExecError Strings := do
  let base := stackTop - regionSize
  let (argPtrs, sp, image) ← pushStrs base argv.reverse [] stackTop fun _ => 0
  let (envPtrs, sp, image) ← pushStrs base envp.reverse [] sp image
  let sp := align16 sp
  if sp < 16 then .fail .tooBig
  else
    let randomAddr := sp - 16
    let image ← fillRandom image base randomAddr launch.tsc launch.tick
    let (execfnAddr, image) ← pushStr image base randomAddr execfn
    .ok ⟨argPtrs, envPtrs, randomAddr, execfnAddr, image⟩

/-- The tables of the stack below the strings, down to the number of arguments. -/
def buildTables (stackTop : Nat) (argc : Nat) (launch : Launch) (strings : Strings) :
    Fallible ExecError (Nat × Image) := do
  let base := stackTop - regionSize
  let entries := auxEntries launch.loaded launch.cred strings.execfnAddr strings.randomAddr
  let (sp, image) ← pushAuxvs base entries (align16 strings.execfnAddr) strings.image
  let (sp, image) ← pushU64 image base (align16 sp) 0
  let (sp, image) ← pushWords base strings.envPtrs.reverse sp image
  let (sp, image) ← pushU64 image base (align16 sp) 0
  let (sp, image) ← pushWords base strings.argPtrs.reverse sp image
  pushU64 image base (align16 sp) argc

/-- The image of the new stack and the stack pointer. -/
def buildImage (stackTop : Nat) (argv envp : List Bytes) (launch : Launch) (execfn : Bytes) :
    Fallible ExecError (Nat × Image) := do
  let strings ← buildStrings stackTop argv envp launch execfn
  buildTables stackTop argv.length launch strings

/-- Copying bytes to the pages of a program, page by page. -/
def writeUserLoop (table : PageTable) (addr length : Nat) (bytes : Nat → BitVec 8) :
    Nat → Nat → Machine → Except ExecError Unit × Machine
  | 0, _, machine => (.ok (), machine)
  | budget + 1, written, machine =>
    if written < length then
      let va := wrapAdd addr written
      let page := alignDown va pageSize
      match table.resolve page machine with
      | none => (.error .noMemory, machine)
      | some (phys, _) =>
        let count := min (pageSize - (va - page)) (length - written)
        writeUserLoop table addr length bytes budget (written + count)
          (machine.storePhys (phys.toNat + (va - page)) count fun index => bytes (written + index))
    else (.ok (), machine)

/-- Copying bytes to the pages of a program; every round copies at least one byte. -/
def writeUserRegion (table : PageTable) (addr length : Nat) (bytes : Nat → BitVec 8)
    (machine : Machine) : Except ExecError Unit × Machine :=
  writeUserLoop table addr length bytes length 0 machine

/-- Building the stack of a program in its address space, and the stack pointer. -/
def buildStackOn (table : PageTable) (stackTop : Nat) (argv envp : List Bytes) (launch : Launch)
    (execfn : Bytes) (machine : Machine) : Exec (Except ExecError Nat × Machine) :=
  match buildImage stackTop argv envp launch execfn with
  | .error (.fault fault) => .error fault
  | .error (.error error) => .ok (.error error, machine)
  | .ok (sp, image) =>
    let startOff := wrapSub sp (stackTop - regionSize)
    if startOff ≤ regionSize then
      match writeUserRegion table sp (regionSize - startOff) (fun index => image (startOff + index))
        machine with
      | (.ok (), machine) => .ok (.ok sp, machine)
      | (.error error, machine) => .ok (.error error, machine)
    else .error .sliceOutOfRange

end TheoryKernel.Proc
