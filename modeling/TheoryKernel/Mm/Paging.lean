import TheoryKernel.Mm.Layout
import TheoryKernel.Mm.Machine

/-! Page tables of four levels in physical memory. -/

namespace TheoryKernel.Mm

/-- The flags of a page-table entry, as the word of their bits. -/
abbrev PageFlags : Type := BitVec 64

namespace PageFlags

def present : PageFlags := 0x1
def writable : PageFlags := 0x2
def user : PageFlags := 0x4
def accessed : PageFlags := 0x20
def dirty : PageFlags := 0x40
def cow : PageFlags := 0x200
def softwareDemand : PageFlags := 0x400
def noExecute : PageFlags := 0x8000000000000000

/-- The bits with a meaning: the twelve lowest ones and the highest one. -/
def all : PageFlags := 0x8000000000000FFF

/-- The flags of an entry, without the address in it. -/
def fromBitsTruncate (value : BitVec 64) : PageFlags := value &&& all

/-- The flags of a mapping with a given protection. -/
def fromProt (prot : ProtFlags) (forUser : Bool) : PageFlags :=
  let flags := present ||| accessed
  let flags := if contains prot ProtFlags.write then flags ||| (writable ||| dirty) else flags
  let flags := if forUser || contains prot ProtFlags.user then flags ||| user else flags
  -- Without the right to execute, the mapping is marked so.
  if contains prot ProtFlags.exec then flags &&& ~~~noExecute else flags ||| noExecute

end PageFlags

/-- The bits of an entry that hold a physical address. -/
def physMask : BitVec 64 := 0x000FFFFFFFFFF000

/-- The physical address of a frame. -/
def physOf (frame : Nat) : BitVec 64 := BitVec.ofNat 64 (frame * pageSize)

/-- The frame whose address is in an entry. -/
def frameOf (value : BitVec 64) : Nat := (value &&& physMask).toNat / pageSize

/-- The flags of an entry that leads to a table. -/
def tableFlags : PageFlags := PageFlags.present ||| PageFlags.writable ||| PageFlags.user

/-- The reasons for which a table operation is refused. -/
inductive MapError where
  | alreadyMapped
  | notMapped
  | noMemory
  deriving DecidableEq, Repr

/-- The slots of the three upper levels that an address selects. -/
def tablePath (virt : Nat) : List Nat :=
  [virt / 2 ^ 39 % 512, virt / 2 ^ 30 % 512, virt / 2 ^ 21 % 512]

/-- The slot of the last level that an address selects. -/
def tableSlot (virt : Nat) : Nat := virt / 2 ^ 12 % 512

/-- A page table, given by the frame of its top level. -/
structure PageTable where
  root : Nat
  deriving DecidableEq, Repr

namespace PageTable

/-- A new table for a slot that has none, if a frame is left for it. -/
def addTable (machine : Machine) (table index : Nat) : Option (Nat × Machine) :=
  match machine.allocFrame with
  | some (frame, machine) =>
    some (frame, (machine.zeroFrame frame).write table index (physOf frame ||| tableFlags))
  | none => none

/-- The walk along the upper levels; missing tables are created on demand. -/
def walkLoop (create : Bool) : List Nat → Nat → Machine → Except MapError Nat × Machine
  | [], table, machine => (.ok table, machine)
  | index :: rest, table, machine =>
    let value := machine.memory table index
    if contains value PageFlags.present then walkLoop create rest (frameOf value) machine
    else if create then
      match addTable machine table index with
      | some (frame, machine) => walkLoop create rest frame machine
      | none => (.error .noMemory, machine)
    else (.error .notMapped, machine)

/-- The table and the slot that hold the entry of an address. -/
def walkMut (table : PageTable) (virt : Nat) (create : Bool) (machine : Machine) :
    Except MapError (Nat × Nat) × Machine :=
  match walkLoop create (tablePath virt) table.root machine with
  | (.ok last, machine) => (.ok (last, tableSlot virt), machine)
  | (.error error, machine) => (.error error, machine)

/-- A table without entries. -/
def newEmpty (machine : Machine) : Option (PageTable × Machine) :=
  machine.allocFrame.map fun served => (⟨served.1⟩, served.2.zeroFrame served.1)

/-- Mapping a page that is not mapped. -/
def mapPage (table : PageTable) (virt : Nat) (phys : BitVec 64) (flags : PageFlags)
    (machine : Machine) : Except MapError Unit × Machine :=
  match table.walkMut virt true machine with
  | (.ok (last, index), machine) =>
    if contains (machine.memory last index) PageFlags.present then (.error .alreadyMapped, machine)
    else (.ok (), machine.write last index (phys ||| flags))
  | (.error error, machine) => (.error error, machine)

/-- Reserving a page that is to be mapped on its first use. -/
def mapPageDemand (table : PageTable) (virt : Nat) (flags : PageFlags) (machine : Machine) :
    Except MapError Unit × Machine :=
  match table.walkMut virt true machine with
  | (.ok (last, index), machine) =>
    (.ok (), machine.write last index
      ((flags ||| PageFlags.softwareDemand) &&& ~~~PageFlags.present))
  | (.error error, machine) => (.error error, machine)

/-- Unmapping a page, whose physical address is returned. -/
def unmapPage (table : PageTable) (virt : Nat) (machine : Machine) :
    Except MapError (BitVec 64) × Machine :=
  match table.walkMut virt false machine with
  | (.ok (last, index), machine) =>
    let value := machine.memory last index
    if contains value PageFlags.present then (.ok (value &&& physMask), machine.write last index 0)
    else (.error .notMapped, machine)
  | (.error error, machine) => (.error error, machine)

/-- The flags of a page that has an entry. -/
def getFlags (table : PageTable) (virt : Nat) (machine : Machine) : Option PageFlags :=
  match (table.walkMut virt false machine).1 with
  | .ok (last, index) =>
    let value := machine.memory last index
    if value = 0 then none else some (PageFlags.fromBitsTruncate value)
  | .error _ => none

/-- Changing the flags of a page that has an entry. -/
def setFlags (table : PageTable) (virt : Nat) (flags : PageFlags) (machine : Machine) :
    Except MapError Unit × Machine :=
  match table.walkMut virt false machine with
  | (.ok (last, index), machine) =>
    let value := machine.memory last index
    if value = 0 then (.error .notMapped, machine)
    else (.ok (), machine.write last index ((value &&& physMask) ||| flags))
  | (.error error, machine) => (.error error, machine)

/-- The physical address and the flags of a page that is present. -/
def resolve (table : PageTable) (virt : Nat) (machine : Machine) :
    Option (BitVec 64 × PageFlags) :=
  match (table.walkMut virt false machine).1 with
  | .ok (last, index) =>
    let value := machine.memory last index
    if contains value PageFlags.present then
      some (value &&& physMask, PageFlags.fromBitsTruncate value)
    else none
  | .error _ => none

end PageTable

end TheoryKernel.Mm
