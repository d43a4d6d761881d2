import TheoryKernel.Base.Exec
import TheoryKernel.Mm.Layout

/-! The list of the virtual memory areas of an address space. -/

namespace TheoryKernel.Mm

/-- What an area is for. -/
inductive VmaKind where
  | anonymous
  | file
  | stack
  | heap
  | mmap
  | framebuffer
  deriving DecidableEq, Repr

/-- An area of virtual memory: the addresses from its start up to, and without, its stop. -/
structure Vma where
  start : Nat
  stop : Nat
  prot : ProtFlags
  flags : MmapFlags
  kind : VmaKind
  fileOffset : Nat
  shared : Bool
  populated : Bool
  deriving DecidableEq, Repr

namespace Vma

/-- An area of a given length, whose stop may wrap. -/
def new (start length : Nat) (prot : ProtFlags) (flags : MmapFlags) (kind : VmaKind) : Vma where
  start
  stop := wrapAdd start length
  prot
  flags
  kind
  shared := Mm.contains flags MmapFlags.shared
  fileOffset := 0
  populated := Mm.contains flags MmapFlags.populate

/-- The length of an area. -/
def length (vma : Vma) : Nat := wrapSub vma.stop vma.start

/-- Whether an address lies in an area. -/
def contains (vma : Vma) (addr : Nat) : Bool := vma.start ≤ addr && addr < vma.stop

/-- The number of pages of an area. -/
def pageCount (vma : Vma) : Nat := alignUp vma.length pageSize / pageSize

end Vma

/-- The number of slots for areas. -/
def maxVmas : Nat := 256

/-- The reasons for which an operation on the areas is refused. -/
inductive VmaError where
  | noSpace
  | notFound
  deriving DecidableEq, Repr

/-- The slots for areas, and how many of them are in use. -/
structure VmaTree where
  entries : Nat → Option Vma
  len : Nat

namespace VmaTree

/-- No slot is in use. -/
def new : VmaTree := ⟨fun _ => none, 0⟩

/-- The areas in the used slots. -/
def iter (tree : VmaTree) : List Vma := (List.range tree.len).filterMap tree.entries

/-- Whether some area shares an address with a range. -/
def overlaps (tree : VmaTree) (start stop : Nat) : Bool :=
  tree.iter.any fun vma => start < vma.stop && vma.start < stop

/-- Reading a slot faults outside the array. -/
def slot (tree : VmaTree) (index : Nat) : Exec (Option Vma) :=
  if index < maxVmas then .ok (tree.entries index) else .error .indexOutOfBounds

/-- Reading a slot that must be in use. -/
def unwrapSlot (tree : VmaTree) (index : Nat) : Exec Vma := do
  match ← tree.slot index with
  | some vma => .ok vma
  | none => .error .assertionFailed

/-- Writing a slot faults outside the array. -/
def setSlot (tree : VmaTree) (index : Nat) (value : Option Vma) : Exec VmaTree :=
  if index < maxVmas then .ok { tree with entries := Function.update tree.entries index value }
  else .error .indexOutOfBounds

/-- Exchanging two slots faults outside the array. -/
def swap (tree : VmaTree) (first second : Nat) : Exec VmaTree := do
  let left ← tree.slot first
  let right ← tree.slot second
  (← tree.setSlot first right).setSlot second left

/-- The area in a slot moves down while the one before it starts later. -/
def sinkEntry : Nat → VmaTree → Exec VmaTree
  | 0, tree => .ok tree
  | position + 1, tree => do
    let left ← tree.unwrapSlot position
    let right ← tree.unwrapSlot (position + 1)
    if left.start ≤ right.start then .ok tree
    else sinkEntry position (← tree.swap position (position + 1))

/-- Sorting the used slots by the start of their areas. -/
def sortEntries (tree : VmaTree) : Exec VmaTree :=
  (List.range' 1 (tree.len - 1)).foldlM (fun tree index => sinkEntry index tree) tree

/-- Adding an area that shares no address with another one. -/
def insert (tree : VmaTree) (vma : Vma) : Exec (Except VmaError Unit × VmaTree) :=
  if maxVmas ≤ tree.len || tree.overlaps vma.start vma.stop then .ok (.error .noSpace, tree)
  else do
    let added ← tree.setSlot tree.len (some vma)
    let sorted ← sortEntries { added with len := tree.len + 1 }
    .ok (.ok (), sorted)

/-- An area is copied to a slot, unless that is its own. -/
def moveEntry (tree : VmaTree) (out index : Nat) (vma : Vma) : Exec VmaTree :=
  if out = index then .ok tree else tree.setSlot out (some vma)

/-- The areas move down over the slots that are not in use. -/
def compactLoop : List Nat → Nat → VmaTree → Exec (Nat × VmaTree)
  | [], out, tree => .ok (out, tree)
  | index :: rest, out, tree => do
    match ← tree.slot index with
    | some vma => compactLoop rest (out + 1) (← tree.moveEntry out index vma)
    | none => compactLoop rest out tree

/-- Closing the gaps between the used slots, and clearing the slots behind them. -/
def compact (tree : VmaTree) : Exec VmaTree := do
  let (out, moved) ← compactLoop (List.range tree.len) 0 tree
  if out ≤ tree.len ∧ tree.len ≤ maxVmas then
    .ok ⟨fun index => if out ≤ index ∧ index < tree.len then none else moved.entries index, out⟩
  else .error .sliceOutOfRange

/-- The search of a removal through the slots. -/
def removeLoop (tree : VmaTree) (start stop : Nat) :
    List Nat → Exec (Except VmaError Vma × VmaTree)
  | [] => .ok (.error .notFound, tree)
  | index :: rest => do
    match ← tree.slot index with
    | some vma =>
      if vma.start = start ∧ vma.stop = stop then
        let cleared ← tree.setSlot index none
        .ok (.ok vma, ← cleared.compact)
      else removeLoop tree start stop rest
    | none => removeLoop tree start stop rest

/-- Removing the area with exactly the given range. -/
def remove (tree : VmaTree) (start length : Nat) : Exec (Except VmaError Vma × VmaTree) :=
  tree.removeLoop start (wrapAdd start length) (List.range tree.len)

/-- The area that contains an address. -/
def find (tree : VmaTree) (addr : Nat) : Option Vma := tree.iter.find? fun vma => vma.contains addr

/-- The search for a free range, page by page; the budget stands for running forever. -/
def findGapLoop (tree : VmaTree) (length limit : Nat) : Nat → Nat → Exec (Option Nat)
  | 0, _ => .error .diverged
  | budget + 1, cursor =>
    if wrapAdd cursor length ≤ limit then
      if tree.overlaps cursor (wrapAdd cursor length) then
        findGapLoop tree length limit budget (alignUp (wrapAdd cursor 1) pageSize)
      else .ok (some cursor)
    else .ok none

/-- The number of rounds after which the search has seen every page. -/
def findGapBudget : Nat := 2 ^ 53

/-- The lowest free range of a given length at or above a hint. -/
def findGap (tree : VmaTree) (hint length limit : Nat) : Exec (Option Nat) :=
  tree.findGapLoop length limit findGapBudget hint

/-- The search of a change of protection through the slots. -/
def updateProtLoop (tree : VmaTree) (start stop : Nat) (prot : ProtFlags) :
    List Nat → Except VmaError Unit × VmaTree
  | [] => (.error .notFound, tree)
  | index :: rest =>
    match tree.entries index with
    | some vma =>
      if vma.start = start ∧ vma.stop = stop then
        (.ok (), { tree with
          entries := Function.update tree.entries index (some { vma with prot }) })
      else updateProtLoop tree start stop prot rest
    | none => updateProtLoop tree start stop prot rest

/-- Changing the protection of the area with exactly the given range. -/
def updateProt (tree : VmaTree) (start length : Nat) (prot : ProtFlags) :
    Except VmaError Unit × VmaTree :=
  tree.updateProtLoop start (wrapAdd start length) prot (List.range tree.len)

end VmaTree

end TheoryKernel.Mm
