import TheoryKernel.Lib.Stateful
import TheoryKernel.Mm.AddressSpace

/-! Requests of a program for mappings and for other protections. -/

namespace TheoryKernel.Mm

/-- The reasons for which a request is refused. -/
inductive VmError where
  | invalidArgs
  | noMemory
  | noSpace
  | notFound
  | accessDenied
  | exists
  deriving DecidableEq, Repr

/-- The address of a page of a range, by its position in the range. -/
def pageAddr (start index : Nat) : Nat := wrapAdd start (index * pageSize)

namespace Vm

/-- A new frame, or a failure. -/
def allocFrame {ε : Type} (error : ε) : Stateful Machine ε Nat := fun machine =>
  match machine.allocFrame with
  | some (frame, machine) => (.ok frame, machine)
  | none => (.error error, machine)

/-- Reserving the pages of an area. -/
def mapVmaDemand (table : PageTable) (vma : Vma) : Stateful Machine VmError Unit :=
  Stateful.forEach (fun index => Stateful.liftAs .noMemory
      (table.mapPageDemand (pageAddr vma.start index)
        (PageFlags.fromProt vma.prot true ||| PageFlags.softwareDemand)))
    (List.range vma.pageCount)

/-- Mapping the pages of an area at once, to frames that keep what they held. -/
def populateVma (table : PageTable) (vma : Vma) : Stateful Machine VmError Unit :=
  Stateful.forEach (fun index => do
      let frame ← allocFrame VmError.noMemory
      Stateful.liftAs .noMemory (table.mapPage (pageAddr vma.start index) (physOf frame)
        (PageFlags.fromProt vma.prot true)))
    (List.range vma.pageCount)

/-- The pages of a new area, reserved and, if that is asked for, mapped. -/
def mapVma (table : PageTable) (vma : Vma) : Stateful Machine VmError Unit := do
  mapVmaDemand table vma
  if contains vma.flags MmapFlags.populate then populateVma table vma else pure ()

/-- What a mapping with given options is for. -/
def mmapKind (flags : MmapFlags) : VmaKind :=
  if contains flags MmapFlags.stack then .stack
  else if contains flags MmapFlags.anonymous || !contains flags MmapFlags.shared then .anonymous
  else .mmap

/-- Where the search for a place starts. -/
def mmapHint (entropy : AslrEntropy) (addr : Nat) : Nat :=
  if addr = 0 then entropy.userMmapBase else addr

/-- Where a mapping is placed: at the given address, or at the first gap behind the hint. -/
def mmapTarget (areas : AreaTree) (entropy : AslrEntropy) (addr length : Nat)
    (flags : MmapFlags) : Exec (Except VmError Nat) :=
  if contains flags MmapFlags.fixed then
    if contains flags MmapFlags.fixedNoreplace && (areas.find addr).isSome then
      .ok (.error .exists)
    else .ok (.ok addr)
  else do
    match ← areas.tree.findGap (mmapHint entropy addr) length userMmapLimit with
    | some target => .ok (.ok target)
    | none => .ok (.error .noSpace)

/-- Adding an area at a place, with its pages. -/
def mmapAt (space : AddressSpace) (target length : Nat) (prot : ProtFlags) (flags : MmapFlags)
    (machine : Machine) : Except VmError Nat × AddressSpace × Machine :=
  if !isUserAddress target || userMmapLimit < wrapAdd target length then
    (.error .accessDenied, space, machine)
  else
    let vma := Vma.new target length prot flags (mmapKind flags)
    match space.vma.insert vma with
    | (.error .noSpace, _) => (.error .noSpace, space, machine)
    | (.error .notFound, _) => (.error .notFound, space, machine)
    | (.ok (), areas) =>
      -- The area stays if its pages cannot be mapped.
      let mapped := (mapVma space.pageTable vma).exec machine
      (mapped.1.map fun _ => target, { space with vma := areas }, mapped.2)

/-- A request for a mapping. -/
def mmap (space : AddressSpace) (entropy : AslrEntropy) (addr length : Nat) (prot : ProtFlags)
    (flags : MmapFlags) (machine : Machine) :
    Exec (Except VmError Nat × AddressSpace × Machine) :=
  if length = 0 then .ok (.error .invalidArgs, space, machine)
  else do
    match ← mmapTarget space.vma entropy addr (alignUp length pageSize) flags with
    | .ok target => .ok (mmapAt space target (alignUp length pageSize) prot flags machine)
    | .error error => .ok (.error error, space, machine)

/-- The protection that a request to change it names. -/
def protFlags (prot : MprotectFlags) : ProtFlags :=
  (if contains prot MprotectFlags.read then ProtFlags.read else 0) |||
    (if contains prot MprotectFlags.write then ProtFlags.write else 0) |||
    (if contains prot MprotectFlags.exec then ProtFlags.exec else 0)

/-- The flags of a page with another protection. -/
def reprotect (flags : PageFlags) (prot : ProtFlags) : PageFlags :=
  (flags &&& ~~~(PageFlags.writable ||| PageFlags.noExecute ||| PageFlags.user)) |||
    PageFlags.fromProt prot true

/-- Another protection for one page, if it is present. -/
def applyProtPage (table : PageTable) (prot : ProtFlags) (virt : Nat) (machine : Machine) :
    Machine :=
  match table.resolve virt machine with
  | some (_, flags) => (table.setFlags virt (reprotect flags prot) machine).2
  | none => machine

/-- Another protection for the present pages of a range. -/
def applyProt (table : PageTable) (start length : Nat) (prot : ProtFlags) (machine : Machine) :
    Machine :=
  (List.range (length / pageSize)).foldl
    (fun machine index => applyProtPage table prot (pageAddr start index) machine) machine

/-- A request to change the protection of an area. -/
def mprotect (space : AddressSpace) (addr length : Nat) (prot : MprotectFlags)
    (machine : Machine) : Except VmError Unit × AddressSpace × Machine :=
  if length = 0 then (.error .invalidArgs, space, machine)
  else
    let length := alignUp length pageSize
    match space.vma.updateProt addr length (protFlags prot) with
    | (.ok (), areas) =>
      (.ok (), { space with vma := areas },
        applyProt space.pageTable addr length (protFlags prot) machine)
    | (.error _, _) => (.error .notFound, space, machine)

end Vm

end TheoryKernel.Mm
