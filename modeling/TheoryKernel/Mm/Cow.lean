import TheoryKernel.Mm.Vm

/-! Pages that share their frame until one of them is written. -/

namespace TheoryKernel.Mm

namespace Cow

/-- Whether a page shares its frame until it is written. -/
def isCow (flags : PageFlags) : Bool := contains flags PageFlags.cow

/-- The flags of a page that no longer shares its frame. -/
def brokenFlags (flags : PageFlags) : PageFlags :=
  (flags &&& ~~~PageFlags.cow) ||| (PageFlags.writable ||| PageFlags.dirty)

/-- A copy of the frame of a page for the page alone. -/
def breakCow (table : PageTable) (virt : Nat) (flags : PageFlags) (machine : Machine) :
    Option Unit × Machine :=
  match table.resolve virt machine with
  | none => (none, machine)
  | some (phys, _) =>
    match machine.allocFrame with
    | none => (none, machine)
    | some (frame, allocated) =>
      -- A frame that cannot be mapped is not given back.
      let mapped := table.mapPage virt (physOf frame) (brokenFlags flags)
        (allocated.copyFrame (phys.toNat / pageSize) frame)
      (mapped.1.toOption, mapped.2)

end Cow

end TheoryKernel.Mm
