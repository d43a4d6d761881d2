import TheoryKernel.Mm.FaultGrants
import TheoryKernel.Mm.Reprotect

/-! The accesses that are served after a change of protection. -/

namespace TheoryKernel.Mm.Vm

open Machine Mm.Fault MprotectFlags

/-- The kinds of access. -/
inductive AccessKind where
  | read
  | write
  | exec
  deriving DecidableEq, Repr

namespace AccessKind

/-- Whether a request for a protection asks for a kind of access. -/
def asked (prot : MprotectFlags) : AccessKind → Bool
  | .read => contains prot MprotectFlags.read
  | .write => contains prot MprotectFlags.write
  | .exec => contains prot MprotectFlags.exec

/-- Whether an entry of a page table permits the user an access. -/
def permits (entry : BitVec 64) : AccessKind → Bool
  | .read => Fault.permits entry false true
  | .write => Fault.permits entry true true
  | .exec => Fault.permits entry false true && !contains entry PageFlags.noExecute

end AccessKind

section Flags

variable (prot : MprotectFlags)

variable {entry : BitVec 64}

end Flags

variable {space after : AddressSpace} {vma : Vma} {length virt : Nat} {prot : MprotectFlags}
  {machine changed : Machine} {roots : Set Nat} {areas : AreaTree}

/-- An address space with the page, which has a frame. -/
def backed : AddressSpace × Machine :=
  (onePage (ProtFlags.read ||| ProtFlags.user), (newSpace.1.pageTable.mapPage userAddrMin
    (physOf 4000) (PageFlags.fromProt (ProtFlags.read ||| ProtFlags.user) true) newSpace.2).2)

/-- An address space with a page of `onePage`, and a request for it. -/
def request (prot : MprotectFlags) : Except VmError Unit × AddressSpace × Machine :=
  mprotect (onePage (ProtFlags.read ||| ProtFlags.user)) userAddrMin pageSize prot newSpace.2

/-- An area that does not start at a page, the second of whose pages has been written. -/
def shifted : AddressSpace × Machine :=
  let space := { newSpace.1 with vma := (newSpace.1.vma.insert (area 0x20800
    (ProtFlags.read ||| ProtFlags.write ||| ProtFlags.user))).2 }
  (space, (resolveFault space 0x21000 true true newSpace.2).2)

end TheoryKernel.Mm.Vm
