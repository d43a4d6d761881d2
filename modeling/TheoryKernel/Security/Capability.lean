import Mathlib.Tactic.Common

/-! Capabilities, and the identities under which a process acts. -/

namespace TheoryKernel

namespace Security

/-- A set of capabilities. -/
abbrev CapSet : Type := BitVec 64

namespace CapSet

def chown : CapSet := 0x1
def dacOverride : CapSet := 0x2
def kill : CapSet := 0x20
def netBindService : CapSet := 0x400
def sysPtrace : CapSet := 0x80000
def sysAdmin : CapSet := 0x200000
def sysBoot : CapSet := 0x400000

/-- Whether a set has all capabilities of another one. -/
def contains (caps other : CapSet) : Bool := caps &&& other == other

end CapSet

end Security

namespace Proc

open Security (CapSet)

/-- The identities under which a process acts, and its capabilities. -/
structure Credentials where
  uid : BitVec 32
  gid : BitVec 32
  euid : BitVec 32
  egid : BitVec 32
  permitted : CapSet
  effective : CapSet
  inheritable : CapSet
  deriving DecidableEq, Repr

namespace Credentials

/-- The capabilities of the superuser. -/
def rootCaps : CapSet :=
  CapSet.chown ||| CapSet.dacOverride ||| CapSet.kill ||| CapSet.netBindService |||
    CapSet.sysAdmin ||| CapSet.sysPtrace ||| CapSet.sysBoot

/-- The identities of the superuser. -/
def root : Credentials := ⟨0, 0, 0, 0, rootCaps, rootCaps, rootCaps⟩

/-- The identities of an ordinary user. -/
def user : Credentials := ⟨1000, 1000, 1000, 1000, 0, 0, 0⟩

/-- Whether a process may do what a capability stands for. -/
def capable (cred : Credentials) (cap : CapSet) : Bool :=
  cred.euid == 0 || CapSet.contains cred.effective cap

/-- The identities of a child, whose effective capabilities are those that are inherited. -/
def fork (cred : Credentials) : Credentials :=
  { cred with effective := cred.inheritable &&& cred.permitted }

/-- Whether a process may send a signal to another one. -/
def canSignal (cred target : Credentials) : Bool :=
  cred.capable CapSet.kill || cred.euid == target.euid || cred.euid == target.uid ||
    cred.uid == target.euid || cred.uid == target.uid

end Credentials

end Proc

end TheoryKernel
