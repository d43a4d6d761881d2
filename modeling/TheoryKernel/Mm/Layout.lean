import TheoryKernel.Base.Word

/-! The layout of virtual memory, and the flag words of mappings. -/

namespace TheoryKernel.Mm

/-- The size of a page. -/
def pageSize : Nat := 4096

/-- The lowest address of user space. -/
def userAddrMin : Nat := 0x10000

/-- The highest address of user space. -/
def userAddrMax : Nat := 0x7FFFFFFFFFFF

/-- The base of the mapping area, before randomisation. -/
def userMmapBase : Nat := 0x200000000000

/-- The end of the mapping area. -/
def userMmapLimit : Nat := 0x600000000000

/-- Whether an address lies in user space. -/
def isUserAddress (addr : Nat) : Bool := userAddrMin ≤ addr && addr ≤ userAddrMax

/-- Rounding an address down to a multiple of a power of two, which clears its low bits. -/
def alignDown (addr align : Nat) : Nat := addr / align * align

/-- Rounding an address up to a multiple of a power of two, with a sum that may wrap. -/
def alignUp (addr align : Nat) : Nat := alignDown (wrapAdd addr (align - 1)) align

/-- The granularity of the random slide of the mapping area. -/
def mmapAlign : Nat := 2 * 1024 * 1024

/-- The random slides chosen at boot: a slide is a multiple of its granularity. -/
structure AslrEntropy where
  mmapUnits : Fin 512

/-- The base of the mapping area after randomisation. -/
def AslrEntropy.userMmapBase (entropy : AslrEntropy) : Nat :=
  Mm.userMmapBase + entropy.mmapUnits * mmapAlign

/-- The base of the mapping area is page aligned. -/
theorem AslrEntropy.userMmapBase_aligned (entropy : AslrEntropy) :
    entropy.userMmapBase % pageSize = 0 := by
  rw [AslrEntropy.userMmapBase, Mm.userMmapBase, mmapAlign, pageSize]
  omega

/-- The protection of a mapping. -/
abbrev ProtFlags : Type := BitVec 32

namespace ProtFlags

def read : ProtFlags := 1
def write : ProtFlags := 2
def exec : ProtFlags := 4
def user : ProtFlags := 8

end ProtFlags

/-- The options of a request for a mapping. -/
abbrev MmapFlags : Type := BitVec 32

namespace MmapFlags

def shared : MmapFlags := 1
def private_ : MmapFlags := 2
def anonymous : MmapFlags := 4
def fixed : MmapFlags := 8
def fixedNoreplace : MmapFlags := 16
def populate : MmapFlags := 32
def stack : MmapFlags := 128

end MmapFlags

/-- The options of a request to change a protection. -/
abbrev MprotectFlags : Type := BitVec 32

namespace MprotectFlags

def read : MprotectFlags := 1
def write : MprotectFlags := 2
def exec : MprotectFlags := 4

end MprotectFlags

/-- Whether a flag word contains all flags of another one. -/
def contains {width : Nat} (flags other : BitVec width) : Bool := flags &&& other == other

end TheoryKernel.Mm
