import Mathlib.Data.List.GetD
import Mathlib.Tactic.Common

/-! The filter that decides which system calls a process may make. -/

namespace TheoryKernel.Security

/-- The number of a system call. -/
abbrev Nr : Type := BitVec 64

namespace Nr

def read : Nr := 0
def write : Nr := 1
def rtSigreturn : Nr := 15
def clone : Nr := 56
def fork : Nr := 57
def exit : Nr := 60
def prctl : Nr := 157

end Nr

/-- The mode in which every call is allowed. -/
def seccompModeDisabled : BitVec 32 := 0

/-- The mode with a fixed set of calls. -/
def seccompModeStrict : BitVec 32 := 1

/-- The mode with a list of calls. -/
def seccompModeFilter : BitVec 32 := 2

/-- The number of calls that a list has room for. -/
def allowlistSize : Nat := 64

/-- The mode of a process, and its list of calls. -/
structure SeccompFilter where
  mode : BitVec 32
  allowed : Nat → Nr
  allowedCount : Nat

namespace SeccompFilter

/-- Changing to the mode with a fixed set of calls. -/
def setStrict (filter : SeccompFilter) : SeccompFilter :=
  { filter with mode := seccompModeStrict, allowedCount := 0 }

/-- Changing to the mode with a list of calls, unless the list is too long. -/
def setFilter (filter : SeccompFilter) (syscalls : List Nr) : Option SeccompFilter :=
  if allowlistSize < syscalls.length then none
  else some
    { mode := seccompModeFilter
      allowed := fun index => syscalls.getD index (filter.allowed index)
      allowedCount := syscalls.length }

/-- Whether a filter lets a call pass. -/
def allows (filter : SeccompFilter) (nr : Nr) : Bool :=
  if filter.mode = seccompModeDisabled then true
  else if filter.mode = seccompModeStrict then
    nr == Nr.read || nr == Nr.write || nr == Nr.exit || nr == Nr.rtSigreturn
  else if filter.mode = seccompModeFilter then
    (List.range filter.allowedCount).any fun index => filter.allowed index == nr
  else false

/-- The calls that remain to a process that gives up the others. -/
def remaining : List Nr := [Nr.read, Nr.write, Nr.exit, Nr.rtSigreturn]

/-- A filter that lets no other call pass than the remaining ones. -/
structure Restricted (filter : SeccompFilter) : Prop where
  mode : filter.mode ≠ seccompModeDisabled
  calls : ∀ nr, filter.allows nr = true → nr ∈ remaining

/-- The strict mode leaves the remaining calls. -/
theorem restricted_setStrict (filter : SeccompFilter) : filter.setStrict.Restricted := by
  have strict : filter.setStrict.mode = seccompModeStrict := rfl
  have active : seccompModeStrict ≠ seccompModeDisabled := by decide
  refine ⟨by rwa [strict], ?_⟩
  intro nr passes
  rw [allows, strict, if_neg active, if_pos rfl] at passes
  simpa [remaining, or_assoc] using passes

/-- A list of remaining calls leaves those. -/
theorem restricted_setFilter {filter changed : SeccompFilter} {syscalls : List Nr}
    (listed : ∀ nr ∈ syscalls, nr ∈ remaining) (set : filter.setFilter syscalls = some changed) :
    changed.Restricted := by
  unfold setFilter at set
  split at set
  · cases set
  · cases set
    have active : seccompModeFilter ≠ seccompModeDisabled := by decide
    have other : seccompModeFilter ≠ seccompModeStrict := by decide
    refine ⟨active, ?_⟩
    intro nr passes
    rw [allows, if_neg active, if_neg other, if_pos rfl, List.any_eq_true] at passes
    obtain ⟨index, inRange, same⟩ := passes
    -- The list is as long as the count, so the array is not read behind it.
    have short : index < syscalls.length := List.mem_range.mp inRange
    have value : syscalls.getD index (filter.allowed index) = nr := beq_iff_eq.mp same
    rw [List.getD_eq_getElem _ _ short] at value
    exact listed nr (value ▸ List.getElem_mem short)

end SeccompFilter

end TheoryKernel.Security
