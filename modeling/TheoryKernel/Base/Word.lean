import Mathlib.Algebra.Group.Nat.Defs
import Mathlib.Tactic.Common

/-! Arithmetic of 64-bit numbers, which wraps in the release build. -/

namespace TheoryKernel

/-- The largest 64-bit number. -/
def maxWord : Nat := 2 ^ 64 - 1

/-- Addition of 64-bit numbers. -/
def wrapAdd (first second : Nat) : Nat := (first + second) % 2 ^ 64

/-- Subtraction of 64-bit numbers. -/
def wrapSub (first second : Nat) : Nat := (first + 2 ^ 64 - second) % 2 ^ 64

/-- Sums that stay below the word size do not wrap. -/
theorem wrapAdd_eq {first second : Nat} (small : first + second < 2 ^ 64) :
    wrapAdd first second = first + second := Nat.mod_eq_of_lt small

/-- Differences of ordered numbers do not wrap. -/
theorem wrapSub_eq {first second : Nat} (ordered : second ≤ first) (small : first < 2 ^ 64) :
    wrapSub first second = first - second := by
  have shifted : first + 2 ^ 64 - second = first - second + 2 ^ 64 := by omega
  rw [wrapSub, shifted, Nat.add_mod_right]
  exact Nat.mod_eq_of_lt (by omega)

end TheoryKernel
