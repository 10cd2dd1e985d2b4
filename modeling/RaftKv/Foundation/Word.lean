import Mathlib.Algebra.Group.Nat.Defs
import Mathlib.Data.Nat.Basic

/-! # Unsigned 64-bit arithmetic on natural numbers

Counters are natural numbers; where the program's own arithmetic can leave the
range of a machine word, the model reduces the result explicitly.
-/

/-- Reduction to an unsigned 64-bit word. -/
def wrap64 (n : Nat) : Nat := n % 2 ^ 64

/-- Subtraction of unsigned 64-bit words. -/
def sub64 (a b : Nat) : Nat := wrap64 (a + (2 ^ 64 - b % 2 ^ 64))

theorem wrap64_of_lt {n : Nat} (hn : n < 2 ^ 64) : wrap64 n = n := Nat.mod_eq_of_lt hn

theorem wrap64_lt (n : Nat) : wrap64 n < 2 ^ 64 := Nat.mod_lt _ (by decide)

theorem wrap64_le (n : Nat) : wrap64 n ≤ n := Nat.mod_le _ _

theorem sub64_of_le {a b : Nat} (hab : b ≤ a) (ha : a < 2 ^ 64) : sub64 a b = a - b := by
  unfold sub64 wrap64
  omega
