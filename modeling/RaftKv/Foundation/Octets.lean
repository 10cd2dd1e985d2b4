import Mathlib.Tactic.Ring

/-! # Words as four octets

A 32-bit word cut into octets by shifts, the most significant one first, and put together
again by shifts and bitwise or: both are the digits of the word to base 256.
-/

namespace Octets

/-- The four octets of a word. -/
def split (x : UInt32) : List UInt8 :=
  [(x >>> 24).toUInt8, (x >>> 16).toUInt8, (x >>> 8).toUInt8, x.toUInt8]

/-- The word of four octets. -/
def join (a b c d : UInt8) : UInt32 :=
  a.toUInt32 <<< 24 ||| b.toUInt32 <<< 16 ||| c.toUInt32 <<< 8 ||| d.toUInt32

theorem toNat_shiftLeft (a : UInt8) {k : Nat} (hk : k ≤ 24) :
    a.toNat <<< k % 2 ^ 32 = a.toNat * 2 ^ k := by
  rw [Nat.shiftLeft_eq, Nat.mod_eq_of_lt]
  calc
    a.toNat * 2 ^ k < 2 ^ 8 * 2 ^ k :=
      (Nat.mul_lt_mul_right (Nat.two_pow_pos k)).mpr a.toNat_lt
    _ = 2 ^ (8 + k) := (Nat.pow_add 2 8 k).symm
    _ ≤ 2 ^ 32 := Nat.pow_le_pow_right (by decide) (by omega)

/-- Disjoint digits: the bitwise or is the sum. -/
theorem or_octet (x k : Nat) (b : UInt8) :
    x * 2 ^ (8 + k) ||| b.toNat * 2 ^ k = (x * 256 + b.toNat) * 2 ^ k := by
  have hlt : b.toNat * 2 ^ k < 2 ^ (8 + k) := by
    rw [Nat.pow_add]
    exact (Nat.mul_lt_mul_right (Nat.two_pow_pos k)).mpr b.toNat_lt
  have hsum := Nat.shiftLeft_add_eq_or_of_lt hlt x
  rw [Nat.shiftLeft_eq] at hsum
  rw [← hsum, Nat.pow_add]
  ring

theorem toNat_join (a b c d : UInt8) :
    (join a b c d).toNat = ((a.toNat * 256 + b.toNat) * 256 + c.toNat) * 256 + d.toNat := by
  have hab := or_octet a.toNat 16 b
  have hbc := or_octet (a.toNat * 256 + b.toNat) 8 c
  have hcd := or_octet ((a.toNat * 256 + b.toNat) * 256 + c.toNat) 0 d
  simp only [Nat.reduceAdd, Nat.pow_zero, Nat.mul_one] at hab hbc hcd
  simp only [join, UInt32.toNat_or, UInt32.toNat_shiftLeft, UInt8.toNat_toUInt32,
    UInt32.reduceToNat, Nat.reduceMod]
  rw [toNat_shiftLeft a (by decide), toNat_shiftLeft b (by decide), toNat_shiftLeft c (by decide),
    hab, hbc, hcd]

theorem toNat_octet (x : UInt32) {k : UInt32} (hk : k.toNat < 32) :
    (x >>> k).toUInt8.toNat = x.toNat / 2 ^ k.toNat % 256 := by
  rw [UInt32.toNat_toUInt8, UInt32.toNat_shiftRight, Nat.mod_eq_of_lt hk,
    Nat.shiftRight_eq_div_pow]

theorem split_join (a b c d : UInt8) : split (join a b c d) = [a, b, c, d] := by
  have hjoin := toNat_join a b c d
  have hb := b.toNat_lt
  have hc := c.toNat_lt
  have hd := d.toNat_lt
  have ha := a.toNat_lt
  simp only [split, List.cons.injEq, ← UInt8.toNat_inj, and_true]
  refine ⟨?_, ?_, ?_, ?_⟩
  · rw [toNat_octet _ (by decide), hjoin]
    simp only [UInt32.reduceToNat]
    omega
  · rw [toNat_octet _ (by decide), hjoin]
    simp only [UInt32.reduceToNat]
    omega
  · rw [toNat_octet _ (by decide), hjoin]
    simp only [UInt32.reduceToNat]
    omega
  · rw [UInt32.toNat_toUInt8, hjoin]
    omega

theorem join_split (x : UInt32) :
    join (x >>> 24).toUInt8 (x >>> 16).toUInt8 (x >>> 8).toUInt8 x.toUInt8 = x := by
  have hx := x.toNat_lt
  rw [← UInt32.toNat_inj, toNat_join, toNat_octet _ (by decide), toNat_octet _ (by decide),
    toNat_octet _ (by decide), UInt32.toNat_toUInt8]
  simp only [UInt32.reduceToNat]
  omega

end Octets
