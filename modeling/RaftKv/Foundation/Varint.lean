import Mathlib.Data.List.Basic

/-! # Natural numbers as bytes

Base 128, least significant digit first, with the high bit marking that more
digits follow. A number is read back from the front of any byte sequence.
-/

namespace Varint

/-- Digits of `n`; the fuel never runs out when it is at least `n`. -/
def digits : Nat → Nat → List UInt8
  | 0, n => [.ofNat n]
  | fuel + 1, n =>
      if n < 128 then [.ofNat n] else .ofNat (n % 128 + 128) :: digits fuel (n / 128)

def encode (n : Nat) : List UInt8 := digits n n

def decode : List UInt8 → Option (Nat × List UInt8)
  | [] => none
  | b :: rest =>
      if b.toNat < 128 then some (b.toNat, rest)
      else (decode rest).map (fun (n, tail) => (b.toNat - 128 + 128 * n, tail))

theorem decode_digits (fuel n : Nat) (rest : List UInt8) (hfuel : n ≤ fuel) :
    decode (digits fuel n ++ rest) = some (n, rest) := by
  induction fuel generalizing n with
  | zero =>
      obtain rfl : n = 0 := by omega
      rfl
  | succ fuel ih =>
      unfold digits
      split
      next hsmall =>
        have hbyte : (UInt8.ofNat n).toNat = n := by
          rw [UInt8.toNat_ofNat']
          omega
        simp [decode, hbyte, hsmall]
      next hlarge =>
        have hbyte : (UInt8.ofNat (n % 128 + 128)).toNat = n % 128 + 128 := by
          rw [UInt8.toNat_ofNat']
          omega
        rw [List.cons_append, decode, hbyte, if_neg (by omega), ih (n / 128) (by omega)]
        simp only [Option.map_some, Option.some.injEq, Prod.mk.injEq, and_true]
        omega

theorem decode_encode (n : Nat) (rest : List UInt8) : decode (encode n ++ rest) = some (n, rest) :=
  decode_digits n n rest (Nat.le_refl n)

end Varint
