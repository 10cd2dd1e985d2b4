import Mathlib.Algebra.Group.Nat.Defs
import Mathlib.Data.BitVec
import Mathlib.Logic.Function.Basic

/-! # Reflected cyclic redundancy checks

The remainder of a bit sequence, least significant bit first, for a polynomial of any
width. One shift is linear in exclusive or, so shifting out the low bits of a register
takes what those bits alone would leave and the rest of the register moved down. That
is why a table of the low parts does for whole groups of bits.
-/

namespace Crc

variable {w : Nat} (poly : BitVec w)

/-- One bit out of the register. -/
def shift (c : BitVec w) : BitVec w := if c.getLsbD 0 then (c >>> 1) ^^^ poly else c >>> 1

def shifts : Nat → BitVec w → BitVec w
  | 0, c => c
  | n + 1, c => shift poly (shifts n c)

theorem shift_xor (a b : BitVec w) : shift poly (a ^^^ b) = shift poly a ^^^ shift poly b := by
  have hcancel (x y : BitVec w) : x ^^^ poly ^^^ (y ^^^ poly) = x ^^^ y := by
    rw [BitVec.xor_assoc, ← BitVec.xor_assoc poly, BitVec.xor_comm poly, BitVec.xor_assoc y,
      BitVec.xor_self, BitVec.xor_zero]
  unfold shift
  simp only [BitVec.getLsbD_xor, BitVec.ushiftRight_xor_distrib]
  cases a.getLsbD 0 <;> cases b.getLsbD 0
  · simp
  · simp [BitVec.xor_assoc]
  · simp only [Bool.xor_false, Bool.false_eq_true, if_true, if_false]
    ac_rfl
  · simp [hcancel]

theorem shifts_xor (n : Nat) (a b : BitVec w) :
    shifts poly n (a ^^^ b) = shifts poly n a ^^^ shifts poly n b := by
  induction n with
  | zero => rfl
  | succ n ih => simp only [shifts, ih, shift_xor]

/-- Bits that are clear shift out without a trace. -/
theorem shifts_of_clear {c : BitVec w} {n : Nat} (hclear : ∀ i < n, c.getLsbD i = false) :
    shifts poly n c = c >>> n := by
  induction n with
  | zero => simp [shifts]
  | succ n ih =>
      have hbit : (c >>> n).getLsbD 0 = false := by
        simpa using hclear n (Nat.lt_succ_self n)
      rw [shifts, ih fun i hi => hclear i (Nat.lt_succ_of_lt hi), shift, hbit]
      simp [BitVec.shiftRight_add]

/-- The low `n` bits alone. -/
def low (n : Nat) (c : BitVec w) : BitVec w := (c.setWidth n).setWidth w

@[simp] theorem getLsbD_low (n : Nat) (c : BitVec w) (i : Nat) :
    (low n c).getLsbD i = (decide (i < n) && c.getLsbD i) := by
  simp only [low, BitVec.getLsbD_setWidth]
  by_cases hi : i < w
  · simp [hi]
  · simp [BitVec.getLsbD_of_ge c i (by omega)]

/-- Shifting out the low bits: what they leave by themselves, and the rest moved down. -/
theorem shifts_eq_low (n : Nat) (c : BitVec w) :
    shifts poly n c = shifts poly n (low n c) ^^^ (c >>> n) := by
  have hclear : ∀ i < n, (low n c ^^^ c).getLsbD i = false := by
    intro i hi
    simp [hi]
  have hmoved : (low n c ^^^ c) >>> n = c >>> n := by
    apply BitVec.eq_of_getLsbD_eq
    intro i _
    simp [show ¬ n + i < n by omega]
  have hsplit : c = low n c ^^^ (low n c ^^^ c) := by
    rw [← BitVec.xor_assoc, BitVec.xor_self, BitVec.zero_xor]
  conv_lhs => rw [hsplit]
  rw [shifts_xor, shifts_of_clear poly hclear, hmoved]

/-- The polynomial's highest coefficient records the bit shifted out. -/
theorem shift_injective (hw : 0 < w) (hpoly : poly.getLsbD (w - 1) = true) :
    Function.Injective (shift poly) := by
  intro a b heq
  have htop (c : BitVec w) : (shift poly c).getLsbD (w - 1) = c.getLsbD 0 := by
    unfold shift
    cases c.getLsbD 0 <;> simp [hpoly, BitVec.getLsbD_of_ge c (1 + (w - 1)) (by omega)]
  have hlow : a.getLsbD 0 = b.getLsbD 0 := by rw [← htop a, ← htop b, heq]
  have hrest : a >>> 1 = b >>> 1 := by
    unfold shift at heq
    rw [hlow] at heq
    split at heq
    · exact (BitVec.xor_left_inj _).mp heq
    · exact heq
  apply BitVec.eq_of_getLsbD_eq
  intro i _
  cases i with
  | zero => exact hlow
  | succ i =>
      have hbit := congrArg (fun c => c.getLsbD i) hrest
      simpa [Nat.add_comm] using hbit

theorem shifts_injective (hw : 0 < w) (hpoly : poly.getLsbD (w - 1) = true) (n : Nat) :
    Function.Injective (shifts poly n) := by
  induction n with
  | zero => exact fun _ _ heq => heq
  | succ n ih => exact (shift_injective poly hw hpoly).comp ih

/-- One octet into the register, bit by bit. -/
def feed (c : BitVec w) (octet : BitVec 8) : BitVec w := shifts poly 8 (c ^^^ octet.setWidth w)

theorem feed_injective (hw : 0 < w) (hpoly : poly.getLsbD (w - 1) = true) (octet : BitVec 8) :
    Function.Injective (feed poly · octet) := fun _ _ heq =>
  BitVec.xor_left_inj _ |>.mp (shifts_injective poly hw hpoly 8 heq)

end Crc
