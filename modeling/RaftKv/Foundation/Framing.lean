import Mathlib.Data.List.Basic
import Mathlib.Data.List.Infix

/-! # Self-delimiting frames

A file of frames written one after the other, read back from the start until
something does not parse. Whatever the place at which the file is cut, reading
returns the frames that are complete and the number of bytes they take.
-/

/-- A way to write values as frames and to read one back from the front of a byte
sequence. A frame that is cut short does not read as anything. -/
structure Framing (α : Type) where
  encode : α → List UInt8
  read : List UInt8 → Option (α × List UInt8)
  Fits : α → Prop
  read_encode : ∀ a rest, Fits a → read (encode a ++ rest) = some (a, rest)
  read_short : ∀ a data, Fits a → data <+: encode a → data.length < (encode a).length →
    read data = none
  encode_ne_nil : ∀ a, encode a ≠ []

namespace Framing

variable {α : Type} (f : Framing α)

def encodeAll (frames : List α) : List UInt8 := frames.flatMap f.encode

/-- Frames read from the front, with the bytes they take. The fuel bounds the number of
frames. -/
def scan (read : List UInt8 → Option (α × List UInt8)) : Nat → List UInt8 → List α × Nat
  | 0, _ => ([], 0)
  | fuel + 1, data =>
      match read data with
      | none => ([], 0)
      | some (a, rest) =>
          let (frames, size) := scan read fuel rest
          (a :: frames, data.length - rest.length + size)

/-- The frames that lie completely in the first `n` bytes. -/
def whole : List α → Nat → List α
  | [], _ => []
  | a :: rest, n =>
      if (f.encode a).length ≤ n then a :: whole rest (n - (f.encode a).length) else []

@[simp] theorem encodeAll_nil : f.encodeAll [] = [] := rfl

@[simp] theorem encodeAll_cons (a : α) (rest : List α) :
    f.encodeAll (a :: rest) = f.encode a ++ f.encodeAll rest := rfl

theorem whole_isPrefix (frames : List α) (n : Nat) : f.whole frames n <+: frames := by
  induction frames generalizing n with
  | nil => exact List.prefix_rfl
  | cons a rest ih =>
      unfold whole
      split
      · exact (List.prefix_cons_inj a).mpr (ih _)
      · exact List.nil_prefix

theorem length_whole_le (frames : List α) (n : Nat) :
    (f.encodeAll (f.whole frames n)).length ≤ n := by
  induction frames generalizing n with
  | nil => simp [whole]
  | cons a rest ih =>
      unfold whole
      split
      next hle =>
        have := ih (n - (f.encode a).length)
        simp only [encodeAll_cons, List.length_append]
        omega
      · simp

/-- No longer run of frames fits. -/
theorem whole_maximal {frames more : List α} {n : Nat} (hpre : more <+: frames)
    (hfits : (f.encodeAll more).length ≤ n) : more <+: f.whole frames n := by
  induction frames generalizing more n with
  | nil => exact hpre
  | cons a rest ih =>
      cases more with
      | nil => exact List.nil_prefix
      | cons b more =>
          obtain ⟨rfl, hrest⟩ := List.cons_prefix_cons.mp hpre
          simp only [encodeAll_cons, List.length_append] at hfits
          rw [whole, if_pos (by omega)]
          exact (List.prefix_cons_inj b).mpr (ih hrest (by omega))

theorem whole_append (frames more : List α) (n : Nat) :
    f.whole (frames ++ more) ((f.encodeAll frames).length + n) = frames ++ f.whole more n := by
  induction frames with
  | nil => simp
  | cons a rest ih =>
      simp only [List.cons_append, encodeAll_cons, List.length_append]
      rw [whole, if_pos (by omega), show (f.encode a).length + (f.encodeAll rest).length + n -
        (f.encode a).length = (f.encodeAll rest).length + n by omega, ih]

/-- A file cut after `n` bytes ends with a part of a frame. -/
theorem take_encodeAll (frames : List α) (n : Nat) :
    ∃ rest, (f.encodeAll frames).take n = f.encodeAll (f.whole frames n) ++ rest ∧
      (rest = [] ∨ ∃ a ∈ frames, rest <+: f.encode a ∧ rest.length < (f.encode a).length) := by
  induction frames generalizing n with
  | nil => exact ⟨[], by simp [whole], .inl rfl⟩
  | cons a frames ih =>
      unfold whole
      split
      next hle =>
        obtain ⟨rest, htake, hrest⟩ := ih (n - (f.encode a).length)
        refine ⟨rest, ?_, hrest.imp_right fun ⟨b, hb, hpart⟩ =>
          ⟨b, List.mem_cons_of_mem a hb, hpart⟩⟩
        rw [encodeAll_cons, List.take_append, List.take_of_length_le hle, htake, encodeAll_cons,
          List.append_assoc]
      next hgt =>
        refine ⟨(f.encode a).take n, ?_, .inr ⟨a, List.mem_cons_self, List.take_prefix n _, ?_⟩⟩
        · rw [encodeAll_cons, List.take_append_of_le_length (by omega), encodeAll_nil,
            List.nil_append]
        · rw [List.length_take]
          omega

/-- Reading a file cut after `n` bytes. -/
theorem scan_take {frames : List α} {n fuel : Nat} (hfits : ∀ a ∈ frames, f.Fits a)
    (hread : f.read [] = none) (hfuel : ((f.encodeAll frames).take n).length ≤ fuel) :
    scan f.read fuel ((f.encodeAll frames).take n) =
      (f.whole frames n, (f.encodeAll (f.whole frames n)).length) := by
  induction frames generalizing n fuel with
  | nil => cases fuel <;> simp [scan, whole, hread]
  | cons a rest ih =>
      have hfit := hfits a List.mem_cons_self
      have hne := List.length_pos_iff.mpr (f.encode_ne_nil a)
      unfold whole
      split
      next hle =>
        have htake : (f.encodeAll (a :: rest)).take n =
            f.encode a ++ (f.encodeAll rest).take (n - (f.encode a).length) := by
          rw [encodeAll_cons, List.take_append, List.take_of_length_le hle]
        rw [htake, List.length_append] at hfuel
        obtain ⟨fuel, rfl⟩ : ∃ k, fuel = k + 1 := ⟨fuel - 1, by omega⟩
        have hlen : ((f.encodeAll rest).take (n - (f.encode a).length)).length ≤ fuel := by omega
        have hrec := ih (fun b hb => hfits b (List.mem_cons_of_mem a hb)) hlen
        rw [htake, scan, f.read_encode a _ hfit]
        simp only [hrec, encodeAll_cons, List.length_append, Prod.mk.injEq, true_and]
        omega
      next hgt =>
        have htake : (f.encodeAll (a :: rest)).take n = (f.encode a).take n := by
          rw [encodeAll_cons, List.take_append_of_le_length (by omega)]
        have hshort : f.read ((f.encode a).take n) = none :=
          f.read_short a _ hfit (List.take_prefix n _) (by rw [List.length_take]; omega)
        cases fuel with
        | zero => simp [scan]
        | succ fuel =>
            rw [htake, scan, hshort]
            rfl

end Framing
