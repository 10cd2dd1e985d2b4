import Mathlib.Data.List.Basic

/-! # Sequences whose elements give way to their successors

A sequence from which elements are missing, each of them because the very next one of the
original sequence stands for both.
-/

/-- The second list is the first without some elements; next to each of these stands one
that `replaces` it. -/
inductive Coalesced {α : Type} (replaces : α → α → Prop) : List α → List α → Prop
  | nil : Coalesced replaces [] []
  | keep (a : α) {all left : List α} (hrest : Coalesced replaces all left) :
      Coalesced replaces (a :: all) (a :: left)
  | drop (a b : α) {all left : List α} (hnext : replaces a b)
      (hrest : Coalesced replaces (b :: all) left) : Coalesced replaces (a :: b :: all) left

namespace Coalesced

variable {α : Type} {replaces : α → α → Prop} {all left more : List α}

theorem refl (all : List α) : Coalesced replaces all all := by
  induction all with
  | nil => exact .nil
  | cons a all ih => exact .keep a ih

/-- What comes later is kept. -/
theorem append (h : Coalesced replaces all left) (more : List α) :
    Coalesced replaces (all ++ more) (left ++ more) := by
  induction h with
  | nil => exact refl more
  | keep a _ ih => exact .keep a ih
  | drop a b hnext _ ih => exact .drop a b hnext ih

/-- The last element never goes missing. -/
theorem eq_nil (h : Coalesced replaces all left) (hleft : left = []) : all = [] := by
  induction h with
  | nil => rfl
  | keep => cases hleft
  | drop a b _ _ ih => exact absurd (ih hleft) (List.cons_ne_nil _ _)

/-- The last element gives way to a new one. -/
theorem replace_last {a b : α} (h : Coalesced replaces all (left ++ [a])) (hnext : replaces a b) :
    Coalesced replaces (all ++ [b]) (left ++ [b]) := by
  generalize hwhole : left ++ [a] = whole at h
  induction h generalizing left with
  | nil => simp at hwhole
  | @keep first all kept hrest ih =>
      cases left with
      | nil =>
          obtain ⟨rfl, rfl⟩ := List.cons.inj hwhole
          obtain rfl := hrest.eq_nil rfl
          exact .drop a b hnext (.keep b .nil)
      | cons other left =>
          obtain ⟨rfl, htail⟩ := List.cons.inj hwhole
          exact .keep other (ih htail)
  | drop first second hpair _ ih => exact .drop first second hpair (ih hwhole)

end Coalesced

/-! ## Giving way wherever possible -/

section Fold

variable {α : Type} (replaces : α → α → Prop) [DecidableRel replaces]

/-- A new element takes the place of the last one if it replaces it. -/
def absorb (left : List α) (b : α) : List α :=
  if left.getLast?.any (fun a => replaces a b) then left.dropLast ++ [b] else left ++ [b]

/-- What is left when every element that can gives way. -/
def coalesce (all : List α) : List α := all.foldl (absorb replaces) []

theorem coalesce_concat (all : List α) (b : α) :
    coalesce replaces (all ++ [b]) = absorb replaces (coalesce replaces all) b := by
  rw [coalesce, List.foldl_append]
  rfl

@[simp] theorem getLast?_absorb (left : List α) (b : α) :
    (absorb replaces left b).getLast? = some b := by
  unfold absorb
  split <;> simp

theorem length_absorb_of_replaces {left : List α} {a b : α} (hlast : left.getLast? = some a)
    (hreplaces : replaces a b) : (absorb replaces left b).length = left.length := by
  have hne : left ≠ [] := by
    rintro rfl
    cases hlast
  rw [absorb, if_pos (by simpa [hlast] using hreplaces), List.length_append, List.length_dropLast,
    List.length_singleton, Nat.sub_add_cancel (List.length_pos_iff.mpr hne)]

theorem length_absorb (left : List α) (b : α) :
    left.length ≤ (absorb replaces left b).length ∧
      (absorb replaces left b).length ≤ left.length + 1 := by
  unfold absorb
  split <;> simp only [List.length_append, List.length_dropLast, List.length_singleton] <;> omega

theorem length_coalesce_append (all more : List α) :
    (coalesce replaces all).length ≤ (coalesce replaces (all ++ more)).length := by
  induction more generalizing all with
  | nil => exact Nat.le_of_eq (by rw [List.append_nil])
  | cons b more ih =>
      have hgrows := ih (all ++ [b])
      rw [List.append_assoc, List.singleton_append, coalesce_concat] at hgrows
      exact Nat.le_trans (length_absorb replaces _ b).1 hgrows

end Fold
