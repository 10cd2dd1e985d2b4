import Mathlib.Data.List.Basic
import Mathlib.Data.List.Nodup

/-! # Finite tables

A map from numbers to values with finitely many keys, kept as a list without
repeated keys. The order of the list carries no meaning.
-/

/-- A finite map whose keys are distinct by construction. -/
structure Table (α : Type) where
  entries : List (Nat × α)
  nodup : (entries.map Prod.fst).Nodup

namespace Table

variable {α : Type}

instance [DecidableEq α] : DecidableEq (Table α) := fun a b =>
  decidable_of_iff (a.entries = b.entries) (by
    cases a
    cases b
    simp)

instance [Repr α] : Repr (Table α) := ⟨fun t n => reprPrec t.entries n⟩

def empty : Table α := ⟨[], List.nodup_nil⟩

def get? (t : Table α) (key : Nat) : Option α := t.entries.lookup key

def erase (t : Table α) (key : Nat) : Table α where
  entries := t.entries.filter (fun entry => entry.1 != key)
  nodup := t.nodup.sublist (List.filter_sublist.map _)

def insert (t : Table α) (key : Nat) (value : α) : Table α where
  entries := (key, value) :: (t.erase key).entries
  nodup := by
    simp only [List.map_cons, List.nodup_cons]
    refine ⟨?_, (t.erase key).nodup⟩
    simp [erase]

/-- Number of keys whose value satisfies `pred`. -/
def count (t : Table α) (pred : α → Bool) : Nat :=
  t.entries.countP (fun entry => pred entry.2)

def keys (t : Table α) : List Nat := t.entries.map Prod.fst

def values (t : Table α) : List α := t.entries.map Prod.snd

/-- Keeps the keys whose value satisfies `pred`. -/
def filter (t : Table α) (pred : α → Bool) : Table α where
  entries := t.entries.filter (fun entry => pred entry.2)
  nodup := t.nodup.sublist (List.filter_sublist.map _)

@[simp] theorem get?_empty (key : Nat) : (empty : Table α).get? key = none := rfl

theorem mem_entries_iff (t : Table α) (key : Nat) (value : α) :
    (key, value) ∈ t.entries ↔ t.get? key = some value := by
  obtain ⟨entries, hnodup⟩ := t
  simp only [get?]
  induction entries with
  | nil => simp
  | cons entry rest ih =>
      obtain ⟨k, v⟩ := entry
      simp only [List.map_cons, List.nodup_cons] at hnodup
      have hrest := ih hnodup.2
      by_cases hk : key = k
      · subst k
        have habsent : (key, value) ∉ rest := fun h =>
          hnodup.1 (List.mem_map.mpr ⟨_, h, rfl⟩)
        simp [habsent, eq_comm]
      · have hbeq : (key == k) = false := by simpa using hk
        simp [List.lookup_cons, hbeq, hk, hrest]

theorem get?_insert (t : Table α) (key other : Nat) (value : α) :
    (t.insert key value).get? other = if other = key then some value else t.get? other := by
  by_cases hother : other = key
  · subst other
    simp [insert, get?]
  · have hbeq : (other == key) = false := by simpa using hother
    simp only [insert, get?, erase, List.lookup_cons, hbeq, hother, if_false]
    induction t.entries with
    | nil => rfl
    | cons entry rest ih =>
        obtain ⟨k, v⟩ := entry
        by_cases hk : k = key
        · subst k
          simp [ih, List.lookup_cons, hbeq]
        · simp only [List.filter_cons, bne_iff_ne, ne_eq, hk, not_false_eq_true, if_true,
            List.lookup_cons, ih]

theorem get?_foldl_insert (keys : List Nat) (t : Table α) (value : α) (key : Nat) :
    (keys.foldl (fun t key => t.insert key value) t).get? key =
      if key ∈ keys then some value else t.get? key := by
  induction keys generalizing t with
  | nil => simp
  | cons first rest ih =>
      rw [List.foldl_cons, ih, get?_insert]
      by_cases hrest : key ∈ rest <;> by_cases hfirst : key = first <;> simp [hrest, hfirst]

theorem get?_erase (t : Table α) (key other : Nat) :
    (t.erase key).get? other = if other = key then none else t.get? other := by
  simp only [erase, get?]
  induction t.entries with
  | nil => simp
  | cons entry rest ih =>
      obtain ⟨k, v⟩ := entry
      by_cases hk : k = key
      · subst k
        by_cases hother : other = key
        · simpa [hother] using ih
        · have hbeq : (other == key) = false := by simpa using hother
          simpa [List.lookup_cons, hbeq, hother] using ih
      · by_cases hother : other = key
        · subst other
          have hbeq : (key == k) = false := by simpa using Ne.symm hk
          simpa [List.filter_cons, hk, List.lookup_cons, hbeq] using ih
        · simp only [List.filter_cons, bne_iff_ne, ne_eq, hk, not_false_eq_true, if_true,
            List.lookup_cons, ih, hother, if_false]

/-- A positive count names a key. -/
theorem exists_of_count_pos {t : Table α} {pred : α → Bool} (hcount : 0 < t.count pred) :
    ∃ key value, t.get? key = some value ∧ pred value = true := by
  obtain ⟨⟨key, value⟩, hmem, hpred⟩ := List.countP_pos_iff.mp hcount
  exact ⟨key, value, (t.mem_entries_iff key value).mp hmem, hpred⟩

/-- A count of two or more names two different keys. -/
theorem exists_two_of_count {t : Table α} {pred : α → Bool} (hcount : 1 < t.count pred) :
    ∃ a b x y, a ≠ b ∧ t.get? a = some x ∧ pred x = true ∧ t.get? b = some y ∧
      pred y = true := by
  have hnodup : ((t.entries.filter (fun entry => pred entry.2)).map Prod.fst).Nodup :=
    t.nodup.sublist (List.filter_sublist.map _)
  have hlength : 1 < (t.entries.filter (fun entry => pred entry.2)).length := by
    rwa [← List.countP_eq_length_filter]
  rcases hfilter : t.entries.filter (fun entry => pred entry.2) with
    _ | ⟨⟨a, x⟩, _ | ⟨⟨b, y⟩, rest⟩⟩
  · simp [hfilter] at hlength
  · simp [hfilter] at hlength
  · have hmem : ∀ entry ∈ (a, x) :: (b, y) :: rest,
        t.get? entry.1 = some entry.2 ∧ pred entry.2 = true := by
      intro entry hentry
      rw [← hfilter, List.mem_filter] at hentry
      exact ⟨(t.mem_entries_iff entry.1 entry.2).mp hentry.1, hentry.2⟩
    have ha := hmem (a, x) (by simp)
    have hb := hmem (b, y) (by simp)
    have hne : a ≠ b := by
      rw [hfilter] at hnodup
      simp only [List.map_cons, List.nodup_cons, List.mem_cons] at hnodup
      exact fun h => hnodup.1 (Or.inl h)
    exact ⟨a, b, x, y, hne, ha.1, ha.2, hb.1, hb.2⟩

end Table
