import Mathlib.Data.List.Basic

/-! # Readers that leave the rest alone

A reader takes a value off the front of a sequence and returns what is left. It is
steady when symbols added at the end are left over and change nothing else. A steady
reader that uses up a sequence rejects every proper part of it. Texts that a reader reads
back, whatever follows them, are told apart in any concatenation.
-/

/-- Reads a value from the front; none when there is none. -/
abbrev Reader (σ α : Type) := List σ → Option (α × List σ)

namespace Reader

variable {σ α β : Type}

def Steady (read : Reader σ α) : Prop :=
  ∀ (data : List σ) (a : α) (rest more : List σ), read data = some (a, rest) →
    read (data ++ more) = some (a, rest ++ more)

theorem steady_some (a : α) : Steady (σ := σ) fun data => some (a, data) := by
  intro data b rest more hread
  obtain ⟨rfl, rfl⟩ := Prod.mk.inj (Option.some.inj hread)
  rfl

theorem steady_none : Steady (σ := σ) (α := α) fun _ => none := by
  intro data a rest more hread
  cases hread

theorem Steady.bind {read : Reader σ α} {next : α → Reader σ β} (hread : Steady read)
    (hnext : ∀ a, Steady (next a)) : Steady fun data => (read data).bind fun p => next p.1 p.2 := by
  intro data b rest more hrun
  obtain ⟨⟨a, mid⟩, hfirst, hsecond⟩ := Option.bind_eq_some_iff.mp hrun
  exact Option.bind_eq_some_iff.mpr
    ⟨_, hread data a mid more hfirst, hnext a mid b rest more hsecond⟩

theorem Steady.ite {condition : Prop} [Decidable condition] {read other : Reader σ α}
    (hread : Steady read) (hother : Steady other) :
    Steady fun data => if condition then read data else other data := by
  split
  · exact hread
  · exact hother

/-- A fixed number of symbols. -/
theorem steady_split (size : Nat) (make : List σ → α) :
    Steady fun data =>
      if data.length < size then none else some (make (data.take size), data.drop size) := by
  intro data a rest more hread
  dsimp only at hread ⊢
  split at hread
  · cases hread
  next hsize =>
    obtain ⟨rfl, rfl⟩ := Prod.mk.inj (Option.some.inj hread)
    have hle := Nat.not_lt.mp hsize
    rw [if_neg (by rw [List.length_append]; omega), List.take_append_of_le_length hle,
      List.drop_append_of_le_length hle]

/-- What a reader uses up, it does not read from a part. -/
theorem Steady.eq_none {read : Reader σ α} (hread : Steady read) {data part : List σ} {a : α}
    (hwhole : read data = some (a, [])) (hpart : part <+: data)
    (hshort : part.length < data.length) : read part = none := by
  obtain ⟨more, rfl⟩ := hpart
  rw [Option.eq_none_iff_forall_not_mem]
  rintro ⟨b, rest⟩ hsome
  rw [hread part b rest more hsome] at hwhole
  have hempty := (Prod.mk.inj (Option.some.inj hwhole)).2
  rw [(List.append_eq_nil_iff.mp hempty).2, List.append_nil] at hshort
  exact absurd hshort (Nat.lt_irrefl _)

/-! ## Texts that are read back -/

/-- A text of a value is read as this value, and what follows is left alone. -/
def ReadsBack (read : Reader σ α) (Text : α → List σ → Prop) : Prop :=
  ∀ a text rest, Text a text → read (text ++ rest) = some (a, rest)

variable {read : Reader σ α} {Text : α → List σ → Prop}

/-- No text is a proper part of another, nor the text of two values. -/
theorem ReadsBack.eq_of_isPrefix (hread : ReadsBack read Text) {a b : α} {text other : List σ}
    (htext : Text a text) (hother : Text b other) (hpart : text <+: other) :
    a = b ∧ text = other := by
  obtain ⟨rest, rfl⟩ := hpart
  have hfirst := hread a text rest htext
  have hwhole := hread b _ [] hother
  rw [List.append_nil, hfirst] at hwhole
  obtain ⟨rfl, rfl⟩ := Prod.mk.inj (Option.some.inj hwhole)
  exact ⟨rfl, (List.append_nil text).symm⟩

/-- A number of values, one after the other. -/
def many (read : Reader σ α) : Nat → Reader σ (List α)
  | 0, data => some ([], data)
  | count + 1, data => do
      let (a, rest) ← read data
      let (others, rest) ← many read count rest
      some (a :: others, rest)

theorem ReadsBack.many (hread : ReadsBack read Text) {values : List α} {texts : List (List σ)}
    (htexts : List.Forall₂ Text values texts) (rest : List σ) :
    Reader.many read values.length (texts.flatten ++ rest) = some (values, rest) := by
  induction htexts with
  | nil => rfl
  | cons htext _ ih =>
      rw [List.flatten_cons, List.append_assoc, List.length_cons, Reader.many,
        hread _ _ _ htext]
      simp only [Option.bind_eq_bind, Option.bind_some, ih]

/-- Equal concatenations are of equal values. -/
theorem ReadsBack.flatten_injective (hread : ReadsBack read Text)
    (hnonempty : ∀ a text, Text a text → text ≠ []) {values others : List α}
    {texts otherTexts : List (List σ)} (htexts : List.Forall₂ Text values texts)
    (hothers : List.Forall₂ Text others otherTexts) (heq : texts.flatten = otherTexts.flatten) :
    values = others := by
  induction htexts generalizing others otherTexts with
  | nil =>
      cases hothers with
      | nil => rfl
      | cons htext _ =>
          have hempty := (List.append_eq_nil_iff.mp heq.symm).1
          exact absurd hempty (hnonempty _ _ htext)
  | @cons a text values texts htext htexts ih =>
      cases hothers with
      | nil =>
          have hempty := (List.append_eq_nil_iff.mp heq).1
          exact absurd hempty (hnonempty _ _ htext)
      | cons hother hothers =>
          rw [List.flatten_cons, List.flatten_cons] at heq
          have hfirst := hread a text texts.flatten htext
          rw [heq, hread _ _ _ hother] at hfirst
          obtain ⟨rfl, hrest⟩ := Prod.mk.inj (Option.some.inj hfirst)
          rw [ih hothers hrest.symm]

end Reader
