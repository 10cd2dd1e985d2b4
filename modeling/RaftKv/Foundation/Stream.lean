import Mathlib.Data.List.Basic

/-! # Scanning input that arrives in pieces

A scanner reads a value from the front of the input it has so far, asks for more
input or fails. It is stable when more input at the end changes nothing about a
value it has read or a failure it has reported. Reading values off the front until
more input is needed then does not depend on how the input was cut.
-/

/-- Outcome of a scan: more input is needed, the input is bad, or a value was read. -/
inductive Verdict (ε β : Type) where
  | more
  | fail (error : ε)
  | done (value : β)
  deriving DecidableEq, Repr

namespace Verdict

variable {ε β γ : Type}

def bind : Verdict ε β → (β → Verdict ε γ) → Verdict ε γ
  | more, _ => more
  | fail error, _ => fail error
  | done value, next => next value

instance : Monad (Verdict ε) where
  pure := done
  bind := bind

end Verdict

/-- A scanner over input symbols `α`, with the input that is left as its state. -/
abbrev Scanner (α ε : Type) := StateT (List α) (Verdict ε)

namespace Scanner

variable {α ε β γ : Type}

def failure (error : ε) : Scanner α ε β := fun _ => .fail error

/-- More input changes neither a value that was read nor a failure. -/
def Stable (scan : Scanner α ε β) : Prop :=
  (∀ input more error, scan.run input = .fail error → scan.run (input ++ more) = .fail error) ∧
    ∀ input more value rest, scan.run input = .done (value, rest) →
      scan.run (input ++ more) = .done (value, rest ++ more)

/-- What is left is never more than there was. -/
def Shrinks (scan : Scanner α ε β) : Prop :=
  ∀ input value rest, scan.run input = .done (value, rest) → rest <:+ input

theorem run_bind_done {scan : Scanner α ε β} {next : β → Scanner α ε γ} {input rest : List α}
    {value : γ} (hrun : (scan >>= next).run input = .done (value, rest)) :
    ∃ b mid, scan.run input = .done (b, mid) ∧ (next b).run mid = .done (value, rest) := by
  change Verdict.bind (scan.run input) (fun p => (next p.1).run p.2) = _ at hrun
  cases hscan : scan.run input with
  | more =>
      rw [hscan] at hrun
      cases hrun
  | fail error =>
      rw [hscan] at hrun
      cases hrun
  | done p =>
      rw [hscan] at hrun
      exact ⟨p.1, p.2, rfl, hrun⟩

theorem run_bind_fail {scan : Scanner α ε β} {next : β → Scanner α ε γ} {input : List α}
    {error : ε} (hrun : (scan >>= next).run input = .fail error) :
    scan.run input = .fail error ∨
      ∃ b mid, scan.run input = .done (b, mid) ∧ (next b).run mid = .fail error := by
  change Verdict.bind (scan.run input) (fun p => (next p.1).run p.2) = _ at hrun
  cases hscan : scan.run input with
  | more =>
      rw [hscan] at hrun
      cases hrun
  | fail error' =>
      rw [hscan] at hrun
      cases hrun
      exact .inl rfl
  | done p =>
      rw [hscan] at hrun
      exact .inr ⟨p.1, p.2, rfl, hrun⟩

theorem run_bind_of_done {scan : Scanner α ε β} {next : β → Scanner α ε γ} {input mid : List α}
    {b : β} (hscan : scan.run input = .done (b, mid)) :
    (scan >>= next).run input = (next b).run mid := by
  change Verdict.bind (scan.run input) (fun p => (next p.1).run p.2) = _
  rw [hscan]
  rfl

theorem run_bind_of_fail {scan : Scanner α ε β} {next : β → Scanner α ε γ} {input : List α}
    {error : ε} (hscan : scan.run input = .fail error) :
    (scan >>= next).run input = .fail error := by
  change Verdict.bind (scan.run input) (fun p => (next p.1).run p.2) = _
  rw [hscan]
  rfl

/-! ## Rules -/

theorem stable_pure (value : β) : Stable (pure value : Scanner α ε β) := by
  refine ⟨fun input more error h => ?_, fun input more v rest h => ?_⟩
  · cases h
  · obtain ⟨rfl, rfl⟩ := Prod.mk.inj (Verdict.done.inj h)
    rfl

theorem stable_failure (error : ε) : Stable (failure error : Scanner α ε β) := by
  refine ⟨fun input more e h => h, fun input more v rest h => ?_⟩
  cases h

theorem Stable.bind {scan : Scanner α ε β} {next : β → Scanner α ε γ} (hscan : Stable scan)
    (hnext : ∀ b, Stable (next b)) : Stable (scan >>= next) := by
  refine ⟨fun input more error h => ?_, fun input more value rest h => ?_⟩
  · rcases run_bind_fail h with hfail | ⟨b, mid, hdone, hfail⟩
    · exact run_bind_of_fail (hscan.1 input more error hfail)
    · rw [run_bind_of_done (hscan.2 input more b mid hdone)]
      exact (hnext b).1 mid more error hfail
  · obtain ⟨b, mid, hdone, hrest⟩ := run_bind_done h
    rw [run_bind_of_done (hscan.2 input more b mid hdone)]
    exact (hnext b).2 mid more value rest hrest

theorem Stable.ite {condition : Prop} [Decidable condition] {scan other : Scanner α ε β}
    (hscan : Stable scan) (hother : Stable other) :
    Stable (if condition then scan else other) := by
  split
  · exact hscan
  · exact hother

theorem shrinks_pure (value : β) : Shrinks (pure value : Scanner α ε β) := by
  intro input v rest h
  obtain ⟨rfl, rfl⟩ := Prod.mk.inj (Verdict.done.inj h)
  exact List.suffix_rfl

theorem shrinks_failure (error : ε) : Shrinks (failure error : Scanner α ε β) := by
  intro input v rest h
  cases h

theorem Shrinks.bind {scan : Scanner α ε β} {next : β → Scanner α ε γ} (hscan : Shrinks scan)
    (hnext : ∀ b, Shrinks (next b)) : Shrinks (scan >>= next) := by
  intro input value rest h
  obtain ⟨b, mid, hdone, hrest⟩ := run_bind_done h
  exact (hnext b mid value rest hrest).trans (hscan input b mid hdone)

theorem Shrinks.ite {condition : Prop} [Decidable condition] {scan other : Scanner α ε β}
    (hscan : Shrinks scan) (hother : Shrinks other) :
    Shrinks (if condition then scan else other) := by
  split
  · exact hscan
  · exact hother

/-! ## What a scanner accepts -/

/-- The scanner reads a value exactly when the input starts with a text of the value, and
leaves the rest. -/
def Accepts (scan : Scanner α ε β) (text : β → List α → Prop) : Prop :=
  ∀ input value rest, scan.run input = .done (value, rest) ↔
    ∃ front, text value front ∧ input = front ++ rest

theorem accepts_pure (value : β) :
    Accepts (pure value : Scanner α ε β) fun b front => b = value ∧ front = [] := by
  intro input b rest
  constructor
  · intro hrun
    obtain ⟨rfl, rfl⟩ := Prod.mk.inj (Verdict.done.inj hrun)
    exact ⟨[], ⟨rfl, rfl⟩, rfl⟩
  · rintro ⟨_, ⟨rfl, rfl⟩, rfl⟩
    rfl

theorem accepts_failure (error : ε) :
    Accepts (failure error : Scanner α ε β) fun _ _ => False := by
  intro input b rest
  constructor
  · intro hrun
    cases hrun
  · rintro ⟨_, hfalse, _⟩
    exact hfalse.elim

theorem Accepts.bind {scan : Scanner α ε β} {next : β → Scanner α ε γ}
    {text : β → List α → Prop} {more : β → γ → List α → Prop} (hscan : Accepts scan text)
    (hnext : ∀ b, Accepts (next b) (more b)) :
    Accepts (scan >>= next) fun c front =>
      ∃ b first second, text b first ∧ more b c second ∧ front = first ++ second := by
  intro input c rest
  constructor
  · intro hrun
    obtain ⟨b, mid, hdone, hrest⟩ := run_bind_done hrun
    obtain ⟨first, hfirst, rfl⟩ := (hscan _ _ _).mp hdone
    obtain ⟨second, hsecond, rfl⟩ := (hnext b _ _ _).mp hrest
    exact ⟨_, ⟨b, first, second, hfirst, hsecond, rfl⟩, (List.append_assoc ..).symm⟩
  · rintro ⟨_, ⟨b, first, second, hfirst, hsecond, rfl⟩, rfl⟩
    rw [run_bind_of_done ((hscan _ b (second ++ rest)).mpr ⟨first, hfirst, List.append_assoc ..⟩)]
    exact (hnext b _ _ _).mpr ⟨second, hsecond, rfl⟩

theorem Accepts.ite {condition : Prop} [Decidable condition] {scan other : Scanner α ε β}
    {text different : β → List α → Prop} (hscan : Accepts scan text)
    (hother : Accepts other different) :
    Accepts (if condition then scan else other) fun b front =>
      (condition ∧ text b front) ∨ (¬ condition ∧ different b front) := by
  split
  next hcondition => simpa [Accepts, hcondition] using hscan
  next hcondition => simpa [Accepts, hcondition] using hother

theorem Accepts.congr {scan : Scanner α ε β} {text same : β → List α → Prop}
    (hscan : Accepts scan text) (hsame : ∀ b front, text b front ↔ same b front) :
    Accepts scan same := by
  intro input value rest
  simp only [hscan input value rest, hsame]

/-- A stable scanner asks for more as long as a text is not complete. -/
theorem Accepts.more {scan : Scanner α ε β} {text : β → List α → Prop} (hscan : Accepts scan text)
    (hstable : Stable scan) {input front : List α} {value : β} (htext : text value front)
    (hpart : input <+: front) (hne : input ≠ front) : scan.run input = .more := by
  obtain ⟨rest, rfl⟩ := hpart
  have hwhole := (hscan (input ++ rest) value []).mpr ⟨_, htext, (List.append_nil _).symm⟩
  cases hrun : scan.run input with
  | more => rfl
  | fail error =>
      rw [hstable.1 input rest error hrun] at hwhole
      cases hwhole
  | done p =>
      rw [hstable.2 input rest p.1 p.2 hrun] at hwhole
      have hempty := (Prod.mk.inj (Verdict.done.inj hwhole)).2
      rw [(List.append_eq_nil_iff.mp hempty).2, List.append_nil] at hne
      exact absurd rfl hne

/-- No text starts with what a stable scanner rejects. -/
theorem Accepts.rejects {scan : Scanner α ε β} {text : β → List α → Prop}
    (hscan : Accepts scan text) (hstable : Stable scan) {input front : List α} {error : ε}
    (hfail : scan.run input = .fail error) {value : β} (htext : text value front) (more : List α) :
    ¬ front <+: input ++ more := by
  rintro ⟨rest, heq⟩
  have hdone := (hscan (input ++ more) value rest).mpr ⟨front, htext, heq.symm⟩
  rw [hstable.1 input more error hfail] at hdone
  cases hdone

/-! ## Reading everything there is -/

/-- Values read off the front until the scanner asks for more, with the input that is left.
The fuel bounds the number of values. -/
def drainFuel (scan : Scanner α ε β) : Nat → List α → Except ε (List β × List α)
  | 0, input => .ok ([], input)
  | fuel + 1, input =>
      match scan.run input with
      | .more => .ok ([], input)
      | .fail error => .error error
      | .done (value, rest) =>
          (drainFuel scan fuel rest).map fun (values, left) => (value :: values, left)

/-- Every value takes at least one symbol, so one unit of fuel a symbol is enough. -/
def drain (scan : Scanner α ε β) (input : List α) : Except ε (List β × List α) :=
  drainFuel scan (input.length + 1) input

/-- A scanner that is stable and takes at least one symbol for each value. -/
structure Reads (scan : Scanner α ε β) : Prop where
  stable : Stable scan
  consumes : ∀ input value rest, scan.run input = .done (value, rest) →
    rest <:+ input ∧ rest.length < input.length

variable {scan : Scanner α ε β}

theorem drainFuel_eq (hreads : Reads scan) {input : List α} {fuel more : Nat}
    (hfuel : input.length < fuel) (hmore : input.length < more) :
    drainFuel scan fuel input = drainFuel scan more input := by
  induction fuel generalizing input more with
  | zero => omega
  | succ fuel ih =>
      obtain ⟨more, rfl⟩ : ∃ k, more = k + 1 := ⟨more - 1, by omega⟩
      simp only [drainFuel]
      cases hrun : scan.run input with
      | more => rfl
      | fail error => rfl
      | done p =>
          have hlt := (hreads.consumes input p.1 p.2 hrun).2
          have heq : drainFuel scan fuel p.2 = drainFuel scan more p.2 :=
            ih (by omega) (by omega)
          simp only [heq]

/-- The loop, one round at a time. -/
theorem drain_eq (hreads : Reads scan) (input : List α) :
    drain scan input =
      match scan.run input with
      | .more => .ok ([], input)
      | .fail error => .error error
      | .done (value, rest) =>
          (drain scan rest).map fun (values, left) => (value :: values, left) := by
  rw [drain, drainFuel]
  cases hrun : scan.run input with
  | more => rfl
  | fail error => rfl
  | done p =>
      have hlt := (hreads.consumes input p.1 p.2 hrun).2
      simp only [drain, drainFuel_eq hreads hlt (Nat.lt_succ_self _)]

/-- What is left over asks for more. -/
theorem drain_left (hreads : Reads scan) {input left : List α} {values : List β}
    (hdrain : drain scan input = .ok (values, left)) :
    scan.run left = .more ∧ left <:+ input := by
  induction hn : input.length using Nat.strongRecOn generalizing input values with
  | _ n ih =>
      subst hn
      rw [drain_eq hreads] at hdrain
      cases hrun : scan.run input with
      | more =>
          rw [hrun] at hdrain
          obtain ⟨rfl, rfl⟩ := Prod.mk.inj (Except.ok.inj hdrain)
          exact ⟨hrun, List.suffix_rfl⟩
      | fail error =>
          rw [hrun] at hdrain
          cases hdrain
      | done p =>
          obtain ⟨hsuffix, hlt⟩ := hreads.consumes input p.1 p.2 hrun
          rw [hrun] at hdrain
          cases hrest : drain scan p.2 with
          | error e =>
              simp only [hrest] at hdrain
              cases hdrain
          | ok q =>
              simp only [hrest] at hdrain
              obtain ⟨-, rfl⟩ := Prod.mk.inj (Except.ok.inj hdrain)
              obtain ⟨hmore, hpart⟩ := ih _ hlt hrest rfl
              exact ⟨hmore, hpart.trans hsuffix⟩

/-- More input is read as if it had been there from the start. -/
theorem drain_append (hreads : Reads scan) {input left : List α} {values : List β}
    (hdrain : drain scan input = .ok (values, left)) (more : List α) :
    drain scan (input ++ more) =
      (drain scan (left ++ more)).map fun (others, rest) => (values ++ others, rest) := by
  induction hn : input.length using Nat.strongRecOn generalizing input values with
  | _ n ih =>
      subst hn
      rw [drain_eq hreads] at hdrain
      cases hrun : scan.run input with
      | more =>
          rw [hrun] at hdrain
          obtain ⟨rfl, rfl⟩ := Prod.mk.inj (Except.ok.inj hdrain)
          cases drain scan (input ++ more) <;> rfl
      | fail error =>
          rw [hrun] at hdrain
          cases hdrain
      | done p =>
          have hlt := (hreads.consumes input p.1 p.2 hrun).2
          rw [hrun] at hdrain
          rw [drain_eq hreads, hreads.stable.2 input more p.1 p.2 hrun]
          cases hrest : drain scan p.2 with
          | error e =>
              simp only [hrest] at hdrain
              cases hdrain
          | ok q =>
              simp only [hrest] at hdrain
              obtain ⟨rfl, rfl⟩ := Prod.mk.inj (Except.ok.inj hdrain)
              simp only [ih _ hlt hrest rfl]
              cases drain scan (q.2 ++ more) <;> rfl

/-- Values read off the front one after the other, wherever that stops. -/
inductive Takes (scan : Scanner α ε β) : List α → List β → List α → Prop
  | nil (input : List α) : Takes scan input [] input
  | cons {input mid rest : List α} {value : β} {values : List β}
      (hrun : scan.run input = .done (value, mid)) (hrest : Takes scan mid values rest) :
      Takes scan input (value :: values) rest

theorem Takes.append (hstable : Stable scan) {input rest : List α} {values : List β}
    (htakes : Takes scan input values rest) (more : List α) :
    Takes scan (input ++ more) values (rest ++ more) := by
  induction htakes with
  | nil input => exact .nil _
  | cons hrun _ ih => exact .cons (hstable.2 _ more _ _ hrun) ih

/-- Where the scanner fails, nothing more can be taken. -/
theorem Takes.of_fail {input stop rest : List α} {values others : List β} {error : ε}
    (htakes : Takes scan input values stop) (hfail : scan.run stop = .fail error)
    (hothers : Takes scan input others rest) :
    ∃ more, values = others ++ more ∧ Takes scan rest more stop := by
  induction hothers generalizing values with
  | nil input => exact ⟨values, rfl, htakes⟩
  | cons hrun _ ih =>
      cases htakes with
      | nil =>
          rw [hfail] at hrun
          cases hrun
      | cons hrun' htail =>
          rw [hrun] at hrun'
          obtain ⟨rfl, rfl⟩ := Prod.mk.inj (Verdict.done.inj hrun')
          obtain ⟨more, rfl, hmore⟩ := ih htail
          exact ⟨more, rfl, hmore⟩

theorem takes_of_drain (hreads : Reads scan) {input left : List α} {values : List β}
    (hdrain : drain scan input = .ok (values, left)) : Takes scan input values left := by
  induction hn : input.length using Nat.strongRecOn generalizing input values with
  | _ n ih =>
      subst hn
      rw [drain_eq hreads] at hdrain
      cases hrun : scan.run input with
      | more =>
          rw [hrun] at hdrain
          obtain ⟨rfl, rfl⟩ := Prod.mk.inj (Except.ok.inj hdrain)
          exact .nil _
      | fail error =>
          rw [hrun] at hdrain
          cases hdrain
      | done p =>
          have hlt := (hreads.consumes input p.1 p.2 hrun).2
          rw [hrun] at hdrain
          cases hrest : drain scan p.2 with
          | error e =>
              simp only [hrest] at hdrain
              cases hdrain
          | ok q =>
              simp only [hrest] at hdrain
              obtain ⟨rfl, rfl⟩ := Prod.mk.inj (Except.ok.inj hdrain)
              exact .cons hrun (ih _ hlt hrest rfl)

/-- The whole read fails, and the values before the failure are not returned. -/
theorem Takes.drain_fail (hreads : Reads scan) {input stop : List α} {values : List β} {error : ε}
    (htakes : Takes scan input values stop) (hfail : scan.run stop = .fail error) :
    drain scan input = .error error := by
  induction htakes with
  | nil input => rw [drain_eq hreads, hfail]
  | cons hrun _ ih =>
      rw [drain_eq hreads, hrun]
      simp only [ih hfail]
      rfl

end Scanner
