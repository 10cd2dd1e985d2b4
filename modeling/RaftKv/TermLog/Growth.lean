import Mathlib.Data.List.Infix
import RaftKv.TermLog.Protocol

/-! # What survives later steps

Votes, candidacies, leaders, leaders' logs and acknowledgements are only ever
added to, and a node's acknowledgements of a term it has left are final. The
predicates the safety argument is built from are stable under such growth.
-/

namespace TermLog

variable {N E : Type}

/-- `later` has at least the recorded facts of `earlier`. -/
structure Grows (earlier later : Sys N E) : Prop where
  term : ∀ v, earlier.term v ≤ later.term v
  vote : ∀ v t c, earlier.vote v t = some c → later.vote v t = some c
  bid : ∀ t v l, earlier.bid t v = some l → later.bid t v = some l
  leader : ∀ t v, earlier.leader t = some v → later.leader t = some v
  termLog : ∀ t, earlier.termLog t <+: later.termLog t
  ack : ∀ v t, earlier.ack v t ≤ later.ack v t
  frozen : ∀ v t, t < earlier.term v → later.ack v t = earlier.ack v t

namespace Grows

@[refl] theorem refl (s : Sys N E) : Grows s s where
  term _ := le_rfl
  vote _ _ _ h := h
  bid _ _ _ h := h
  leader _ _ h := h
  termLog _ := List.prefix_rfl
  ack _ _ := le_rfl
  frozen _ _ _ := rfl

theorem trans {a b c : Sys N E} (hab : Grows a b) (hbc : Grows b c) : Grows a c where
  term v := (hab.term v).trans (hbc.term v)
  vote v t n h := hbc.vote v t n (hab.vote v t n h)
  bid t v l h := hbc.bid t v l (hab.bid t v l h)
  leader t v h := hbc.leader t v (hab.leader t v h)
  termLog t := (hab.termLog t).trans (hbc.termLog t)
  ack v t := (hab.ack v t).trans (hbc.ack v t)
  frozen v t h := by
    rw [hbc.frozen v t (h.trans_le (hab.term v)), hab.frozen v t h]

theorem leader_ne_none {s s' : Sys N E} (hgrow : Grows s s') {t : Nat}
    (hlead : s.leader t ≠ none) : s'.leader t ≠ none := by
  obtain ⟨n, hn⟩ := Option.ne_none_iff_exists'.mp hlead
  simp [hgrow.leader t n hn]

theorem termLog_take {s s' : Sys N E} (hgrow : Grows s s') {t k : Nat}
    (hk : k ≤ (s.termLog t).length) : (s'.termLog t).take k = (s.termLog t).take k := by
  obtain ⟨rest, hrest⟩ := hgrow.termLog t
  rw [← hrest, List.take_append_of_le_length hk]

theorem termLog_getElem? {s s' : Sys N E} (hgrow : Grows s s') {t k : Nat}
    (hk : k < (s.termLog t).length) : (s'.termLog t)[k]? = (s.termLog t)[k]? := by
  obtain ⟨rest, hrest⟩ := hgrow.termLog t
  rw [← hrest, List.getElem?_append_left hk]

end Grows

namespace Protocol

variable (p : Protocol N E) {s s' : Sys N E}

theorem Own.lt_length {t k : Nat} (hown : p.Own s t k) : k < (s.termLog t).length := by
  obtain ⟨e, he, _⟩ := hown
  exact (List.getElem?_eq_some_iff.mp he).1

theorem Own.grow (hgrow : Grows s s') {t k : Nat} (hown : p.Own s t k) : p.Own s' t k := by
  obtain ⟨e, he, hstamp⟩ := hown
  refine ⟨e, ?_, hstamp⟩
  rw [hgrow.termLog_getElem? (List.getElem?_eq_some_iff.mp he).1, he]

/-- A position the earlier leader's log already had was owned then too. -/
theorem Own.of_grow (hgrow : Grows s s') {t k : Nat} (hk : k < (s.termLog t).length)
    (hown : p.Own s' t k) : p.Own s t k := by
  obtain ⟨e, he, hstamp⟩ := hown
  rw [hgrow.termLog_getElem? hk] at he
  exact ⟨e, he, hstamp⟩

theorem Blocked.grow (hgrow : Grows s s') {t k : Nat} (hblocked : p.Blocked s t k) :
    p.Blocked s' t k := by
  obtain ⟨S, hS, hleft⟩ := hblocked
  refine ⟨S, hS, fun v hv => ?_⟩
  obtain ⟨hterm, hack⟩ := hleft v hv
  exact ⟨hterm.trans_le (hgrow.term v), by rw [hgrow.frozen v t hterm]; exact hack⟩

theorem Chosen.grow (hgrow : Grows s s') {t k : Nat} (hchosen : p.Chosen s t k) :
    p.Chosen s' t k := by
  obtain ⟨hown, S, hS, hack⟩ := hchosen
  exact ⟨hown.grow p hgrow, S, hS, fun v hv => (hack v hv).trans_le (hgrow.ack v t)⟩

theorem Committed.grow (hgrow : Grows s s') {t t' : Nat} (ht : t ≤ t') {l : List E}
    (hl : p.Committed s t l) : p.Committed s' t' l := by
  rcases hl with rfl | ⟨u, k, hu, hchosen, hlen, hpre⟩
  · exact Or.inl rfl
  · exact Or.inr ⟨u, k, hu.trans ht, hchosen.grow p hgrow, hlen,
      hpre.trans (hgrow.termLog u)⟩

/-- Shorter prefixes of a committed log are committed. -/
theorem Committed.of_isPrefix {t : Nat} {l l' : List E} (hpre : l' <+: l)
    (hl : p.Committed s t l) : p.Committed s t l' := by
  rcases hl with rfl | ⟨u, k, hu, hchosen, hlen, htermLog⟩
  · exact Or.inl (List.prefix_nil.mp hpre)
  · exact Or.inr ⟨u, k, hu, hchosen, hpre.length_le.trans hlen, hpre.trans htermLog⟩

theorem Kept.grow (hgrow : Grows s s') {t k i : Nat} {l : List E}
    (hi : i ≤ (s.termLog t).length) (hkept : p.Kept s t k i l) : p.Kept s' t k i l := by
  rcases hkept with hblocked | hpre
  · exact Or.inl (hblocked.grow p hgrow)
  · exact Or.inr (by rwa [hgrow.termLog_take hi])

theorem Kept.of_isPrefix {t k i : Nat} {l l' : List E} (hpre : l <+: l')
    (hkept : p.Kept s t k i l) : p.Kept s t k i l' :=
  hkept.imp_right (fun h => h.trans hpre)

theorem Rooted.grow (hgrow : Grows s s') {l : List E} (hl : p.Rooted s l) :
    p.Rooted s' l := by
  intro k e he
  obtain ⟨hlead, hpre⟩ := hl k e he
  exact ⟨hgrow.leader_ne_none hlead, hpre.trans (hgrow.termLog _)⟩

theorem Rooted.of_isPrefix {l l' : List E} (hpre : l' <+: l) (hl : p.Rooted s l) :
    p.Rooted s l' := by
  intro k e he
  have hk := (List.getElem?_eq_some_iff.mp he).1
  obtain ⟨rest, rfl⟩ := hpre
  have hle : k + 1 ≤ l'.length := hk
  have hentry := hl k e (by rw [List.getElem?_append_left hk]; exact he)
  rwa [List.take_append_of_le_length hle] at hentry

theorem lastStamp_take_succ {l : List E} {k : Nat} {e : E} (he : l[k]? = some e) :
    p.lastStamp (l.take (k + 1)) = p.stamp e := by
  have hlast : (l.take (k + 1)).getLast? = some e := by
    have hk := (List.getElem?_eq_some_iff.mp he).1
    rw [List.getLast?_eq_getElem?, List.length_take, Nat.min_eq_left hk, Nat.succ_sub_one,
      List.getElem?_take_of_lt (Nat.lt_succ_self k), he]
  simp [lastStamp, hlast]

theorem rooted_nil : p.Rooted s [] := by
  intro k e he
  simp at he

end Protocol

end TermLog
