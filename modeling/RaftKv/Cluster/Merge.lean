import RaftKv.Cluster.Abstraction

/-! # Merging a leader's entries

A follower that merges the entries of its leader takes over, one by one, those it does
not hold. Each of them is an abstract step, and after all of them it holds the leader's
log as far as the message goes.
-/

namespace RaftKv

open TermLog

variable {setup : Setup} {a : Sys Nat Entry} {i : Nat}

/-- A stored state that holds its leader's log through `base`. -/
structure Durable.Follows (setup : Setup) (a : Sys Nat Entry) (i base : Nat)
    (d : Durable Capture) : Prop where
  valid : d.Valid
  grounded : d.Grounded setup a
  term : d.term = a.term i
  base_le : base ≤ (a.termLog (a.term i)).length
  holds : (a.termLog (a.term i)).take base <+: d.history

namespace Durable.Follows

variable {d : Durable Capture} {base : Nat} {e : Entry} {rest : List Entry}

theorem take_eq (hfollows : d.Follows setup a i base) :
    d.history.take base = (a.termLog (a.term i)).take base := by
  have hpre := List.prefix_iff_eq_take.mp hfollows.holds
  rw [List.length_take, Nat.min_eq_left hfollows.base_le] at hpre
  exact hpre.symm

theorem base_le_last (hfollows : d.Follows setup a i base) : base ≤ d.last := by
  rw [← Durable.length_history hfollows.grounded]
  have hlen := hfollows.holds.length_le
  rwa [List.length_take, Nat.min_eq_left hfollows.base_le] at hlen

theorem next_eq {l : List Entry} (hcarried : l.take base ++ e :: rest <+: l)
    (hbase : base ≤ l.length) :
    l[base]? = some e ∧ l.take (base + 1) = l.take base ++ [e] := by
  have hget : l[base]? = some e := by
    obtain ⟨tail, htail⟩ := hcarried
    rw [← htail, List.append_assoc, List.getElem?_append_right (by simp)]
    simp [Nat.min_eq_left hbase]
  refine ⟨hget, ?_⟩
  rw [List.take_add_one, hget]
  rfl

/-- An entry that is already there keeps the two logs together. -/
theorem skip (hinv : setup.protocol.Inv a) {m : Nat} (hlead : a.leader (a.term i) = some m)
    (hfollows : d.Follows setup a i base)
    (hcarried : (a.termLog (a.term i)).take base ++ e :: rest <+: a.termLog (a.term i))
    (hpresent : base + 1 ≤ d.offset ∨ d.offset ≤ base ∧ d.HasAt base e.term) :
    d.Follows setup a i (base + 1) := by
  obtain ⟨hnext, htake⟩ := next_eq hcarried hfollows.base_le
  have hlt := (List.getElem?_eq_some_iff.mp hnext).1
  refine { hfollows with base_le := hlt, holds := ?_ }
  rcases hpresent with hcompacted | ⟨hoffset, x, hx, hterm⟩
  · -- what is under the snapshot is committed, so every later leader has it
    have hcommitted : d.history.take d.commit <+: a.termLog (a.term i) :=
      hinv.committed_isPrefix hfollows.term.le (by simp [hlead]) hfollows.grounded.committed
    have hle : base + 1 ≤ (d.history.take d.commit).length := by
      have hcover := hfollows.valid.offset_le
      have hcommit := hfollows.valid.commit_le
      rw [List.length_take, Durable.length_history hfollows.grounded]
      omega
    refine (List.prefix_of_prefix_length_le (List.take_prefix _ _) hcommitted ?_).trans
      (List.take_prefix _ _)
    exact (List.length_take_le _ _).trans hle
  · -- entries of one term at one place come after the same entries
    have hget : d.history[base]? = some x := by
      rw [Durable.history_getElem? hfollows.grounded hoffset, hx]
    obtain ⟨-, hroot⟩ := hfollows.grounded.rooted base x hget
    obtain ⟨-, hroot'⟩ := hinv.termLogRooted (a.term i) base e hnext
    rw [show setup.protocol.stamp x = setup.protocol.stamp e from hterm] at hroot
    have hlen : ((a.termLog (a.term i)).take (base + 1)).length =
        (d.history.take (base + 1)).length := by
      have hlt' := (List.getElem?_eq_some_iff.mp hget).1
      rw [List.length_take, List.length_take]
      omega
    rw [(List.prefix_of_prefix_length_le hroot' hroot hlen.le).eq_of_length hlen]
    exact List.take_prefix _ _

/-- The record of a new entry makes the log that of the leader through this entry. -/
theorem history_apply (hfollows : d.Follows setup a i base) (hindex : e.index = base + 1)
    (hcommit : d.commit ≤ base) :
    (d.apply (.entry e)).history = (a.termLog (a.term i)).take base ++ [e] := by
  have hoffset := hfollows.valid.offset_le
  have hcovered := hfollows.grounded.covered
  have htake : d.log.takeWhile (fun x => x.index < e.index) = d.log.take (base - d.offset) := by
    rw [Durable.takeWhile_index hfollows.valid.indexed, hindex,
      show base + 1 - d.offset - 1 = base - d.offset by omega]
  have hall : d.data.entries.take base = d.data.entries := List.take_of_length_le (by omega)
  rw [← hfollows.take_eq]
  simp only [Durable.history, Durable.apply, htake]
  rw [List.take_append, hcovered, hall, List.append_assoc]

theorem take (hinv : setup.protocol.Inv a) (hfollows : d.Follows setup a i base)
    (hcarried : (a.termLog (a.term i)).take base ++ e :: rest <+: a.termLog (a.term i))
    (hindex : e.index = base + 1) (hbound : base + 2 < 2 ^ 64) (hcommit : d.commit ≤ base) :
    (d.apply (.entry e)).Follows setup a i (base + 1) := by
  obtain ⟨hnext, htake⟩ := next_eq hcarried hfollows.base_le
  have hlt := (List.getElem?_eq_some_iff.mp hnext).1
  have hhistory := hfollows.history_apply hindex hcommit
  have hlast := hfollows.base_le_last
  have hadmits : d.Admits (.entry e) := by
    simp only [Durable.Admits, hindex]
    omega
  refine ⟨hfollows.valid.apply hadmits, ⟨?_, ?_, hfollows.grounded.covered,
    hfollows.grounded.boundary⟩, hfollows.term, hlt, ?_⟩
  · rw [hhistory, ← htake]
    exact (hinv.termLogRooted _).of_isPrefix _ (List.take_prefix _ _)
  · have hsame : ((d.apply (.entry e)).history).take d.commit = d.history.take d.commit := by
      rw [hhistory, ← hfollows.take_eq, List.take_append_of_le_length, List.take_take,
        Nat.min_eq_left hcommit]
      rw [List.length_take, Durable.length_history hfollows.grounded]
      omega
    show setup.protocol.Committed a d.term (((d.apply (.entry e)).history).take d.commit)
    rw [hsame]
    exact hfollows.grounded.committed
  · rw [hhistory, ← htake]

/-- Taking over an entry it does not hold is a step of the follower. -/
theorem accept {m : Nat} (hlead : a.leader (a.term i) = some m) (hother : m ≠ i)
    (hfollows : d.Follows setup a i base)
    (hcarried : (a.termLog (a.term i)).take base ++ e :: rest <+: a.termLog (a.term i))
    (hindex : e.index = base + 1) (hcommit : d.commit ≤ base) (hnew : ¬ d.HasAt base e.term) :
    setup.protocol.Step i (a.setLog i d.history) (a.setLog i (d.apply (.entry e)).history) := by
  obtain ⟨hnext, htake⟩ := next_eq hcarried hfollows.base_le
  have hlacks : ¬ (a.termLog (a.term i)).take (base + 1) <+: d.history := by
    intro hpre
    have hoffset := hfollows.valid.offset_le
    have hget : d.history[base]? = some e := by
      obtain ⟨tail, htail⟩ := hpre
      have hlt := (List.getElem?_eq_some_iff.mp hnext).1
      rw [← htail, List.getElem?_append_left (by rw [List.length_take]; omega),
        List.getElem?_take_of_lt (Nat.lt_succ_self base), hnext]
    rw [Durable.history_getElem? hfollows.grounded (by omega)] at hget
    exact hnew ⟨e, hget, rfl⟩
  have hstep := Protocol.Step.accept (p := setup.protocol) (n := i) (a.setLog i d.history) m base
    hlead hother (by rw [Sys.log_setLog]; exact hlacks)
  rw [Sys.setLog_setLog] at hstep
  rwa [hfollows.history_apply hindex hcommit, ← htake]

end Durable.Follows

/-- The rest of what a message carries. -/
theorem carried_cons {l rest : List Entry} {e : Entry} {base : Nat}
    (hcarried : l.take base ++ e :: rest <+: l) (hbase : base ≤ l.length)
    (hindexed : ∀ k x, (e :: rest)[k]? = some x → x.index = base + k + 1) :
    l.take (base + 1) ++ rest <+: l ∧
      (∀ k x, rest[k]? = some x → x.index = base + 1 + k + 1) ∧ e.index = base + 1 := by
  refine ⟨?_, fun k x hx => ?_, by simpa using hindexed 0 e rfl⟩
  · rw [(Durable.Follows.next_eq hcarried hbase).2, List.append_assoc]
    exact hcarried
  · have := hindexed (k + 1) x (by simpa using hx)
    omega

/-- The merge, record by record. -/
theorem Merges.realised {d : Durable Capture} {base m : Nat} {entries added : List Entry}
    {ok : Bool}
    (hmerges : Merges d base entries added ok) (hinv : setup.protocol.Inv a)
    (hlead : a.leader (a.term i) = some m) (hother : m ≠ i) (hfollows : d.Follows setup a i base)
    (hcarried : (a.termLog (a.term i)).take base ++ entries <+: a.termLog (a.term i))
    (hindexed : ∀ k e, entries[k]? = some e → e.index = base + k + 1)
    (hbound : base + entries.length + 1 < 2 ^ 64) :
    (∀ records, records <+: added.map Record.entry →
      setup.protocol.Steps i (a.setLog i d.history)
        (a.setLog i (records.foldl Durable.apply d).history) ∧
      (records.foldl Durable.apply d).Grounded setup a) ∧
    (ok = true → ((added.map Record.entry).foldl Durable.apply d).Follows setup a i
      (base + entries.length)) := by
  induction hmerges with
  | nil d base =>
      refine ⟨fun records hrecords => ?_, fun _ => hfollows⟩
      obtain rfl := List.prefix_nil.mp hrecords
      exact ⟨.refl, hfollows.grounded⟩
  | refuse e rest =>
      refine ⟨fun records hrecords => ?_, fun h => by cases h⟩
      obtain rfl := List.prefix_nil.mp hrecords
      exact ⟨.refl, hfollows.grounded⟩
  | @skip d base e rest added ok hpresent hrest ih =>
      obtain ⟨hcarried', hindexed', hhead⟩ := carried_cons hcarried hfollows.base_le hindexed
      obtain ⟨hsteps, hheld⟩ := ih (hfollows.skip hinv hlead hcarried hpresent) hcarried' hindexed'
        (by simp only [List.length_cons] at hbound; omega)
      refine ⟨hsteps, fun hok => ?_⟩
      rw [List.length_cons, show base + (rest.length + 1) = base + 1 + rest.length by omega]
      exact hheld hok
  | @take d base e rest added ok hcommit hnew hrest ih =>
      simp only [List.length_cons] at hbound
      obtain ⟨hcarried', hindexed', hhead⟩ := carried_cons hcarried hfollows.base_le hindexed
      have hstep := hfollows.accept hlead hother hcarried hhead hcommit hnew
      obtain ⟨hsteps, hheld⟩ := ih (hfollows.take hinv hcarried hhead (by omega) hcommit) hcarried'
        hindexed' (by omega)
      refine ⟨fun records hrecords => ?_, fun hok => ?_⟩
      · rw [List.map_cons] at hrecords
        rcases List.prefix_cons_iff.mp hrecords with rfl | ⟨more, rfl, hmore⟩
        · exact ⟨.refl, hfollows.grounded⟩
        · exact ⟨.head hstep (hsteps more hmore).1, (hsteps more hmore).2⟩
      · rw [List.length_cons, show base + (rest.length + 1) = base + 1 + rest.length by omega]
        exact hheld hok

end RaftKv
