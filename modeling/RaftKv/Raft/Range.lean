import RaftKv.Raft.Ballot

/-! # Nodes whose indices stay in range

As long as no message and no proposal takes an index to the end of the 64-bit
range, the log of a node carries its own indices and the offset, applied and
commit indices point into it in this order. On such a node the loops of
`raft.cpp` have short descriptions.
-/

namespace RaftKv

variable {D : Type}

/-- A message whose indices leave room for one more, with entries numbered as its sender
numbers them. -/
structure Message.InRange (msg : Message D) : Prop where
  term : msg.term < 2 ^ 64
  indexed : msg.type = .appendEntries →
    ∀ k e, msg.entries[k]? = some e → e.index = msg.prevLogIndex + k + 1
  entries : msg.type = .appendEntries → msg.prevLogIndex + msg.entries.length + 1 < 2 ^ 64
  snapshot : msg.type = .installSnapshot → msg.snapshotIndex + 1 < 2 ^ 64

/-- Nothing from outside reaches the end of the index range. -/
structure Outside.InRange (o : Outside D) : Prop where
  message : ∀ msg, o.message msg → msg.InRange
  room : ∀ last, o.room last → last + 2 < 2 ^ 64

/-- An entry of the given term is retained at index `base + 1`. -/
def Durable.HasAt (d : Durable D) (base term : Nat) : Prop :=
  ∃ x, d.log[base - d.offset]? = some x ∧ x.term = term

/-- How carried entries, the first of them for index `base + 1`, are merged into a log:
which of them are taken over, and whether all could be. -/
inductive Merges : Durable D → Nat → List Entry → List Entry → Bool → Prop
  | nil (d : Durable D) (base : Nat) : Merges d base [] [] true
  | skip {d : Durable D} {base : Nat} {e : Entry} {rest added : List Entry} {ok : Bool}
      (hpresent : base + 1 ≤ d.offset ∨ d.offset ≤ base ∧ d.HasAt base e.term)
      (hrest : Merges d (base + 1) rest added ok) : Merges d base (e :: rest) added ok
  | refuse {d : Durable D} {base : Nat} (e : Entry) (rest : List Entry)
      (hcommitted : base + 1 ≤ d.commit) : Merges d base (e :: rest) [] false
  | take {d : Durable D} {base : Nat} {e : Entry} {rest added : List Entry} {ok : Bool}
      (hcommit : d.commit ≤ base) (hnew : ¬ d.HasAt base e.term)
      (hrest : Merges (d.apply (.entry e)) (base + 1) rest added ok) :
      Merges d base (e :: rest) (e :: added) ok

namespace Raft

/-- The node's own indices are consistent. -/
structure Sane (r : Raft D) : Prop where
  valid : r.durable.Valid
  offset_le : r.logOffset ≤ r.lastApplied
  applied_le : r.lastApplied ≤ r.commitIndex

section Log

variable {r : Raft D}

theorem lastLogIndex_of_valid (hvalid : r.durable.Valid) :
    r.lastLogIndex = r.logOffset + r.log.length := by
  have hbound := hvalid.bound
  simp only [Durable.last, durable] at hbound
  exact wrap64_of_lt (by omega)

theorem logPosition_of_lt {index : Nat} (hlt : r.logOffset < index) (hindex : index < 2 ^ 64) :
    r.logPosition index = index - r.logOffset - 1 := by
  rw [logPosition, sub64_of_le (le_of_lt hlt) hindex, sub64_of_le (by omega) (by omega)]

/-- The entry at a retained index. -/
theorem logEntry_of_valid (hvalid : r.durable.Valid) {index : Nat} (hlt : r.logOffset < index)
    (hle : index ≤ r.logOffset + r.log.length) :
    r.log[index - r.logOffset - 1]? = some (r.logEntry index) := by
  have hbound := hvalid.bound
  simp only [Durable.last, durable] at hbound
  rw [logEntry, logPosition_of_lt hlt (by omega)]
  have hpos : index - r.logOffset - 1 < r.log.length := by omega
  simp [List.getElem?_eq_getElem hpos]

theorem log_indexed (hvalid : r.durable.Valid) :
    ∀ k e, r.log[k]? = some e → e.index = r.logOffset + k + 1 := hvalid.indexed

theorem takeWhile_log (hvalid : r.durable.Valid) {index : Nat} :
    r.log.takeWhile (fun x => x.index < index) = r.log.take (index - r.logOffset - 1) :=
  Durable.takeWhile_index (log_indexed hvalid)

theorem termAt_of_valid (hvalid : r.durable.Valid) {index : Nat} (hlt : r.logOffset < index)
    (hle : index ≤ r.logOffset + r.log.length) : r.termAt index = (r.logEntry index).term := by
  have hlast := lastLogIndex_of_valid hvalid
  simp only [termAt, hlast]
  rw [if_neg (by omega), if_neg (by omega), if_neg (by omega)]

end Log

/-! ## The follower's append loop -/

section AppendLoop

variable {r : Raft D}

theorem hasAt_iff_termAt {base term : Nat} (hvalid : r.durable.Valid) (hge : r.logOffset ≤ base)
    (hle : base + 1 ≤ r.logOffset + r.log.length) :
    r.durable.HasAt base term ↔ r.termAt (base + 1) = term := by
  have hentry := logEntry_of_valid hvalid (by omega) hle
  rw [termAt_of_valid hvalid (by omega) hle]
  rw [show base + 1 - r.logOffset - 1 = base - r.logOffset by omega] at hentry
  simp only [Durable.HasAt, durable, hentry, Option.some.injEq, exists_eq_left']

/-- The three outcomes of one iteration on a consistent log. -/
inductive Appends (r : Raft D) (index : Nat) (e : Entry) : Option (Raft D) → Prop
  | skip (hpresent : index ≤ r.logOffset ∨ r.logOffset < index ∧
      index ≤ r.logOffset + r.log.length ∧ r.termAt index = e.term) : Appends r index e (some r)
  | refuse (hcommitted : index ≤ r.commitIndex) (hoffset : r.logOffset < index)
      (hterm : r.termAt index ≠ e.term) : Appends r index e none
  | take (hcommit : r.commitIndex < index)
      (hnew : r.logOffset + r.log.length < index ∨ r.termAt index ≠ e.term) :
      Appends r index e (some (saveEntry
        { r with log := r.log.takeWhile (fun x => x.index < index) ++ [e] } e))

theorem appendEntry_spec {index : Nat} {e : Entry} (hvalid : r.durable.Valid)
    (hindex : index ≤ r.logOffset + r.log.length + 1) :
    Appends r index e (r.appendEntry index e) := by
  have hbound := hvalid.bound
  have hcommit := hvalid.commit_le
  simp only [Durable.last, durable] at hbound hcommit
  unfold appendEntry
  rw [lastLogIndex_of_valid hvalid]
  split
  next hoffset => exact .skip (.inl hoffset)
  next hoffset =>
    split
    next hle =>
      split
      next hterm =>
        split
        next hcommitted => exact .refuse hcommitted (by omega) hterm
        next hnot =>
          rw [logPosition_of_lt (by omega) (by omega), ← takeWhile_log hvalid]
          exact .take (by omega) (.inr hterm)
      next hterm => exact .skip (.inr ⟨by omega, hle, not_not.mp hterm⟩)
    next hgt =>
      have hall : r.log.takeWhile (fun x => x.index < index) = r.log := by
        rw [takeWhile_log hvalid, List.take_of_length_le (by omega)]
      have htake : Appends r index e (some (saveEntry
          { r with log := r.log.takeWhile (fun x => x.index < index) ++ [e] } e)) :=
        .take (by omega) (.inl (by omega))
      rwa [hall] at htake

/-- What the loop leaves: some of the carried entries, each saved as it was taken over,
and the log those records describe. It only breaks off while it is still below the
commit index, before anything was taken over. -/
structure Appended (r : Raft D) (base : Nat) (entries : List Entry) (result : Raft D × Bool)
    (added : List Entry) (log : List Entry) : Prop where
  state : result.1 = { r with
    log := log
    wal := r.wal.map (·.save (added.map Record.entry)) }
  merges : Merges r.durable base entries added result.2
  accepts : r.durable.Accepts (added.map Record.entry)
  durable : ({ r with log := log } : Raft D).durable =
    (added.map Record.entry).foldl Durable.apply r.durable
  broken : result.2 = false → added = [] ∧ base < r.commitIndex
  reached : result.2 = true → base + entries.length ≤ r.logOffset + log.length

theorem Appended.nothing {r : Raft D} {base : Nat} {entries : List Entry} {ok : Bool}
    (hmerges : Merges r.durable base entries [] ok)
    (hbroken : ok = false → base < r.commitIndex)
    (hreached : ok = true → base + entries.length ≤ r.logOffset + r.log.length) :
    Appended r base entries (r, ok) [] r.log where
  state := by
    have hwal : r.wal.map (·.save []) = r.wal := by simp
    rw [List.map_nil, hwal]
  merges := hmerges
  accepts := trivial
  durable := rfl
  broken h := ⟨rfl, hbroken h⟩
  reached := hreached

/-- Prepend one entry that was taken over at the next index. -/
theorem Appended.cons {r : Raft D} {base : Nat} {e : Entry} {entries : List Entry}
    {result : Raft D × Bool} {added log : List Entry}
    (hadmits : r.durable.Admits (.entry e)) (hcommit : r.commitIndex ≤ base)
    (hnew : ¬ r.durable.HasAt base e.term)
    (hrest : Appended (saveEntry
        { r with log := r.log.takeWhile (fun x => x.index < e.index) ++ [e] } e)
      (base + 1) entries result added log) :
    Appended r base (e :: entries) result (e :: added) log where
  state := by
    rw [hrest.state]
    simp [saveEntry_eq, Function.comp_def]
  merges := .take hcommit hnew hrest.merges
  accepts := ⟨hadmits, hrest.accepts⟩
  durable := hrest.durable
  broken h := by
    have := (hrest.broken h).2
    simp only [saveEntry] at this
    omega
  reached h := by
    have := hrest.reached h
    simp only [saveEntry] at this
    simp only [List.length_cons]
    omega

theorem appendLoop_spec {prev i : Nat} {entries : List Entry} (hvalid : r.durable.Valid)
    (hindexed : ∀ k e, entries[k]? = some e → e.index = prev + i + k + 1)
    (hbound : prev + i + entries.length + 1 < 2 ^ 64)
    (hprev : prev + i ≤ r.logOffset + r.log.length) :
    ∃ added log, Appended r (prev + i) entries (r.appendLoop prev i entries) added log := by
  induction entries generalizing r i with
  | nil => exact ⟨[], r.log, .nothing (.nil _ _) (fun h => by cases h) (fun _ => hprev)⟩
  | cons e rest ih =>
      simp only [List.length_cons] at hbound
      have hhead : e.index = prev + i + 1 := by simpa using hindexed 0 e rfl
      have hrest : ∀ k x, rest[k]? = some x → x.index = prev + (i + 1) + k + 1 := by
        intro k x hx
        have := hindexed (k + 1) x (by simpa using hx)
        omega
      have hindex : wrap64 (prev + i + 1) = prev + i + 1 := wrap64_of_lt (by omega)
      have hlast := lastLogIndex_of_valid hvalid
      have hat : r.logOffset ≤ prev + i → prev + i + 1 ≤ r.logOffset + r.log.length →
          (r.durable.HasAt (prev + i) e.term ↔ r.termAt (prev + i + 1) = e.term) :=
        fun hge hle => hasAt_iff_termAt hvalid hge hle
      rw [appendLoop, hindex]
      generalize happends : r.appendEntry (prev + i + 1) e = outcome
      have hspec := appendEntry_spec (e := e) hvalid (show prev + i + 1 ≤ _ by omega)
      rw [happends] at hspec
      cases hspec with
      | refuse hcommitted =>
          exact ⟨[], r.log, .nothing (.refuse _ _ hcommitted) (fun _ => by omega)
            (fun h => by cases h)⟩
      | skip hpresent =>
          obtain ⟨added, log, hadded⟩ := ih hvalid hrest (by omega) (by omega)
          refine ⟨added, log, hadded.state, .skip ?_ hadded.merges, hadded.accepts, hadded.durable,
            fun h => ?_, fun h => ?_⟩
          · rcases hpresent with hcompacted | ⟨hlt, hle, hterm⟩
            · exact .inl hcompacted
            · exact .inr ⟨Nat.lt_succ_iff.mp hlt, (hat (Nat.lt_succ_iff.mp hlt) hle).mpr hterm⟩
          · obtain ⟨hnil, hlt⟩ := hadded.broken h
            exact ⟨hnil, by omega⟩
          · have := hadded.reached h
            simp only [List.length_cons]
            omega
      | take hcommit hnew =>
          have hadmits : r.durable.Admits (.entry e) := by
            simp only [Durable.Admits, Durable.last, Raft.durable]
            omega
          rw [← hhead]
          obtain ⟨added, log, hadded⟩ := ih (r := saveEntry { r with
              log := r.log.takeWhile (fun x => x.index < e.index) ++ [e] } e)
            (hvalid.apply hadmits) hrest (by omega) (by
              simp only [saveEntry, takeWhile_log hvalid, List.length_append, List.length_take,
                List.length_singleton]
              omega)
          have hoffset := hvalid.offset_le
          simp only [durable] at hoffset
          have hnot : ¬ r.durable.HasAt (prev + i) e.term := by
            rcases hnew with hgt | hterm
            · rintro ⟨x, hx, -⟩
              have := (List.getElem?_eq_some_iff.mp hx).1
              simp only [durable] at this
              omega
            · intro hhas
              have hlt := hhas
              obtain ⟨x, hx, -⟩ := hlt
              have := (List.getElem?_eq_some_iff.mp hx).1
              simp only [durable] at this
              exact hterm ((hat (by omega) (by omega)).mp hhas)
          exact ⟨e :: added, log, .cons hadmits (by omega) hnot hadded⟩

end AppendLoop

/-! ## The leader's commit loop -/

section AdvanceCommit

/-- When the loop moves the commit index to `i`. -/
def Replicated (r : Raft D) (i : Nat) : Prop :=
  (r.logEntry i).term = r.term ∧ r.replicas i > r.peers.length / 2

/-- The commit index stays, or moves up to a replicated entry of the current term. -/
theorem advanceCommit_spec {r : Raft D} (hvalid : r.durable.Valid) :
    ∃ c, r.advanceCommit = { r with commitIndex := c } ∧
      (c = r.commitIndex ∨
        r.commitIndex < c ∧ c ≤ r.logOffset + r.log.length ∧ r.Replicated c) := by
  have hcommit := hvalid.commit_le
  have hbound := hvalid.bound
  simp only [Durable.last, durable] at hcommit hbound
  obtain ⟨c, heq, hc⟩ := advanceCommit_foldl r (List.range' (wrap64 (r.commitIndex + 1))
    (r.lastLogIndex + 1 - wrap64 (r.commitIndex + 1)))
  refine ⟨c, heq, hc.imp_right (fun h => ?_)⟩
  obtain ⟨hmem, hrep⟩ := h
  rw [wrap64_of_lt (by omega), lastLogIndex_of_valid hvalid, List.mem_range'_1] at hmem
  exact ⟨by omega, by omega, hrep⟩

end AdvanceCommit

/-! ## Compaction -/

theorem compactLog_eq {log : List Entry} {offset applied : Nat}
    (hindexed : ∀ k e, log[k]? = some e → e.index = offset + k + 1)
    (hlt : offset < applied) (hle : applied ≤ offset + log.length) :
    compactLog log applied = log.drop (applied - offset) := by
  have hfind : log.findIdx? (fun e => e.index > applied) =
      if applied - offset < log.length then some (applied - offset) else none := by
    split
    next hin =>
      rw [List.findIdx?_eq_some_iff_getElem]
      refine ⟨hin, ?_, fun j hj => ?_⟩
      · have := hindexed _ _ (List.getElem?_eq_getElem hin)
        simp only [decide_eq_true_eq]
        omega
      · have := hindexed j _ (List.getElem?_eq_getElem (by omega))
        simp only [decide_eq_true_eq]
        omega
    next hout =>
      rw [List.findIdx?_eq_none_iff]
      intro e he
      obtain ⟨k, hk⟩ := List.mem_iff_getElem?.mp he
      have := hindexed k e hk
      have := (List.getElem?_eq_some_iff.mp hk).1
      simp only [decide_eq_false_iff_not]
      omega
  unfold compactLog keepFrom
  rw [hfind]
  by_cases hin : applied - offset < log.length
  · have hpos : 0 < applied - offset := by omega
    simp only [hin, if_true, Option.getD_some, hpos]
  · have hne : log ≠ [] := List.ne_nil_of_length_pos (by omega)
    have hlast := hindexed (log.length - 1) (log.getLast hne)
      (by rw [← List.getLast?_eq_getElem?, List.getLast?_eq_some_getLast hne])
    have hindex : (log.getLast hne).index ≤ applied := by omega
    simp only [hin, if_false, Option.getD_none, gt_iff_lt, lt_irrefl,
      List.getLast?_eq_some_getLast hne, hindex, if_true]
    rw [List.drop_eq_nil_of_le (by omega)]

end Raft

end RaftKv
