import RaftKv.Raft.Append

/-! # A leader and its follower

When two logs agree, and what an append of the leader does to the follower's: from an index at
which the logs agree, the message makes them agree to the end of the leader's log.
-/

namespace RaftKv

variable {D : Type} {l f f' : Raft D} {i j : Nat} {msg : Message D}

namespace Raft

/-! ## Logs that agree -/

/-- Two logs say the same at an index, as far as both still know it. -/
structure AgreeAt (l f : Raft D) (i : Nat) : Prop where
  term : l.logOffset ≤ i → f.logOffset ≤ i → l.termAt i = f.termAt i
  entry : l.logOffset < i → f.logOffset < i → l.indices.entryAt? i = f.indices.entryAt? i

theorem AgreeAt.congr (h : AgreeAt l f i) (hlog : f'.log = f.log)
    (hoffset : f'.logOffset = f.logOffset) (hoffsetTerm : f'.logOffsetTerm = f.logOffsetTerm) :
    AgreeAt l f' i := by
  refine ⟨fun hl hf => ?_, fun hl hf => ?_⟩
  · rw [hoffset] at hf
    rw [h.term hl hf]
    simp only [termAt, logEntry, logPosition, lastLogIndex, hlog, hoffset, hoffsetTerm]
    rfl
  · rw [hoffset] at hf
    rw [h.entry hl hf]
    simp only [indices, Indices.entryAt?, hlog, hoffset]

theorem AgreeAt.symm (h : AgreeAt l f i) : AgreeAt f l i :=
  ⟨fun hf hl => (h.term hl hf).symm, fun hf hl => (h.entry hl hf).symm⟩

/-- Two logs with the same entry at an index agree there. -/
theorem agreeAt_of_entry {e : Entry} (hl : l.indices.Ordered) (hf : f.indices.Ordered)
    (hlt : l.logOffset < i) (hft : f.logOffset < i) (hle : l.indices.entryAt? i = some e)
    (hfe : f.indices.entryAt? i = some e) : AgreeAt l f i :=
  ⟨fun _ _ => by rw [termAt_of_ordered hl hlt hle, termAt_of_ordered hf hft hfe],
    fun _ _ => hle.trans hfe.symm⟩

theorem agreeAt_zero (l f : Raft D) : AgreeAt l f 0 :=
  ⟨fun _ _ => by rw [termAt, if_pos rfl, termAt, if_pos rfl], fun h => by omega⟩

theorem exists_entryAt?_iff (hlt : l.logOffset < i) :
    (∃ e, l.indices.entryAt? i = some e) ↔ i ≤ l.indices.last := by
  simp only [indices, Indices.entryAt?, Indices.last]
  refine ⟨fun hsome => ?_, fun hle => ⟨_, List.getElem?_eq_getElem (by omega)⟩⟩
  obtain ⟨e, he⟩ := hsome
  have hin := (List.getElem?_eq_some_iff.mp he).1
  omega

section

variable [Blob D]

/-- Logs that have the same term somewhere agree up to there. -/
def LogMatching (l f : Raft D) : Prop :=
  ∀ i, l.logOffset ≤ i → f.logOffset ≤ i → i ≤ l.lastLogIndex → i ≤ f.lastLogIndex →
    l.termAt i = f.termAt i → ∀ j ≤ i, AgreeAt l f j

/-- A leader of a fixed term and a follower it can bring up to date. -/
structure Link (l f : Raft D) : Prop where
  leader : l.state = .leader
  healthy : l.storageFailed = false
  ordered : l.indices.Ordered
  room : l.indices.last + 1 < 2 ^ 64
  term_lt : l.term < 2 ^ 64
  knows : f.id ≠ l.id ∧ l.isMember f.id = true
  snapshot : 0 < l.logOffset → Blob.isEmpty l.lastSnapshotData = false ∧
    1 ≤ l.logOffsetTerm ∧ l.logOffsetTerm ≤ l.term
  next : 1 ≤ (l.progressOf f.id).next ∧ (l.progressOf f.id).next ≤ l.lastLogIndex + 1
  known : f.isMember l.id = true
  ordered' : f.indices.Ordered
  term_le : f.term ≤ l.term
  restore : f.snapshotRestore = some true
  log : LogMatching l f
  commit_le : f.commitIndex ≤ l.lastLogIndex
  committed : ∀ i ≤ f.commitIndex, AgreeAt l f i

end

/-! ## What the leader sends -/

theorem entriesFrom_getElem? (hordered : l.indices.Ordered) {next : Nat} (hlt : l.logOffset < next)
    (k : Nat) : (l.entriesFrom next)[k]? = l.indices.entryAt? (next + k) := by
  have hlast := hordered.last_lt
  unfold entriesFrom
  rw [lastLogIndex_of_ordered hordered, List.getElem?_map]
  by_cases hk : k < l.indices.last + 1 - next
  · rw [List.getElem?_range' hk, Option.map_some, Nat.one_mul, logEntry,
      logPosition_of_lt (by omega) (by omega), List.getD_eq_getElem?_getD]
    obtain ⟨e, he⟩ := (exists_entryAt?_iff (show l.logOffset < next + k by omega)).mpr (by omega)
    simp only [indices, Indices.entryAt?] at he ⊢
    rw [he]
    rfl
  · rw [List.getElem?_eq_none (by simpa using hk)]
    have hnone : ¬ ∃ e, l.indices.entryAt? (next + k) = some e := fun h => by
      have := (exists_entryAt?_iff (by omega)).mp h
      omega
    rw [Option.map_none, eq_comm, Option.eq_none_iff_forall_ne_some]
    exact fun e he => hnone ⟨e, he⟩

/-- The message carries the leader's log from `prev_log_index` to its end. -/
structure Carries (l : Raft D) (msg : Message D) : Prop where
  offset_le : l.logOffset ≤ msg.prevLogIndex
  entries : ∀ k, msg.entries[k]? = l.indices.entryAt? (msg.prevLogIndex + k + 1)
  last : msg.prevLogIndex + msg.entries.length = l.indices.last
  prevTerm : msg.prevLogIndex ≠ 0 → msg.prevLogTerm = l.termAt msg.prevLogIndex
  term : msg.term = l.term
  commit : msg.leaderCommit = l.commitIndex
  snapshot : msg.snapshotIndex = 0

theorem Carries.numbered (hcarries : Carries l msg) (hordered : l.indices.Ordered) :
    msg.Numbered := by
  have hoffset := hcarries.offset_le
  refine ⟨fun k e he => ?_, hcarries.last.trans_lt hordered.last_lt⟩
  rw [hcarries.entries] at he
  rw [hordered.indexed _ e he]
  simp only [indices]
  omega

variable [Blob D]

theorem Link.prevLogIndex (h : Link l f) :
    (l.makeAppendEntries f.id).prevLogIndex = (l.progressOf f.id).next - 1 := by
  have hroom := h.room
  have hle := h.next.2
  rw [lastLogIndex_of_ordered h.ordered] at hle
  exact sub64_of_le h.next.1 (by omega)

theorem Link.carries (h : Link l f) (hnext : l.logOffset < (l.progressOf f.id).next) :
    Carries l (l.makeAppendEntries f.id) := by
  obtain ⟨hpos, hle⟩ := h.next
  rw [lastLogIndex_of_ordered h.ordered] at hle
  have hprev := h.prevLogIndex
  have hentries : (l.makeAppendEntries f.id).entries = l.entriesFrom (l.progressOf f.id).next := rfl
  have hterm : (l.makeAppendEntries f.id).prevLogIndex ≠ 0 →
      (l.makeAppendEntries f.id).prevLogTerm =
        l.termAt (l.makeAppendEntries f.id).prevLogIndex := by
    intro hne
    simp only [makeAppendEntries] at hne ⊢
    rw [if_neg hne]
  refine ⟨by omega, fun k => ?_, ?_, hterm, rfl, rfl, rfl⟩
  · rw [hentries, entriesFrom_getElem? h.ordered hnext, hprev,
      show (l.progressOf f.id).next - 1 + k + 1 = (l.progressOf f.id).next + k by omega]
  · rw [hentries, hprev, entriesFrom, List.length_map, List.length_range',
      lastLogIndex_of_ordered h.ordered]
    omega

/-! ## An append that passes the consistency check -/

namespace Link

/-- The logs agree up to where the message starts. -/
theorem agree_prev (h : Link l f) (hcarries : Carries l msg) (hlog : f.logOk msg = true) :
    ∀ j ≤ msg.prevLogIndex, AgreeAt l f j := by
  have hend := hcarries.last
  by_cases hzero : msg.prevLogIndex = 0
  · intro j hj
    rw [hzero, Nat.le_zero] at hj
    exact hj ▸ agreeAt_zero l f
  · obtain ⟨hoffset, hle, hterm⟩ := (logOk_iff.mp hlog).resolve_left hzero
    refine h.log _ hcarries.offset_le hoffset ?_ hle ?_
    · rw [lastLogIndex_of_ordered h.ordered]
      omega
    · rw [hterm, hcarries.prevTerm hzero]

/-- They agree up to a carried entry that the follower has already. -/
theorem agree_covered (h : Link l f) (hcarries : Carries l msg) {k : Nat} {e : Entry}
    (hk : msg.entries[k]? = some e) (hcovers : f.indices.Covers (msg.prevLogIndex + k + 1) e.term) :
    ∀ j ≤ msg.prevLogIndex + k + 1, AgreeAt l f j := by
  have hoffset := hcarries.offset_le
  have hbelow := h.ordered'.offset_le.trans h.ordered'.applied_le
  rw [hcarries.entries] at hk
  by_cases hcompact : msg.prevLogIndex + k + 1 ≤ f.logOffset
  · exact fun j hj => h.committed j (hj.trans (hcompact.trans hbelow))
  · obtain ⟨x, hx, hterm⟩ := hcovers.resolve_left hcompact
    refine h.log _ (by omega) (by omega) ?_ ?_ ?_
    · rw [lastLogIndex_of_ordered h.ordered]
      exact (exists_entryAt?_iff (by omega)).mp ⟨e, hk⟩
    · rw [lastLogIndex_of_ordered h.ordered']
      exact (exists_entryAt?_iff (by omega)).mp ⟨x, hx⟩
    · rw [termAt_of_ordered h.ordered (by omega) hk, termAt_of_ordered h.ordered' (by omega) hx,
        hterm]

/-- No carried entry contradicts a committed one. -/
theorem complete (h : Link l f) (hcarries : Carries l msg) {k : Nat} {e : Entry}
    (hk : msg.entries[k]? = some e) (hcommit : msg.prevLogIndex + k + 1 ≤ f.commitIndex) :
    ¬ f.indices.Conflicts (msg.prevLogIndex + k + 1) e.term := by
  have hoffset := hcarries.offset_le
  rintro ⟨hlt, x, hx, hterm⟩
  rw [hcarries.entries, (h.committed _ hcommit).entry (by omega) hlt, hx] at hk
  exact hterm (congrArg Entry.term (Option.some.inj hk))

/-- What is kept of the follower's log and what is put after it agree with the leader's. -/
theorem agree_cut (h : Link l f) (hcarries : Carries l msg) {k : Nat}
    (hordered : f'.indices.Ordered) (hoffset : f'.logOffset = f.logOffset)
    (hoffsetTerm : f'.logOffsetTerm = f.logOffsetTerm)
    (hlog : f'.log = f.log.take (msg.prevLogIndex + k - f.logOffset) ++ msg.entries.drop k)
    (hkept : f.logOffset ≤ msg.prevLogIndex + k ∧ msg.prevLogIndex + k ≤ f.indices.last)
    (hagree : ∀ j ≤ msg.prevLogIndex + k, AgreeAt l f j) :
    ∀ i ≤ l.indices.last, AgreeAt l f' i := by
  intro i hi
  have hbase := hcarries.offset_le
  have hlast : f.indices.last = f.logOffset + f.log.length := rfl
  have hlength : (f.log.take (msg.prevLogIndex + k - f.logOffset)).length =
      msg.prevLogIndex + k - f.logOffset := by
    rw [List.length_take]
    omega
  by_cases hle : i ≤ msg.prevLogIndex + k
  · -- kept entries
    have hentry : f.logOffset < i → f'.indices.entryAt? i = f.indices.entryAt? i := fun hlt => by
      simp only [indices, Indices.entryAt?]
      rw [hlog, hoffset, List.getElem?_append_left (by omega), List.getElem?_take,
        if_pos (by omega)]
    refine ⟨fun hl hf => ?_, fun hl hf => ?_⟩
    · rw [hoffset] at hf
      rw [(hagree i hle).term hl hf]
      rcases hf.eq_or_lt with heq | hlt
      · rw [← heq, termAt, termAt, hoffset, hoffsetTerm, if_pos rfl, if_pos rfl]
      · obtain ⟨e, he⟩ := (exists_entryAt?_iff hlt).mpr (hle.trans hkept.2)
        rw [termAt_of_ordered h.ordered' hlt he,
          termAt_of_ordered hordered (hoffset.trans_lt hlt) ((hentry hlt).trans he)]
    · rw [hoffset] at hf
      rw [hentry hf, (hagree i hle).entry hl hf]
  · -- new entries
    obtain ⟨e, he⟩ := (exists_entryAt?_iff (show l.logOffset < i by omega)).mpr hi
    refine agreeAt_of_entry h.ordered hordered (by omega) (by omega) he ?_
    have hcarried := hcarries.entries (i - msg.prevLogIndex - 1)
    rw [show msg.prevLogIndex + (i - msg.prevLogIndex - 1) + 1 = i by omega, he] at hcarried
    have hposition : k + (i - f.logOffset - 1 - (msg.prevLogIndex + k - f.logOffset)) =
        i - msg.prevLogIndex - 1 := by
      omega
    simp only [indices, Indices.entryAt?]
    rw [hlog, hoffset, List.getElem?_append_right (by omega), List.getElem?_drop, hlength,
      hposition, hcarried]

/-- The message goes in completely, and the logs agree afterwards. -/
theorem accepted (h : Link l f) (hcarries : Carries l msg) (hlog : f.logOk msg = true)
    (hhealthy : (f.acceptEntries msg).1.storageFailed = false) :
    (f.acceptEntries msg).2.success = true ∧
      (f.acceptEntries msg).2.matchIndex = l.lastLogIndex ∧
      l.lastLogIndex ≤ (f.acceptEntries msg).1.lastLogIndex ∧
      ∀ i ≤ l.lastLogIndex, AgreeAt l (f.acceptEntries msg).1 i := by
  have hnumbered := hcarries.numbered h.ordered
  have hprev := prev_le_of_ordered h.ordered' hlog
  have hordered := ((acceptEntries_changes le_rfl h.ordered' hnumbered.wrapped
    hnumbered.index_lt hlog).spec le_rfl h.ordered').1
  have houtcome := appendLoop_message h.ordered' hnumbered hprev
  have hfinished := acceptEntries_finished f msg
  have hcomplete := houtcome.complete_iff.mpr fun k e => h.complete hcarries
  have hsuccess := (hfinished.healthy hcomplete hhealthy).1
  obtain ⟨log, commit, wal, failed, hframe⟩ := f.acceptEntries_frame msg
  have hoffset : (f.acceptEntries msg).1.logOffset = f.logOffset := by rw [hframe]
  have hoffsetTerm : (f.acceptEntries msg).1.logOffsetTerm = f.logOffsetTerm := by rw [hframe]
  rw [lastLogIndex_of_ordered h.ordered, lastLogIndex_of_ordered hordered]
  refine ⟨hsuccess, ?_, ?_⟩
  · rw [(hfinished.matchIndex hsuccess).2, hcarries.last, wrap64_of_lt h.ordered.last_lt]
  have hagree := h.agree_prev hcarries hlog
  have hmsg := hcarries.last
  have hnew := fun k e => houtcome.last_of_new (k := k) (e := e) hcomplete hprev
  generalize f.appendLoop msg.prevLogIndex 0 msg.entries = looped at *
  cases houtcome with
  | refused => cases hcomplete
  | covered hall =>
      have hlast : (f.acceptEntries msg).1.indices.last = f.indices.last := by
        simp only [indices, Indices.last, hfinished.log, hoffset]
      have hreaches : l.indices.last ≤ f.indices.last ∧ ∀ j ≤ l.indices.last, AgreeAt l f j := by
        cases hn : msg.entries.length with
        | zero =>
            rw [hn, Nat.add_zero] at hmsg
            exact hmsg ▸ ⟨hprev, hagree⟩
        | succ n =>
            obtain ⟨e, he⟩ : ∃ e, msg.entries[n]? = some e :=
              ⟨_, List.getElem?_eq_getElem (by omega)⟩
            have hlast := h.agree_covered hcarries he (hall n e he)
            rw [show msg.prevLogIndex + n + 1 = l.indices.last by omega] at hlast
            have hreach := (hall n e he).le_last
            exact ⟨by omega, hlast⟩
      rw [hlast]
      exact ⟨hreaches.1, fun i hi => (hreaches.2 i hi).congr hfinished.log hoffset hoffsetTerm⟩
  | cut k e wal hk huncovered hcommit hfirst =>
      refine ⟨?_, h.agree_cut hcarries hordered hoffset hoffsetTerm hfinished.log ?_ ?_⟩
      · have hlast : (f.acceptEntries msg).1.indices.last =
            msg.prevLogIndex + msg.entries.length := by
          rw [← hnew k e hk huncovered]
          simp only [indices, Indices.last, hfinished.log, hoffset]
        rw [hlast, hmsg]
      · have hlength := (List.getElem?_eq_some_iff.mp hk).1
        refine ⟨?_, le_last_of_first hprev hfirst hlength.le⟩
        have hoffset : f.logOffset < msg.prevLogIndex + k + 1 :=
          not_le.mp fun hle => huncovered (.inl hle)
        omega
      · cases k with
        | zero => exact hagree
        | succ j =>
            have hlength := (List.getElem?_eq_some_iff.mp hk).1
            have hj : msg.entries[j]? = some _ := List.getElem?_eq_getElem (by omega)
            exact h.agree_covered hcarries hj (hfirst j _ j.lt_succ_self hj)

end Link

end Raft

end RaftKv
