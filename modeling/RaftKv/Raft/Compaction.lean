import RaftKv.Raft.Append

/-! # Compacted nodes

A node that has dropped its log up to some applied index, beside the same node that has not. The
two have the same last index and term, the same entries and terms above the cut, and they answer
votes, pre-votes and appends above the cut alike.
-/

namespace RaftKv.Raft

variable {D : Type} {r s r' s' : Raft D} {b i : Nat} {msg : Message D}

theorem lastLogTerm_of_ordered (hordered : r.indices.Ordered) (hne : r.log ≠ []) :
    r.lastLogTerm = r.termAt r.indices.last := by
  have hlength := List.length_pos_iff.mpr hne
  have hentry : r.indices.entryAt? r.indices.last = some (r.log.getLast hne) := by
    simp only [indices, Indices.entryAt?, Indices.last]
    rw [Nat.add_sub_cancel_left, ← List.getLast?_eq_getElem?,
      List.getLast?_eq_getLast_of_ne_nil hne]
  have hoffset : r.logOffset < r.indices.last := by
    simp only [indices, Indices.last]
    omega
  rw [termAt_of_ordered hordered hoffset hentry, Raft.lastLogTerm,
    List.getLast?_eq_getLast_of_ne_nil hne]

theorem syncWal_ok (hhealthy : r.syncWal.1.storageFailed = false) : r.syncWal.2 = true := by
  by_contra hno
  cases hhealthy.symm.trans (syncWal_failed (Bool.not_eq_true _ ▸ hno))

variable [Blob D]

/-- Everything but the log, its compaction point, the cached snapshot and the WAL. -/
def rest (r : Raft D) : Raft D :=
  { r with
    log := []
    logOffset := 0
    logOffsetTerm := 0
    lastSnapshotIndex := 0
    lastSnapshotData := Blob.empty
    wal := none }

/-- A flush that succeeds changes nothing but the WAL. -/
theorem rest_syncWal (hhealthy : r.syncWal.1.storageFailed = false) :
    r.syncWal.1.rest = r.rest := by
  have hbefore : (r.storageFailed || !r.syncWal.2) = false := hhealthy
  rw [Bool.or_eq_false_iff] at hbefore
  show ({ r.rest with storageFailed := r.storageFailed || !r.syncWal.2 } : Raft D) = r.rest
  rw [hbefore.1, hbefore.2, Bool.or_false, ← hbefore.1]
  rfl

theorem rest_becomeFollower {term lead : Nat}
    (hhealthy : (r.becomeFollower term lead).storageFailed = false) :
    (r.becomeFollower term lead).rest = r.rest.becomeFollower term lead := by
  rcases lt_trichotomy term r.term with hstale | hsame | hnew
  · have heq : ∀ x : Raft D, term < x.term → x.becomeFollower term lead = x := fun x hx => by
      rw [Raft.becomeFollower, if_pos hx]
    rw [heq r hstale, heq r.rest hstale]
  · rw [becomeFollower_of_eq hsame, becomeFollower_of_eq (r := r.rest) hsame]
    rfl
  · rw [becomeFollower_of_lt hnew] at hhealthy ⊢
    rw [becomeFollower_of_lt (r := r.rest) hnew, rest_syncWal hhealthy]
    simp [Raft.rest, saveHardState, syncWal, resetRandomizedElectionTimeout]

/-- `s` is `r` with the log up to `b` dropped. -/
structure Compacted (b : Nat) (r s : Raft D) : Prop where
  ordered : r.indices.Ordered
  offset_lt : r.logOffset < b
  applied_le : b ≤ r.lastApplied
  rest : s.rest = r.rest
  log : s.log = r.log.drop (b - r.logOffset)
  logOffset : s.logOffset = b
  logOffsetTerm : s.logOffsetTerm = r.termAt b

namespace Compacted

theorem le_last (h : Compacted b r s) : b ≤ r.indices.last :=
  h.applied_le.trans (h.ordered.applied_le.trans h.ordered.commit_le)

/-- The two agree in everything that does not look at the log. -/
theorem congr {α : Type} (h : Compacted b r s) (f : Raft D → α)
    (hf : ∀ x : Raft D, f x.rest = f x) :
    f s = f r :=
  (hf s).symm.trans ((congrArg f h.rest).trans (hf r))

theorem commitIndex (h : Compacted b r s) : s.commitIndex = r.commitIndex :=
  h.congr Raft.commitIndex fun _ => rfl

theorem lastApplied (h : Compacted b r s) : s.lastApplied = r.lastApplied :=
  h.congr Raft.lastApplied fun _ => rfl

theorem term (h : Compacted b r s) : s.term = r.term := h.congr Raft.term fun _ => rfl

theorem storageFailed (h : Compacted b r s) : s.storageFailed = r.storageFailed :=
  h.congr Raft.storageFailed fun _ => rfl

theorem rejects (h : Compacted b r s) (msg : Message D) : s.rejects msg = r.rejects msg :=
  h.congr (Raft.rejects · msg) fun _ => rfl

/-! ## Indices and terms -/

theorem last (h : Compacted b r s) : s.indices.last = r.indices.last := by
  have hlast := h.le_last
  have hoffset := h.offset_lt
  simp only [indices, Indices.last] at hlast ⊢
  rw [h.log, h.logOffset, List.length_drop]
  omega

theorem lastLogIndex (h : Compacted b r s) : s.lastLogIndex = r.lastLogIndex :=
  congrArg wrap64 h.last

theorem entryAt? (h : Compacted b r s) (hi : b < i) :
    s.indices.entryAt? i = r.indices.entryAt? i := by
  have hoffset := h.offset_lt
  simp only [indices, Indices.entryAt?]
  rw [h.log, h.logOffset, List.getElem?_drop]
  congr 1
  omega

theorem ordered' (h : Compacted b r s) : s.indices.Ordered := by
  have hcompact : Indices.Change (2 ^ 64) r.indices _ := .compact b h.offset_lt h.applied_le
  have hs := hcompact.ordered le_rfl h.ordered
  refine ⟨?_, ?_, ?_, ?_, ?_⟩
  · intro k e he
    have hlog : s.indices.log = r.log.drop (b - r.logOffset) := h.log
    rw [hlog] at he
    exact (hs.indexed k e he).trans (congrArg (· + k + 1) h.logOffset.symm)
  · exact h.logOffset.le.trans (hs.offset_le.trans h.lastApplied.ge)
  · exact h.lastApplied.le.trans (hs.applied_le.trans h.commitIndex.ge)
  · exact h.commitIndex.le.trans (h.ordered.commit_le.trans h.last.ge)
  · exact h.last.le.trans_lt h.ordered.last_lt

theorem entry_at_cut (h : Compacted b r s) : ∃ e, r.indices.entryAt? b = some e := by
  have hlast := h.le_last
  have hoffset := h.offset_lt
  simp only [indices, Indices.last] at hlast
  exact ⟨_, List.getElem?_eq_getElem (show b - r.logOffset - 1 < r.log.length by omega)⟩

theorem termAt (h : Compacted b r s) (hi : b ≤ i) : s.termAt i = r.termAt i := by
  have hoffset := h.offset_lt
  rcases hi.eq_or_lt with rfl | hlt
  · rw [Raft.termAt, if_neg (by omega), if_pos h.logOffset.symm, h.logOffsetTerm]
  · by_cases hlast : i ≤ r.indices.last
    · obtain ⟨e, he⟩ : ∃ e, r.indices.entryAt? i = some e :=
        ⟨_, List.getElem?_eq_getElem (show i - r.logOffset - 1 < r.log.length by
          simp only [indices, Indices.last] at hlast
          omega)⟩
      rw [termAt_of_ordered h.ordered (by omega) he,
        termAt_of_ordered h.ordered' (h.logOffset.trans_lt hlt) ((h.entryAt? hlt).trans he)]
    · have hbeyond : r.lastLogIndex < i := by
        rw [lastLogIndex_of_ordered h.ordered]
        omega
      have hboth : ∀ x : Raft D, x.lastLogIndex < i → x.logOffset < i → x.termAt i = 0 := by
        intro x hx hx'
        rw [Raft.termAt, if_neg (by omega), if_neg (by omega), if_pos (.inr hx)]
      rw [hboth r hbeyond (by omega), hboth s (h.lastLogIndex.trans_lt hbeyond)
        (h.logOffset.trans_lt hlt)]

theorem lastLogTerm (h : Compacted b r s) : s.lastLogTerm = r.lastLogTerm := by
  have hoffset := h.offset_lt
  have hlast := h.le_last
  have hr : r.log ≠ [] := fun hnil => by
    simp only [indices, Indices.last, hnil, List.length_nil] at hlast
    omega
  rw [lastLogTerm_of_ordered h.ordered hr, ← h.termAt hlast]
  by_cases hs : s.log = []
  · -- the cut is at the last entry
    have hend : r.indices.last = s.logOffset := by
      rw [← h.last]
      simp [indices, Indices.last, hs]
    rw [hend, Raft.termAt, if_neg (by rw [h.logOffset]; omega), if_pos rfl, Raft.lastLogTerm, hs]
    rfl
  · rw [lastLogTerm_of_ordered h.ordered' hs, h.last]

theorem isLogUpToDate (h : Compacted b r s) (index term : Nat) :
    s.isLogUpToDate index term = r.isLogUpToDate index term := by
  unfold Raft.isLogUpToDate
  rw [h.lastLogTerm, h.lastLogIndex]

theorem covers_iff (h : Compacted b r s) (hi : b < i) (term : Nat) :
    s.indices.Covers i term ↔ r.indices.Covers i term := by
  have hoffset := h.offset_lt
  unfold Indices.Covers
  rw [h.entryAt? hi]
  refine or_congr (iff_of_false ?_ ?_) Iff.rfl
  · exact fun hle => absurd (show i ≤ s.logOffset from hle) (by rw [h.logOffset]; omega)
  · exact fun hle => absurd (show i ≤ r.logOffset from hle) (by omega)

theorem logEntry (h : Compacted b r s) (hi : b < i) (hlt : i < 2 ^ 64) :
    s.logEntry i = r.logEntry i := by
  have hentry := h.entryAt? hi
  simp only [indices, Indices.entryAt?] at hentry
  rw [Raft.logEntry, Raft.logEntry, logPosition_of_lt (h.logOffset.trans_lt hi) hlt,
    logPosition_of_lt (h.offset_lt.trans hi) hlt, List.getD_eq_getElem?_getD,
    List.getD_eq_getElem?_getD, hentry]

/-! ## Operations that leave the log alone -/

theorem keep (h : Compacted b r s) (hr : SameLog r r') (hs : SameLog s s')
    (hrest : s'.rest = r'.rest) : Compacted b r' s' where
  ordered := hr.ordered h.ordered
  offset_lt := hr.logOffset ▸ h.offset_lt
  applied_le := hr.lastApplied ▸ h.applied_le
  rest := hrest
  log := by rw [hs.log, hr.log, hr.logOffset, h.log]
  logOffset := hs.logOffset.trans h.logOffset
  logOffsetTerm := by rw [hs.logOffsetTerm, h.logOffsetTerm, hr.termAt]

theorem becomeFollower (h : Compacted b r s) {term lead : Nat}
    (hr : (r.becomeFollower term lead).storageFailed = false)
    (hs : (s.becomeFollower term lead).storageFailed = false) :
    Compacted b (r.becomeFollower term lead) (s.becomeFollower term lead) := by
  refine h.keep becomeFollower_sameLog becomeFollower_sameLog ?_
  rw [rest_becomeFollower hr, rest_becomeFollower hs, h.rest]

theorem syncWal (h : Compacted b r s) (hr : r.syncWal.1.storageFailed = false)
    (hs : s.syncWal.1.storageFailed = false) : Compacted b r.syncWal.1 s.syncWal.1 := by
  refine h.keep ⟨rfl, rfl, rfl, rfl, rfl⟩ ⟨rfl, rfl, rfl, rfl, rfl⟩ ?_
  rw [rest_syncWal hr, rest_syncWal hs, h.rest]

/-- The term of the message is adopted by both or by none. -/
theorem raise (h : Compacted b r s) (msg : Message D) (lead : Nat)
    (hr : (if msg.term > r.term then r.becomeFollower msg.term lead else r).storageFailed = false)
    (hs : (if msg.term > s.term then s.becomeFollower msg.term lead else s).storageFailed = false) :
    Compacted b (if msg.term > r.term then r.becomeFollower msg.term lead else r)
      (if msg.term > s.term then s.becomeFollower msg.term lead else s) := by
  rw [h.term] at hs ⊢
  by_cases hnew : msg.term > r.term
  · rw [if_pos hnew] at hr hs
    rw [if_pos hnew, if_pos hnew]
    exact h.becomeFollower hr hs
  · rw [if_neg hnew, if_neg hnew]
    exact h

theorem voteResponse (h : Compacted b r s) (granted : Bool) :
    s.voteResponse msg granted = r.voteResponse msg granted :=
  h.congr (Raft.voteResponse · msg granted) fun _ => rfl

/-! ## Votes and pre-votes -/

theorem grantVote (h : Compacted b r s) (hr : (r.grantVote msg).1.storageFailed = false)
    (hs : (s.grantVote msg).1.storageFailed = false) :
    Compacted b (r.grantVote msg).1 (s.grantVote msg).1 ∧
      (s.grantVote msg).2 = (r.grantVote msg).2 := by
  refine ⟨syncWal (h.keep ⟨rfl, rfl, rfl, rfl, rfl⟩ ⟨rfl, rfl, rfl, rfl, rfl⟩ ?_) hr hs, ?_⟩
  · exact h.congr (fun x => (resetRandomizedElectionTimeout
      { x with votedFor := msg.sender }).saveHardState.rest) fun _ => rfl
  · exact (syncWal_ok hs).trans (syncWal_ok hr).symm

theorem handleRequestVote (h : Compacted b r s)
    (hr : (r.handleRequestVote msg).1.storageFailed = false)
    (hs : (s.handleRequestVote msg).1.storageFailed = false) :
    Compacted b (r.handleRequestVote msg).1 (s.handleRequestVote msg).1 ∧
      (s.handleRequestVote msg).2 = (r.handleRequestVote msg).2 := by
  unfold Raft.handleRequestVote at hr hs ⊢
  rw [h.rejects] at hs ⊢
  by_cases hrejects : r.rejects msg = true
  · rw [if_pos hrejects, if_pos hrejects]
    exact ⟨h, h.voteResponse false⟩
  rw [if_neg hrejects] at hr hs
  rw [if_neg hrejects, if_neg hrejects]
  have hraise := h.raise msg 0
  generalize (if msg.term > r.term then r.becomeFollower msg.term 0 else r) = r' at *
  generalize (if msg.term > s.term then s.becomeFollower msg.term 0 else s) = s' at *
  dsimp only at hr hs ⊢
  by_cases hrf : r'.storageFailed = true
  · rw [if_pos hrf] at hr
    cases hrf.symm.trans hr
  by_cases hsf : s'.storageFailed = true
  · rw [if_pos hsf] at hs
    cases hsf.symm.trans hs
  rw [if_neg hrf] at hr
  rw [if_neg hsf] at hs
  rw [if_neg hrf, if_neg hsf]
  replace h := hraise (by simpa using hrf) (by simpa using hsf)
  rw [h.term, h.isLogUpToDate, h.congr Raft.votedFor fun _ => rfl] at hs ⊢
  split at hr
  next hgrant =>
    rw [if_pos hgrant] at hs
    rw [if_pos hgrant, if_pos hgrant]
    dsimp only at hr hs ⊢
    obtain ⟨hgranted, hsame⟩ := h.grantVote hr hs
    exact ⟨hgranted, by rw [hsame, hgranted.voteResponse]⟩
  next hrefuse =>
    rw [if_neg hrefuse, if_neg hrefuse]
    exact ⟨h, h.voteResponse false⟩

theorem handlePreVote (h : Compacted b r s) : s.handlePreVote msg = r.handlePreVote msg := by
  have hresponse : ∀ granted, s.preVoteResponse msg granted = r.preVoteResponse msg granted :=
    fun granted => h.congr (Raft.preVoteResponse · msg granted) fun _ => rfl
  unfold Raft.handlePreVote
  rw [h.rejects, h.storageFailed, h.term, h.isLogUpToDate, hresponse, hresponse,
    h.congr Raft.lead fun _ => rfl, h.congr Raft.electionElapsed fun _ => rfl,
    h.congr Raft.electionTimeout fun _ => rfl]

/-! ## Appends above the cut -/

theorem prepareForLeaderRpc (h : Compacted b r s)
    (hr : (r.prepareForLeaderRpc msg).1.storageFailed = false)
    (hs : (s.prepareForLeaderRpc msg).1.storageFailed = false) :
    Compacted b (r.prepareForLeaderRpc msg).1 (s.prepareForLeaderRpc msg).1 ∧
      (s.prepareForLeaderRpc msg).2 = (r.prepareForLeaderRpc msg).2 := by
  unfold Raft.prepareForLeaderRpc at hr hs ⊢
  rw [h.rejects] at hs ⊢
  by_cases hrejects : r.rejects msg = true
  · rw [if_pos hrejects, if_pos hrejects]
    exact ⟨h, rfl⟩
  rw [if_neg hrejects] at hr hs
  rw [if_neg hrejects, if_neg hrejects]
  have hraise := h.raise msg msg.sender
  generalize (if msg.term > r.term then r.becomeFollower msg.term msg.sender else r) = r' at *
  generalize (if msg.term > s.term then s.becomeFollower msg.term msg.sender else s) = s' at *
  dsimp only at hr hs ⊢
  by_cases hrf : r'.storageFailed = true
  · rw [if_pos (.inl hrf)] at hr
    cases hrf.symm.trans hr
  by_cases hsf : s'.storageFailed = true
  · rw [if_pos (.inl hsf)] at hs
    cases hsf.symm.trans hs
  replace h := hraise (by simpa using hrf) (by simpa using hsf)
  have hstate : s'.state = r'.state := h.congr Raft.state fun _ => rfl
  rw [h.term, h.storageFailed, hstate] at hs ⊢
  by_cases hstale : r'.storageFailed = true ∨ msg.term < r'.term
  · rw [if_pos hstale, if_pos hstale]
    exact ⟨h, rfl⟩
  rw [if_neg hstale] at hr hs
  rw [if_neg hstale, if_neg hstale]
  refine ⟨?_, rfl⟩
  have hfollow :
      Compacted b (if r'.state ≠ .follower then r'.becomeFollower msg.term msg.sender else r')
      (if r'.state ≠ .follower then s'.becomeFollower msg.term msg.sender else s') := by
    by_cases hfollower : r'.state ≠ .follower
    · rw [if_pos hfollower] at hr hs
      rw [if_pos hfollower, if_pos hfollower]
      exact h.becomeFollower hr hs
    · rw [if_neg hfollower, if_neg hfollower]
      exact h
  refine hfollow.keep ⟨rfl, rfl, rfl, rfl, rfl⟩ ⟨rfl, rfl, rfl, rfl, rfl⟩ ?_
  exact hfollow.congr (fun x => ({ resetRandomizedElectionTimeout x with
    lead := msg.sender } : Raft D).rest) fun _ => rfl

theorem logOk (h : Compacted b r s) (hprev : b ≤ msg.prevLogIndex) :
    s.logOk msg = r.logOk msg := by
  have hoffset : r.logOffset ≤ msg.prevLogIndex := h.offset_lt.le.trans hprev
  rw [Bool.eq_iff_iff, logOk_iff, logOk_iff, h.lastLogIndex, h.termAt hprev, h.logOffset]
  simp only [hprev, hoffset, true_and]

theorem conflicts_iff (h : Compacted b r s) (hi : b < i) (term : Nat) :
    s.indices.Conflicts i term ↔ r.indices.Conflicts i term := by
  unfold Indices.Conflicts
  rw [h.entryAt? hi]
  refine and_congr (iff_of_true ?_ ?_) Iff.rfl
  · exact h.logOffset.trans_lt hi
  · exact h.offset_lt.trans hi

/-- The loop runs alike on both logs. -/
theorem outcome (h : Compacted b r s) {base : Nat} {entries : List Entry}
    {mr ms : Raft D × Bool} (hbase : b ≤ base) (hr : Outcome r base entries mr)
    (hs : Outcome s base entries ms) :
    ms.2 = mr.2 ∧ ms.1.log = mr.1.log.drop (b - r.logOffset) ∧ b ≤ mr.1.indices.last := by
  have hoffset := h.offset_lt
  have hlast : b ≤ r.logOffset + r.log.length := h.le_last
  have hsame : ms.2 = mr.2 := by
    rw [Bool.eq_iff_iff, hs.complete_iff, hr.complete_iff, h.commitIndex]
    simp only [fun k term => h.conflicts_iff (show b < base + k + 1 by omega) term]
  refine ⟨hsame, ?_⟩
  cases hr with
  | covered hall =>
      have hcovers : ∀ k e, entries[k]? = some e → s.indices.Covers (base + k + 1) e.term :=
        fun k e he => (h.covers_iff (by omega) _).mpr (hall k e he)
      rw [hs.eq_of_covers hcovers]
      exact ⟨h.log, hlast⟩
  | refused k e hk hconflict hcommit =>
      rw [hs.log_of_refused hsame]
      exact ⟨h.log, hlast⟩
  | cut k e wal hk hnew hcommit hfirst =>
      have hlog := hs.log_of_first hsame hk ((h.covers_iff (by omega) _).not.mpr hnew)
        fun j x hj hx => (h.covers_iff (by omega) _).mpr (hfirst j x hj hx)
      rw [hlog, h.log, h.logOffset]
      dsimp only
      have hkept : b - r.logOffset ≤ (r.log.take (base + k - r.logOffset)).length := by
        rw [List.length_take]
        omega
      refine ⟨?_, ?_⟩
      · rw [List.drop_append_of_le_length hkept, List.drop_take]
        congr 2
        omega
      · simp only [indices, Indices.last, List.length_append]
        omega

theorem acceptEntries (h : Compacted b r s) (hnumbered : msg.Numbered)
    (hprev : b ≤ msg.prevLogIndex) (hlog : r.logOk msg = true)
    (hr : (r.acceptEntries msg).1.storageFailed = false)
    (hs : (s.acceptEntries msg).1.storageFailed = false) :
    Compacted b (r.acceptEntries msg).1 (s.acceptEntries msg).1 ∧
      (s.acceptEntries msg).2 = (r.acceptEntries msg).2 := by
  have hbase := prev_le_of_ordered h.ordered hlog
  obtain ⟨hordered, hkeeps, -⟩ := (acceptEntries_changes le_rfl h.ordered hnumbered.wrapped
    hnumbered.index_lt hlog).spec le_rfl h.ordered
  have hor := appendLoop_message h.ordered hnumbered hbase
  have hos := appendLoop_message h.ordered' hnumbered (hbase.trans h.last.ge)
  obtain ⟨hcomplete, hlogs, hlast⟩ := h.outcome hprev hor hos
  have hfr := acceptEntries_finished r msg
  have hfs := acceptEntries_finished s msg
  have hends : (s.appendLoop msg.prevLogIndex 0 msg.entries).1.lastLogIndex =
      (r.appendLoop msg.prevLogIndex 0 msg.entries).1.lastLogIndex := by
    have hoffset := h.offset_lt
    have hro := hor.frame.1
    have hso := hos.frame.1.trans h.logOffset
    generalize r.appendLoop msg.prevLogIndex 0 msg.entries = mr at *
    generalize s.appendLoop msg.prevLogIndex 0 msg.entries = ms at *
    simp only [indices, Indices.last] at hlast
    rw [Raft.lastLogIndex, Raft.lastLogIndex, hlogs, hso, List.length_drop]
    congr 1
    omega
  have hcommit : (s.acceptEntries msg).1.commitIndex = (r.acceptEntries msg).1.commitIndex := by
    cases hc : (r.appendLoop msg.prevLogIndex 0 msg.entries).2 with
    | false =>
        rw [hfr.broken hc, hfs.broken (hcomplete.trans hc)]
        exact hos.frame.2.trans (h.commitIndex.trans hor.frame.2.symm)
    | true =>
        rw [(hfr.healthy hc hr).2, (hfs.healthy (hcomplete.trans hc) hs).2, hends, hos.frame.2,
          hor.frame.2, h.commitIndex]
  have hcompacted : Compacted b (r.acceptEntries msg).1 (s.acceptEntries msg).1 := by
    obtain ⟨rlog, rcommit, rwal, rfailed, hre⟩ := r.acceptEntries_frame msg
    obtain ⟨slog, scommit, swal, sfailed, hse⟩ := s.acceptEntries_frame msg
    have hlogs' : (s.acceptEntries msg).1.log =
        (r.acceptEntries msg).1.log.drop (b - r.logOffset) :=
      hfs.log.trans (hlogs.trans (congrArg _ hfr.log.symm))
    have hterm : (r.acceptEntries msg).1.termAt b = r.termAt b := by
      have hoffset : (r.acceptEntries msg).1.logOffset = r.logOffset :=
        hfr.logOffset.trans hor.frame.1
      obtain ⟨e, he⟩ := h.entry_at_cut
      rw [termAt_of_ordered h.ordered h.offset_lt he]
      refine termAt_of_ordered hordered (hoffset ▸ h.offset_lt) ?_
      rw [hkeeps.entries b (hoffset.trans_lt h.offset_lt) (h.applied_le.trans h.ordered.applied_le),
        he]
    rw [hre] at hr hordered hcommit hlogs' hterm ⊢
    rw [hse] at hs hcommit hlogs' ⊢
    obtain rfl : rfailed = false := hr
    obtain rfl : sfailed = false := hs
    obtain rfl : scommit = rcommit := hcommit
    refine ⟨hordered, h.offset_lt, h.applied_le, ?_, hlogs', h.logOffset,
      h.logOffsetTerm.trans hterm.symm⟩
    exact h.congr (fun x => ({ x with commitIndex := scommit, storageFailed := false } :
      Raft D).rest) fun _ => rfl
  refine ⟨hcompacted, ?_⟩
  rw [acceptEntries_answer hr, acceptEntries_answer hs, hcomplete, hcommit]
  exact hcompacted.congr (Raft.appendResponse · msg _ _) fun _ => rfl

theorem handleAppendEntries (h : Compacted b r s) (hnumbered : msg.Numbered)
    (hprev : b ≤ msg.prevLogIndex)
    (hr : (r.handleAppendEntries msg).1.storageFailed = false)
    (hs : (s.handleAppendEntries msg).1.storageFailed = false) :
    Compacted b (r.handleAppendEntries msg).1 (s.handleAppendEntries msg).1 ∧
      (s.handleAppendEntries msg).2 = (r.handleAppendEntries msg).2 := by
  obtain ⟨hprepared, hready⟩ := h.prepareForLeaderRpc (prepared_healthy hr) (prepared_healthy hs)
  unfold Raft.handleAppendEntries at hr hs ⊢
  generalize r.prepareForLeaderRpc msg = pr at *
  generalize s.prepareForLeaderRpc msg = ps at *
  obtain ⟨pr, ready⟩ := pr
  obtain ⟨ps, ready'⟩ := ps
  dsimp only at *
  subst hready
  have hresponse : ps.appendResponse msg false 0 = pr.appendResponse msg false 0 :=
    hprepared.congr (Raft.appendResponse · msg false 0) fun _ => rfl
  rw [hprepared.logOk hprev] at hs ⊢
  cases ready' with
  | false => exact ⟨hprepared, hresponse⟩
  | true =>
      cases hlog : pr.logOk msg with
      | false => exact ⟨hprepared, hresponse⟩
      | true =>
          rw [hlog] at hr hs
          exact hprepared.acceptEntries hnumbered hprev hlog hr hs

end Compacted

end RaftKv.Raft
