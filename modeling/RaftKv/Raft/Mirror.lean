import RaftKv.Raft.Range

/-! # The file mirrors the node

A healthy node in range is exactly what its file recovers to. The invariant is
carried through one move at a time: every move writes admissible records, and
its effect on the durable part of the node is the effect of those records.
-/

namespace RaftKv.Raft

variable {D : Type} {o : Outside D} {r next : Raft D} {w : Wal D} {msg : Message D}

/-- A new hard state over an unchanged log, flushed. -/
theorem Writes.of_hardState (mid : Raft D) (hvalid : r.durable.Valid) (hwal : r.wal = some w)
    (hclean : w.Clean) (hmid : mid.wal = r.wal) (hhealthy : mid.storageFailed = false)
    (hlog : mid.durable =
      { r.durable with term := mid.term, vote := mid.votedFor, commit := mid.commitIndex })
    (hterm : mid.term < 2 ^ 64) (hge : r.commitIndex ≤ mid.commitIndex)
    (hle : mid.commitIndex ≤ r.logOffset + r.log.length)
    (hempty : mid.term = 0 → mid.votedFor = 0 → mid.commitIndex = 0 →
      r.term = 0 ∧ r.votedFor = 0) :
    Writes r w mid.hardStateRecord mid.saveHardState.syncWal.1 := by
  have hoffset := hvalid.offset_le
  simp only [durable] at hoffset
  rw [saveHardState_flush]
  unfold hardStateRecord
  split
  next hzero =>
    -- an empty hard state is not written: nothing has changed
    obtain ⟨hzero, hvote, hcommit⟩ := hzero
    refine .of_flush hwal hclean hmid hhealthy trivial ?_
    obtain ⟨hrt, hrv⟩ := hempty hzero hvote hcommit
    have hrc : r.commitIndex = 0 := by omega
    rw [hlog]
    simp [durable, hzero, hvote, hcommit, hrt, hrv, hrc]
  · refine .of_flush hwal hclean hmid hhealthy ⟨⟨hterm, hge, hle⟩, trivial⟩ ?_
    rw [hlog]
    simp only [List.foldl_cons, List.foldl_nil, Durable.apply, durable]
    rw [max_eq_right (by omega)]

/-! ## Terms and votes -/

theorem becomeFollower_writes (hvalid : r.durable.Valid) (hwal : r.wal = some w)
    (hclean : w.Clean) (hhealthy : r.storageFailed = false) {term lead : Nat}
    (hterm : r.term < term) (hlt : term < 2 ^ 64) :
    Writes r w [.hardState ⟨term, 0, r.commitIndex⟩] (r.becomeFollower term lead) := by
  rw [becomeFollower_of_lt hterm]
  let mid := resetRandomizedElectionTimeout { r with
    state := .follower
    term := term
    lead := lead
    votedFor := 0
    readIndexPending := false
    pendingReadIndex := 0
    pendingReadContext := 0
    readIndexAcks := Table.empty
    pendingPreVoteTerm := 0 }
  have hzero : mid.term ≠ 0 := Nat.ne_of_gt (Nat.zero_lt_of_lt hterm)
  have hwrites : Writes r w mid.hardStateRecord mid.saveHardState.syncWal.1 :=
    .of_hardState mid hvalid hwal hclean rfl hhealthy rfl hlt le_rfl hvalid.commit_le
      (fun h => absurd h hzero)
  rwa [hardStateRecord, if_neg (fun h => hzero h.1)] at hwrites

theorem becomeCandidate_writes (hvalid : r.durable.Valid) (hwal : r.wal = some w)
    (hclean : w.Clean) (hhealthy : r.storageFailed = false) (hterm : r.term + 1 < 2 ^ 64) :
    Writes r w [.hardState ⟨r.term + 1, r.id, r.commitIndex⟩] r.becomeCandidate := by
  let mid := resetRandomizedElectionTimeout { r with
    state := .candidate
    term := wrap64 (r.term + 1)
    lead := 0
    votedFor := r.id
    votes := Table.empty
    pendingPreVoteTerm := 0 }
  have hnext : mid.term = r.term + 1 := wrap64_of_lt hterm
  have hzero : mid.term ≠ 0 := by omega
  have hwrites : Writes r w mid.hardStateRecord mid.saveHardState.syncWal.1 :=
    .of_hardState mid hvalid hwal hclean rfl hhealthy rfl (hnext ▸ hterm) le_rfl hvalid.commit_le
      (fun h => absurd h hzero)
  rw [hardStateRecord, if_neg (fun h => hzero h.1), hnext] at hwrites
  exact hwrites

theorem grantVote_writes (hvalid : r.durable.Valid) (hwal : r.wal = some w)
    (hclean : w.Clean) (hhealthy : r.storageFailed = false) (hsender : msg.sender ≠ 0) :
    Writes r w [.hardState ⟨r.term, msg.sender, r.commitIndex⟩] (r.grantVote msg).1 := by
  let mid := resetRandomizedElectionTimeout { r with votedFor := msg.sender }
  have hwrites : Writes r w mid.hardStateRecord mid.saveHardState.syncWal.1 :=
    .of_hardState mid hvalid hwal hclean rfl hhealthy rfl hvalid.term_lt le_rfl hvalid.commit_le
      (fun _ h => absurd h hsender)
  rwa [hardStateRecord, if_neg (fun h => hsender h.2.1)] at hwrites

/-! ## Replication bodies -/

/-- The batch flush: the loop's records reach the file, or the node is marked. -/
theorem appendLoop_flush {added log : List Entry} {entries : List Entry} {prev : Nat}
    (hwal : r.wal = some w) (hclean : w.Clean) (hhealthy : r.storageFailed = false)
    (hadded : Appended r prev entries (r.appendLoop prev 0 entries) added log) :
    ∃ w' ok, (if entries.isEmpty then ((r.appendLoop prev 0 entries).1, true)
        else (r.appendLoop prev 0 entries).1.syncWal) =
        ({ r with log := log, wal := some w', storageFailed := !ok }, ok) ∧
      w.Flush (added.map Record.entry) w' ok := by
  cases entries with
  | nil =>
      have hstate := hadded.state
      have hdurable := hadded.durable
      simp only [appendLoop, hwal, Option.map_some] at hstate
      have hsave : w.save (added.map Record.entry) = w := by
        have := congrArg Raft.wal hstate
        simpa [hwal] using this.symm
      have hnil : added.map (Record.entry (D := D)) = [] := by
        have := congrArg Wal.buffer hsave
        simpa [Wal.save] using this
      have hlog : r.log = log := congrArg Raft.log hstate
      refine ⟨w, true, ?_, hnil ▸ .done w hclean (by simp)⟩
      simp only [List.isEmpty_nil, if_true, appendLoop, ← hlog, ← hwal]
      simp [← hhealthy]
  | cons e rest =>
      obtain ⟨w', ok, heq, hflush⟩ :=
        flush_of_clean (r := { r with log := log }) hwal hclean hhealthy
        (added.map Record.entry)
      refine ⟨w', ok, ?_, hflush⟩
      rw [List.isEmpty_cons, if_neg (by simp), hadded.state]
      exact heq

theorem prev_le_of_logOk (hvalid : r.durable.Valid) (hlog : r.logOk msg = true) :
    msg.prevLogIndex ≤ r.logOffset + r.log.length := by
  unfold logOk at hlog
  split at hlog
  · omega
  · split at hlog
    next h =>
      rw [lastLogIndex_of_valid hvalid] at h
      exact h.2
    · cases hlog

theorem accepted_spec (hvalid : r.durable.Valid) (hrange : msg.InRange)
    (htype : msg.type = .appendEntries) (hlog : r.logOk msg = true) :
    ∃ added log, Appended r msg.prevLogIndex msg.entries
      (r.appendLoop msg.prevLogIndex 0 msg.entries) added log :=
  appendLoop_spec (i := 0) hvalid (hrange.indexed htype) (hrange.entries htype)
    (prev_le_of_logOk hvalid hlog)

theorem appendOwn_writes (hvalid : r.durable.Valid) (hwal : r.wal = some w) (hclean : w.Clean)
    (hhealthy : r.storageFailed = false) (hroom : r.lastLogIndex + 2 < 2 ^ 64) (data : Bytes) :
    Writes r w [.entry (r.nextEntry data)] (r.appendOwn (r.nextEntry data)).1 := by
  have hlast := lastLogIndex_of_valid hvalid
  have hcommit := hvalid.commit_le
  simp only [Durable.last, durable] at hcommit
  have hindex : (r.nextEntry data).index = r.logOffset + r.log.length + 1 := by
    simp only [nextEntry]
    rw [wrap64_of_lt (by omega), hlast]
  have haccepts : r.durable.Accepts [.entry (r.nextEntry data)] := by
    refine ⟨?_, trivial⟩
    simp only [Durable.Admits, Durable.last, durable, hindex]
    omega
  have hdurable : ({ r with log := r.log ++ [r.nextEntry data] } : Raft D).durable =
      [Record.entry (r.nextEntry data)].foldl Durable.apply r.durable := by
    have htake : r.log.takeWhile (fun x => x.index < (r.nextEntry data).index) = r.log := by
      rw [takeWhile_log hvalid, List.take_of_length_le (by omega)]
    simp [Durable.apply, durable, htake]
  obtain ⟨w', ok, heq, hflush⟩ := flush_of_clean
    (r := { r with log := r.log ++ [r.nextEntry data] }) hwal hclean hhealthy
    [.entry (r.nextEntry data)]
  have hsync : (saveEntry { r with log := r.log ++ [r.nextEntry data] }
      (r.nextEntry data)).syncWal = _ := heq
  unfold appendOwn
  rw [hsync]
  cases hflush with
  | done hclean' hfile => exact .synced w' haccepts rfl rfl hclean' hfile hdurable
  | torn kept rest hsplit hmarked hfile hlost =>
      -- the append is undone in memory
      refine .failed w' kept rest [] haccepts (hsplit ▸ List.prefix_rfl) List.nil_prefix rfl rfl
        hmarked hfile hlost ?_
      simp [durable]

/-- Either nothing is replicated anew, or the commit index moves up and is written. -/
theorem chooseCommit_writes (hvalid : r.durable.Valid) (hwal : r.wal = some w) (hclean : w.Clean)
    (hhealthy : r.storageFailed = false) :
    r.chooseCommit = r ∨ ∃ c, r.commitIndex < c ∧ c ≤ r.logOffset + r.log.length ∧
      r.Replicated c ∧ Writes r w [.hardState ⟨r.term, r.votedFor, c⟩] r.chooseCommit := by
  obtain ⟨c, heq, hc⟩ := advanceCommit_spec hvalid
  unfold chooseCommit
  rw [heq]
  rcases hc with rfl | ⟨hlt, hle, hreplicated⟩
  · exact .inl (if_neg (lt_irrefl _))
  · refine .inr ⟨c, hlt, hle, hreplicated, ?_⟩
    rw [if_pos hlt]
    have hwrites := Writes.of_hardState { r with commitIndex := c } hvalid hwal hclean rfl
      hhealthy rfl hvalid.term_lt (le_of_lt hlt) hle
      (fun _ _ h => absurd hlt (by simp only at h; omega))
    rwa [hardStateRecord, if_neg (by simp only; omega)] at hwrites

section

variable [Blob D]

/-- What `handle_append_entries` does once the consistency check has passed. -/
structure Accepted (r : Raft D) (w : Wal D) (msg : Message D) (added log : List Entry)
    (more : List (Record D)) : Prop where
  appended : Appended r msg.prevLogIndex msg.entries
    (r.appendLoop msg.prevLogIndex 0 msg.entries) added log
  writes : Writes r w (added.map Record.entry ++ more) (r.acceptEntries msg).1
  learned : more = [] ∨ (r.appendLoop msg.prevLogIndex 0 msg.entries).2 = true ∧
    r.commitIndex < msg.leaderCommit ∧
    more = hardStateRecord { r with
      log := log
      commitIndex := min msg.leaderCommit (r.logOffset + log.length) }
  response : (r.acceptEntries msg).2.success = true →
    (r.appendLoop msg.prevLogIndex 0 msg.entries).2 = true ∧
    (r.acceptEntries msg).2.matchIndex = msg.prevLogIndex + msg.entries.length ∧
    (r.acceptEntries msg).1.storageFailed = false ∧ (r.acceptEntries msg).1.log = log

theorem acceptEntries_of_flush {flushed : Raft D × Bool}
    (hcomplete : (r.appendLoop msg.prevLogIndex 0 msg.entries).2 = true)
    (hflushed : (if msg.entries.isEmpty then
        ((r.appendLoop msg.prevLogIndex 0 msg.entries).1, true)
      else (r.appendLoop msg.prevLogIndex 0 msg.entries).1.syncWal) = flushed) :
    r.acceptEntries msg =
      if flushed.2 = false then (flushed.1, flushed.1.appendResponse msg false 0)
      else if msg.leaderCommit > flushed.1.commitIndex then
        ((flushed.1.learnCommit msg).1, (flushed.1.learnCommit msg).1.appendResponse msg
          (flushed.1.learnCommit msg).2 (wrap64 (msg.prevLogIndex + msg.entries.length)))
      else (flushed.1, flushed.1.appendResponse msg true
        (wrap64 (msg.prevLogIndex + msg.entries.length))) := by
  unfold acceptEntries finishEntries
  simp only [hcomplete, hflushed, Bool.not_true, Bool.false_eq_true, if_false,
    Bool.not_eq_eq_eq_not]

theorem acceptEntries_spec (hvalid : r.durable.Valid) (hwal : r.wal = some w) (hclean : w.Clean)
    (hhealthy : r.storageFailed = false) (hrange : msg.InRange) (htype : msg.type = .appendEntries)
    (hlog : r.logOk msg = true) : ∃ added log more, Accepted r w msg added log more := by
  obtain ⟨added, log, hadded⟩ := accepted_spec hvalid hrange htype hlog
  obtain ⟨w', ok, hsynced, hflush⟩ := appendLoop_flush hwal hclean hhealthy hadded
  have hmatch : wrap64 (msg.prevLogIndex + msg.entries.length) =
      msg.prevLogIndex + msg.entries.length := wrap64_of_lt (by have := hrange.entries htype; omega)
  cases hcomplete : (r.appendLoop msg.prevLogIndex 0 msg.entries).2 with
  | false =>
      obtain ⟨rfl, -⟩ := hadded.broken hcomplete
      have hsame := hadded.durable
      refine ⟨[], log, [], hadded, ?_, .inl rfl, ?_⟩
      · refine .of_eq hwal hclean hhealthy ?_ ?_ ?_
        · simp [acceptEntries, finishEntries, hcomplete, hadded.state]
        · simp [acceptEntries, finishEntries, hcomplete, hadded.state]
        · simpa [acceptEntries, finishEntries, hcomplete, hadded.state, durable] using hsame
      · simp [acceptEntries, finishEntries, hcomplete, appendResponse]
  | true =>
      have heq := acceptEntries_of_flush hcomplete hsynced
      cases hflush with
      | torn kept rest hsplit hmarked hfile hlost =>
          rw [if_pos rfl] at heq
          refine ⟨added, log, [], hadded, ?_, .inl rfl, ?_⟩
          · rw [List.append_nil, heq]
            exact .failed w' kept rest _ hadded.accepts (hsplit ▸ List.prefix_rfl)
              (hsplit ▸ List.prefix_rfl) rfl rfl hmarked hfile hlost hadded.durable
          · simp [heq, appendResponse]
      | done hclean' hfile =>
          rw [if_neg (by simp)] at heq
          have hvalid' : ({ r with log := log } : Raft D).durable.Valid := by
            rw [hadded.durable]
            exact hadded.accepts.valid hvalid
          have hcommit := hvalid'.commit_le
          simp only [Durable.last, durable] at hcommit
          by_cases hlearn : r.commitIndex < msg.leaderCommit
          · let mid : Raft D := { r with log := log, wal := some w', storageFailed := false }
            have hlast : mid.lastLogIndex = r.logOffset + log.length :=
              lastLogIndex_of_valid hvalid'
            rw [if_pos hlearn] at heq
            refine ⟨added, log, _, hadded, ?_, .inr ⟨hcomplete, hlearn, rfl⟩, ?_⟩
            · rw [heq]
              refine .trans hadded.accepts hfile (show mid.durable = _ from hadded.durable) ?_
              have hwrites : Writes mid w' _ _ := .of_hardState { mid with
                  commitIndex := min msg.leaderCommit (r.logOffset + log.length) }
                hvalid' rfl hclean' rfl rfl rfl hvalid.term_lt (by simp only [mid]; omega)
                (min_le_right _ _) (fun hterm hvote _ => ⟨hterm, hvote⟩)
              show Writes mid w' _ (mid.learnCommit msg).1
              unfold learnCommit
              rw [hlast]
              exact hwrites
            · rw [heq]
              intro hsuccess
              refine ⟨hcomplete, hmatch, ?_, rfl⟩
              have hok : (mid.learnCommit msg).2 = true := hsuccess
              show (mid.learnCommit msg).1.storageFailed = false
              exact syncWal_healthy rfl hok
          · rw [if_neg hlearn] at heq
            refine ⟨added, log, [], hadded, ?_, .inl rfl, ?_⟩
            · rw [List.append_nil, heq]
              exact .synced w' hadded.accepts rfl rfl hclean' hfile hadded.durable
            · rw [heq]
              exact fun _ => ⟨hcomplete, hmatch, rfl, rfl⟩

/-! ## Snapshots -/

/-- Either the index is refused, or the log is compacted and the snapshot written. -/
theorem takeSnapshot_writes (hsane : r.Sane) (hwal : r.wal = some w) (hclean : w.Clean)
    (hhealthy : r.storageFailed = false) (index : Nat) (state : D) :
    r.takeSnapshot index state = r ∨
      r.logOffset < index ∧ index ≤ r.lastApplied ∧
        Writes r w [.snapshot ⟨index, r.termAt index, state, false⟩]
          (r.takeSnapshot index state) := by
  unfold takeSnapshot
  split
  · exact .inl rfl
  next hrefused =>
    simp only [not_or, not_le, not_lt] at hrefused
    obtain ⟨hzero, hoffset, happlied⟩ := hrefused
    refine .inr ⟨hoffset, happlied, ?_⟩
    have hvalid := hsane.valid
    have hcommit := hvalid.commit_le
    simp only [Durable.last, durable] at hcommit
    have hle := hsane.applied_le
    have haccepts : r.durable.Accepts [.snapshot ⟨index, r.termAt index, state, false⟩] := by
      refine ⟨?_, trivial⟩
      simp only [Durable.Admits, Bool.false_eq_true, if_false, durable]
      omega
    dsimp only
    rw [saveSnapshot_flush _ _ hzero]
    obtain ⟨w', ok, heq, hflush⟩ := flush_of_clean hwal hclean hhealthy
      [.snapshot ⟨index, r.termAt index, state, false⟩]
    rw [heq]
    cases hflush with
    | torn kept rest hsplit hmarked hfile hlost =>
        exact .failed w' kept rest [] haccepts (hsplit ▸ List.prefix_rfl) List.nil_prefix rfl rfl
          hmarked hfile hlost rfl
    | done hclean' hfile =>
        refine .synced w' haccepts rfl rfl hclean' hfile ?_
        have hlog : compactLog r.log index = r.log.dropWhile (fun x => x.index ≤ index) := by
          rw [compactLog_eq (log_indexed hvalid) hoffset (by omega),
            Durable.dropWhile_index (log_indexed hvalid)]
        simp only [durable, List.foldl_cons, List.foldl_nil, Durable.apply, Bool.false_eq_true,
          if_false, Bool.not_true, hlog, Durable.mk.injEq, true_and, and_true]
        omega

theorem installSnapshot_writes (hvalid : r.durable.Valid) (hwal : r.wal = some w) (hclean : w.Clean)
    (hhealthy : r.storageFailed = false) (hrange : msg.snapshotIndex + 1 < 2 ^ 64)
    (hindex : msg.snapshotIndex ≠ 0) (hfresh : r.commitIndex ≤ msg.snapshotIndex) :
    Writes r w [.snapshot ⟨msg.snapshotIndex, msg.snapshotTerm, msg.snapshotData, true⟩,
      .hardState ⟨r.term, r.votedFor, msg.snapshotIndex⟩] (r.installSnapshot msg).1 := by
  let snap : SnapshotMeta D := ⟨msg.snapshotIndex, msg.snapshotTerm, msg.snapshotData, true⟩
  let adopted := r.durable.apply (.snapshot snap)
  have haccepts : r.durable.Accepts [.snapshot snap] := by
    refine ⟨?_, trivial⟩
    simp only [Durable.Admits, snap, if_true, durable]
    exact ⟨hfresh, hrange⟩
  have hboth : r.durable.Accepts ([.snapshot snap] ++
      [.hardState ⟨r.term, r.votedFor, msg.snapshotIndex⟩]) := by
    refine ⟨haccepts.1, ⟨hvalid.term_lt, ?_, ?_⟩, trivial⟩
    · simp [Durable.apply, durable, snap, hfresh]
    · simp [Durable.apply, durable, snap, Durable.last]
  show Writes r w ([.snapshot snap] ++ [.hardState ⟨r.term, r.votedFor, msg.snapshotIndex⟩]) _
  unfold installSnapshot
  rw [saveSnapshot_flush _ _ hindex]
  obtain ⟨w', ok, heq, hflush⟩ := flush_of_clean hwal hclean hhealthy [.snapshot snap]
  rw [heq]
  cases hflush with
  | torn kept rest hsplit hmarked hfile hlost =>
      exact .failed w' kept rest [] hboth (hsplit ▸ List.prefix_append _ _) List.nil_prefix rfl rfl
        hmarked hfile hlost rfl
  | done hclean' hfile =>
      let mid := adoptSnapshot { r with wal := some w', storageFailed := !true } msg
      have hdurable : mid.durable = [Record.snapshot snap].foldl Durable.apply r.durable := by
        simp [mid, snap, adoptSnapshot, durable, Durable.apply, max_eq_left hfresh]
      have hvalid' : mid.durable.Valid := by
        rw [hdurable]
        exact haccepts.valid hvalid
      have hsecond : Writes mid w' _ mid.saveHardState.syncWal.1 :=
        .of_hardState mid hvalid' rfl hclean' rfl rfl rfl hvalid.term_lt le_rfl
          (Nat.le_add_right _ _)
          (fun _ _ h => absurd h hindex)
      rw [hardStateRecord, if_neg (fun h => hindex h.2.2)] at hsecond
      have hall := Writes.trans haccepts hfile hdurable hsecond
      simp only [Bool.not_true, Bool.false_eq_true, if_false]
      split <;> exact hall

end

/-! ## Every move -/

theorem hardStateRecord_keepsStart (r : Raft D) :
    ∀ record ∈ r.hardStateRecord, record.KeepsStart := by
  unfold hardStateRecord
  split
  · simp
  · simp [Record.KeepsStart]

theorem Writes.valid {records : List (Record D)} (hvalid : r.durable.Valid)
    (hwrites : Writes r w records next) :
    next.durable.Valid ∧ r.commitIndex ≤ next.commitIndex := by
  cases hwrites with
  | synced w' haccepts _ _ _ _ hdurable =>
      have hcommit := haccepts.commit_le
      rw [← hdurable] at hcommit
      exact ⟨hdurable ▸ haccepts.valid hvalid, hcommit⟩
  | failed w' kept rest seen haccepts hsplit hseen _ _ _ _ _ hdurable =>
      have haccepts' := haccepts.of_isPrefix (hseen.trans hsplit)
      have hcommit := haccepts'.commit_le
      rw [← hdurable] at hcommit
      exact ⟨hdurable ▸ haccepts'.valid hvalid, hcommit⟩

variable [Blob D]

theorem Accepted.keepsStart {added log : List Entry} {more : List (Record D)}
    (haccepted : Accepted r w msg added log more) :
    ∀ record ∈ added.map Record.entry ++ more, record.KeepsStart := by
  intro record hrecord
  rcases List.mem_append.mp hrecord with hentry | hmore
  · obtain ⟨e, -, rfl⟩ := List.mem_map.mp hentry
    trivial
  · rcases haccepted.learned with rfl | ⟨-, -, rfl⟩
    · cases hmore
    · exact hardStateRecord_keepsStart _ record hmore

/-- What a move writes, and that only snapshots move the start of the log. -/
theorem Move.writes (ho : o.InRange) (hterms : r.InTerm) (hsane : r.Sane)
    (hwal : r.wal = some w) (hclean : w.Clean)
    (hhealthy : r.storageFailed = false) (hmove : Move o r next) :
    ∃ records, Writes r w records next ∧
      (o.Compacts r ∨ ∀ record ∈ records, record.KeepsStart) := by
  have hvalid := hsane.valid
  have hcommit := hvalid.commit_le
  simp only [Durable.last, durable] at hcommit
  have hone : ∀ {record : Record D}, Writes r w [record] next → record.KeepsStart →
      ∃ records, Writes r w records next ∧
        (o.Compacts r ∨ ∀ record ∈ records, record.KeepsStart) :=
    fun hwrites hkeeps => ⟨_, hwrites, .inr (by simpa using hkeeps)⟩
  have hnone : next.wal = r.wal → next.storageFailed = r.storageFailed →
      next.durable = r.durable → ∃ records, Writes r w records next ∧
        (o.Compacts r ∨ ∀ record ∈ records, record.KeepsStart) :=
    fun h1 h2 h3 => ⟨[], .of_eq hwal hclean hhealthy h1 h2 h3, .inr (by simp)⟩
  cases hmove with
  | raise msg lead hmsg _ haddressed hterm =>
      exact hone
        (becomeFollower_writes hvalid hwal hclean hhealthy hterm (ho.message msg hmsg).term) trivial
  | demote msg hmsg _ _ hleader hterm =>
      rw [becomeFollower_of_eq hterm] at hnone ⊢
      exact hnone rfl rfl rfl
  | stand hstate _ hpending =>
      exact hone
        (becomeCandidate_writes hvalid hwal hclean hhealthy (hterms.term_succ hpending)) trivial
  | grant msg hmsg htype haddressed =>
      have hwrites := grantVote_writes hvalid hwal hclean hhealthy (sender_ne_zero haddressed)
      exact hone (hwrites.congr rfl rfl rfl) trivial
  | accept msg hmsg htype hready hlog =>
      obtain ⟨added, log, more, haccepted⟩ := acceptEntries_spec hvalid hwal hclean hhealthy
        (ho.message msg hmsg) htype hlog
      exact ⟨_, haccepted.writes.congr rfl rfl rfl, .inr haccepted.keepsStart⟩
  | choose =>
      rcases chooseCommit_writes hvalid hwal hclean hhealthy with heq | ⟨_, _, _, _, hwrites⟩
      · rw [heq] at hnone ⊢
        exact hnone rfl rfl rfl
      · exact hone hwrites trivial
  | extend data _ _ hroom =>
      exact hone (appendOwn_writes hvalid hwal hclean hhealthy (ho.room _ hroom) data) trivial
  | compact index state hstate =>
      rcases takeSnapshot_writes hsane hwal hclean hhealthy index state with heq | ⟨_, _, hwrites⟩
      · rw [heq] at hnone ⊢
        exact hnone rfl rfl rfl
      · exact ⟨_, hwrites, .inl (.inl ⟨index, state, hstate⟩)⟩
  | install msg hmsg htype hready hindex _ hfresh =>
      exact ⟨_, (installSnapshot_writes hvalid hwal hclean hhealthy
        ((ho.message msg hmsg).snapshot htype) hindex hfresh.1).congr rfl rfl rfl,
        .inl (.inr ⟨msg, hmsg, htype⟩)⟩
  | sound =>
      unfold preCampaign
      split <;> exact ⟨[], .of_eq hwal hclean hhealthy rfl rfl rfl, .inr (by simp)⟩
  | canvass =>
      unfold campaign
      split <;> exact ⟨[], .of_eq hwal hclean hhealthy rfl rfl rfl, .inr (by simp)⟩
  | apply index =>
      unfold advance
      split <;> exact ⟨[], .of_eq hwal hclean hhealthy rfl rfl rfl, .inr (by simp)⟩
  | _ => exact hnone rfl rfl rfl

/-- The indices outside the durable part follow. -/
theorem Move.sane_of_valid (hsane : r.Sane) (hmove : Move o r next)
    (hvalid : next.durable.Valid) (hcommit : r.commitIndex ≤ next.commitIndex) : next.Sane := by
  have happlied : r.lastApplied ≤ next.commitIndex := le_trans hsane.applied_le hcommit
  cases hmove with
  | raise msg lead hmsg _ haddressed hterm =>
      rw [becomeFollower_of_lt hterm] at hvalid ⊢
      exact ⟨hvalid, hsane.offset_le, hsane.applied_le⟩
  | demote msg hmsg _ _ hleader hterm =>
      rw [becomeFollower_of_eq hterm] at hvalid ⊢
      exact ⟨hvalid, hsane.offset_le, hsane.applied_le⟩
  | sound =>
      unfold preCampaign at hvalid ⊢
      split <;> exact ⟨hsane.valid, hsane.offset_le, hsane.applied_le⟩
  | canvass =>
      unfold campaign
      split <;> exact ⟨hsane.valid, hsane.offset_le, hsane.applied_le⟩
  | accept msg =>
      obtain ⟨log, commit, wal, failed, heq⟩ := r.acceptEntries_frame msg
      rw [heq] at hvalid happlied ⊢
      exact ⟨hvalid, hsane.offset_le, happlied⟩
  | choose =>
      obtain ⟨commit, wal, failed, heq⟩ := r.chooseCommit_frame
      rw [heq] at hvalid happlied ⊢
      exact ⟨hvalid, hsane.offset_le, happlied⟩
  | extend data =>
      obtain ⟨log, wal, failed, heq⟩ := r.appendOwn_frame (r.nextEntry data)
      rw [heq] at hvalid ⊢
      exact ⟨hvalid, hsane.offset_le, hsane.applied_le⟩
  | apply index =>
      have hbound := hsane.valid.bound
      have hlast := hsane.valid.commit_le
      simp only [Durable.last, durable] at hbound hlast
      unfold advance
      split
      · exact hsane
      next hnext =>
        simp only [not_or, not_lt, not_not] at hnext
        have hle := hsane.applied_le
        have hindex : index = r.lastApplied + 1 := by
          rw [hnext.2, wrap64_of_lt (by omega)]
        have hoffset := hsane.offset_le
        exact ⟨hsane.valid, show r.logOffset ≤ index by omega, hnext.1⟩
  | compact index state =>
      obtain ⟨log, offset, offsetTerm, last, data, wal, failed, heq, hoffset⟩ :=
        r.takeSnapshot_frame index state
      rw [heq] at hvalid ⊢
      refine ⟨hvalid, ?_, hsane.applied_le⟩
      rcases hoffset with rfl | hle
      · exact hsane.offset_le
      · exact hle
  | install msg =>
      obtain ⟨wal, failed, heq | heq⟩ := r.installSnapshot_frame msg
      · rw [heq] at hvalid ⊢
        exact ⟨hvalid, hsane.offset_le, hsane.applied_le⟩
      · rw [heq] at hvalid ⊢
        exact ⟨hvalid, le_rfl, le_rfl⟩
  | _ => exact ⟨hvalid, hsane.offset_le, hsane.applied_le⟩

/-! ## The invariant -/

/-- The file holds admissible records only, and a healthy node is what they describe. -/
def Stored (r : Raft D) : Prop :=
  ∃ w, r.wal = some w ∧ w.failed = r.storageFailed ∧
    (Durable.start : Durable D).Accepts (w.file ++ w.lost) ∧
    (r.storageFailed = false →
      w.Clean ∧ r.durable = w.file.foldl Durable.apply Durable.start)

structure Mirrors (r : Raft D) : Prop where
  inTerm : r.InTerm
  sane : r.Sane
  stored : r.Stored

theorem Move.mirrors (ho : o.InRange) (hmirrors : r.Mirrors) (hmove : Move o r next) :
    next.Mirrors := by
  obtain ⟨hterms, hsane, w, hwal, hmarked, haccepts, hclean⟩ := hmirrors
  have hterms' := hmove.inTerm (fun msg hmsg => (ho.message msg hmsg).term) hterms
  cases hfailed : r.storageFailed with
  | true =>
      obtain ⟨hwal', hfailed', hdurable⟩ := hmove.of_failed hfailed
      have hcommit : next.commitIndex = r.commitIndex := congrArg Durable.commit hdurable
      refine ⟨hterms', hmove.sane_of_valid hsane (hdurable ▸ hsane.valid) hcommit.ge, w, ?_, ?_,
        haccepts, fun h => ?_⟩
      · rw [hwal', hwal]
      · rw [hmarked, hfailed, hfailed']
      · simp [hfailed'] at h
  | false =>
      obtain ⟨hclean, hdurable⟩ := hclean hfailed
      obtain ⟨records, hwrites, -⟩ := hmove.writes ho hterms hsane hwal hclean hfailed
      obtain ⟨hvalid, hcommit⟩ := hwrites.valid hsane.valid
      refine ⟨hterms', hmove.sane_of_valid hsane hvalid hcommit, ?_⟩
      rw [hclean.lost, List.append_nil] at haccepts
      cases hwrites with
      | synced w' hmore hwal' hhealthy' hclean' hfile hdurable' =>
          rw [hdurable] at hmore hdurable'
          refine ⟨w', hwal', ?_, ?_, fun _ => ⟨hclean', ?_⟩⟩
          · rw [hclean'.failed, hhealthy']
          · rw [hclean'.lost, List.append_nil, hfile]
            exact Durable.accepts_append.mpr ⟨haccepts, hmore⟩
          · rw [hdurable', hfile, List.foldl_append]
      | failed w' kept rest seen hmore hsplit hseen hwal' hfailed' hmarked' hfile hlost =>
          replace hmore := hmore.of_isPrefix hsplit
          rw [hdurable] at hmore
          refine ⟨w', hwal', ?_, ?_, fun h => ?_⟩
          · rw [hmarked', hfailed']
          · rw [hfile, hlost, List.append_assoc]
            exact Durable.accepts_append.mpr ⟨haccepts, hmore⟩
          · simp [hfailed'] at h

theorem Moves.mirrors (ho : o.InRange) (hmirrors : r.Mirrors) (hmoves : Moves o r next) :
    next.Mirrors := by
  induction hmoves with
  | refl => exact hmirrors
  | tail _ hmove ih => exact hmove.mirrors ho ih

end RaftKv.Raft
