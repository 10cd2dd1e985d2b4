import RaftKv.Raft.Indices
import RaftKv.Raft.Move

/-! # What the state machine rests on

The store of a node is the state of its last snapshot with the applied entries on top.
Only three calls touch this footing: `advance` applies one entry, `take_snapshot` moves
the snapshot up to what is applied, and an accepted snapshot of the leader replaces both.
-/

namespace RaftKv.Raft

variable {D : Type} {r next : Raft D} {msg : Message D}

/-- `last_applied_`, `log_offset_`, `log_offset_term_` and `last_snapshot_data_`. -/
structure Footing (D : Type) where
  applied : Nat
  offset : Nat
  offsetTerm : Nat
  state : D

def footing (r : Raft D) : Footing D :=
  ⟨r.lastApplied, r.logOffset, r.logOffsetTerm, r.lastSnapshotData⟩

/-! ## Entries do not touch it -/

theorem chooseCommit_footing (r : Raft D) : r.chooseCommit.footing = r.footing := by
  obtain ⟨commit, wal, failed, heq⟩ := r.chooseCommit_frame
  rw [heq]
  rfl

theorem appendOwn_footing (r : Raft D) (e : Entry) : (r.appendOwn e).1.footing = r.footing := by
  obtain ⟨log, wal, failed, heq⟩ := r.appendOwn_frame e
  rw [heq]
  rfl

theorem acceptEntries_footing [Blob D] (r : Raft D) (msg : Message D) :
    (r.acceptEntries msg).1.footing = r.footing := by
  obtain ⟨log, commit, wal, failed, heq⟩ := r.acceptEntries_frame msg
  rw [heq]
  rfl

/-! ## The applied index -/

section

variable [Blob D]

theorem handleAppendEntries_lastApplied (r : Raft D) (msg : Message D) :
    (r.handleAppendEntries msg).1.lastApplied = r.lastApplied := by
  have hsame : (r.prepareForLeaderRpc msg).1.lastApplied = r.lastApplied :=
    congrArg Indices.applied (indices_prepareForLeaderRpc r msg)
  unfold handleAppendEntries
  generalize r.prepareForLeaderRpc msg = prepared at *
  obtain ⟨prepared, ready⟩ := prepared
  dsimp only at hsame ⊢
  split
  · exact hsame
  · split
    · exact hsame
    · exact (congrArg Footing.applied (acceptEntries_footing prepared msg)).trans hsame

theorem handleAppendEntriesResponse_lastApplied (r : Raft D) (msg : Message D) :
    (r.handleAppendEntriesResponse msg).lastApplied = r.lastApplied := by
  unfold handleAppendEntriesResponse
  split
  · rfl
  split
  · exact congrArg Indices.applied (indices_becomeFollower r _ _)
  split
  · rfl
  split
  · rfl
  split
  · rfl
  split
  · have hnoted : ((r.noteMatch msg).noteReadAck msg).lastApplied = (r.noteMatch msg).lastApplied :=
      congrArg Indices.applied (indices_noteReadAck (r.noteMatch msg) msg)
    exact (congrArg Footing.applied (chooseCommit_footing _)).trans hnoted
  · dsimp only
    split <;> rfl

theorem propose_lastApplied (r : Raft D) (data : Bytes) :
    (r.propose data).1.lastApplied = r.lastApplied := by
  unfold propose
  split
  · rfl
  · have happend : (r.appendOwn (r.nextEntry data)).1.lastApplied = r.lastApplied :=
      congrArg Footing.applied (appendOwn_footing r _)
    dsimp only
    split <;> exact happend

theorem readIndex_lastApplied (r : Raft D) : r.readIndex.1.lastApplied = r.lastApplied := by
  unfold readIndex
  split
  · rfl
  split
  · rfl
  dsimp only
  split
  · have hpropose := propose_lastApplied { r.startReadRound with
      pendingReadIndex := wrap64 (r.startReadRound.lastLogIndex + 1) } []
    split
    next next heq =>
      rw [heq] at hpropose
      exact (congrArg Indices.applied (indices_finishReadIndex next _)).trans hpropose
    next heq =>
      rw [heq] at hpropose
      exact hpropose
  · rfl

theorem takeSnapshot_lastApplied (r : Raft D) (index : Nat) (state : D) :
    (r.takeSnapshot index state).lastApplied = r.lastApplied := by
  unfold takeSnapshot
  split
  · rfl
  · dsimp only
    split <;> rfl

/-- Nothing is installed that the state machine has not taken. -/
theorem handleInstallSnapshot_lastApplied (hrestore : r.snapshotRestore ≠ some true) :
    (r.handleInstallSnapshot msg).1.lastApplied = r.lastApplied := by
  have hsame : (r.prepareForLeaderRpc msg).1.lastApplied = r.lastApplied :=
    congrArg Indices.applied (indices_prepareForLeaderRpc r msg)
  have hcallback := @prepareForLeaderRpc_restore _ r msg
  unfold handleInstallSnapshot
  generalize r.prepareForLeaderRpc msg = prepared at *
  obtain ⟨prepared, ready⟩ := prepared
  dsimp only at hsame hcallback ⊢
  split
  · exact hsame
  split
  · exact hsame
  split
  · exact hsame
  · rw [if_pos (hcallback ▸ hrestore)]
    exact hsame

/-- Only `advance` and an accepted snapshot apply anything. -/
theorem step_lastApplied {input : Input D} (hadvance : ∀ index, input ≠ .advance index)
    (hrestore : ∀ msg, input = .message msg → r.snapshotRestore ≠ some true) :
    (r.step input).lastApplied = r.lastApplied := by
  cases input with
  | tick => exact congrArg Indices.applied (indices_tick r)
  | message msg =>
      simp only [step, handleMessage]
      split
      · exact congrArg Indices.applied (indices_handleRequestVote r msg)
      · exact congrArg Indices.applied (indices_handleRequestVoteResponse r msg)
      · rfl
      · exact congrArg Indices.applied (indices_handlePreVoteResponse r msg)
      · exact handleAppendEntries_lastApplied r msg
      · exact handleAppendEntriesResponse_lastApplied r msg
      · exact handleInstallSnapshot_lastApplied (hrestore msg rfl)
      · exact congrArg Indices.applied (indices_handleInstallSnapshotResponse r msg)
      · rfl
  | propose data => exact propose_lastApplied r data
  | readIndex => exact readIndex_lastApplied r
  | finishRead read => exact congrArg Indices.applied (indices_finishReadIndex r read)
  | advance index => exact absurd rfl (hadvance index)
  | takeSnapshot index state => exact takeSnapshot_lastApplied r index state

end

/-! ## The snapshot it starts from -/

/-- The log starts where it did, from the same state. -/
structure SameStart (r next : Raft D) : Prop where
  offset : next.logOffset = r.logOffset
  offsetTerm : next.logOffsetTerm = r.logOffsetTerm
  state : next.lastSnapshotData = r.lastSnapshotData

theorem SameStart.of_footing (hsame : next.footing = r.footing) : SameStart r next :=
  ⟨congrArg Footing.offset hsame, congrArg Footing.offsetTerm hsame, congrArg Footing.state hsame⟩

theorem SameStart.of_durable (hsame : next.durable = r.durable) : SameStart r next :=
  ⟨congrArg Durable.offset hsame, congrArg Durable.offsetTerm hsame, congrArg Durable.data hsame⟩

theorem becomeFollower_sameStart (r : Raft D) (term lead : Nat) :
    SameStart r (r.becomeFollower term lead) := by
  unfold becomeFollower
  split
  · exact ⟨rfl, rfl, rfl⟩
  · dsimp only
    split <;> exact ⟨rfl, rfl, rfl⟩

section

variable [Blob D]

/-- Where nobody asks for a snapshot and none is installed, the start stays. -/
theorem Move.sameStart {o : Outside D} (hsnapshot : ∀ r index state, ¬ o.snapshot r index state)
    (hinstall : ∀ r msg, ¬ o.install r msg) (hmove : Move o r next) : SameStart r next := by
  cases hmove with
  | raise msg lead => exact becomeFollower_sameStart r _ _
  | demote msg => exact becomeFollower_sameStart r _ _
  | sound =>
      unfold preCampaign
      split <;> exact ⟨rfl, rfl, rfl⟩
  | canvass =>
      unfold campaign
      split <;> exact ⟨rfl, rfl, rfl⟩
  | accept msg => exact .of_footing (acceptEntries_footing r msg)
  | choose => exact .of_footing (chooseCommit_footing r)
  | extend data => exact .of_footing (appendOwn_footing r _)
  | apply index =>
      unfold advance
      split <;> exact ⟨rfl, rfl, rfl⟩
  | compact index state hstate => exact absurd hstate (hsnapshot r index state)
  | install msg _ _ _ _ _ _ hallowed => exact absurd hallowed (hinstall r msg)
  | _ => exact ⟨rfl, rfl, rfl⟩

theorem Moves.sameStart {o : Outside D} (hsnapshot : ∀ r index state, ¬ o.snapshot r index state)
    (hinstall : ∀ r msg, ¬ o.install r msg) (hmoves : Moves o r next) : SameStart r next := by
  induction hmoves with
  | refl => exact ⟨rfl, rfl, rfl⟩
  | tail _ hmove ih =>
      obtain ⟨hoffset, hterm, hstate⟩ := hmove.sameStart hsnapshot hinstall
      exact ⟨hoffset.trans ih.offset, hterm.trans ih.offsetTerm, hstate.trans ih.state⟩

/-- Everything may come, but no snapshot is taken or installed. -/
def startOutside : Outside D where
  message _ := True
  snapshot _ _ _ := False
  room _ := True
  install _ _ := False

/-- Only `take_snapshot` and an accepted snapshot of the leader move the start. -/
theorem step_sameStart {input : Input D} (hhealthy : r.storageFailed = false)
    (htake : ∀ index state, input ≠ .takeSnapshot index state)
    (hrestore : ∀ msg, input = .message msg → r.snapshotRestore ≠ some true) :
    SameStart r (r.step input) := by
  have hallows : r.Allows startOutside input := by
    cases input with
    | message msg =>
        exact ⟨trivial, fun _ hinstalls => absurd hinstalls.2.2.2.2.2 (hrestore msg rfl)⟩
    | takeSnapshot index state => exact absurd rfl (htake index state)
    | _ => trivial
  exact (step_moves hhealthy hallows).sameStart (fun _ _ _ => not_false) fun _ _ => not_false

end

/-! ## Accepted snapshots -/

/-- The callback is not looked at before the tests of the message are over. -/
theorem prepareForLeaderRpc_callback (r : Raft D) (restore : Option Bool) (msg : Message D) :
    { r with snapshotRestore := restore }.prepareForLeaderRpc msg =
      ({ (r.prepareForLeaderRpc msg).1 with snapshotRestore := restore },
        (r.prepareForLeaderRpc msg).2) := by
  have hfollow : ∀ (r : Raft D) (term lead : Nat),
      { r with snapshotRestore := restore }.becomeFollower term lead =
        { r.becomeFollower term lead with snapshotRestore := restore } := by
    intro r term lead
    unfold becomeFollower
    split
    · rfl
    · dsimp only
      split <;> rfl
  have hraised : (if msg.term > r.term then
        { r with snapshotRestore := restore }.becomeFollower msg.term msg.sender
        else { r with snapshotRestore := restore }) =
      { (if msg.term > r.term then r.becomeFollower msg.term msg.sender else r) with
        snapshotRestore := restore } := by
    split
    · exact hfollow r _ _
    · rfl
  have hrejects : rejects { r with snapshotRestore := restore } msg = r.rejects msg := rfl
  unfold prepareForLeaderRpc
  rw [hrejects]
  split
  · rfl
  · dsimp only
    rw [hraised]
    generalize (if msg.term > r.term then r.becomeFollower msg.term msg.sender else r) = raised
    dsimp only
    split
    · rfl
    · rw [hfollow]
      split <;> rfl

variable [Blob D]

/-- A snapshot that passes the tests and reaches the file replaces the log. -/
theorem handleInstallSnapshot_installs (hready : (r.prepareForLeaderRpc msg).2 = true)
    (hgood : ¬ (msg.snapshotIndex = 0 ∨ msg.snapshotTerm = 0 ∨ msg.snapshotTerm > msg.term ∨
      Blob.isEmpty msg.snapshotData))
    (hfresh : ¬ (r.commitIndex > msg.snapshotIndex ∨ r.lastApplied ≥ msg.snapshotIndex))
    (hrestore : r.snapshotRestore = some true)
    (hhealthy : (r.handleInstallSnapshot msg).1.storageFailed = false) :
    (r.handleInstallSnapshot msg).1.indices =
        ⟨[], msg.snapshotIndex, msg.snapshotIndex, msg.snapshotIndex, msg.snapshotIndex⟩ ∧
      (r.handleInstallSnapshot msg).1.lastSnapshotData = msg.snapshotData := by
  have hsame := indices_prepareForLeaderRpc r msg
  have hcallback := @prepareForLeaderRpc_restore _ r msg
  unfold handleInstallSnapshot at hhealthy ⊢
  generalize r.prepareForLeaderRpc msg = prepared at *
  obtain ⟨prepared, ready⟩ := prepared
  dsimp only at hready hsame hcallback hhealthy ⊢
  have hcommit : prepared.commitIndex = r.commitIndex := congrArg Indices.commit hsame
  have happlied : prepared.lastApplied = r.lastApplied := congrArg Indices.applied hsame
  have hkeeps : ¬ (prepared.snapshotRestore ≠ some true) := by simp [hcallback, hrestore]
  rw [if_neg (by simp [hready]), if_neg hgood, if_neg (by rw [hcommit, happlied]; exact hfresh),
    if_neg hkeeps] at hhealthy ⊢
  unfold installSnapshot at hhealthy ⊢
  dsimp only at hhealthy ⊢
  split at hhealthy
  next hfailed =>
    generalize prepared.saveSnapshot _ = saved at *
    simp only [syncWal, Bool.or_eq_false_iff] at hhealthy
    exact absurd (hfailed.symm.trans hhealthy.2) (by simp)
  next hok =>
    rw [if_neg hok]
    split <;> exact ⟨rfl, rfl⟩

/-- A local snapshot is refused, or cuts the log at its index. -/
theorem takeSnapshot_cases (hordered : r.indices.Ordered) (index : Nat) (state : D)
    (hhealthy : (r.takeSnapshot index state).storageFailed = false) :
    r.takeSnapshot index state = r ∨
      r.logOffset < index ∧ index ≤ r.lastApplied ∧
        (r.takeSnapshot index state).log = r.log.drop (index - r.logOffset) ∧
        (r.takeSnapshot index state).logOffset = index ∧
        (r.takeSnapshot index state).lastSnapshotData = state := by
  have happlied := hordered.applied_le.trans hordered.commit_le
  unfold takeSnapshot at hhealthy ⊢
  split
  · exact .inl rfl
  next hgood =>
    rw [if_neg hgood] at hhealthy
    simp only [not_or, not_le, not_lt] at hgood
    obtain ⟨-, hoffset, hle⟩ := hgood
    dsimp only at hhealthy ⊢
    split at hhealthy
    next hfailed =>
      generalize r.saveSnapshot _ = saved at *
      simp only [syncWal, Bool.or_eq_false_iff] at hhealthy
      exact absurd (hfailed.symm.trans hhealthy.2) (by simp)
    next hok =>
      rw [if_neg hok]
      have hlog : compactLog r.log index = r.log.drop (index - r.logOffset) :=
        compactLog_eq hordered.indexed hoffset (hle.trans happlied)
      exact .inr ⟨hoffset, hle, hlog, rfl, rfl⟩

end RaftKv.Raft
