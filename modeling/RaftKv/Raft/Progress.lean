import RaftKv.Raft.Campaign

/-! # Replication progress

What the leader records about its followers changes in three ways: it is set up when the node is
elected, it is overwritten by a successful answer, and `next` goes one step back after a rejected
consistency check.
-/

namespace RaftKv.Raft

variable {D : Type} {o : Outside D} {r next : Raft D} {msg : Message D} {input : Input D}

section

variable [Blob D]

/-- An answer that the leader counts: addressed to it, from a peer, and of its own term. -/
structure Counts (r : Raft D) (msg : Message D) : Prop where
  addressed : r.rejects msg = false
  term : msg.term = r.term
  state : r.state = .leader

instance (r : Raft D) (msg : Message D) : Decidable (r.Counts msg) :=
  decidable_of_iff (r.rejects msg = false ∧ msg.term = r.term ∧ r.state = .leader)
    ⟨fun h => ⟨h.1, h.2.1, h.2.2⟩, fun h => ⟨h.addressed, h.term, h.state⟩⟩

/-- How one operation changes the progress table. -/
inductive ProgressChange (r : Raft D) (input : Input D) (next : Raft D) : Prop
  | same (hprogress : next.progress = r.progress)
  | crown (msg : Message D) (hinput : input = .message msg)
      (htype : msg.type = .requestVoteResponse) (hstate : r.state = .candidate)
      (hprogress : ∀ peer, next.progressOf peer =
        if peer ∈ r.others then ⟨0, wrap64 (r.lastLogIndex + 1)⟩ else {})
  | note (msg : Message D) (hinput : input = .message msg)
      (htype : msg.type = .appendEntriesResponse ∨ msg.type = .installSnapshotResponse)
      (hcounts : r.Counts msg) (hsuccess : msg.success = true)
      (hprogress : next.progress = (r.noteMatch msg).progress)
  | back (msg : Message D) (hinput : input = .message msg)
      (htype : msg.type = .appendEntriesResponse) (hcounts : r.Counts msg)
      (hfailure : msg.success = false) (hprogress : next.progress = (r.backOff msg.sender).progress)

end

/-! ## What leaves the progress alone -/

theorem becomeFollower_progress {term lead : Nat} :
    (r.becomeFollower term lead).progress = r.progress := by
  unfold becomeFollower
  split
  · rfl
  · dsimp only
    split <;> rfl

section

variable [Blob D]

theorem Move.progress (hno : ∀ msg, o.message msg → msg.type ≠ .requestVoteResponse ∧
      msg.type ≠ .appendEntriesResponse ∧ msg.type ≠ .installSnapshotResponse)
    (hmove : Move o r next) : next.progress = r.progress := by
  have hstored (hsaves : Saves r next) : next.progress = r.progress := by
    obtain ⟨_, _, _, _, _, _, _, _, _, _, rfl⟩ := hsaves.frame
    rfl
  cases hmove with
  | raise | demote => exact becomeFollower_progress
  | crown msg hmsg htype => exact absurd htype (hno msg hmsg).1
  | note msg hmsg htype =>
      exact htype.elim (absurd · (hno msg hmsg).2.1) (absurd · (hno msg hmsg).2.2)
  | backOff msg hmsg htype => exact absurd htype (hno msg hmsg).2.1
  | sound =>
      unfold preCampaign
      split <;> rfl
  | canvass =>
      unfold campaign
      split <;> rfl
  | accept | choose | extend | apply | compact => exact hstored (by constructor)
  | install => exact hstored (.install _)
  | _ => rfl

theorem Moves.progress (hno : ∀ msg, o.message msg → msg.type ≠ .requestVoteResponse ∧
      msg.type ≠ .appendEntriesResponse ∧ msg.type ≠ .installSnapshotResponse)
    (hmoves : Moves o r next) : next.progress = r.progress := by
  induction hmoves with
  | refl => rfl
  | tail _ hmove ih => exact (hmove.progress hno).trans ih

/-! ## The three handlers that change it -/

theorem becomeLeader_progressOf (r : Raft D) (peer : Nat) : r.becomeLeader.progressOf peer =
    if peer ∈ r.others then ⟨0, wrap64 (r.lastLogIndex + 1)⟩ else {} := by
  have hget : r.becomeLeader.progress.get? peer =
      if peer ∈ r.others then some ⟨0, wrap64 (r.lastLogIndex + 1)⟩ else none := by
    show (r.others.foldl (fun progress peer => progress.insert peer
      (⟨0, wrap64 (r.lastLogIndex + 1)⟩ : Progress)) Table.empty).get? peer = _
    rw [Table.get?_foldl_insert, Table.get?_empty]
  rw [progressOf, hget]
  split <;> rfl

theorem handleRequestVoteResponse_progress (htype : msg.type = .requestVoteResponse) :
    ProgressChange r (.message msg) (r.handleRequestVoteResponse msg) := by
  unfold handleRequestVoteResponse
  split
  · exact .same rfl
  split
  · exact .same becomeFollower_progress
  split
  · exact .same rfl
  next hcandidate =>
    have hrecord : (r.recordVote msg).progress = r.progress ∧
        (r.recordVote msg).others = r.others ∧
        (r.recordVote msg).lastLogIndex = r.lastLogIndex := by
      unfold recordVote
      split <;> exact ⟨rfl, rfl, rfl⟩
    dsimp only
    split
    · refine .crown msg rfl htype ?_ fun peer => ?_
      · simp only [not_or, not_not] at hcandidate
        exact hcandidate.2
      · rw [becomeLeader_progressOf, hrecord.2.1, hrecord.2.2]
    · exact .same hrecord.1

theorem handleAppendEntriesResponse_progress (htype : msg.type = .appendEntriesResponse) :
    ProgressChange r (.message msg) (r.handleAppendEntriesResponse msg) := by
  unfold handleAppendEntriesResponse
  split
  · exact .same rfl
  next haddressed =>
    split
    · exact .same becomeFollower_progress
    next hle =>
      split
      · exact .same rfl
      split
      · exact .same rfl
      next hstate =>
        split
        · exact .same rfl
        next hge =>
          have hcounts : r.Counts msg := ⟨by simpa using haddressed,
            le_antisymm (not_lt.mp hle) (not_lt.mp hge), not_not.mp hstate⟩
          split
          next hsuccess =>
            refine .note msg rfl (.inl htype) hcounts hsuccess ?_
            obtain ⟨commit, wal, failed, heq⟩ :=
              ((r.noteMatch msg).noteReadAck msg).chooseCommit_frame
            rw [heq]
            unfold noteReadAck
            split <;> rfl
          next hfailure =>
            refine .back msg rfl htype hcounts (by simpa using hfailure) ?_
            dsimp only
            split <;> rfl

theorem handleInstallSnapshotResponse_progress (htype : msg.type = .installSnapshotResponse) :
    ProgressChange r (.message msg) (r.handleInstallSnapshotResponse msg) := by
  unfold handleInstallSnapshotResponse
  split
  · exact .same rfl
  next haddressed =>
    split
    · exact .same becomeFollower_progress
    next hle =>
      split
      · exact .same rfl
      next hstate =>
        split
        · exact .same rfl
        next hge =>
          split
          next hsuccess =>
            exact .note msg rfl (.inr htype) ⟨by simpa using haddressed,
              le_antisymm (not_lt.mp hle) (not_lt.mp hge), not_not.mp hstate⟩ hsuccess rfl
          · exact .same rfl

theorem step_progress (hhealthy : r.storageFailed = false) (input : Input D) :
    ProgressChange r input (r.step input) := by
  by_cases hanswer : ∃ msg, input = .message msg ∧ (msg.type = .requestVoteResponse ∨
      msg.type = .appendEntriesResponse ∨ msg.type = .installSnapshotResponse)
  · obtain ⟨msg, rfl, htype | htype | htype⟩ := hanswer
    · simp only [step, handleMessage, htype]
      exact handleRequestVoteResponse_progress htype
    · simp only [step, handleMessage, htype]
      exact handleAppendEntriesResponse_progress htype
    · simp only [step, handleMessage, htype]
      exact handleInstallSnapshotResponse_progress htype
  · push Not at hanswer
    exact .same (Moves.progress (fun msg hmsg => hanswer msg hmsg)
      (step_moves hhealthy (heard_allows input)))

end

/-! ## Monotone progress -/

/-- The next index to send is beyond what the follower is known to hold. -/
def NextAbove (r : Raft D) : Prop :=
  ∀ peer, (r.progressOf peer).matchIndex < (r.progressOf peer).next

/-- A counted success does not report less than is known already, a counted failure comes while
there is room between `match` and `next`, and no index reaches the last 64-bit number. -/
def Steady (r : Raft D) : Input D → Prop
  | .message msg =>
      (msg.type = .requestVoteResponse → r.state = .candidate → r.lastLogIndex + 1 < 2 ^ 64) ∧
      (msg.type = .appendEntriesResponse ∨ msg.type = .installSnapshotResponse → r.Counts msg →
        msg.success = true → (r.progressOf msg.sender).matchIndex ≤ msg.matchIndex ∧
          msg.matchIndex + 1 < 2 ^ 64) ∧
      (msg.type = .appendEntriesResponse → r.Counts msg → msg.success = false →
        (r.progressOf msg.sender).matchIndex + 1 < (r.progressOf msg.sender).next ∨
          (r.progressOf msg.sender).next = 1)
  | _ => True

theorem progressOf_of_insert {peer : Nat} {p : Progress}
    (hprogress : next.progress = r.progress.insert peer p) (other : Nat) :
    next.progressOf other = if other = peer then p else r.progressOf other := by
  rw [progressOf, hprogress, Table.get?_insert]
  split <;> rfl

theorem ProgressChange.steady (hchange : ProgressChange r input next) (hsteady : r.Steady input)
    (habove : r.NextAbove) : next.NextAbove ∧ (r.state = .leader →
      ∀ peer, (r.progressOf peer).matchIndex ≤ (next.progressOf peer).matchIndex) := by
  cases hchange with
  | same hprogress =>
      have hsame : ∀ peer, next.progressOf peer = r.progressOf peer := fun peer => by
        rw [progressOf, hprogress, progressOf]
      exact ⟨fun peer => hsame peer ▸ habove peer, fun _ peer => (hsame peer ▸ le_rfl)⟩
  | crown msg hinput htype hstate hprogress =>
      subst hinput
      have hroom := hsteady.1 htype hstate
      refine ⟨fun peer => ?_, fun hleader => (by cases hstate.symm.trans hleader)⟩
      rw [hprogress peer, wrap64_of_lt hroom]
      split
      · exact Nat.succ_pos _
      · exact Nat.one_pos
  | note msg hinput htype hcounts hsuccess hprogress =>
      subst hinput
      obtain ⟨hle, hroom⟩ := hsteady.2.1 htype hcounts hsuccess
      have hnoted := progressOf_of_insert hprogress
      rw [wrap64_of_lt hroom] at hnoted
      refine ⟨fun peer => ?_, fun _ peer => ?_⟩
      · rw [hnoted peer]
        split
        · exact Nat.lt_succ_self _
        · exact habove peer
      · rw [hnoted peer]
        split
        next heq => exact heq ▸ hle
        · exact le_rfl
  | back msg hinput htype hcounts hfailure hprogress =>
      subst hinput
      have hgap := hsteady.2.2 htype hcounts hfailure
      have hknown := habove msg.sender
      have hbacked := progressOf_of_insert hprogress
      refine ⟨fun peer => ?_, fun _ peer => ?_⟩
      · rw [hbacked peer]
        split
        · dsimp only
          split <;> omega
        · exact habove peer
      · rw [hbacked peer]
        split
        next heq => exact heq ▸ le_rfl
        · exact le_rfl

variable [Blob D]

instance (r : Raft D) (input : Input D) : Decidable (r.Steady input) := by
  cases input <;> (unfold Steady; infer_instance)

end RaftKv.Raft
