import RaftKv.Raft.Campaign

/-! # Roles, pre-votes and read rounds

The members that say which role a node plays, who supports its pre-vote and who has
acknowledged its read round. Each operation changes them in one of a few ways.
-/

namespace RaftKv

structure Role where
  state : State
  term : Nat
  preVotes : Table Bool
  pendingPreVoteTerm : Nat
  readIndexPending : Bool
  pendingReadIndex : Nat
  pendingReadContext : Nat
  nextReadContext : Nat
  readIndexAcks : Table Bool

namespace Raft

variable {D : Type}

def role (r : Raft D) : Role where
  state := r.state
  term := r.term
  preVotes := r.preVotes
  pendingPreVoteTerm := r.pendingPreVoteTerm
  readIndexPending := r.readIndexPending
  pendingReadIndex := r.pendingReadIndex
  pendingReadContext := r.pendingReadContext
  nextReadContext := r.nextReadContext
  readIndexAcks := r.readIndexAcks

/-- A pre-vote response that is counted. -/
structure CountsPreVote (r : Raft D) (msg : Message D) : Prop where
  type : msg.type = .preVoteResponse
  addressed : r.rejects msg = false
  term : msg.term ≤ r.term
  state : r.state = .preCandidate
  pending : msg.preVoteTerm = r.pendingPreVoteTerm
  asked : r.pendingPreVoteTerm ≠ 0

/-- An acknowledgement that is counted for the open read round. -/
structure CountsAck (r : Raft D) (msg : Message D) : Prop where
  type : msg.type = .appendEntriesResponse
  addressed : r.rejects msg = false
  success : msg.success = true
  term : msg.term = r.term
  state : r.state = .leader
  round : r.readIndexPending = true
  context : msg.readContext = r.pendingReadContext
  named : msg.readContext ≠ 0

/-- How one operation changes the role. -/
inductive RoleChange (r : Raft D) (input : Input D) : Role → Prop
  | same : RoleChange r input r.role
  | follow (msg : Message D) (hinput : input = .message msg) (hterm : r.term ≤ msg.term) :
      RoleChange r input { r.role with
        state := .follower
        term := msg.term
        pendingPreVoteTerm := 0
        readIndexPending := false
        pendingReadIndex := 0
        pendingReadContext := 0
        readIndexAcks := Table.empty }
  | canvass (hinput : input = .tick) (hstate : r.state ≠ .leader) :
      RoleChange r input { r.role with
        state := .preCandidate
        preVotes := Table.empty.insert r.id true
        pendingPreVoteTerm := wrap64 (r.term + 1) }
  | preVote (msg : Message D) (hinput : input = .message msg) (hcounts : r.CountsPreVote msg) :
      RoleChange r input { r.role with preVotes := (r.recordPreVote msg).preVotes }
  | stand (msg : Message D) (hinput : input = .message msg) (hcounts : r.CountsPreVote msg)
      (hquorum : (r.recordPreVote msg).preVotes.count (fun granted => granted) >
        r.peers.length / 2) :
      RoleChange r input { r.role with
        state := .candidate
        term := wrap64 (r.term + 1)
        preVotes := (r.recordPreVote msg).preVotes
        pendingPreVoteTerm := 0 }
  | crown (msg : Message D) (hinput : input = .message msg) (hstate : r.state = .candidate) :
      RoleChange r input { r.role with state := .leader }
  | ack (msg : Message D) (hinput : input = .message msg) (hcounts : r.CountsAck msg) :
      RoleChange r input { r.role with
        readIndexAcks := r.readIndexAcks.insert msg.sender true }
  | start (hinput : input = .readIndex) (hstate : r.state = .leader)
      (hidle : r.readIndexPending = false) (index : Nat) :
      RoleChange r input { r.role with
        readIndexPending := true
        pendingReadIndex := index
        pendingReadContext := r.nextReadContext
        nextReadContext := nextContext r.nextReadContext
        readIndexAcks := Table.empty }
  /-- The round's own entry could not be stored. -/
  | give (hinput : input = .readIndex) (hstate : r.state = .leader)
      (hidle : r.readIndexPending = false) :
      RoleChange r input { r.role with
        readIndexPending := false
        pendingReadIndex := 0
        pendingReadContext := 0
        nextReadContext := nextContext r.nextReadContext
        readIndexAcks := Table.empty }
  | finish (read : ReadIndexToken) (hinput : input = .finishRead read) :
      RoleChange r input { r.role with
        readIndexPending := false
        pendingReadIndex := 0
        pendingReadContext := 0
        readIndexAcks := Table.empty }

/-! ## What leaves the role alone -/

section Same

variable [Blob D] {r next : Raft D}

theorem Saves.role (hsaves : Saves r next) : next.role = r.role := by
  obtain ⟨_, _, _, _, _, _, _, _, _, _, rfl⟩ := hsaves.frame
  rfl

theorem role_propose (r : Raft D) (data : Bytes) : (r.propose data).1.role = r.role := by
  unfold propose
  split
  · rfl
  · dsimp only
    split <;> exact (Saves.extend data).role

end Same

/-! ## Each operation -/

section Operations

variable {r : Raft D} {msg : Message D}

theorem becomeFollower_role {input : Input D} (hinput : input = .message msg)
    (hterm : r.term ≤ msg.term) (lead : Nat) :
    RoleChange r input (r.becomeFollower msg.term lead).role := by
  unfold becomeFollower
  rw [if_neg (not_lt.mpr hterm)]
  dsimp only
  split <;> exact .follow msg hinput hterm

theorem prepareForLeaderRpc_role :
    RoleChange r (.message msg) (r.prepareForLeaderRpc msg).1.role := by
  unfold prepareForLeaderRpc
  split
  · exact .same
  · dsimp only
    split
    next hterm =>
      -- the node steps down to the later term, and is a follower already after that
      have hfollow : RoleChange r (.message msg) (r.becomeFollower msg.term msg.sender).role :=
        becomeFollower_role rfl hterm.le msg.sender
      split
      · exact hfollow
      · rw [if_neg (by simp [becomeFollower_state hterm.le])]
        exact hfollow
    · split
      · exact .same
      next hcurrent =>
        simp only [not_or, not_lt] at hcurrent
        split
        · exact becomeFollower_role rfl hcurrent.2 msg.sender
        · exact .same

theorem prepareForLeaderRpc_current (hready : (r.prepareForLeaderRpc msg).2 = true) :
    r.rejects msg = false ∧ msg.term = (r.prepareForLeaderRpc msg).1.term := by
  have hcurrent := prepareForLeaderRpc_true hready
  refine ⟨hcurrent.1, ?_⟩
  unfold prepareForLeaderRpc at hready ⊢
  rw [if_neg (by simp [hcurrent.1])] at hready ⊢
  dsimp only at hready ⊢
  have hterm : msg.term =
      (if msg.term > r.term then r.becomeFollower msg.term msg.sender else r).term := by
    split
    next hlater => exact (becomeFollower_term hlater.le).symm
    next hnot => exact le_antisymm (not_lt.mp hnot) hcurrent.2
  generalize (if msg.term > r.term then r.becomeFollower msg.term msg.sender else r) = raised at *
  split at hready
  · cases hready
  next hhealthy =>
    rw [if_neg hhealthy]
    split
    · exact (becomeFollower_term hterm.ge).symm
    · exact hterm

theorem finishReadIndex_role (read : ReadIndexToken) :
    RoleChange r (.finishRead read) (r.finishReadIndex read).role := by
  unfold finishReadIndex
  split
  · exact .same
  · exact .finish read rfl

variable [Blob D]

theorem tick_role : RoleChange r .tick r.tick.role := by
  unfold tick
  split
  · exact .same
  next hhealthy =>
    split
    · dsimp only
      split <;> exact .same
    next hstate =>
      dsimp only
      split
      · unfold preCampaign
        split
        next hfailed => exact absurd hfailed hhealthy
        · exact .canvass rfl hstate
      · exact .same

theorem handleRequestVote_role : RoleChange r (.message msg) (r.handleRequestVote msg).1.role := by
  unfold handleRequestVote
  split
  · exact .same
  · have hraised : RoleChange r (.message msg)
        (if msg.term > r.term then r.becomeFollower msg.term 0 else r).role := by
      split
      next hterm => exact becomeFollower_role rfl hterm.le 0
      · exact .same
    generalize (if msg.term > r.term then r.becomeFollower msg.term 0 else r) = raised at *
    dsimp only
    split
    · exact hraised
    · split <;> exact hraised

theorem handleRequestVoteResponse_role :
    RoleChange r (.message msg) (r.handleRequestVoteResponse msg).role := by
  have hrecord : (r.recordVote msg).role = r.role := by
    unfold recordVote
    split <;> rfl
  unfold handleRequestVoteResponse
  split
  · exact .same
  split
  next hterm => exact becomeFollower_role rfl hterm.le 0
  split
  · exact .same
  next hstate =>
    simp only [not_or, not_not] at hstate
    dsimp only
    split
    · have hcrown : (r.recordVote msg).becomeLeader.role =
          { (r.recordVote msg).role with state := .leader } := rfl
      rw [hcrown, hrecord]
      exact .crown msg rfl hstate.2
    · rw [hrecord]
      exact .same

theorem handlePreVoteResponse_role (htype : msg.type = .preVoteResponse) :
    RoleChange r (.message msg) (r.handlePreVoteResponse msg).role := by
  have hrecord : (r.recordPreVote msg).role =
      { r.role with preVotes := (r.recordPreVote msg).preVotes } := by
    unfold recordPreVote
    split <;> rfl
  unfold handlePreVoteResponse
  split
  · exact .same
  next hrejects =>
    split
    next hterm => exact becomeFollower_role rfl hterm.le 0
    next hterm =>
      split
      · exact .same
      next hstate =>
        split
        · exact .same
        next hpending =>
          simp only [not_or, not_not] at hpending
          have hcounts : r.CountsPreVote msg :=
            ⟨htype, by simpa using hrejects, not_lt.mp hterm, not_not.mp hstate, hpending.2,
              hpending.2 ▸ hpending.1⟩
          dsimp only
          split
          next hquorum =>
            have hpeers : (r.recordPreVote msg).peers = r.peers := by
              unfold recordPreVote
              split <;> rfl
            rw [hpeers] at hquorum
            have hstand : (r.recordPreVote msg).becomeCandidate.campaign.role =
                { (r.recordPreVote msg).role with
                  state := .candidate
                  term := wrap64 ((r.recordPreVote msg).role.term + 1)
                  pendingPreVoteTerm := 0 } := by
              unfold campaign
              split <;> rfl
            rw [hstand, hrecord]
            exact .stand msg rfl hcounts hquorum
          · rw [hrecord]
            exact .preVote msg rfl hcounts

theorem handleAppendEntries_role :
    RoleChange r (.message msg) (r.handleAppendEntries msg).1.role := by
  have hprepared : RoleChange r (.message msg) (r.prepareForLeaderRpc msg).1.role :=
    prepareForLeaderRpc_role
  unfold handleAppendEntries
  dsimp only
  split
  · exact hprepared
  · split
    · exact hprepared
    · have hsame : (acceptEntries _ msg).1.role = (r.prepareForLeaderRpc msg).1.role :=
        (Saves.accept msg).role
      exact hsame ▸ hprepared

theorem handleInstallSnapshot_role :
    RoleChange r (.message msg) (r.handleInstallSnapshot msg).1.role := by
  have hprepared : RoleChange r (.message msg) (r.prepareForLeaderRpc msg).1.role :=
    prepareForLeaderRpc_role
  unfold handleInstallSnapshot
  dsimp only
  split_ifs
  all_goals first
    | exact hprepared
    | have hsame : (installSnapshot _ msg).1.role = (r.prepareForLeaderRpc msg).1.role :=
        (Saves.install msg).role
      exact hsame ▸ hprepared

theorem handleAppendEntriesResponse_role (htype : msg.type = .appendEntriesResponse) :
    RoleChange r (.message msg) (r.handleAppendEntriesResponse msg).role := by
  unfold handleAppendEntriesResponse
  split
  · exact .same
  next hrejects =>
    split
    next hterm => exact becomeFollower_role rfl hterm.le 0
    next hnewer =>
      split
      · exact .same
      split
      · exact .same
      next hstate =>
        split
        · exact .same
        next holder =>
          split
          next hsuccess =>
            rw [Saves.choose.role]
            unfold noteReadAck
            split
            next hack =>
              exact .ack msg rfl ⟨htype, by simpa using hrejects, hsuccess, by omega,
                not_not.mp hstate, hack.1, hack.2.2, hack.2.1⟩
            · exact .same
          · dsimp only
            split <;> exact .same

theorem handleInstallSnapshotResponse_role :
    RoleChange r (.message msg) (r.handleInstallSnapshotResponse msg).role := by
  unfold handleInstallSnapshotResponse
  split
  · exact .same
  split
  next hterm => exact becomeFollower_role rfl hterm.le 0
  split_ifs <;> exact .same

theorem readIndex_role : RoleChange r .readIndex r.readIndex.1.role := by
  unfold readIndex
  split
  · exact .same
  next hleader =>
    simp only [not_or, not_not] at hleader
    split
    · exact .same
    next hidle =>
      have hstart (index : Nat) : RoleChange r .readIndex
          { r.startReadRound with pendingReadIndex := index }.role :=
        .start rfl hleader.1 (by simpa using hidle) index
      dsimp only
      split
      · split
        next next hpropose =>
          have hrole := role_propose ({ r.startReadRound with
            pendingReadIndex := wrap64 (r.startReadRound.lastLogIndex + 1) }) []
          rw [hpropose] at hrole
          have hgive :
              (next.finishReadIndex ⟨next.pendingReadContext, next.pendingReadIndex⟩).role =
              { next.role with
                readIndexPending := false
                pendingReadIndex := 0
                pendingReadContext := 0
                readIndexAcks := Table.empty } := by
            unfold finishReadIndex
            rw [if_neg (by simp)]
            rfl
          rw [hgive, hrole]
          exact .give rfl hleader.1 (by simpa using hidle)
        next next index hpropose =>
          have hrole := role_propose ({ r.startReadRound with
            pendingReadIndex := wrap64 (r.startReadRound.lastLogIndex + 1) }) []
          rw [hpropose] at hrole
          rw [hrole]
          exact hstart _
      · exact hstart _

/-- Every operation changes the role in one of these ways. -/
theorem step_role (r : Raft D) (input : Input D) : RoleChange r input (r.step input).role := by
  cases input with
  | tick => exact tick_role
  | message msg =>
      simp only [step, handleMessage]
      split
      · exact handleRequestVote_role
      · exact handleRequestVoteResponse_role
      · exact .same
      next htype => exact handlePreVoteResponse_role htype
      · exact handleAppendEntries_role
      next htype => exact handleAppendEntriesResponse_role htype
      · exact handleInstallSnapshot_role
      · exact handleInstallSnapshotResponse_role
      · exact .same
  | propose data =>
      rw [step, role_propose]
      exact .same
  | readIndex => exact readIndex_role
  | finishRead read => exact finishReadIndex_role read
  | advance index =>
      rw [step, (Saves.apply index).role]
      exact .same
  | takeSnapshot index state =>
      rw [step, (Saves.compact index state).role]
      exact .same

end Operations

end Raft

end RaftKv
