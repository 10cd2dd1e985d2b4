import RaftKv.Raft.State

/-! # Elections

Role changes, the logical clock and the vote and pre-vote messages of
`raft.cpp`. A handler that returns a response gives it beside the new state. Where
the source fills in a response field by field, the model builds it at the return.
`becomeLeader` sends the first heartbeat, so broadcasting is defined here too.
-/

namespace RaftKv.Raft

variable {D : Type} [Blob D]

/-! ## Role changes -/

def becomeFollower (r : Raft D) (term leader : Nat) : Raft D :=
  if term < r.term then r
  else
    let advancedTerm := decide (term > r.term)
    let r := resetRandomizedElectionTimeout
      { r with
        state := .follower
        term := term
        lead := leader
        votedFor := if advancedTerm then 0 else r.votedFor
        readIndexPending := false
        pendingReadIndex := 0
        pendingReadContext := 0
        readIndexAcks := Table.empty
        pendingPreVoteTerm := 0 }
    if advancedTerm then r.saveHardState.syncWal.1 else r

def becomePreCandidate (r : Raft D) : Raft D :=
  resetRandomizedElectionTimeout
    { r with state := .preCandidate, lead := 0, preVotes := Table.empty, pendingPreVoteTerm := 0 }

def becomeCandidate (r : Raft D) : Raft D :=
  let r := resetRandomizedElectionTimeout
    { r with
      state := .candidate
      term := wrap64 (r.term + 1)
      lead := 0
      votedFor := r.id
      votes := Table.empty
      pendingPreVoteTerm := 0 }
  r.saveHardState.syncWal.1

/-! ## Heartbeats -/

def makeInstallSnapshot (r : Raft D) (peer : Nat) : Message D :=
  { (Message.default : Message D) with
    type := .installSnapshot
    sender := r.id
    receiver := peer
    term := r.term
    snapshotIndex := r.logOffset
    snapshotTerm := r.logOffsetTerm
    snapshotData := r.lastSnapshotData }

/-- `progress_[peer]`. A leader has an entry for every peer since `becomeLeader`, so the
insertion of a default one is never observed. -/
def progressOf (r : Raft D) (peer : Nat) : Progress := (r.progress.get? peer).getD {}

/-- Entries from `next` to the end of the log. `RaftKv.Raft.Loops` has the loop with its
counter, which does not get past the last 64-bit index. -/
def entriesFrom (r : Raft D) (next : Nat) : List Entry :=
  (List.range' next (r.lastLogIndex + 1 - next)).map r.logEntry

def makeAppendEntries (r : Raft D) (peer : Nat) : Message D :=
  let next := (r.progressOf peer).next
  let prev := sub64 next 1
  { (Message.default : Message D) with
    type := .appendEntries
    sender := r.id
    receiver := peer
    term := r.term
    prevLogIndex := prev
    prevLogTerm := if prev = 0 then 0 else r.termAt prev
    entries := r.entriesFrom next
    leaderCommit := r.commitIndex
    readContext := if r.readIndexPending then r.pendingReadContext else 0 }

/-- What one iteration of `broadcast_heartbeat` sends to a peer: a snapshot when
the next index is already compacted, otherwise the log from there on. -/
def heartbeatFor (r : Raft D) (peer : Nat) : Message D :=
  if (r.progressOf peer).next ≤ r.logOffset then r.makeInstallSnapshot peer
  else r.makeAppendEntries peer

def broadcastHeartbeat (r : Raft D) : Raft D :=
  { r with msgs := r.msgs ++ r.others.map r.heartbeatFor }

def becomeLeader (r : Raft D) : Raft D :=
  let r := { r with
    state := .leader
    lead := r.id
    heartbeatElapsed := 0
    progress := r.others.foldl
      (fun progress peer => progress.insert peer ⟨0, wrap64 (r.lastLogIndex + 1)⟩) Table.empty }
  r.broadcastHeartbeat

/-! ## Campaigns -/

def makePreVote (r : Raft D) (peer : Nat) : Message D :=
  { (Message.default : Message D) with
    type := .preVote
    sender := r.id
    receiver := peer
    term := r.pendingPreVoteTerm
    lastLogIndex := r.lastLogIndex
    lastLogTerm := r.lastLogTerm }

/-- A pre-candidate asks whether the peers would vote for it in the next term, without
changing its own. -/
def preCampaign (r : Raft D) : Raft D :=
  if r.storageFailed then r
  else
    let r := { r with
      pendingPreVoteTerm := wrap64 (r.term + 1)
      preVotes := r.preVotes.insert r.id true }
    { r with msgs := r.msgs ++ r.others.map r.makePreVote }

def makeRequestVote (r : Raft D) (peer : Nat) : Message D :=
  { (Message.default : Message D) with
    type := .requestVote
    sender := r.id
    receiver := peer
    term := r.term
    lastLogIndex := r.lastLogIndex
    lastLogTerm := r.lastLogTerm }

def campaign (r : Raft D) : Raft D :=
  if r.storageFailed then r
  else
    let r := { r with votes := r.votes.insert r.id true }
    { r with msgs := r.msgs ++ r.others.map r.makeRequestVote }

/-! ## The clock -/

def tick (r : Raft D) : Raft D :=
  if r.storageFailed then r
  else if r.state = .leader then
    let r := { r with heartbeatElapsed := r.heartbeatElapsed + 1 }
    if r.heartbeatElapsed ≥ r.heartbeatTimeout then
      broadcastHeartbeat { r with heartbeatElapsed := 0 }
    else r
  else
    let r := { r with electionElapsed := r.electionElapsed + 1 }
    if r.electionElapsed ≥ r.randomizedElectionTimeout then
      -- followers, pre-candidates and candidates all go (back) to a pre-vote
      preCampaign (becomePreCandidate { r with electionElapsed := 0 })
    else r

/-! ## Votes -/

def voteResponse (r : Raft D) (msg : Message D) (granted : Bool) : Message D :=
  { (Message.default : Message D) with
    type := .requestVoteResponse
    sender := r.id
    receiver := msg.sender
    term := r.term
    voteGranted := granted }

/-- The granting branch of `handle_request_vote`; false when the vote could not be made
durable, in which case it is not given. -/
def grantVote (r : Raft D) (msg : Message D) : Raft D × Bool :=
  (resetRandomizedElectionTimeout { r with votedFor := msg.sender }).saveHardState.syncWal

def handleRequestVote (r : Raft D) (msg : Message D) : Raft D × Message D :=
  if r.rejects msg then (r, r.voteResponse msg false)
  else
    let r := if msg.term > r.term then r.becomeFollower msg.term 0 else r
    if r.storageFailed then (r, r.voteResponse msg false)
    else if msg.term = r.term ∧ (r.votedFor = 0 ∨ r.votedFor = msg.sender) ∧
        r.isLogUpToDate msg.lastLogIndex msg.lastLogTerm then
      let (r, granted) := r.grantVote msg
      (r, r.voteResponse msg granted)
    else (r, r.voteResponse msg false)

def recordVote (r : Raft D) (msg : Message D) : Raft D :=
  if msg.voteGranted then { r with votes := r.votes.insert msg.sender true } else r

def handleRequestVoteResponse (r : Raft D) (msg : Message D) : Raft D :=
  if r.rejects msg then r
  else if msg.term > r.term then r.becomeFollower msg.term 0
  else if msg.term < r.term ∨ r.state ≠ .candidate then r
  else
    let r := r.recordVote msg
    if r.votes.count (fun granted => granted) > r.peers.length / 2 then r.becomeLeader else r

/-! ## Pre-votes -/

def preVoteResponse (r : Raft D) (msg : Message D) (granted : Bool) : Message D :=
  { (Message.default : Message D) with
    type := .preVoteResponse
    sender := r.id
    receiver := msg.sender
    term := r.term
    preVoteTerm := msg.term
    voteGranted := granted }

/-- Answers a pre-vote; nothing of the node changes. -/
def handlePreVote (r : Raft D) (msg : Message D) : Message D :=
  if r.rejects msg then r.preVoteResponse msg false
  else if r.storageFailed ∨ msg.term ≤ r.term then r.preVoteResponse msg false
  -- a leader is known and its heartbeats are recent
  else if r.lead ≠ 0 ∧ r.electionElapsed < r.electionTimeout then r.preVoteResponse msg false
  else r.preVoteResponse msg (r.isLogUpToDate msg.lastLogIndex msg.lastLogTerm)

def recordPreVote (r : Raft D) (msg : Message D) : Raft D :=
  if msg.voteGranted then { r with preVotes := r.preVotes.insert msg.sender true } else r

def handlePreVoteResponse (r : Raft D) (msg : Message D) : Raft D :=
  if r.rejects msg then r
  else if msg.term > r.term then r.becomeFollower msg.term 0
  else if r.state ≠ .preCandidate then r
  else if msg.preVoteTerm = 0 ∨ msg.preVoteTerm ≠ r.pendingPreVoteTerm then r
  else
    let r := r.recordPreVote msg
    if r.preVotes.count (fun granted => granted) > r.peers.length / 2 then
      r.becomeCandidate.campaign
    else r

end RaftKv.Raft
