import RaftKv.Raft.Election

/-! # Log replication, snapshots and reads

The rest of `raft.cpp`: appending and acknowledging entries, committing and
applying them, compaction, snapshot installation and ReadIndex rounds.
-/

namespace RaftKv.Raft

variable {D : Type} [Blob D]

/-! ## Followers -/

/-- Check and bookkeeping shared by both leader RPCs; false when the message is
to be answered with a failure at once. -/
def prepareForLeaderRpc (r : Raft D) (msg : Message D) : Raft D × Bool :=
  if r.rejects msg then (r, false)
  else
    let r := if msg.term > r.term then r.becomeFollower msg.term msg.sender else r
    if r.storageFailed ∨ msg.term < r.term then (r, false)
    else
      let r := if r.state ≠ .follower then r.becomeFollower msg.term msg.sender else r
      ({ resetRandomizedElectionTimeout r with lead := msg.sender }, true)

/-- The consistency check at `prev_log_index`. -/
def logOk (r : Raft D) (msg : Message D) : Bool :=
  if msg.prevLogIndex = 0 then true
  else if msg.prevLogIndex ≥ r.logOffset ∧ r.lastLogIndex ≥ msg.prevLogIndex then
    r.termAt msg.prevLogIndex == msg.prevLogTerm
  else false

/-- One iteration of the loop over the carried entries; none at a conflict with a
committed entry. -/
def appendEntry (r : Raft D) (index : Nat) (e : Entry) : Option (Raft D) :=
  if index ≤ r.logOffset then some r
  else if index ≤ r.lastLogIndex then
    if r.termAt index ≠ e.term then
      if index ≤ r.commitIndex then none
      else
        -- drop the conflicting suffix; the WAL learns of it from the new entry
        some (saveEntry { r with log := r.log.take (r.logPosition index) ++ [e] } e)
    else some r
  else some (saveEntry { r with log := r.log ++ [e] } e)

/-- The loop, with the next entry at `prev + i + 1`; false when it stopped early. -/
def appendLoop (r : Raft D) (prev : Nat) : Nat → List Entry → Raft D × Bool
  | _, [] => (r, true)
  | i, e :: rest =>
      match r.appendEntry (wrap64 (prev + i + 1)) e with
      | none => (r, false)
      | some r => appendLoop r prev (i + 1) rest

def appendResponse (r : Raft D) (msg : Message D) (success : Bool) (matchIndex : Nat) :
    Message D :=
  { (Message.default : Message D) with
    type := .appendEntriesResponse
    sender := r.id
    receiver := msg.sender
    term := r.term
    success := success
    matchIndex := matchIndex
    readContext := msg.readContext }

/-- The follower's new commit index is that of the leader, cut at the end of its own log. -/
def learnCommit (r : Raft D) (msg : Message D) : Raft D × Bool :=
  (saveHardState { r with commitIndex := min msg.leaderCommit r.lastLogIndex }).syncWal

/-- `handle_append_entries` after the loop. -/
def finishEntries (msg : Message D) (looped : Raft D × Bool) : Raft D × Message D :=
  let (r, complete) := looped
  if !complete then (r, r.appendResponse msg false r.commitIndex)
  else
    -- one flush for the whole batch
    let (r, synced) := if msg.entries.isEmpty then (r, true) else r.syncWal
    if !synced then (r, r.appendResponse msg false 0)
    else
      let matchIndex := wrap64 (msg.prevLogIndex + msg.entries.length)
      if msg.leaderCommit > r.commitIndex then
        let (r, synced) := r.learnCommit msg
        (r, r.appendResponse msg synced matchIndex)
      else (r, r.appendResponse msg true matchIndex)

/-- `handle_append_entries` after the consistency check. -/
def acceptEntries (r : Raft D) (msg : Message D) : Raft D × Message D :=
  finishEntries msg (r.appendLoop msg.prevLogIndex 0 msg.entries)

def handleAppendEntries (r : Raft D) (msg : Message D) : Raft D × Message D :=
  let (r, ready) := r.prepareForLeaderRpc msg
  if !ready then (r, r.appendResponse msg false 0)
  else if !r.logOk msg then (r, r.appendResponse msg false 0)
  else r.acceptEntries msg

/-! ## The leader -/

/-- Number of nodes known to hold index `i`, this one included. -/
def replicas (r : Raft D) (i : Nat) : Nat := 1 + r.progress.count (fun p => p.matchIndex ≥ i)

/-- One turn of the commit loop: entries of older terms are skipped, replicated ones of the
current term move the commit index. -/
def commitStep (r : Raft D) (i : Nat) : Raft D :=
  if (r.logEntry i).term ≠ r.term then r
  else if r.replicas i > r.peers.length / 2 then { r with commitIndex := i }
  else r

/-- The commit loop from `commit_index_ + 1` to the end of the log. `RaftKv.Raft.Loops` has it
with its counter, which does not get past the last 64-bit index. -/
def advanceCommit (r : Raft D) : Raft D :=
  (List.range' (wrap64 (r.commitIndex + 1))
    (r.lastLogIndex + 1 - wrap64 (r.commitIndex + 1))).foldl commitStep r

/-- The success branch of `handle_append_entries_response`, and the start of that of
`handle_install_snapshot_response`: the follower is known to hold `match_index`. -/
def noteMatch (r : Raft D) (msg : Message D) : Raft D :=
  { r with
    progress := r.progress.insert msg.sender ⟨msg.matchIndex, wrap64 (msg.matchIndex + 1)⟩ }

def noteReadAck (r : Raft D) (msg : Message D) : Raft D :=
  if r.readIndexPending ∧ msg.readContext ≠ 0 ∧ msg.readContext = r.pendingReadContext then
    { r with readIndexAcks := r.readIndexAcks.insert msg.sender true }
  else r

/-- Advance the commit index and make it durable when it moved. -/
def chooseCommit (r : Raft D) : Raft D :=
  if r.advanceCommit.commitIndex > r.commitIndex then r.advanceCommit.saveHardState.syncWal.1
  else r.advanceCommit

/-- One step back after a rejected consistency check. -/
def backOff (r : Raft D) (peer : Nat) : Raft D :=
  let progress := r.progressOf peer
  { r with
    progress := r.progress.insert peer
      { progress with next := if progress.next > 1 then progress.next - 1 else progress.next } }

def handleAppendEntriesResponse (r : Raft D) (msg : Message D) : Raft D :=
  if r.rejects msg then r
  else if msg.term > r.term then r.becomeFollower msg.term 0
  else if r.storageFailed then r
  else if r.state ≠ .leader then r
  else if msg.term < r.term then r
  else if msg.success then ((r.noteMatch msg).noteReadAck msg).chooseCommit
  else
    let r := r.backOff msg.sender
    if r.logOffset > 0 ∧ (r.progressOf msg.sender).next ≤ r.logOffset then
      r.send (r.makeInstallSnapshot msg.sender)
    else r.broadcastHeartbeat

/-- The entry `propose` creates. -/
def nextEntry (r : Raft D) (data : Bytes) : Entry :=
  { type := entryNormal, data := data, index := wrap64 (r.lastLogIndex + 1), term := r.term }

/-- Append to the log and the WAL; the append is undone when the flush fails. -/
def appendOwn (r : Raft D) (entry : Entry) : Raft D × Bool :=
  let (r, ok) := (saveEntry { r with log := r.log ++ [entry] } entry).syncWal
  if !ok then ({ r with log := r.log.dropLast }, false) else (r, true)

def propose (r : Raft D) (data : Bytes) : Raft D × Option Nat :=
  if r.state ≠ .leader ∨ r.storageFailed then (r, none)
  else
    let entry := r.nextEntry data
    let (r, ok) := r.appendOwn entry
    if !ok then (r, none) else (r.broadcastHeartbeat, some entry.index)

/-! ## Applying -/

def nextEntryToApply (r : Raft D) : Option Entry :=
  if r.lastApplied ≥ r.commitIndex then none
  else some (r.logEntry (wrap64 (r.lastApplied + 1)))

def advance (r : Raft D) (index : Nat) : Raft D :=
  if index > r.commitIndex ∨ index ≠ wrap64 (r.lastApplied + 1) then r
  else { r with lastApplied := index }

/-! ## Snapshots -/

def shouldSnapshot (r : Raft D) : Bool :=
  r.snapshotThreshold > 0 && r.lastApplied ≥ r.lastSnapshotIndex &&
    r.lastApplied - r.lastSnapshotIndex ≥ r.snapshotThreshold

/-- The compaction loop: position of the first entry above `applied`, zero when
there is none. -/
def keepFrom (log : List Entry) (applied : Nat) : Nat :=
  (log.findIdx? (fun e => e.index > applied)).getD 0

/-- Erase everything before the kept position; a log with nothing to keep is cleared. -/
def compactLog (log : List Entry) (applied : Nat) : List Entry :=
  if keepFrom log applied > 0 then log.drop (keepFrom log applied)
  else
    match log.getLast? with
    | some e => if e.index ≤ applied then [] else log
    | none => log

def takeSnapshot (r : Raft D) (appliedIndex : Nat) (state : D) : Raft D :=
  if appliedIndex = 0 ∨ appliedIndex ≤ r.logOffset ∨ appliedIndex > r.lastApplied then r
  else
    let snapTerm := r.termAt appliedIndex
    let (r, ok) := (r.saveSnapshot ⟨appliedIndex, snapTerm, state, false⟩).syncWal
    if !ok then r
    else
      { r with
        log := compactLog r.log appliedIndex
        logOffset := appliedIndex
        logOffsetTerm := snapTerm
        lastSnapshotIndex := appliedIndex
        lastSnapshotData := state }

def snapshotResponse (r : Raft D) (msg : Message D) (success : Bool) (matchIndex : Nat) :
    Message D :=
  { (Message.default : Message D) with
    type := .installSnapshotResponse
    sender := r.id
    receiver := msg.sender
    term := r.term
    success := success
    matchIndex := matchIndex }

/-- Discard the entire log and replace it by the snapshot. -/
def adoptSnapshot (r : Raft D) (msg : Message D) : Raft D :=
  { r with
    log := []
    logOffset := msg.snapshotIndex
    logOffsetTerm := msg.snapshotTerm
    lastSnapshotIndex := msg.snapshotIndex
    lastSnapshotData := msg.snapshotData
    lastApplied := msg.snapshotIndex
    commitIndex := msg.snapshotIndex }

/-- The end of `handle_install_snapshot`, once the state machine has taken the snapshot:
the record, then the whole log replaced by it, then the hard state. -/
def installSnapshot (r : Raft D) (msg : Message D) : Raft D × Message D :=
  let (r, ok) := (r.saveSnapshot
    ⟨msg.snapshotIndex, msg.snapshotTerm, msg.snapshotData, true⟩).syncWal
  if !ok then (r, r.snapshotResponse msg false 0)
  else
    let (r, ok) := (r.adoptSnapshot msg).saveHardState.syncWal
    if !ok then (r, r.snapshotResponse msg false 0)
    else (r, r.snapshotResponse msg true msg.snapshotIndex)

def handleInstallSnapshot (r : Raft D) (msg : Message D) : Raft D × Message D :=
  let (r, ready) := r.prepareForLeaderRpc msg
  if !ready then (r, r.snapshotResponse msg false 0)
  else if msg.snapshotIndex = 0 ∨ msg.snapshotTerm = 0 ∨ msg.snapshotTerm > msg.term ∨
      Blob.isEmpty msg.snapshotData then (r, r.snapshotResponse msg false 0)
  -- a stale snapshot must not roll committed or applied state back
  else if r.commitIndex > msg.snapshotIndex ∨ r.lastApplied ≥ msg.snapshotIndex then
    (r, r.snapshotResponse msg true (max r.commitIndex r.lastApplied))
  else if r.snapshotRestore ≠ some true then (r, r.snapshotResponse msg false 0)
  else r.installSnapshot msg

def handleInstallSnapshotResponse (r : Raft D) (msg : Message D) : Raft D :=
  if r.rejects msg then r
  else if msg.term > r.term then r.becomeFollower msg.term 0
  else if r.state ≠ .leader then r
  else if msg.term < r.term then r
  else if msg.success then (r.noteMatch msg).broadcastHeartbeat
  else r

/-! ## ReadIndex -/

def finishReadIndex (r : Raft D) (read : ReadIndexToken) : Raft D :=
  if read.context ≠ r.pendingReadContext ∨ read.safeIndex ≠ r.pendingReadIndex then r
  else
    { r with
      readIndexPending := false
      pendingReadIndex := 0
      pendingReadContext := 0
      readIndexAcks := Table.empty }

/-- Successor of a read context; zero stands for no round, so the counter skips it. -/
def nextContext (context : Nat) : Nat :=
  if wrap64 (context + 1) = 0 then 1 else wrap64 (context + 1)

/-- A fresh round without acknowledgements. -/
def startReadRound (r : Raft D) : Raft D :=
  { r with
    readIndexPending := true
    pendingReadContext := r.nextReadContext
    nextReadContext := nextContext r.nextReadContext
    readIndexAcks := Table.empty }

def readIndex (r : Raft D) : Raft D × Option ReadIndexToken :=
  if r.state ≠ .leader ∨ r.storageFailed then (r, none)
  else if r.readIndexPending then (r, some ⟨r.pendingReadContext, r.pendingReadIndex⟩)
  else
    let r := r.startReadRound
    if !r.hasCommittedEntryInCurrentTerm then
      let r := { r with pendingReadIndex := wrap64 (r.lastLogIndex + 1) }
      match r.propose [] with
      | (r, none) => (r.finishReadIndex ⟨r.pendingReadContext, r.pendingReadIndex⟩, none)
      | (r, some _) => (r, some ⟨r.pendingReadContext, r.pendingReadIndex⟩)
    else
      let r := { r with pendingReadIndex := r.commitIndex }
      (r.broadcastHeartbeat, some ⟨r.pendingReadContext, r.pendingReadIndex⟩)

def readIndexReady (r : Raft D) (read : ReadIndexToken) : Bool :=
  if r.state ≠ .leader ∨ r.storageFailed then false
  else if read.context ≠ r.pendingReadContext ∨ read.safeIndex ≠ r.pendingReadIndex then false
  else if !r.hasCommittedEntryInCurrentTerm then false
  else if r.lastApplied < read.safeIndex then false
  else 1 + r.readIndexAcks.count (fun acked => acked) ≥ r.peers.length / 2 + 1

end RaftKv.Raft
