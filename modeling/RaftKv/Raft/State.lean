import RaftKv.Foundation.Table
import RaftKv.Foundation.Word
import RaftKv.Wal.Log

/-! # State of one Raft node

The members of `kv::Raft` and the small queries over them. Two members stand for
choices made outside the program: `electionRng` lists the jitter values the
random generator will draw, and `snapshotRestore` is the verdict the attached
callback will give, or none when no callback is attached.
-/

namespace RaftKv

inductive State where
  | follower
  | preCandidate
  | candidate
  | leader
  deriving DecidableEq, Repr

structure ReadIndexToken where
  context : Nat := 0
  safeIndex : Nat := 0
  deriving DecidableEq, Repr

/-- Replication progress of one follower; logs are 1-indexed. -/
structure Progress where
  matchIndex : Nat := 0
  next : Nat := 1
  deriving DecidableEq, Repr

structure Config where
  id : Nat := 0
  peers : List Nat := []
  electionTick : Nat := 10
  heartbeatTick : Nat := 1
  snapshotThreshold : Nat := 100
  deriving DecidableEq, Repr

/-- The constructor's check: three distinct nonzero members, this node among them. -/
def Config.valid (config : Config) : Bool :=
  !(config.id == 0 || config.electionTick == 0 || config.heartbeatTick == 0 ||
    config.peers.length != 3 || config.peers.dedup.length != config.peers.length ||
    config.peers.contains 0 || !config.peers.contains config.id)

structure Raft (D : Type) where
  id : Nat
  term : Nat
  lead : Nat
  votedFor : Nat
  commitIndex : Nat
  lastApplied : Nat
  state : State
  log : List Entry
  logOffset : Nat
  logOffsetTerm : Nat
  progress : Table Progress
  peers : List Nat
  electionTimeout : Nat
  heartbeatTimeout : Nat
  snapshotThreshold : Nat
  lastSnapshotIndex : Nat
  electionElapsed : Nat
  randomizedElectionTimeout : Nat
  heartbeatElapsed : Nat
  electionRng : List Nat
  votes : Table Bool
  preVotes : Table Bool
  pendingPreVoteTerm : Nat
  readIndexPending : Bool
  pendingReadIndex : Nat
  pendingReadContext : Nat
  nextReadContext : Nat
  readIndexAcks : Table Bool
  lastSnapshotData : D
  snapshotRestore : Option Bool
  wal : Option (Wal D)
  storageFailed : Bool
  msgs : List (Message D)

namespace Raft

variable {D : Type}

/-- A new timeout between `electionTimeout` and twice that, drawn by the generator. -/
def resetRandomizedElectionTimeout (r : Raft D) : Raft D :=
  { r with
    electionElapsed := 0
    randomizedElectionTimeout :=
      (r.electionTimeout + r.electionRng.head?.getD 0 % r.electionTimeout) % 2 ^ 32
    electionRng := r.electionRng.tail }

/-- The constructor; none when it throws `invalid_argument`. -/
def new [Blob D] (config : Config) (rng : List Nat) : Option (Raft D) :=
  if config.valid then
    some (resetRandomizedElectionTimeout
      { id := config.id, term := 0, lead := 0, votedFor := 0, commitIndex := 0,
        lastApplied := 0, state := .follower, log := [], logOffset := 0, logOffsetTerm := 0,
        progress := Table.empty, peers := config.peers, electionTimeout := config.electionTick,
        heartbeatTimeout := config.heartbeatTick, snapshotThreshold := config.snapshotThreshold,
        lastSnapshotIndex := 0, electionElapsed := 0, randomizedElectionTimeout := 0,
        heartbeatElapsed := 0, electionRng := rng, votes := Table.empty,
        preVotes := Table.empty, pendingPreVoteTerm := 0, readIndexPending := false,
        pendingReadIndex := 0, pendingReadContext := 0, nextReadContext := 1,
        readIndexAcks := Table.empty, lastSnapshotData := Blob.empty, snapshotRestore := none,
        wal := none, storageFailed := false, msgs := [] })
  else none

/-! ## Log index helpers -/

def lastLogIndex (r : Raft D) : Nat := wrap64 (r.logOffset + r.log.length)

/-- Position of an index in the retained log, as the unsigned subtraction
`index - log_offset_ - 1` computes it. -/
def logPosition (r : Raft D) (index : Nat) : Nat := sub64 (sub64 index r.logOffset) 1

def logEntry (r : Raft D) (index : Nat) : Entry := r.log.getD (r.logPosition index) {}

def termAt (r : Raft D) (index : Nat) : Nat :=
  if index = 0 then 0
  else if index = r.logOffset then r.logOffsetTerm
  else if index < r.logOffset ∨ index > r.lastLogIndex then 0
  else (r.logEntry index).term

def lastLogTerm (r : Raft D) : Nat :=
  match r.log.getLast? with
  | none => r.logOffsetTerm
  | some e => e.term

def isLogUpToDate (r : Raft D) (candidateIndex candidateTerm : Nat) : Bool :=
  if candidateTerm ≠ r.lastLogTerm then candidateTerm > r.lastLogTerm
  else candidateIndex ≥ r.lastLogIndex

def isMember (r : Raft D) (node : Nat) : Bool := node != 0 && r.peers.contains node

/-- The address check every handler starts with. -/
def rejects (r : Raft D) (msg : Message D) : Bool :=
  msg.receiver != r.id || msg.sender == r.id || !r.isMember msg.sender

def hasCommittedEntryInCurrentTerm (r : Raft D) : Bool :=
  r.commitIndex > 0 && r.termAt r.commitIndex == r.term

def others (r : Raft D) : List Nat := r.peers.filter (· != r.id)

/-! ## Messages and storage -/

def send (r : Raft D) (msg : Message D) : Raft D := { r with msgs := r.msgs ++ [msg] }

def readMessages (r : Raft D) : Raft D × List (Message D) := ({ r with msgs := [] }, r.msgs)

/-- `set_wal`. -/
def setWal (r : Raft D) (w : Wal D) : Raft D := { r with wal := some w, storageFailed := false }

/-- Flush the write buffer; a failure is remembered. Without a WAL nothing can fail. -/
def syncWal (r : Raft D) : Raft D × Bool :=
  let synced := r.wal.map Wal.sync
  let ok := (synced.map Prod.snd).getD true
  ({ r with wal := synced.map Prod.fst, storageFailed := r.storageFailed || !ok }, ok)

def saveHardState (r : Raft D) : Raft D :=
  { r with wal := r.wal.map (·.saveHardState ⟨r.term, r.votedFor, r.commitIndex⟩) }

def saveEntry (r : Raft D) (e : Entry) : Raft D := { r with wal := r.wal.map (·.saveEntry e) }

def saveSnapshot [Blob D] (r : Raft D) (snap : SnapshotMeta D) : Raft D :=
  { r with wal := r.wal.map (·.saveSnapshot snap) }

/-! ## Restart -/

/-- The loop of `restore` over the recovered entries; none when it throws on a gap. -/
def restoreLog (offset : Nat) : Nat → List Entry → Option (List Entry)
  | _, [] => some []
  | expected, e :: rest =>
      if e.index > offset then
        if e.index ≠ expected then none
        else (restoreLog offset (wrap64 (expected + 1)) rest).map (e :: ·)
      else restoreLog offset expected rest

/-- `restore`; none when it throws `invalid_argument`. -/
def restore (r : Raft D) (hs : HardState) (entries : List Entry) (snap : SnapshotMeta D) :
    Option (Raft D) :=
  match restoreLog snap.index (wrap64 (snap.index + 1)) entries with
  | none => none
  | some log =>
      let r := { r with
        logOffset := snap.index
        logOffsetTerm := snap.term
        lastSnapshotIndex := snap.index
        lastSnapshotData := snap.state
        log := log
        term := hs.term
        votedFor := hs.vote
        commitIndex := max snap.index hs.commit }
      if r.commitIndex > r.lastLogIndex then none
      else some { r with lastApplied := snap.index }

end Raft

end RaftKv
