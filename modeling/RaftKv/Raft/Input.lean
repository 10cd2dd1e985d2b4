import RaftKv.Raft.Replication

/-! # Inputs of a node

The calls `NodeRuntime` makes on its Raft object, and the outside choices that
go with each call: the outcome of every flush, the random draws and whether the
state machine accepts a snapshot.
-/

namespace RaftKv

structure Env where
  device : List SyncResult := []
  draws : List Nat := []
  restored : Option Bool := some true
  deriving DecidableEq, Repr

/-- Every flush succeeds and snapshots are accepted. -/
def Env.calm : Env := {}

inductive Input (D : Type) where
  | tick
  | message (msg : Message D)
  | propose (data : Bytes)
  | readIndex
  | finishRead (read : ReadIndexToken)
  | advance (index : Nat)
  | takeSnapshot (index : Nat) (state : D)
  deriving DecidableEq

section Wire

variable {D : Type}

/-- A message as it can come off the wire: every number fits 64 bits and the entries of an
AppendEntries are numbered from `prev_log_index + 1` on. -/
structure Message.Wire (msg : Message D) : Prop where
  term : msg.term < 2 ^ 64
  prev : msg.prevLogIndex < 2 ^ 64
  commit : msg.leaderCommit < 2 ^ 64
  snapshot : msg.snapshotIndex < 2 ^ 64
  indexed : msg.type = .appendEntries →
    ∀ k e, msg.entries[k]? = some e → e.index = wrap64 (msg.prevLogIndex + k + 1)

instance (msg : Message D) : Decidable msg.Wire :=
  decidable_of_iff (msg.term < 2 ^ 64 ∧ msg.prevLogIndex < 2 ^ 64 ∧ msg.leaderCommit < 2 ^ 64 ∧
      msg.snapshotIndex < 2 ^ 64 ∧ (msg.type = .appendEntries → ∀ k : Fin msg.entries.length,
        (msg.entries.get k).index = wrap64 (msg.prevLogIndex + k + 1)))
    ⟨fun ⟨hterm, hprev, hcommit, hsnapshot, hindexed⟩ =>
        ⟨hterm, hprev, hcommit, hsnapshot, fun htype k e he => by
          obtain ⟨hk, rfl⟩ := List.getElem?_eq_some_iff.mp he
          exact hindexed htype ⟨k, hk⟩⟩,
      fun ⟨hterm, hprev, hcommit, hsnapshot, hindexed⟩ =>
        ⟨hterm, hprev, hcommit, hsnapshot, fun htype k =>
          hindexed htype k _ (List.getElem?_eq_getElem k.2)⟩⟩

def Input.Wire : Input D → Prop
  | .message msg => msg.Wire
  | _ => True

instance (input : Input D) : Decidable input.Wire :=
  match input with
  | .message msg => inferInstanceAs (Decidable msg.Wire)
  | .tick | .propose _ | .readIndex | .finishRead _ | .advance _ | .takeSnapshot _ _ =>
      .isTrue trivial

end Wire

namespace Raft

variable {D : Type} [Blob D]

def arm (r : Raft D) (env : Env) : Raft D :=
  { r with
    wal := r.wal.map (fun w => { w with device := env.device })
    electionRng := env.draws
    snapshotRestore := env.restored }

/-- The dispatch of `handle_raft_message`: responses go to the outgoing queue. -/
def handleMessage (r : Raft D) (msg : Message D) : Raft D :=
  match msg.type with
  | .requestVote => (r.handleRequestVote msg).1.send (r.handleRequestVote msg).2
  | .requestVoteResponse => r.handleRequestVoteResponse msg
  | .preVote => r.send (r.handlePreVote msg)
  | .preVoteResponse => r.handlePreVoteResponse msg
  | .appendEntries => (r.handleAppendEntries msg).1.send (r.handleAppendEntries msg).2
  | .appendEntriesResponse => r.handleAppendEntriesResponse msg
  | .installSnapshot => (r.handleInstallSnapshot msg).1.send (r.handleInstallSnapshot msg).2
  | .installSnapshotResponse => r.handleInstallSnapshotResponse msg
  | .unknown _ => r

def step (r : Raft D) : Input D → Raft D
  | .tick => r.tick
  | .message msg => r.handleMessage msg
  | .propose data => (r.propose data).1
  | .readIndex => r.readIndex.1
  | .finishRead read => r.finishReadIndex read
  | .advance index => r.advance index
  | .takeSnapshot index state => r.takeSnapshot index state

end Raft

end RaftKv
