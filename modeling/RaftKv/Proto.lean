import Mathlib.Algebra.Group.Nat.Defs
import Mathlib.Data.List.Basic

/-! # Log entries and peer messages

The plain data of `raft/proto.h`. The snapshot bytes a message or a WAL record
carries are opaque to Raft, which only asks whether they are empty, so their
type is a parameter.
-/

namespace RaftKv

abbrev Bytes := List UInt8

/-- Snapshot state as Raft sees it: a blob that may be empty. -/
class Blob (D : Type) where
  empty : D
  isEmpty : D → Bool

instance : Blob Bytes where
  empty := []
  isEmpty := List.isEmpty

/-- `EntryType` of a log entry; only normal entries are applied. -/
def entryNormal : UInt8 := 0

structure Entry where
  type : UInt8 := entryNormal
  term : Nat := 0
  index : Nat := 0
  data : Bytes := []
  deriving DecidableEq, Repr

inductive MessageType where
  | requestVote
  | requestVoteResponse
  | appendEntries
  | appendEntriesResponse
  | preVote
  | preVoteResponse
  | installSnapshot
  | installSnapshotResponse
  /-- Any other value of the type byte, which the runtime ignores. -/
  | unknown (code : UInt8)
  deriving DecidableEq, Repr

/-- One RPC between nodes. As in the source, a single record carries the fields of
every kind of message; `sender` and `receiver` are its `from` and `to`. -/
structure Message (D : Type) where
  type : MessageType
  sender : Nat
  receiver : Nat
  term : Nat
  lastLogIndex : Nat
  lastLogTerm : Nat
  voteGranted : Bool
  prevLogIndex : Nat
  prevLogTerm : Nat
  entries : List Entry
  leaderCommit : Nat
  success : Bool
  matchIndex : Nat
  snapshotIndex : Nat
  snapshotTerm : Nat
  snapshotData : D
  readContext : Nat
  preVoteTerm : Nat
  deriving DecidableEq

/-- The default-constructed message. -/
def Message.default {D : Type} [Blob D] : Message D where
  type := .requestVote
  sender := 0
  receiver := 0
  term := 0
  lastLogIndex := 0
  lastLogTerm := 0
  voteGranted := false
  prevLogIndex := 0
  prevLogTerm := 0
  entries := []
  leaderCommit := 0
  success := false
  matchIndex := 0
  snapshotIndex := 0
  snapshotTerm := 0
  snapshotData := Blob.empty
  readContext := 0
  preVoteTerm := 0

end RaftKv
