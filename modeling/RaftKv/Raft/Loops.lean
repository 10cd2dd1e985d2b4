import RaftKv.Foundation.Counting
import RaftKv.Raft.Replication

/-! # The loops over the log

`broadcast_heartbeat` and `handle_append_entries_response` run a 64-bit counter up to and
including `last_log_index()`. The handlers of `RaftKv.Raft.Replication` have what these loops
compute when they end. Here the loops stand as they are written, with a bound on their
turns: a log that ends before the last 64-bit index gives the same handlers, and on a log
that ends there the loops do not end.
-/

namespace RaftKv.Raft

variable {D : Type} {r : Raft D} {fuel : Nat}

/-! ## The two loops -/

def commitLoop (fuel : Nat) (r : Raft D) : Option (Raft D) :=
  countTo commitStep r.lastLogIndex fuel (wrap64 (r.commitIndex + 1)) r

def entriesLoop (fuel : Nat) (r : Raft D) (next : Nat) : Option (List Entry) :=
  countTo (fun entries i => entries ++ [r.logEntry i]) r.lastLogIndex fuel next []

/-- `chooseCommit` with its loop. -/
def chooseCommitLoop (fuel : Nat) (r : Raft D) : Option (Raft D) :=
  (r.commitLoop fuel).map fun next =>
    if next.commitIndex > r.commitIndex then next.saveHardState.syncWal.1 else next

theorem chooseCommitLoop_eq (hroom : r.lastLogIndex + 1 < 2 ^ 64)
    (hfuel : r.lastLogIndex + 1 < fuel) : r.chooseCommitLoop fuel = some r.chooseCommit := by
  have hloop : r.commitLoop fuel = some r.advanceCommit := countTo_eq hroom (by omega) r
  rw [chooseCommitLoop, hloop]
  rfl

theorem chooseCommitLoop_endless (hlast : 2 ^ 64 ≤ r.lastLogIndex + 1) (fuel : Nat) :
    r.chooseCommitLoop fuel = none := by
  have hloop : r.commitLoop fuel = none := countTo_endless _ hlast (wrap64_lt _) fuel r
  rw [chooseCommitLoop, hloop]
  rfl

theorem entriesLoop_eq (hroom : r.lastLogIndex + 1 < 2 ^ 64) (hfuel : r.lastLogIndex + 1 < fuel)
    (next : Nat) : r.entriesLoop fuel next = some (r.entriesFrom next) := by
  have hpush (indices : List Nat) (entries : List Entry) :
      indices.foldl (fun entries i => entries ++ [r.logEntry i]) entries =
        entries ++ indices.map r.logEntry := by
    induction indices generalizing entries with
    | nil => simp
    | cons i rest ih => simp [ih]
  rw [entriesLoop, countTo_eq hroom (by omega), hpush, List.nil_append]
  rfl

theorem entriesLoop_endless (hlast : 2 ^ 64 ≤ r.lastLogIndex + 1) {next : Nat}
    (hnext : next < 2 ^ 64) (fuel : Nat) : r.entriesLoop fuel next = none :=
  countTo_endless _ hlast hnext fuel []

theorem lastLogIndex_noted (r : Raft D) (msg : Message D) :
    ((r.noteMatch msg).noteReadAck msg).lastLogIndex = r.lastLogIndex := by
  unfold noteReadAck
  split <;> rfl

/-! ## The handlers -/

variable [Blob D]

/-- `heartbeatFor` with its loop. -/
def heartbeatLoop (fuel : Nat) (r : Raft D) (peer : Nat) : Option (Message D) :=
  if (r.progressOf peer).next ≤ r.logOffset then some (r.makeInstallSnapshot peer)
  else
    (r.entriesLoop fuel (r.progressOf peer).next).map fun entries =>
      { r.makeAppendEntries peer with entries := entries }

/-- `broadcastHeartbeat` with its loops. -/
def broadcastLoop (fuel : Nat) (r : Raft D) : Option (Raft D) :=
  (r.others.mapM (r.heartbeatLoop fuel)).map fun msgs => { r with msgs := r.msgs ++ msgs }

/-- `handleAppendEntriesResponse` with its loops. -/
def appendResponseLoop (fuel : Nat) (r : Raft D) (msg : Message D) : Option (Raft D) :=
  if r.rejects msg then some r
  else if msg.term > r.term then some (r.becomeFollower msg.term 0)
  else if r.storageFailed then some r
  else if r.state ≠ .leader then some r
  else if msg.term < r.term then some r
  else if msg.success then ((r.noteMatch msg).noteReadAck msg).chooseCommitLoop fuel
  else
    let r := r.backOff msg.sender
    if r.logOffset > 0 ∧ (r.progressOf msg.sender).next ≤ r.logOffset then
      some (r.send (r.makeInstallSnapshot msg.sender))
    else r.broadcastLoop fuel

theorem broadcastLoop_eq (hroom : r.lastLogIndex + 1 < 2 ^ 64)
    (hfuel : r.lastLogIndex + 1 < fuel) : r.broadcastLoop fuel = some r.broadcastHeartbeat := by
  have hone (peer : Nat) : r.heartbeatLoop fuel peer = some (r.heartbeatFor peer) := by
    unfold heartbeatLoop heartbeatFor
    split
    · rfl
    · simp only [entriesLoop_eq hroom hfuel, Option.map_some, makeAppendEntries]
  have hall (peers : List Nat) :
      peers.mapM (r.heartbeatLoop fuel) = some (peers.map r.heartbeatFor) := by
    induction peers with
    | nil => rfl
    | cons peer rest ih => simp [List.mapM_cons, hone, ih]
  rw [broadcastLoop, hall]
  rfl

/-- With enough turns the handler is the one without a counter. -/
theorem appendResponseLoop_eq (hroom : r.lastLogIndex + 1 < 2 ^ 64)
    (hfuel : r.lastLogIndex + 1 < fuel) (msg : Message D) :
    r.appendResponseLoop fuel msg = some (r.handleAppendEntriesResponse msg) := by
  have hcommit := chooseCommitLoop_eq (r := (r.noteMatch msg).noteReadAck msg)
    (by rwa [lastLogIndex_noted]) (by rwa [lastLogIndex_noted])
  have hbroadcast := broadcastLoop_eq (r := r.backOff msg.sender) hroom hfuel
  unfold appendResponseLoop handleAppendEntriesResponse
  rw [hcommit]
  simp only [hbroadcast, apply_ite some]

/-- On a log that ends at the last index no peer can be sent entries. -/
theorem broadcastLoop_endless (hlast : 2 ^ 64 ≤ r.lastLogIndex + 1) {peer : Nat}
    (hpeer : peer ∈ r.others) (hnext : (r.progressOf peer).next < 2 ^ 64)
    (hkept : r.logOffset < (r.progressOf peer).next) (fuel : Nat) :
    r.broadcastLoop fuel = none := by
  have hone : r.heartbeatLoop fuel peer = none := by
    rw [heartbeatLoop, if_neg (by omega), entriesLoop_endless hlast hnext]
    rfl
  rw [broadcastLoop, Option.map_eq_none_iff]
  generalize r.others = peers at hpeer
  induction peers with
  | nil => cases hpeer
  | cons first rest ih =>
      rw [List.mapM_cons]
      rcases List.mem_cons.mp hpeer with rfl | hmem
      · rw [hone]
        rfl
      · rw [ih hmem]
        cases r.heartbeatLoop fuel first <;> rfl

/-- On such a log the handler of a successful response does not return. -/
theorem appendResponseLoop_endless (hlast : 2 ^ 64 ≤ r.lastLogIndex + 1) {msg : Message D}
    (haddressed : r.rejects msg = false) (hterm : msg.term = r.term)
    (hhealthy : r.storageFailed = false) (hleader : r.state = .leader)
    (hsuccess : msg.success = true) (fuel : Nat) : r.appendResponseLoop fuel msg = none := by
  have hcommit := chooseCommitLoop_endless (r := (r.noteMatch msg).noteReadAck msg)
    (by rwa [lastLogIndex_noted]) fuel
  simp [appendResponseLoop, haddressed, hterm, hhealthy, hleader, hsuccess, hcommit]

end RaftKv.Raft
