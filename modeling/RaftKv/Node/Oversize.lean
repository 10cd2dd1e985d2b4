import RaftKv.Node.Run

/-! # Records that do not fit the log

The length of a record takes 24 bits, and `append_record` throws for a longer payload. The
exception leaves the handler with `log_` changed and nothing in the file, and ends the loop
of the node, hence the process. Here are the handlers that pack what a client or a peer sent,
with that exception. A call that throws leaves the file as the same call would at some point
without it, so what a node does after it is restarted is what it does after a crash.
-/

namespace RaftKv

namespace Raft

variable {D : Type} (codec : Codec D)

/-- `append_record` throws for the record. -/
def Throws (r : Raft D) (record : Record D) : Prop :=
  r.wal.isSome = true ∧ kMaxRecordPayload < (codec.pack record).2.length

instance instDecidableThrows (r : Raft D) (record : Record D) : Decidable (r.Throws codec record) :=
  inferInstanceAs (Decidable (_ ∧ _))

/-- `save_entry`; the error is the state it leaves. -/
def trySaveEntry (r : Raft D) (e : Entry) : Except (Raft D) (Raft D) :=
  if r.Throws codec (.entry e) then .error r else .ok (r.saveEntry e)

/-- `appendEntry` with the exception. -/
def tryAppendEntry (r : Raft D) (index : Nat) (e : Entry) : Except (Raft D) (Option (Raft D)) :=
  if index ≤ r.logOffset then .ok (some r)
  else if index ≤ r.lastLogIndex then
    if r.termAt index ≠ e.term then
      if index ≤ r.commitIndex then .ok none
      else
        (trySaveEntry codec { r with log := r.log.take (r.logPosition index) ++ [e] } e).map some
    else .ok (some r)
  else (trySaveEntry codec { r with log := r.log ++ [e] } e).map some

def tryAppendLoop (r : Raft D) (prev : Nat) : Nat → List Entry → Except (Raft D) (Raft D × Bool)
  | _, [] => .ok (r, true)
  | i, e :: rest =>
      match r.tryAppendEntry codec (wrap64 (prev + i + 1)) e with
      | .error left => .error left
      | .ok none => .ok (r, false)
      | .ok (some r) => tryAppendLoop r prev (i + 1) rest

/-- `propose`; the entry is in `log_` already when `save_entry` throws. -/
def tryPropose [Blob D] (r : Raft D) (data : Bytes) : Except (Raft D) (Raft D × Option Nat) :=
  if ¬ (r.state ≠ .leader ∨ r.storageFailed) ∧ r.Throws codec (.entry (r.nextEntry data)) then
    .error { r with log := r.log ++ [r.nextEntry data] }
  else .ok (r.propose data)

section Model

variable [Blob D]

def tryHandleAppendEntries (r : Raft D) (msg : Message D) :
    Except (Raft D) (Raft D × Message D) :=
  let (r, ready) := r.prepareForLeaderRpc msg
  if !ready then .ok (r, r.appendResponse msg false 0)
  else if !r.logOk msg then .ok (r, r.appendResponse msg false 0)
  else (r.tryAppendLoop codec msg.prevLogIndex 0 msg.entries).map (finishEntries msg)

/-- What `take_snapshot` writes. -/
def snapshotAt (r : Raft D) (index : Nat) (state : D) : SnapshotMeta D :=
  ⟨index, r.termAt index, state, false⟩

def tryTakeSnapshot (r : Raft D) (index : Nat) (state : D) : Except (Raft D) (Raft D) :=
  if ¬ (index = 0 ∨ index ≤ r.logOffset ∨ index > r.lastApplied) ∧
      r.Throws codec (.snapshot (r.snapshotAt index state)) then .error r
  else .ok (r.takeSnapshot index state)

/-- What `handle_install_snapshot` writes. -/
def snapshotOf (msg : Message D) : SnapshotMeta D :=
  ⟨msg.snapshotIndex, msg.snapshotTerm, msg.snapshotData, true⟩

/-- The state machine has taken the snapshot when the record is packed. -/
def tryInstallSnapshot (r : Raft D) (msg : Message D) : Except (Raft D) (Raft D × Message D) :=
  if r.Throws codec (.snapshot (snapshotOf msg)) then .error r else .ok (r.installSnapshot msg)

def tryHandleInstallSnapshot (r : Raft D) (msg : Message D) :
    Except (Raft D) (Raft D × Message D) :=
  let (r, ready) := r.prepareForLeaderRpc msg
  if !ready then .ok (r, r.snapshotResponse msg false 0)
  else if msg.snapshotIndex = 0 ∨ msg.snapshotTerm = 0 ∨ msg.snapshotTerm > msg.term ∨
      Blob.isEmpty msg.snapshotData then .ok (r, r.snapshotResponse msg false 0)
  else if r.commitIndex > msg.snapshotIndex ∨ r.lastApplied ≥ msg.snapshotIndex then
    .ok (r, r.snapshotResponse msg true (max r.commitIndex r.lastApplied))
  else if r.snapshotRestore ≠ some true then .ok (r, r.snapshotResponse msg false 0)
  else r.tryInstallSnapshot codec msg

def tryHandleMessage (r : Raft D) (msg : Message D) : Except (Raft D) (Raft D) :=
  match msg.type with
  | .appendEntries => (r.tryHandleAppendEntries codec msg).map fun (r, reply) => r.send reply
  | .installSnapshot => (r.tryHandleInstallSnapshot codec msg).map fun (r, reply) => r.send reply
  | _ => .ok (r.handleMessage msg)

/-- A call of the Raft object. A hard state and the entry of a ReadIndex round, which has no
data, are a few bytes. -/
def tryStep (r : Raft D) : Input D → Except (Raft D) (Raft D)
  | .message msg => r.tryHandleMessage codec msg
  | .propose data => (r.tryPropose codec data).map Prod.fst
  | .takeSnapshot index state => r.tryTakeSnapshot codec index state
  | input => .ok (r.step input)

/-- The records a call may have to pack. -/
def carried (r : Raft D) : Input D → List (Record D)
  | .message msg =>
      match msg.type with
      | .appendEntries => msg.entries.map .entry
      | .installSnapshot => [.snapshot (snapshotOf msg)]
      | _ => []
  | .propose data => [.entry (r.nextEntry data)]
  | .takeSnapshot index state => [.snapshot (r.snapshotAt index state)]
  | _ => []

end Model

/-- A call with the exception returns what it returns without it, or throws for a record that
does not fit, and then leaves no more in the file than is there in the other case. -/
inductive Follows {α : Type} (records : List (Record D)) (file : List (Record D)) (plain : α) :
    Except (Raft D) α → Prop
  | returns : Follows records file plain (.ok plain)
  | throws (left : Raft D) (record : Record D) (hrecord : record ∈ records)
      (hlong : kMaxRecordPayload < (codec.pack record).2.length)
      (hfile : left.synced <+: file) : Follows records file plain (.error left)

variable {codec} {r : Raft D} {records file : List (Record D)}

theorem Follows.map {α β : Type} {plain : α} {result : Except (Raft D) α}
    (hfollows : Follows codec records file plain result) (f : α → β)
    {more : List (Record D)} (hmore : file <+: more) :
    Follows codec records more (f plain) (result.map f) := by
  cases hfollows with
  | returns => exact .returns
  | throws left record hrecord hlong hfile =>
      exact .throws left record hrecord hlong (hfile.trans hmore)

theorem Follows.ok {α : Type} {plain : α} {result : Except (Raft D) α}
    (hfollows : Follows codec records file plain result)
    (hfits : ∀ record ∈ records, (codec.pack record).2.length ≤ kMaxRecordPayload) :
    result = .ok plain := by
  cases hfollows with
  | returns => rfl
  | throws left record hrecord hlong => exact absurd (hfits record hrecord) (by omega)

/-! ## The file only grows -/

theorem synced_syncWal (r : Raft D) : r.synced <+: r.syncWal.1.synced := by
  cases hwal : r.wal with
  | none => simp [synced, syncWal, hwal]
  | some w =>
      simp only [synced, syncWal, hwal, Option.map_some, Option.getD_some, Wal.sync]
      split
      · exact List.prefix_rfl
      · split
        · exact List.prefix_rfl
        · split
          · exact List.prefix_append _ _
          · exact List.prefix_append _ _

theorem synced_saveEntry (r : Raft D) (e : Entry) : (r.saveEntry e).synced = r.synced := by
  cases hwal : r.wal with
  | none => simp [synced, saveEntry, hwal]
  | some w => simp [synced, saveEntry, hwal, Wal.saveEntry, Wal.appendRecord]

theorem synced_saveHardState (r : Raft D) : r.saveHardState.synced = r.synced := by
  cases hwal : r.wal with
  | none => simp [synced, saveHardState, hwal]
  | some w =>
      simp only [synced, saveHardState, hwal, Option.map_some, Option.getD_some,
        Wal.saveHardState, Wal.appendRecord]
      split <;> rfl

theorem synced_appendEntry {next : Raft D} {index : Nat} {e : Entry}
    (happend : r.appendEntry index e = some next) : next.synced = r.synced := by
  have hsave (log : List Entry) : (saveEntry { r with log := log } e).synced = r.synced :=
    synced_saveEntry { r with log := log } e
  unfold appendEntry at happend
  split_ifs at happend
  · rw [← Option.some.inj happend]
  · rw [← Option.some.inj happend, hsave]
  · rw [← Option.some.inj happend]
  · rw [← Option.some.inj happend, hsave]

theorem synced_appendLoop (r : Raft D) (prev i : Nat) (entries : List Entry) :
    (r.appendLoop prev i entries).1.synced = r.synced := by
  induction entries generalizing r i with
  | nil => rfl
  | cons e rest ih =>
      unfold appendLoop
      split
      · rfl
      next next happend => exact (ih next (i + 1)).trans (synced_appendEntry happend)

theorem tryAppendEntry_follows (r : Raft D) (index : Nat) (e : Entry) :
    Follows codec [.entry e] r.synced (r.appendEntry index e) (r.tryAppendEntry codec index e) := by
  have hsave (log : List Entry) : Follows codec [.entry e] r.synced
      (some (saveEntry { r with log := log } e))
      ((trySaveEntry codec { r with log := log } e).map some) := by
    unfold trySaveEntry
    split
    next hthrows => exact .throws _ _ (List.mem_singleton.mpr rfl) hthrows.2 List.prefix_rfl
    · exact .returns
  unfold tryAppendEntry appendEntry
  split_ifs
  · exact .returns
  · exact .returns
  · exact hsave _
  · exact .returns
  · exact hsave _

theorem tryAppendLoop_follows (r : Raft D) (prev i : Nat) (entries : List Entry) :
    Follows codec (entries.map .entry) r.synced (r.appendLoop prev i entries)
      (r.tryAppendLoop codec prev i entries) := by
  induction entries generalizing r i with
  | nil => exact .returns
  | cons e rest ih =>
      have hentry := @tryAppendEntry_follows D codec r (wrap64 (prev + i + 1)) e
      unfold tryAppendLoop appendLoop
      generalize r.tryAppendEntry codec (wrap64 (prev + i + 1)) e = result at hentry ⊢
      cases hentry with
      | throws left record hrecord hlong hfile =>
          refine .throws left record ?_ hlong hfile
          rw [List.mem_singleton.mp hrecord]
          exact List.mem_cons_self
      | returns =>
          cases happend : r.appendEntry (wrap64 (prev + i + 1)) e with
          | none => exact .returns
          | some next =>
              have hrest := ih next (i + 1)
              rw [synced_appendEntry happend] at hrest
              dsimp only
              generalize next.tryAppendLoop codec prev (i + 1) rest = result at hrest ⊢
              cases hrest with
              | returns => exact .returns
              | throws left record hrecord hlong hfile =>
                  exact .throws left record (List.mem_cons_of_mem _ hrecord) hlong hfile

variable [Blob D]

theorem synced_finishEntries (msg : Message D) (looped : Raft D × Bool) :
    looped.1.synced <+: (finishEntries msg looped).1.synced := by
  obtain ⟨r, complete⟩ := looped
  have hlearn (q : Raft D) : q.synced <+: (q.learnCommit msg).1.synced := by
    have hgrows := synced_syncWal
      (saveHardState { q with commitIndex := min msg.leaderCommit q.lastLogIndex })
    rw [synced_saveHardState] at hgrows
    exact hgrows
  have hflush : r.synced <+: (if msg.entries.isEmpty then (r, true) else r.syncWal).1.synced := by
    split
    · exact List.prefix_rfl
    · exact synced_syncWal r
  unfold finishEntries
  dsimp only
  split
  · exact List.prefix_rfl
  · generalize (if msg.entries.isEmpty then (r, true) else r.syncWal) = flushed at hflush
    obtain ⟨q, synced⟩ := flushed
    dsimp only at hflush ⊢
    split
    · exact hflush
    · split
      · exact hflush.trans (hlearn q)
      · exact hflush

/-! ## One call -/

theorem tryHandleAppendEntries_follows (r : Raft D) (msg : Message D) :
    Follows codec (msg.entries.map .entry) (r.handleAppendEntries msg).1.synced
      (r.handleAppendEntries msg) (r.tryHandleAppendEntries codec msg) := by
  unfold tryHandleAppendEntries handleAppendEntries
  generalize r.prepareForLeaderRpc msg = prepared
  obtain ⟨q, ready⟩ := prepared
  dsimp only
  split
  · exact .returns
  · split
    · exact .returns
    · have hgrows := synced_finishEntries msg (q.appendLoop msg.prevLogIndex 0 msg.entries)
      rw [synced_appendLoop] at hgrows
      exact (tryAppendLoop_follows q msg.prevLogIndex 0 msg.entries).map (finishEntries msg) hgrows

theorem synced_propose (r : Raft D) (data : Bytes) : r.synced <+: (r.propose data).1.synced := by
  have hgrows := synced_syncWal
    (saveEntry { r with log := r.log ++ [r.nextEntry data] } (r.nextEntry data))
  rw [synced_saveEntry] at hgrows
  have hown : (r.appendOwn (r.nextEntry data)).1.synced = (saveEntry
      { r with log := r.log ++ [r.nextEntry data] } (r.nextEntry data)).syncWal.1.synced := by
    unfold appendOwn
    dsimp only
    split <;> rfl
  unfold propose
  split
  · exact List.prefix_rfl
  · dsimp only
    split <;> exact hown ▸ hgrows

theorem tryPropose_follows (r : Raft D) (data : Bytes) :
    Follows codec [.entry (r.nextEntry data)] (r.propose data).1.synced (r.propose data)
      (r.tryPropose codec data) := by
  unfold tryPropose
  split
  next hthrows =>
    exact .throws _ _ (List.mem_singleton.mpr rfl) hthrows.2.2 (synced_propose r data)
  · exact .returns

theorem synced_saveSnapshot (r : Raft D) (snap : SnapshotMeta D) :
    (r.saveSnapshot snap).synced = r.synced := by
  cases hwal : r.wal with
  | none => simp [synced, saveSnapshot, hwal]
  | some w =>
      simp only [synced, saveSnapshot, hwal, Option.map_some, Option.getD_some,
        Wal.saveSnapshot, Wal.appendRecord]
      split <;> rfl

theorem tryTakeSnapshot_follows (r : Raft D) (index : Nat) (state : D) :
    Follows codec [.snapshot (r.snapshotAt index state)] (r.takeSnapshot index state).synced
      (r.takeSnapshot index state) (r.tryTakeSnapshot codec index state) := by
  have hgrows := synced_syncWal (r.saveSnapshot ⟨index, r.termAt index, state, false⟩)
  rw [synced_saveSnapshot] at hgrows
  unfold tryTakeSnapshot
  split
  next hthrows =>
    refine .throws _ _ (List.mem_singleton.mpr rfl) hthrows.2.2 ?_
    unfold takeSnapshot
    rw [if_neg hthrows.1]
    dsimp only
    split <;> exact hgrows
  · exact .returns

theorem synced_installSnapshot (r : Raft D) (msg : Message D) :
    r.synced <+: (r.installSnapshot msg).1.synced := by
  have hgrows := synced_syncWal (r.saveSnapshot (snapshotOf msg))
  rw [synced_saveSnapshot] at hgrows
  unfold installSnapshot
  dsimp only
  split
  · exact hgrows
  · have hmore := synced_syncWal
      ((r.saveSnapshot (snapshotOf msg)).syncWal.1.adoptSnapshot msg).saveHardState
    rw [synced_saveHardState] at hmore
    split <;> exact hgrows.trans hmore

theorem tryHandleInstallSnapshot_follows (r : Raft D) (msg : Message D) :
    Follows codec [.snapshot (snapshotOf msg)] (r.handleInstallSnapshot msg).1.synced
      (r.handleInstallSnapshot msg) (r.tryHandleInstallSnapshot codec msg) := by
  unfold tryHandleInstallSnapshot handleInstallSnapshot
  generalize r.prepareForLeaderRpc msg = prepared
  obtain ⟨q, ready⟩ := prepared
  dsimp only
  split_ifs
  · exact .returns
  · exact .returns
  · exact .returns
  · exact .returns
  · unfold tryInstallSnapshot
    split
    next hthrows =>
      exact .throws _ _ (List.mem_singleton.mpr rfl) hthrows.2 (synced_installSnapshot q msg)
    · exact .returns

/-- A call of the Raft object. -/
theorem tryStep_follows (r : Raft D) (input : Input D) :
    Follows codec (r.carried input) (r.step input).synced (r.step input)
      (r.tryStep codec input) := by
  cases input with
  | message msg =>
      simp only [tryStep, tryHandleMessage, carried, step, handleMessage]
      cases msg.type with
      | appendEntries =>
          exact (tryHandleAppendEntries_follows r msg).map (fun (r, reply) => r.send reply)
            List.prefix_rfl
      | installSnapshot =>
          exact (tryHandleInstallSnapshot_follows r msg).map (fun (r, reply) => r.send reply)
            List.prefix_rfl
      | _ => exact .returns
  | propose data => exact (tryPropose_follows r data).map Prod.fst List.prefix_rfl
  | takeSnapshot index state => exact tryTakeSnapshot_follows r index state
  | tick | readIndex | finishRead read | advance index => exact .returns

end Raft

/-! ## Runs -/

variable {D : Type} [Blob D] {codec : Codec D} {config : Config} {Ok : Raft D → Input D → Prop}

/-- `Reach` with the exception: a call that throws ends the process, which may be started
again on what is left in the file. -/
inductive ThrowingReach (codec : Codec D) (config : Config) (Ok : Raft D → Input D → Prop) :
    Raft D → Prop
  | start (draws : List Nat) (r : Raft D) (hboot : boot config draws [] = some r) :
      ThrowingReach codec config Ok r
  | returns (r next : Raft D) (env : Env) (input : Input D)
      (hr : ThrowingReach codec config Ok r) (hok : Ok r input)
      (hhealthy : r.storageFailed = false)
      (hstep : (r.arm env).tryStep codec input = .ok next) :
      ThrowingReach codec config Ok (if next.storageFailed then next else next.readMessages.1)
  | throws (r left next : Raft D) (env : Env) (input : Input D) (n : Nat) (draws : List Nat)
      (hr : ThrowingReach codec config Ok r) (hok : Ok r input)
      (hhealthy : r.storageFailed = false)
      (hstep : (r.arm env).tryStep codec input = .error left)
      (hboot : boot config draws (left.synced.take n) = some next) :
      ThrowingReach codec config Ok next
  | crash (r next : Raft D) (n : Nat) (draws : List Nat) (hr : ThrowingReach codec config Ok r)
      (hboot : boot config draws (r.written.take n) = some next) :
      ThrowingReach codec config Ok next

theorem Raft.act_written {r : Raft D} (hhealthy : r.storageFailed = false) (env : Env)
    (input : Input D) : (r.act env input).1.written = ((r.arm env).step input).written := by
  unfold Raft.act
  rw [if_neg (by simp [hhealthy])]
  split <;> rfl

/-- The exception leads to no state that crashes do not lead to. -/
theorem ThrowingReach.reach {r : Raft D} (hreach : ThrowingReach codec config Ok r) :
    Reach config Ok r := by
  induction hreach with
  | start draws r hboot => exact .start draws r hboot
  | returns r next env input _ hok hhealthy hstep ih =>
      have hfollows := @Raft.tryStep_follows D codec _ (r.arm env) input
      rw [hstep] at hfollows
      cases hfollows
      have hact := Reach.act r env input ih hok
      unfold Raft.act at hact
      rw [if_neg (by simp [hhealthy])] at hact
      split at hact
      next hfailed => exact (if_pos hfailed).symm ▸ hact
      next hfine => exact (if_neg hfine).symm ▸ hact
  | throws r left next env input n draws _ hok hhealthy hstep hboot ih =>
      have hfollows := @Raft.tryStep_follows D codec _ (r.arm env) input
      rw [hstep] at hfollows
      cases hfollows with
      | throws _ _ _ _ hfile =>
          have hprefix : left.synced.take n <+: (r.act env input).1.written := by
            rw [Raft.act_written hhealthy]
            exact (List.take_prefix n _).trans (hfile.trans (Raft.synced_isPrefix_written _))
          rw [List.prefix_iff_eq_take.mp hprefix] at hboot
          exact .crash _ _ draws next (.act r env input ih hok) hboot
  | crash r next n draws _ hboot ih => exact .crash r n draws next ih hboot

end RaftKv
