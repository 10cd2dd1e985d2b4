import RaftKv.Raft.Sent

/-! # Where entries come from

A node holds entries in its log, in its WAL and in the messages it is about to send. Each
of them was in a message it has received, or is its own proposal, or carries no data.
-/

namespace RaftKv

variable {D : Type}

/-- Everything that is in the file or on its way there. -/
def Wal.records (w : Wal D) : List (Record D) := w.file ++ w.lost ++ w.buffer

theorem Wal.records_sync {w : Wal D} {record : Record D} (hrecord : record ∈ w.sync.1.records) :
    record ∈ w.records := by
  unfold sync at hrecord
  split at hrecord
  · exact hrecord
  · split at hrecord
    · exact hrecord
    · split at hrecord
      · simp only [records, List.append_nil, List.mem_append] at hrecord ⊢
        tauto
      next kept =>
        simp only [records, List.append_nil, List.append_assoc, List.take_append_drop,
          List.mem_append] at hrecord ⊢
        tauto

/-- The entries of a replication message satisfy `P`. -/
def Message.Within (P : Entry → Prop) (msg : Message D) : Prop :=
  msg.type = .appendEntries → ∀ e ∈ msg.entries, P e

namespace Raft

/-- Every entry a node holds satisfies `P`. -/
structure Within (P : Entry → Prop) (r : Raft D) : Prop where
  log : ∀ e ∈ r.log, P e
  wal : ∀ w, r.wal = some w → ∀ e, Record.entry e ∈ w.records → P e
  msgs : ∀ msg ∈ r.msgs, msg.Within P

variable {P Q : Entry → Prop} {r next : Raft D}

theorem Within.mono (hwithin : r.Within P) (hall : ∀ e, P e → Q e) : r.Within Q where
  log e he := hall e (hwithin.log e he)
  wal w hw e he := hall e (hwithin.wal w hw e he)
  msgs msg hmsg htype e he := hall e (hwithin.msgs msg hmsg htype e he)

theorem Within.of_eq (hwithin : r.Within P) (hlog : next.log = r.log) (hwal : next.wal = r.wal)
    (hmsgs : next.msgs = r.msgs) : next.Within P :=
  ⟨hlog ▸ hwithin.log, hwal ▸ hwithin.wal, hmsgs ▸ hwithin.msgs⟩

theorem Within.logEntry (hwithin : r.Within P) (hblank : ∀ e : Entry, e.data = [] → P e)
    (index : Nat) : P (r.logEntry index) := by
  rw [Raft.logEntry, List.getD_eq_getElem?_getD]
  cases hget : r.log[r.logPosition index]? with
  | none => exact hblank _ rfl
  | some e => exact hwithin.log e (List.mem_of_getElem? hget)

/-! ## Writing to the WAL -/

theorem Within.syncWal (hwithin : r.Within P) : r.syncWal.1.Within P := by
  refine ⟨hwithin.log, fun w hw e he => ?_, hwithin.msgs⟩
  simp only [Raft.syncWal, Option.map_map, Option.map_eq_some_iff] at hw
  obtain ⟨old, hold, rfl⟩ := hw
  exact hwithin.wal old hold e (Wal.records_sync he)

/-- A record that is saved joins the buffer. -/
theorem Within.append (hwithin : r.Within P) {save : Wal D → Wal D}
    (hsave : ∀ w e, Record.entry e ∈ (save w).records → Record.entry e ∈ w.records ∨ P e) :
    { r with wal := r.wal.map save }.Within P := by
  refine ⟨hwithin.log, fun w hw e he => ?_, hwithin.msgs⟩
  obtain ⟨old, hold, rfl⟩ := Option.map_eq_some_iff.mp hw
  exact (hsave old e he).elim (hwithin.wal old hold e) fun h => h

theorem Within.saveHardState (hwithin : r.Within P) : r.saveHardState.Within P := by
  refine hwithin.append fun w e he => .inl ?_
  unfold Wal.saveHardState at he
  split at he
  · exact he
  · simpa [Wal.records, Wal.appendRecord] using he

theorem Within.saveSnapshot [Blob D] (hwithin : r.Within P) (snap : SnapshotMeta D) :
    (r.saveSnapshot snap).Within P := by
  refine hwithin.append fun w e he => .inl ?_
  unfold Wal.saveSnapshot at he
  split at he
  · exact he
  · simpa [Wal.records, Wal.appendRecord] using he

theorem Within.saveEntry {e : Entry} (hwithin : r.Within P) (he : P e) :
    (r.saveEntry e).Within P := by
  refine hwithin.append fun w other hother => ?_
  simp only [Wal.records, Wal.saveEntry, Wal.appendRecord, List.mem_append, List.mem_singleton,
    Record.entry.injEq] at hother ⊢
  rcases hother with hother | hother | rfl
  · exact .inl (.inl hother)
  · exact .inl (.inr hother)
  · exact .inr he

/-- Another log of known entries. -/
theorem Within.setLog {log : List Entry} (hwithin : r.Within P) (hlog : ∀ e ∈ log, P e) :
    { r with log := log }.Within P :=
  ⟨hlog, hwithin.wal, hwithin.msgs⟩

/-! ## Operations -/

theorem Within.appendEntry {index : Nat} {e : Entry} (hwithin : r.Within P) (he : P e)
    (hstep : r.appendEntry index e = some next) : next.Within P := by
  unfold Raft.appendEntry at hstep
  split at hstep
  · obtain rfl := Option.some.inj hstep
    exact hwithin
  · split at hstep
    · split at hstep
      · split at hstep
        · cases hstep
        · obtain rfl := Option.some.inj hstep
          refine Within.saveEntry (hwithin.setLog fun x hx => ?_) he
          rcases List.mem_append.mp hx with hold | hnew
          · exact hwithin.log x (List.mem_of_mem_take hold)
          · rwa [List.mem_singleton.mp hnew]
      · obtain rfl := Option.some.inj hstep
        exact hwithin
    · obtain rfl := Option.some.inj hstep
      refine Within.saveEntry (hwithin.setLog fun x hx => ?_) he
      rcases List.mem_append.mp hx with hold | hnew
      · exact hwithin.log x hold
      · rwa [List.mem_singleton.mp hnew]

theorem Within.appendLoop {entries : List Entry} (hwithin : r.Within P) (prev i : Nat)
    (hentries : ∀ e ∈ entries, P e) : (r.appendLoop prev i entries).1.Within P := by
  induction entries generalizing r i with
  | nil => exact hwithin
  | cons e rest ih =>
      rw [Raft.appendLoop]
      split
      · exact hwithin
      next mid hstep =>
        exact ih (hwithin.appendEntry (hentries e List.mem_cons_self) hstep) (i + 1)
          fun x hx => hentries x (List.mem_cons_of_mem e hx)

variable {o : Outside D}

theorem Within.appendOwn {e : Entry} (hwithin : r.Within P) (he : P e) :
    (r.appendOwn e).1.Within P := by
  have hlog : ∀ x ∈ r.log ++ [e], P x := by
    intro x hx
    rcases List.mem_append.mp hx with hold | hnew
    · exact hwithin.log x hold
    · rwa [List.mem_singleton.mp hnew]
  have hsynced := ((hwithin.setLog hlog).saveEntry he).syncWal
  unfold Raft.appendOwn
  dsimp only
  split
  · exact hsynced.setLog fun x hx => hsynced.log x (List.dropLast_subset _ hx)
  · exact hsynced

theorem Within.send {msg : Message D} (hwithin : r.Within P) (hmsg : msg.Within P) :
    (r.send msg).Within P := by
  refine ⟨hwithin.log, hwithin.wal, fun other hother => ?_⟩
  rcases List.mem_append.mp hother with hold | hnew
  · exact hwithin.msgs other hold
  · rwa [List.mem_singleton.mp hnew]

/-- Only replication messages carry entries. -/
theorem within_of_type {msg : Message D} (htype : msg.type ≠ .appendEntries) : msg.Within P :=
  fun h => absurd h htype

theorem within_of_plain {msg : Message D} (hplain : msg.Plain) : msg.Within P := by
  intro htype
  simp [Message.Plain, htype] at hplain

theorem Within.chooseCommit (hwithin : r.Within P) : r.chooseCommit.Within P := by
  have hadvance : r.advanceCommit.Within P := by
    obtain ⟨c, heq⟩ := r.advanceCommit_frame
    rw [heq]
    exact hwithin.of_eq rfl rfl rfl
  unfold Raft.chooseCommit
  split
  · exact hadvance.saveHardState.syncWal
  · exact hadvance

section

variable [Blob D]

theorem Within.acceptEntries {msg : Message D} (hwithin : r.Within P)
    (hentries : ∀ e ∈ msg.entries, P e) : (r.acceptEntries msg).1.Within P :=
  acceptEntries_rule (P := Raft.Within P) (hwithin.appendLoop msg.prevLogIndex 0 hentries)
    (fun _ hmid => hmid.syncWal) fun _ hmid _ =>
      Within.syncWal (Within.saveHardState (hmid.of_eq rfl rfl rfl))

theorem mem_compactLog {log : List Entry} {applied : Nat} {e : Entry}
    (he : e ∈ compactLog log applied) : e ∈ log := by
  unfold compactLog at he
  split at he
  · exact List.mem_of_mem_drop he
  · split at he
    · split at he
      · cases he
      · exact he
    · exact he

theorem Within.takeSnapshot (hwithin : r.Within P) (index : Nat) (state : D) :
    (r.takeSnapshot index state).Within P := by
  unfold Raft.takeSnapshot
  split
  · exact hwithin
  · have hsynced := (hwithin.saveSnapshot ⟨index, r.termAt index, state, false⟩).syncWal
    dsimp only
    split
    · exact hsynced
    · exact ⟨fun e he => hsynced.log e (mem_compactLog he), hsynced.wal, hsynced.msgs⟩

theorem Within.installSnapshot (hwithin : r.Within P) (msg : Message D) :
    (r.installSnapshot msg).1.Within P := by
  have hsynced := (hwithin.saveSnapshot
    ⟨msg.snapshotIndex, msg.snapshotTerm, msg.snapshotData, true⟩).syncWal
  unfold Raft.installSnapshot
  dsimp only
  split
  · exact hsynced
  · have hadopted : ((r.saveSnapshot ⟨msg.snapshotIndex, msg.snapshotTerm, msg.snapshotData,
        true⟩).syncWal.1.adoptSnapshot msg).Within P :=
      ⟨fun e he => (List.not_mem_nil he).elim, hsynced.wal, hsynced.msgs⟩
    split <;> exact hadopted.saveHardState.syncWal

theorem Within.broadcastHeartbeat (hwithin : r.Within P)
    (hblank : ∀ e : Entry, e.data = [] → P e) : r.broadcastHeartbeat.Within P := by
  refine ⟨hwithin.log, hwithin.wal, fun msg hmsg => ?_⟩
  rcases List.mem_append.mp hmsg with hold | hnew
  · exact hwithin.msgs msg hold
  · obtain ⟨peer, -, rfl⟩ := List.mem_map.mp hnew
    intro htype e he
    unfold heartbeatFor at htype he
    split at htype
    · cases htype
    next hnext =>
      rw [if_neg hnext] at he
      obtain ⟨index, -, rfl⟩ := List.mem_map.mp he
      exact hwithin.logEntry hblank index

/-- Moves that propose nothing bring in no entry but those of received messages. -/
theorem Move.within (hblank : ∀ e : Entry, e.data = [] → P e)
    (hmessage : ∀ msg, o.message msg → msg.Within P) (hroom : ∀ last, ¬ o.room last)
    (hwithin : r.Within P) (hmove : Move o r next) : next.Within P := by
  have hmany : ∀ {q : Raft D} {msgs : List (Message D)}, q.Within P →
      (∀ msg ∈ msgs, msg.type ≠ .appendEntries) → { q with msgs := q.msgs ++ msgs }.Within P := by
    intro q msgs hq hmsgs
    refine ⟨hq.log, hq.wal, fun msg hmsg => ?_⟩
    exact (List.mem_append.mp hmsg).elim (hq.msgs msg) fun h => within_of_type (hmsgs msg h)
  cases hmove with
  | raise msg lead _ _ _ hterm =>
      rw [becomeFollower_of_lt hterm]
      exact Within.syncWal (Within.saveHardState (hwithin.of_eq rfl rfl rfl))
  | demote msg _ _ _ _ hterm =>
      rw [becomeFollower_of_eq hterm]
      exact hwithin.of_eq rfl rfl rfl
  | sound =>
      unfold preCampaign
      split
      · exact hwithin
      · refine hmany (hwithin.of_eq rfl rfl rfl) fun msg hmsg => ?_
        obtain ⟨peer, -, rfl⟩ := List.mem_map.mp hmsg
        exact nofun
  | stand => exact Within.syncWal (Within.saveHardState (hwithin.of_eq rfl rfl rfl))
  | canvass =>
      unfold campaign
      split
      · exact hwithin
      · refine hmany (hwithin.of_eq rfl rfl rfl) fun msg hmsg => ?_
        obtain ⟨peer, -, rfl⟩ := List.mem_map.mp hmsg
        exact nofun
  | grant msg =>
      have hgranted : (r.grantVote msg).1.Within P :=
        Within.syncWal (Within.saveHardState (hwithin.of_eq rfl rfl rfl))
      exact hgranted.send (within_of_type nofun)
  | crown => exact Within.broadcastHeartbeat (hwithin.of_eq rfl rfl rfl) hblank
  | beat => exact hwithin.broadcastHeartbeat hblank
  | push => exact hwithin.send (within_of_type nofun)
  | accept msg hmsg htype =>
      refine (hwithin.acceptEntries (hmessage msg hmsg htype)).send (within_of_type ?_)
      obtain ⟨success, index, hreply⟩ := r.acceptEntries_reply msg
      rw [hreply]
      exact nofun
  | choose => exact hwithin.chooseCommit
  | extend _ _ _ h => exact absurd h (hroom _)
  | apply index =>
      unfold advance
      split
      · exact hwithin
      · exact hwithin.of_eq rfl rfl rfl
  | compact index state => exact hwithin.takeSnapshot index state
  | stale => exact hwithin.send (within_of_type nofun)
  | install msg =>
      refine (hwithin.installSnapshot msg).send (within_of_type ?_)
      rcases r.installSnapshot_reply msg with heq | heq <;> rw [heq] <;> exact nofun
  | say msg hplain => exact hwithin.send (within_of_plain hplain)
  | _ => exact hwithin.of_eq rfl rfl rfl

theorem Moves.within (hblank : ∀ e : Entry, e.data = [] → P e)
    (hmessage : ∀ msg, o.message msg → msg.Within P) (hroom : ∀ last, ¬ o.room last)
    (hwithin : r.Within P) (hmoves : Moves o r next) : next.Within P := by
  induction hmoves with
  | refl => exact hwithin
  | tail _ hmove ih => exact hmove.within hblank hmessage hroom ih

end

/-! ## Calls -/

theorem Within.finishReadIndex (hwithin : r.Within P) (read : ReadIndexToken) :
    (r.finishReadIndex read).Within P := by
  unfold Raft.finishReadIndex
  split
  · exact hwithin
  · exact hwithin.of_eq rfl rfl rfl

theorem Within.arm (hwithin : r.Within P) (env : Env) : (r.arm env).Within P := by
  refine Within.of_eq (r := { r with wal := r.wal.map fun w => { w with device := env.device } })
    (hwithin.append fun w e he => .inl he) rfl rfl rfl

variable [Blob D]

/-- The entry that a proposal would add. -/
def Proposes (r : Raft D) (data : Bytes) (P : Entry → Prop) : Prop :=
  r.state = .leader → r.storageFailed = false → P (r.nextEntry data)

theorem Within.propose {data : Bytes} (hwithin : r.Within P)
    (hblank : ∀ e : Entry, e.data = [] → P e) (hdata : r.Proposes data P) :
    (r.propose data).1.Within P := by
  unfold Raft.propose
  split
  · exact hwithin
  next hleader =>
    simp only [not_or, not_not, Bool.not_eq_true] at hleader
    have hown := hwithin.appendOwn (hdata hleader.1 hleader.2)
    dsimp only
    split
    · exact hown
    · exact hown.broadcastHeartbeat hblank

theorem Within.readIndex (hwithin : r.Within P) (hblank : ∀ e : Entry, e.data = [] → P e) :
    r.readIndex.1.Within P := by
  unfold Raft.readIndex
  split
  · exact hwithin
  · split
    · exact hwithin
    · dsimp only
      split
      · have hround : (({ r.startReadRound with
            pendingReadIndex := wrap64 (r.startReadRound.lastLogIndex + 1) }).propose []).1.Within
              P :=
          Within.propose (hwithin.of_eq rfl rfl rfl) hblank fun _ _ => hblank _ rfl
        split
        next hpropose =>
          rw [hpropose] at hround
          exact hround.finishReadIndex _
        next hpropose =>
          rw [hpropose] at hround
          exact hround
      · exact Within.broadcastHeartbeat (hwithin.of_eq rfl rfl rfl) hblank

/-- Nothing comes from outside but the message the node is called with. -/
def onlyMessage (input : Input D) : Outside D where
  message msg := input = .message msg
  snapshot _ _ _ := True
  room _ := False
  install _ _ := True

theorem Within.step {input : Input D} (hwithin : r.Within P)
    (hblank : ∀ e : Entry, e.data = [] → P e) (hhealthy : r.storageFailed = false)
    (hmessage : ∀ msg, input = .message msg → msg.Within P)
    (hdata : ∀ data, input = .propose data → r.Proposes data P) : (r.step input).Within P := by
  have hmoves : r.Allows (onlyMessage input) input → (r.step input).Within P := fun hallows =>
    (step_moves hhealthy hallows).within hblank hmessage (fun _ h => h) hwithin
  cases input with
  | propose data => exact hwithin.propose hblank (hdata data rfl)
  | readIndex => exact hwithin.readIndex hblank
  | message msg => exact hmoves ⟨rfl, fun _ _ _ _ => trivial⟩
  | _ => exact hmoves trivial

end Raft

end RaftKv
