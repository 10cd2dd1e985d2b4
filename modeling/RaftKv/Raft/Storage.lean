import RaftKv.Raft.Move
import RaftKv.Wal.Durable

/-! # What a move leaves in the write-ahead log

A healthy node has an empty write buffer between moves. A move saves some
records, all admissible, and flushes them. When the flush succeeds, the durable
part of the node is what those records make of the previous one; when it fails,
the file keeps some of them and the node is marked.
-/

namespace RaftKv

variable {D : Type}

namespace Wal

/-- Everything saved has been flushed and the handle is usable. -/
structure Clean (w : Wal D) : Prop where
  buffer : w.buffer = []
  failed : w.failed = false
  lost : w.lost = []

def save (w : Wal D) (records : List (Record D)) : Wal D :=
  { w with buffer := w.buffer ++ records }

@[simp] theorem save_save (w : Wal D) (records more : List (Record D)) :
    (w.save records).save more = w.save (records ++ more) := by
  simp [save]

@[simp] theorem save_nil (w : Wal D) : w.save [] = w := by
  simp [save]

theorem sync_of_running {w : Wal D} (hfailed : w.failed = false) (hbuffer : w.buffer ≠ []) :
    w.sync = ({ w with
        file := w.file ++ w.buffer
        buffer := []
        device := w.device.tail }, true) ∨
      ∃ kept, w.sync = ({ w with
        file := w.file ++ w.buffer.take kept
        lost := w.buffer.drop kept
        buffer := []
        failed := true
        device := w.device.tail }, false) := by
  unfold sync
  simp only [hfailed, Bool.false_eq_true, if_false, List.isEmpty_iff, hbuffer]
  split
  · exact .inl rfl
  next kept _ => exact .inr ⟨kept, rfl⟩

/-- Outcome of flushing saved records: all of them reach the file, or some first ones. -/
inductive Flush (w : Wal D) (records : List (Record D)) : Wal D → Bool → Prop
  | done (next : Wal D) (hclean : next.Clean) (hfile : next.file = w.file ++ records) :
      Flush w records next true
  | torn (next : Wal D) (kept rest : List (Record D)) (hsplit : kept ++ rest = records)
      (hfailed : next.failed = true) (hfile : next.file = w.file ++ kept)
      (hlost : next.lost = rest) : Flush w records next false

theorem Clean.flush {w : Wal D} (hclean : w.Clean) (records : List (Record D)) :
    w.Flush records (w.save records).sync.1 (w.save records).sync.2 := by
  obtain ⟨hbuffer, hfailed, hlost⟩ := hclean
  have hsaved : (w.save records).buffer = records := by simp [save, hbuffer]
  by_cases hempty : records = []
  · have heq : (w.save records).sync = (w.save records, true) := by
      simp [sync, save, hempty, hbuffer, hfailed]
    rw [heq]
    exact .done _ ⟨hsaved.trans hempty, hfailed, hlost⟩ (by simp [save, hempty])
  · rcases sync_of_running (w := w.save records) hfailed (by rwa [hsaved]) with heq | ⟨kept, heq⟩
    · rw [heq, hsaved]
      exact .done _ ⟨rfl, hfailed, hlost⟩ rfl
    · rw [heq, hsaved]
      exact .torn _ _ _ (List.take_append_drop _ _) rfl rfl rfl

end Wal

namespace Raft

/-- Save records and flush. -/
def flush (r : Raft D) (records : List (Record D)) : Raft D × Bool :=
  syncWal { r with wal := r.wal.map (·.save records) }

theorem flush_of_clean {r : Raft D} {w : Wal D} (hwal : r.wal = some w) (hclean : w.Clean)
    (hhealthy : r.storageFailed = false) (records : List (Record D)) :
    ∃ next ok, r.flush records = ({ r with wal := some next, storageFailed := !ok }, ok) ∧
      w.Flush records next ok := by
  refine ⟨_, _, ?_, hclean.flush records⟩
  simp [flush, syncWal, hwal, hhealthy]

theorem syncWal_failed {r : Raft D} (hno : r.syncWal.2 = false) :
    r.syncWal.1.storageFailed = true := by
  show (r.storageFailed || !r.syncWal.2) = true
  rw [hno, Bool.not_false, Bool.or_true]

theorem syncWal_healthy {r : Raft D} (hhealthy : r.storageFailed = false)
    (hok : r.syncWal.2 = true) : r.syncWal.1.storageFailed = false := by
  show (r.storageFailed || !r.syncWal.2) = false
  rw [hhealthy, hok]
  rfl

/-- The record `save_hard_state` makes of the current state; the all-zero one is not saved. -/
def hardStateRecord (r : Raft D) : List (Record D) :=
  if r.term = 0 ∧ r.votedFor = 0 ∧ r.commitIndex = 0 then []
  else [.hardState ⟨r.term, r.votedFor, r.commitIndex⟩]

theorem saveHardState_flush (r : Raft D) :
    r.saveHardState.syncWal = r.flush r.hardStateRecord := by
  have hsave : ∀ w : Wal D, w.saveHardState ⟨r.term, r.votedFor, r.commitIndex⟩ =
      w.save r.hardStateRecord := by
    intro w
    unfold Wal.saveHardState hardStateRecord
    by_cases hzero : r.term = 0 ∧ r.votedFor = 0 ∧ r.commitIndex = 0
    · simp [HardState.isEmpty, hzero]
    · rw [if_neg hzero, if_neg (by simpa [HardState.isEmpty, and_assoc] using hzero)]
      rfl
  simp [saveHardState, flush, hsave]

theorem saveEntry_eq (r : Raft D) (e : Entry) :
    r.saveEntry e = { r with wal := r.wal.map (·.save [.entry e]) } := rfl

theorem saveSnapshot_flush [Blob D] (r : Raft D) (snap : SnapshotMeta D) (hindex : snap.index ≠ 0) :
    (r.saveSnapshot snap).syncWal = r.flush [.snapshot snap] := by
  have hempty : snap.isEmpty = false := by
    simp [SnapshotMeta.isEmpty, hindex]
  have hsave : ∀ w : Wal D, w.saveSnapshot snap = w.save [.snapshot snap] := by
    intro w
    simp [Wal.saveSnapshot, hempty, Wal.appendRecord, Wal.save]
  simp [saveSnapshot, flush, hsave]

/-! ## Which fields the writing code touches -/

theorem appendEntry_frame {r next : Raft D} {index : Nat} {e : Entry}
    (hstep : r.appendEntry index e = some next) :
    ∃ log wal, next = { r with log := log, wal := wal } := by
  unfold appendEntry at hstep
  split at hstep
  · exact ⟨r.log, r.wal, (Option.some.inj hstep).symm⟩
  · split at hstep
    · split at hstep
      · split at hstep
        · cases hstep
        · exact ⟨_, _, (Option.some.inj hstep).symm⟩
      · exact ⟨r.log, r.wal, (Option.some.inj hstep).symm⟩
    · exact ⟨_, _, (Option.some.inj hstep).symm⟩

theorem appendLoop_frame (r : Raft D) (prev i : Nat) (entries : List Entry) :
    ∃ log wal, (r.appendLoop prev i entries).1 = { r with log := log, wal := wal } := by
  induction entries generalizing r i with
  | nil => exact ⟨r.log, r.wal, rfl⟩
  | cons e rest ih =>
      rw [appendLoop]
      split
      · exact ⟨r.log, r.wal, rfl⟩
      next next hstep =>
        obtain ⟨log, wal, rfl⟩ := appendEntry_frame hstep
        obtain ⟨log', wal', heq⟩ := ih { r with log := log, wal := wal } (i + 1)
        exact ⟨log', wal', heq⟩

/-- What the batch, its flush and a learnt commit index keep, an accepted append keeps. -/
theorem acceptEntries_rule [Blob D] {P : Raft D → Prop} {r : Raft D} {msg : Message D}
    (hloop : P (r.appendLoop msg.prevLogIndex 0 msg.entries).1)
    (hsync : ∀ mid, P mid → P mid.syncWal.1)
    (hlearn : ∀ mid, P mid → msg.leaderCommit > mid.commitIndex → P (mid.learnCommit msg).1) :
    P (r.acceptEntries msg).1 := by
  unfold acceptEntries finishEntries
  generalize r.appendLoop msg.prevLogIndex 0 msg.entries = looped at *
  obtain ⟨looped, complete⟩ := looped
  dsimp only at hloop ⊢
  split
  · exact hloop
  · have hflush : P (if msg.entries.isEmpty then (looped, true) else looped.syncWal).1 := by
      split
      · exact hloop
      · exact hsync looped hloop
    generalize (if msg.entries.isEmpty then (looped, true) else looped.syncWal) = flushed at *
    split
    · exact hflush
    · split
      next hcommit => exact hlearn flushed.1 hflush hcommit
      · exact hflush

theorem acceptEntries_frame [Blob D] (r : Raft D) (msg : Message D) :
    ∃ log commit wal failed, (r.acceptEntries msg).1 = { r with
      log := log
      commitIndex := commit
      wal := wal
      storageFailed := failed } := by
  refine acceptEntries_rule (P := fun next => ∃ log commit wal failed, next = { r with
    log := log, commitIndex := commit, wal := wal, storageFailed := failed }) ?_ ?_ ?_
  · obtain ⟨log, wal, hloop⟩ := r.appendLoop_frame msg.prevLogIndex 0 msg.entries
    exact ⟨log, r.commitIndex, wal, r.storageFailed, hloop⟩
  · rintro mid ⟨log, commit, wal, failed, rfl⟩
    exact ⟨log, commit, _, _, rfl⟩
  · rintro mid ⟨log, commit, wal, failed, rfl⟩ -
    exact ⟨log, _, _, _, rfl⟩

theorem acceptEntries_reply [Blob D] (r : Raft D) (msg : Message D) :
    ∃ success index, (r.acceptEntries msg).2 =
      (r.acceptEntries msg).1.appendResponse msg success index := by
  unfold acceptEntries finishEntries
  generalize r.appendLoop msg.prevLogIndex 0 msg.entries = looped
  dsimp only
  split
  · exact ⟨_, _, rfl⟩
  · generalize (if msg.entries.isEmpty then (looped.1, true) else looped.1.syncWal) = synced
    split
    · exact ⟨_, _, rfl⟩
    · split <;> exact ⟨_, _, rfl⟩

theorem advanceCommit_foldl (r : Raft D) (indices : List Nat) :
    ∃ c, indices.foldl commitStep r = { r with commitIndex := c } ∧
      (c = r.commitIndex ∨
        c ∈ indices ∧ (r.logEntry c).term = r.term ∧ r.replicas c > r.peers.length / 2) := by
  induction indices generalizing r with
  | nil => exact ⟨r.commitIndex, rfl, .inl rfl⟩
  | cons i rest ih =>
      rw [List.foldl_cons, commitStep]
      split
      · obtain ⟨c, heq, hc⟩ := ih r
        exact ⟨c, heq, hc.imp_right (fun h => ⟨List.mem_cons_of_mem i h.1, h.2⟩)⟩
      next hterm =>
        split
        next hcount =>
          obtain ⟨c, heq, hc⟩ := ih { r with commitIndex := i }
          refine ⟨c, heq, .inr ?_⟩
          rcases hc with rfl | ⟨hmem, hrep⟩
          · exact ⟨List.mem_cons_self, not_not.mp hterm, hcount⟩
          · exact ⟨List.mem_cons_of_mem i hmem, hrep⟩
        · obtain ⟨c, heq, hc⟩ := ih r
          exact ⟨c, heq, hc.imp_right (fun h => ⟨List.mem_cons_of_mem i h.1, h.2⟩)⟩

theorem advanceCommit_frame (r : Raft D) : ∃ c, r.advanceCommit = { r with commitIndex := c } := by
  obtain ⟨c, heq, -⟩ := advanceCommit_foldl r (List.range' (wrap64 (r.commitIndex + 1))
    (r.lastLogIndex + 1 - wrap64 (r.commitIndex + 1)))
  exact ⟨c, heq⟩

theorem chooseCommit_frame (r : Raft D) :
    ∃ commit wal failed, r.chooseCommit = { r with
      commitIndex := commit
      wal := wal
      storageFailed := failed } := by
  obtain ⟨c, hadvance⟩ := r.advanceCommit_frame
  unfold chooseCommit
  rw [hadvance]
  split
  · exact ⟨_, _, _, rfl⟩
  · exact ⟨c, r.wal, r.storageFailed, rfl⟩

theorem appendOwn_frame (r : Raft D) (e : Entry) :
    ∃ log wal failed, (r.appendOwn e).1 = { r with
      log := log
      wal := wal
      storageFailed := failed } := by
  unfold appendOwn
  dsimp only
  split <;> exact ⟨_, _, _, rfl⟩

/-- An append that could not be stored is undone in memory. -/
theorem appendOwn_failed {r : Raft D} {e : Entry} (hhealthy : r.storageFailed = false)
    (hfailed : (r.appendOwn e).1.storageFailed = true) :
    (r.appendOwn e).1.durable = r.durable := by
  have hlog : (r.appendOwn e).1.log = r.log := by
    unfold appendOwn at hfailed ⊢
    dsimp only at hfailed ⊢
    split at hfailed
    next hno =>
      rw [if_pos hno]
      exact List.dropLast_concat
    next hok =>
      have := syncWal_healthy (r := saveEntry { r with log := r.log ++ [e] } e) hhealthy
        (by simpa using hok)
      rw [this] at hfailed
      cases hfailed
  obtain ⟨log, wal, failed, heq⟩ := r.appendOwn_frame e
  rw [heq] at hlog ⊢
  dsimp only at hlog
  subst hlog
  rfl

theorem takeSnapshot_frame [Blob D] (r : Raft D) (index : Nat) (state : D) :
    ∃ log offset offsetTerm last data wal failed, r.takeSnapshot index state = { r with
      log := log
      logOffset := offset
      logOffsetTerm := offsetTerm
      lastSnapshotIndex := last
      lastSnapshotData := data
      wal := wal
      storageFailed := failed } ∧
      (offset = r.logOffset ∨ offset ≤ r.lastApplied) := by
  unfold takeSnapshot
  split
  · exact ⟨_, _, _, _, _, _, _, rfl, .inl rfl⟩
  next hrefused =>
    simp only [not_or, not_le, not_lt] at hrefused
    dsimp only
    split
    · exact ⟨_, _, _, _, _, _, _, rfl, .inl rfl⟩
    · exact ⟨_, _, _, _, _, _, _, rfl, .inr hrefused.2.2⟩

theorem saveSnapshot_frame [Blob D] (r : Raft D) (snap : SnapshotMeta D) :
    ∃ wal failed, (r.saveSnapshot snap).syncWal.1 =
      { r with wal := wal, storageFailed := failed } :=
  ⟨_, _, rfl⟩

theorem saveHardState_frame (r : Raft D) :
    ∃ wal failed, r.saveHardState.syncWal.1 = { r with wal := wal, storageFailed := failed } :=
  ⟨_, _, rfl⟩

theorem installSnapshot_frame [Blob D] (r : Raft D) (msg : Message D) :
    ∃ wal failed,
      (r.installSnapshot msg).1 = { r with wal := wal, storageFailed := failed } ∨
      (r.installSnapshot msg).1 =
        { r.adoptSnapshot msg with wal := wal, storageFailed := failed } := by
  obtain ⟨wal, failed, hsaved⟩ := r.saveSnapshot_frame
    ⟨msg.snapshotIndex, msg.snapshotTerm, msg.snapshotData, true⟩
  unfold installSnapshot
  dsimp only
  rw [hsaved]
  split
  · exact ⟨wal, failed, .inl rfl⟩
  · obtain ⟨wal', failed', hstate⟩ := saveHardState_frame
      ({ r with wal := wal, storageFailed := failed }.adoptSnapshot msg)
    rw [hstate]
    split <;> exact ⟨wal', failed', .inr rfl⟩

/-- A node that could store the snapshot has it and says so. -/
theorem installSnapshot_stored [Blob D] {r : Raft D} {msg : Message D}
    (hhealthy : (r.installSnapshot msg).1.storageFailed = false) :
    (∃ wal, (r.installSnapshot msg).1 =
      { r.adoptSnapshot msg with wal := wal, storageFailed := false }) ∧
      (r.installSnapshot msg).2 =
        (r.installSnapshot msg).1.snapshotResponse msg true msg.snapshotIndex := by
  unfold installSnapshot at hhealthy ⊢
  dsimp only at hhealthy ⊢
  cases hfirst : (r.saveSnapshot
      ⟨msg.snapshotIndex, msg.snapshotTerm, msg.snapshotData, true⟩).syncWal.2 with
  | false =>
      rw [hfirst] at hhealthy
      cases hhealthy.symm.trans (syncWal_failed hfirst)
  | true =>
      rw [hfirst] at hhealthy
      rw [if_neg (by simp)] at hhealthy ⊢
      have hsaved := r.saveSnapshot_frame
        ⟨msg.snapshotIndex, msg.snapshotTerm, msg.snapshotData, true⟩
      generalize (r.saveSnapshot
        ⟨msg.snapshotIndex, msg.snapshotTerm, msg.snapshotData, true⟩).syncWal.1 = mid at *
      have hadopted : ∃ wal failed, (mid.adoptSnapshot msg).saveHardState.syncWal.1 =
          { r.adoptSnapshot msg with wal := wal, storageFailed := failed } := by
        obtain ⟨wal, failed, rfl⟩ := hsaved
        exact saveHardState_frame _
      obtain ⟨wal, failed, heq⟩ := hadopted
      have hok := syncWal_failed (r := (mid.adoptSnapshot msg).saveHardState)
      generalize (mid.adoptSnapshot msg).saveHardState.syncWal = synced at *
      obtain ⟨next, ok⟩ := synced
      dsimp only at heq hok hhealthy ⊢
      subst heq
      cases ok with
      | false => cases hhealthy.symm.trans (hok rfl)
      | true =>
          obtain rfl : failed = false := hhealthy
          exact ⟨⟨wal, rfl⟩, rfl⟩

theorem installSnapshot_reply [Blob D] (r : Raft D) (msg : Message D) :
    (r.installSnapshot msg).2 = (r.installSnapshot msg).1.snapshotResponse msg false 0 ∨
      (r.installSnapshot msg).2 =
        (r.installSnapshot msg).1.snapshotResponse msg true msg.snapshotIndex := by
  unfold installSnapshot
  dsimp only
  split
  · exact .inl rfl
  · split
    · exact .inl rfl
    · exact .inr rfl

/-- The moves that write entries, snapshots or commit indices, or apply an entry. -/
inductive Saves [Blob D] (r : Raft D) : Raft D → Prop
  | accept (msg : Message D) : Saves r ((r.acceptEntries msg).1.send (r.acceptEntries msg).2)
  | choose : Saves r r.chooseCommit
  | extend (data : Bytes) : Saves r (r.appendOwn (r.nextEntry data)).1
  | apply (index : Nat) : Saves r (r.advance index)
  | compact (index : Nat) (state : D) : Saves r (r.takeSnapshot index state)
  | install (msg : Message D) :
      Saves r ((r.installSnapshot msg).1.send (r.installSnapshot msg).2)

/-- Apart from an answer they touch the log, what goes with it, and the storage. -/
theorem Saves.frame [Blob D] {r next : Raft D} (hsaves : Saves r next) :
    ∃ log offset offsetTerm last data commit applied wal failed msgs, next = { r with
      log := log
      logOffset := offset
      logOffsetTerm := offsetTerm
      lastSnapshotIndex := last
      lastSnapshotData := data
      commitIndex := commit
      lastApplied := applied
      wal := wal
      storageFailed := failed
      msgs := msgs } := by
  cases hsaves with
  | accept msg =>
      obtain ⟨log, commit, wal, failed, heq⟩ := r.acceptEntries_frame msg
      exact ⟨_, _, _, _, _, _, _, _, _, _, by rw [heq]; rfl⟩
  | choose =>
      obtain ⟨commit, wal, failed, heq⟩ := r.chooseCommit_frame
      exact ⟨_, _, _, _, _, _, _, _, _, _, heq⟩
  | extend data =>
      obtain ⟨log, wal, failed, heq⟩ := r.appendOwn_frame (r.nextEntry data)
      exact ⟨_, _, _, _, _, _, _, _, _, _, heq⟩
  | apply index =>
      unfold advance
      split <;> exact ⟨_, _, _, _, _, _, _, _, _, _, rfl⟩
  | compact index state =>
      obtain ⟨log, offset, offsetTerm, last, data, wal, failed, heq, -⟩ :=
        r.takeSnapshot_frame index state
      exact ⟨_, _, _, _, _, _, _, _, _, _, heq⟩
  | install msg =>
      obtain ⟨wal, failed, heq | heq⟩ := r.installSnapshot_frame msg <;>
        exact ⟨_, _, _, _, _, _, _, _, _, _, by rw [heq]; rfl⟩

/-- After a failed flush the node no longer touches its durable state or its file. -/
theorem Move.of_failed [Blob D] {o : Outside D} {r next : Raft D} (hfailed : r.storageFailed = true)
    (hmove : Move o r next) :
    next.wal = r.wal ∧ next.storageFailed = true ∧ next.durable = r.durable := by
  cases hmove with
  | raise _ _ _ hhealthy => simp [hfailed] at hhealthy
  | demote _ _ _ hhealthy => simp [hfailed] at hhealthy
  | stand _ hhealthy => simp [hfailed] at hhealthy
  | grant _ _ _ _ hhealthy => simp [hfailed] at hhealthy
  | accept _ _ _ hready => simp [hready.healthy] at hfailed
  | choose _ hhealthy => simp [hfailed] at hhealthy
  | extend _ _ hhealthy => simp [hfailed] at hhealthy
  | compact _ _ _ hhealthy => simp [hfailed] at hhealthy
  | install _ _ _ hready => simp [hready.healthy] at hfailed
  | sound =>
      unfold preCampaign
      split <;> exact ⟨rfl, hfailed, rfl⟩
  | canvass =>
      unfold campaign
      split <;> exact ⟨rfl, hfailed, rfl⟩
  | apply index =>
      unfold advance
      split <;> exact ⟨rfl, hfailed, rfl⟩
  | _ => exact ⟨rfl, hfailed, rfl⟩

/-- No move touches what the node was configured with. -/
theorem Move.same_config [Blob D] {o : Outside D} {r next : Raft D} (hmove : Move o r next) :
    next.id = r.id ∧ next.peers = r.peers ∧ next.snapshotThreshold = r.snapshotThreshold := by
  have hstored (hsaves : Saves r next) : next.id = r.id ∧ next.peers = r.peers ∧
      next.snapshotThreshold = r.snapshotThreshold := by
    obtain ⟨_, _, _, _, _, _, _, _, _, _, rfl⟩ := hsaves.frame
    exact ⟨rfl, rfl, rfl⟩
  cases hmove with
  | raise msg lead _ _ _ hterm =>
      rw [becomeFollower_of_lt hterm]
      exact ⟨rfl, rfl, rfl⟩
  | demote msg _ _ _ _ hterm =>
      rw [becomeFollower_of_eq hterm]
      exact ⟨rfl, rfl, rfl⟩
  | sound =>
      unfold preCampaign
      split <;> exact ⟨rfl, rfl, rfl⟩
  | canvass =>
      unfold campaign
      split <;> exact ⟨rfl, rfl, rfl⟩
  | accept | choose | extend | apply | compact => exact hstored (by constructor)
  | install => exact hstored (.install _)
  | _ => exact ⟨rfl, rfl, rfl⟩

theorem Moves.same_config [Blob D] {o : Outside D} {r next : Raft D} (hmoves : Moves o r next) :
    next.id = r.id ∧ next.peers = r.peers ∧ next.snapshotThreshold = r.snapshotThreshold := by
  induction hmoves with
  | refl => exact ⟨rfl, rfl, rfl⟩
  | tail _ hmove ih =>
      obtain ⟨hid, hpeers, hthreshold⟩ := hmove.same_config
      exact ⟨hid.trans ih.1, hpeers.trans ih.2.1, hthreshold.trans ih.2.2⟩

/-! ## Writing moves -/

/-- How a move from a healthy node that writes `records` relates memory and file before
and after. After a failure the file has some first ones, and the memory may already show
some of those that were being written. -/
inductive Writes (r : Raft D) (w : Wal D) (records : List (Record D)) (next : Raft D) : Prop
  | synced (w' : Wal D) (haccepts : r.durable.Accepts records)
      (hwal : next.wal = some w') (hhealthy : next.storageFailed = false) (hclean : w'.Clean)
      (hfile : w'.file = w.file ++ records)
      (hdurable : next.durable = records.foldl Durable.apply r.durable)
  | failed (w' : Wal D) (kept rest seen : List (Record D)) (haccepts : r.durable.Accepts records)
      (hsplit : kept ++ rest <+: records) (hseen : seen <+: kept ++ rest)
      (hwal : next.wal = some w') (hfailed : next.storageFailed = true)
      (hmarked : w'.failed = true) (hfile : w'.file = w.file ++ kept) (hlost : w'.lost = rest)
      (hdurable : next.durable = seen.foldl Durable.apply r.durable)

namespace Writes

variable {r mid next : Raft D} {w w' : Wal D} {records more : List (Record D)}

theorem accepts (hwrites : Writes r w records next) : r.durable.Accepts records := by
  cases hwrites <;> assumption

/-- A move that touches neither the durable state nor the WAL. -/
theorem of_eq (hwal : r.wal = some w) (hclean : w.Clean) (hhealthy : r.storageFailed = false)
    (hnext : next.wal = r.wal) (hfailed : next.storageFailed = r.storageFailed)
    (hdurable : next.durable = r.durable) : Writes r w [] next :=
  .synced w trivial (hnext.trans hwal) (hfailed.trans hhealthy) hclean (by simp) hdurable

/-- Volatile changes afterwards make no difference. -/
theorem congr (hwrites : Writes r w records mid) (hwal : next.wal = mid.wal)
    (hfailed : next.storageFailed = mid.storageFailed) (hdurable : next.durable = mid.durable) :
    Writes r w records next := by
  cases hwrites with
  | synced w' haccepts hw hh hc hf hd =>
      exact .synced w' haccepts (hwal.trans hw) (hfailed.trans hh) hc hf (hdurable.trans hd)
  | failed w' kept rest seen haccepts hk hs hw hf hm hfile hlost hd =>
      exact .failed w' kept rest seen haccepts hk hs (hwal.trans hw) (hfailed.trans hf) hm hfile
        hlost (hdurable.trans hd)

/-- Memory first, then save and flush. -/
theorem of_flush (hwal : r.wal = some w) (hclean : w.Clean)
    (hmid : mid.wal = r.wal) (hhealthy : mid.storageFailed = false)
    (haccepts : r.durable.Accepts records)
    (hdurable : mid.durable = records.foldl Durable.apply r.durable) :
    Writes r w records (mid.flush records).1 := by
  obtain ⟨next, ok, heq, hflush⟩ := flush_of_clean (hmid.trans hwal) hclean hhealthy records
  rw [heq]
  cases hflush with
  | done hclean' hfile => exact .synced next haccepts rfl rfl hclean' hfile hdurable
  | torn kept rest hsplit hmarked hfile hlost =>
      subst hsplit
      exact .failed next kept rest _ haccepts List.prefix_rfl List.prefix_rfl rfl rfl hmarked hfile
        hlost hdurable

/-- A second write after a first one that succeeded. -/
theorem trans (haccepts : r.durable.Accepts records) (hfile : w'.file = w.file ++ records)
    (hdurable : mid.durable = records.foldl Durable.apply r.durable)
    (hwrites : Writes mid w' more next) : Writes r w (records ++ more) next := by
  have hall : r.durable.Accepts (records ++ more) :=
    Durable.accepts_append.mpr ⟨haccepts, hdurable ▸ hwrites.accepts⟩
  cases hwrites with
  | synced w'' haccepts' hw hh hc hf hd =>
      exact .synced w'' hall hw hh hc (by rw [hf, hfile, List.append_assoc])
        (by rw [hd, hdurable, List.foldl_append])
  | failed w'' kept rest seen haccepts' hk hs hw hf hm hfile' hlost hd =>
      refine .failed w'' (records ++ kept) rest (records ++ seen) hall ?_ ?_ hw hf hm ?_ hlost ?_
      · rw [List.append_assoc]
        exact (List.prefix_append_right_inj records).mpr hk
      · rw [List.append_assoc]
        exact (List.prefix_append_right_inj records).mpr hs
      · rw [hfile', hfile, List.append_assoc]
      · rw [hd, hdurable, List.foldl_append]

end Writes

end Raft

end RaftKv
