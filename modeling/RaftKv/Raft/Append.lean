import RaftKv.Raft.Indices
import RaftKv.Raft.Storage

/-! # Appending as one merge

`handle_append_entries` cuts and extends the log while it is still comparing later entries.
Seen from outside it compares all of them with the old log first: the log is kept up to the
first carried entry that is not there yet, and that entry and all later ones follow.
-/

namespace RaftKv

variable {D : Type}

/-- The entries of a message are numbered from `prev_log_index + 1` on. -/
structure Message.Numbered (msg : Message D) : Prop where
  indexed : ∀ k e, msg.entries[k]? = some e → e.index = msg.prevLogIndex + k + 1
  fits : msg.prevLogIndex + msg.entries.length < 2 ^ 64

theorem Message.Numbered.wrapped {msg : Message D} (hnumbered : msg.Numbered) (k : Nat) (e : Entry)
    (hk : msg.entries[k]? = some e) : e.index = wrap64 (msg.prevLogIndex + k + 1) := by
  have hlength := (List.getElem?_eq_some_iff.mp hk).1
  have hfits := hnumbered.fits
  rw [hnumbered.indexed k e hk, wrap64_of_lt (by omega)]

theorem Message.Numbered.index_lt {msg : Message D} (hnumbered : msg.Numbered) (e : Entry)
    (he : e ∈ msg.entries) : e.index < 2 ^ 64 := by
  obtain ⟨k, hk⟩ := List.mem_iff_getElem?.mp he
  rw [hnumbered.wrapped k e hk]
  exact wrap64_lt _

namespace Indices

/-- An entry of this term is at this index already, or the index is compacted. -/
def Covers (x : Indices) (i term : Nat) : Prop :=
  i ≤ x.offset ∨ ∃ e, x.entryAt? i = some e ∧ e.term = term

/-- An entry of another term is at this index. -/
def Conflicts (x : Indices) (i term : Nat) : Prop :=
  x.offset < i ∧ ∃ e, x.entryAt? i = some e ∧ e.term ≠ term

theorem Conflicts.not_covers {x : Indices} {i term : Nat} (h : x.Conflicts i term) :
    ¬ x.Covers i term := by
  obtain ⟨hlt, e, he, hne⟩ := h
  rintro (hle | ⟨e', he', heq⟩)
  · omega
  · obtain rfl := Option.some.inj (he.symm.trans he')
    exact hne heq

theorem Covers.le_last {x : Indices} {i term : Nat} (h : x.Covers i term) : i ≤ x.last := by
  unfold last
  rcases h with hle | ⟨e, he, -⟩
  · omega
  · have hin : i - x.offset - 1 < x.log.length := (List.getElem?_eq_some_iff.mp he).1
    omega

end Indices

namespace Raft

variable {r : Raft D} {prev i : Nat} {entries : List Entry}

/-- Beyond the end of the log everything is appended. -/
theorem appendLoop_beyond (r : Raft D) (prev i : Nat) (entries : List Entry)
    (hlast : r.logOffset + r.log.length = prev + i)
    (hfits : prev + i + entries.length < 2 ^ 64) :
    ∃ wal, r.appendLoop prev i entries =
      ({ r with log := r.log ++ entries, wal := wal }, true) := by
  induction entries generalizing r i with
  | nil => exact ⟨r.wal, by rw [appendLoop, List.append_nil]⟩
  | cons e rest ih =>
      rw [List.length_cons] at hfits
      have hend : r.lastLogIndex = prev + i := by
        rw [lastLogIndex, hlast, wrap64_of_lt (by omega)]
      have hnext : r.appendEntry (prev + i + 1) e =
          some (saveEntry { r with log := r.log ++ [e] } e) := by
        rw [appendEntry, if_neg (by omega), if_neg (by omega)]
      obtain ⟨wal, hrest⟩ := ih (saveEntry { r with log := r.log ++ [e] } e) (i + 1)
        (by simp only [saveEntry, List.length_append, List.length_singleton]; omega) (by omega)
      refine ⟨wal, ?_⟩
      rw [appendLoop, wrap64_of_lt (by omega), hnext]
      dsimp only
      rw [hrest]
      simp [saveEntry]

/-- What the loop does, compared with the log it started from. -/
inductive Outcome (r : Raft D) (base : Nat) (entries : List Entry) : Raft D × Bool → Prop
  | covered (hall : ∀ k e, entries[k]? = some e → r.indices.Covers (base + k + 1) e.term) :
      Outcome r base entries (r, true)
  | cut (k : Nat) (e : Entry) (wal : Option (Wal D)) (hk : entries[k]? = some e)
      (hnew : ¬ r.indices.Covers (base + k + 1) e.term) (hcommit : r.commitIndex < base + k + 1)
      (hfirst : ∀ j x, j < k → entries[j]? = some x → r.indices.Covers (base + j + 1) x.term) :
      Outcome r base entries
        ({ r with log := r.log.take (base + k - r.logOffset) ++ entries.drop k, wal := wal }, true)
  | refused (k : Nat) (e : Entry) (hk : entries[k]? = some e)
      (hconflict : r.indices.Conflicts (base + k + 1) e.term)
      (hcommit : base + k + 1 ≤ r.commitIndex) : Outcome r base entries (r, false)

/-- An entry that is there already changes nothing. -/
theorem Outcome.skip {base : Nat} {e : Entry} {result : Raft D × Bool}
    (hcovers : r.indices.Covers (base + 1) e.term) (h : Outcome r (base + 1) entries result) :
    Outcome r base (e :: entries) result := by
  have hshift : ∀ k, base + 1 + k + 1 = base + (k + 1) + 1 := fun k => by omega
  cases h with
  | covered hall =>
      refine .covered fun k x hx => ?_
      cases k with
      | zero =>
          obtain rfl := Option.some.inj hx
          exact hcovers
      | succ k => exact hshift k ▸ hall k x hx
  | cut k x wal hk hnew hcommit hfirst =>
      have hsame : base + 1 + k - r.logOffset = base + (k + 1) - r.logOffset := by omega
      rw [hsame]
      refine Outcome.cut (k + 1) x wal hk (hshift k ▸ hnew)
        (hshift k ▸ hcommit) fun j y hj hy => ?_
      cases j with
      | zero =>
          obtain rfl := Option.some.inj hy
          exact hcovers
      | succ j => exact hshift j ▸ hfirst j y (by omega) hy
  | refused k x hk hconflict hcommit =>
      exact .refused (k + 1) x hk (hshift k ▸ hconflict) (hshift k ▸ hcommit)

/-- The first entry that is not there is put in place of the rest of the log. -/
theorem Outcome.put {base : Nat} {e : Entry} {next : Raft D} (wal : Option (Wal D))
    (hnew : ¬ r.indices.Covers (base + 1) e.term) (hcommit : r.commitIndex < base + 1)
    (hnext : next = { r with log := r.log.take (base - r.logOffset) ++ e :: entries, wal := wal }) :
    Outcome r base (e :: entries) (next, true) := by
  subst hnext
  exact Outcome.cut 0 e wal rfl hnew hcommit fun j _ hj => by omega

theorem appendLoop_outcome (hordered : r.indices.Ordered) (hprev : prev + i ≤ r.indices.last)
    (hfits : prev + i + entries.length < 2 ^ 64) :
    Outcome r (prev + i) entries (r.appendLoop prev i entries) := by
  have hend := lastLogIndex_of_ordered hordered
  have hlast : r.indices.last = r.logOffset + r.log.length := rfl
  have hoffset : r.logOffset ≤ r.commitIndex := hordered.offset_le.trans hordered.applied_le
  have hcommit : r.commitIndex ≤ r.indices.last := hordered.commit_le
  induction entries generalizing i with
  | nil => exact .covered fun k e he => by cases he
  | cons e rest ih =>
      rw [List.length_cons] at hfits
      rw [appendLoop, wrap64_of_lt (by omega), appendEntry]
      by_cases hcompact : prev + i + 1 ≤ r.logOffset
      · rw [if_pos hcompact]
        exact .skip (.inl hcompact) (ih (i := i + 1) (by omega) (by omega))
      rw [if_neg hcompact]
      by_cases hwithin : prev + i + 1 ≤ r.lastLogIndex
      · rw [if_pos hwithin]
        obtain ⟨x, hx⟩ : ∃ x, r.indices.entryAt? (prev + i + 1) = some x :=
          ⟨_, List.getElem?_eq_getElem (show prev + i + 1 - r.logOffset - 1 <
            r.log.length by omega)⟩
        have hterm := termAt_of_ordered hordered (by omega) hx
        by_cases hsame : r.termAt (prev + i + 1) = e.term
        · rw [if_neg (by simpa using hsame)]
          exact .skip (.inr ⟨x, hx, hterm.symm.trans hsame⟩) (ih (i := i + 1) (by omega) (by omega))
        rw [if_pos hsame]
        have hconflict : r.indices.Conflicts (prev + i + 1) e.term :=
          ⟨not_le.mp hcompact, x, hx, hterm ▸ hsame⟩
        by_cases hdone : prev + i + 1 ≤ r.commitIndex
        · rw [if_pos hdone]
          exact .refused 0 e rfl hconflict hdone
        · -- from here on the log ends where the next entry belongs
          rw [if_neg hdone, logPosition_of_lt (by omega) (by omega)]
          have hkeep : prev + i + 1 - r.logOffset - 1 = prev + i - r.logOffset := by omega
          obtain ⟨wal, hrest⟩ := appendLoop_beyond
            (saveEntry { r with log := r.log.take (prev + i - r.logOffset) ++ [e] } e) prev
            (i + 1) rest
            (by simp only [saveEntry, List.length_append, List.length_take, List.length_singleton]
                omega) (by omega)
          rw [hkeep]
          dsimp only
          rw [hrest]
          refine .put wal hconflict.not_covers (by omega) ?_
          simp [saveEntry]
      · rw [if_neg hwithin]
        have hbeyond : ¬ r.indices.Covers (prev + i + 1) e.term := by
          rintro (hle | ⟨x, hx, -⟩)
          · exact hcompact hle
          · have hin : prev + i + 1 - r.logOffset - 1 < r.log.length :=
              (List.getElem?_eq_some_iff.mp hx).1
            omega
        obtain ⟨wal, hrest⟩ := appendLoop_beyond
          (saveEntry { r with log := r.log ++ [e] } e) prev (i + 1) rest
          (by simp only [saveEntry, List.length_append, List.length_singleton]; omega) (by omega)
        dsimp only
        rw [hrest]
        refine .put wal hbeyond (by omega) ?_
        rw [List.take_of_length_le (by omega)]
        simp [saveEntry]

/-- The loop over the entries of a message. -/
theorem appendLoop_message (hordered : r.indices.Ordered) {msg : Message D}
    (hnumbered : msg.Numbered) (hprev : msg.prevLogIndex ≤ r.indices.last) :
    Outcome r msg.prevLogIndex msg.entries (r.appendLoop msg.prevLogIndex 0 msg.entries) := by
  have houtcome := appendLoop_outcome (i := 0) hordered hprev hnumbered.fits
  rwa [Nat.add_zero] at houtcome

/-- The loop breaks off exactly at a conflict with a committed entry. -/
theorem Outcome.complete_iff {base : Nat} {result : Raft D × Bool}
    (h : Outcome r base entries result) :
    result.2 = true ↔ ∀ k e, entries[k]? = some e → base + k + 1 ≤ r.commitIndex →
      ¬ r.indices.Conflicts (base + k + 1) e.term := by
  cases h with
  | covered hall =>
      exact iff_of_true rfl fun k e he _ hconflict => hconflict.not_covers (hall k e he)
  | cut k e wal hk hnew hcommit hfirst =>
      refine iff_of_true rfl fun j x hx hle hconflict => ?_
      exact hconflict.not_covers (hfirst j x (by omega) hx)
  | refused k e hk hconflict hcommit =>
      exact iff_of_false Bool.false_ne_true fun hnone => hnone k e hk hcommit hconflict

theorem Outcome.frame {base : Nat} {result : Raft D × Bool} (h : Outcome r base entries result) :
    result.1.logOffset = r.logOffset ∧ result.1.commitIndex = r.commitIndex := by
  cases h <;> exact ⟨rfl, rfl⟩

theorem Outcome.log_of_refused {base : Nat} {result : Raft D × Bool}
    (h : Outcome r base entries result) (hno : result.2 = false) : result.1.log = r.log := by
  cases h with
  | covered => rfl
  | cut => cases hno
  | refused => rfl

theorem Outcome.eq_of_covers {base : Nat} {result : Raft D × Bool}
    (h : Outcome r base entries result)
    (hall : ∀ k e, entries[k]? = some e → r.indices.Covers (base + k + 1) e.term) :
    result.1 = r := by
  cases h with
  | covered => rfl
  | cut k e wal hk hnew => exact absurd (hall k e hk) hnew
  | refused => rfl

/-- The log is cut at the first entry that is not there. -/
theorem Outcome.log_of_first {base k : Nat} {e : Entry} {result : Raft D × Bool}
    (h : Outcome r base entries result) (hyes : result.2 = true) (hk : entries[k]? = some e)
    (hnew : ¬ r.indices.Covers (base + k + 1) e.term)
    (hfirst : ∀ j x, j < k → entries[j]? = some x → r.indices.Covers (base + j + 1) x.term) :
    result.1.log = r.log.take (base + k - r.logOffset) ++ entries.drop k := by
  cases h with
  | covered hall => exact absurd (hall k e hk) hnew
  | refused => cases hyes
  | cut k' e' wal hk' hnew' hcommit hfirst' =>
      rcases Nat.lt_trichotomy k k' with hlt | rfl | hlt
      · exact absurd (hfirst' k e hlt hk) hnew
      · rfl
      · exact absurd (hfirst k' e' hlt hk') hnew'

/-- The log reaches up to the first entry that is not there. -/
theorem le_last_of_first {base k : Nat} (hbase : base ≤ r.indices.last)
    (hfirst : ∀ j x, j < k → entries[j]? = some x → r.indices.Covers (base + j + 1) x.term)
    (hk : k ≤ entries.length) : base + k ≤ r.indices.last := by
  cases k with
  | zero => exact hbase
  | succ j => exact (hfirst j _ j.lt_succ_self (List.getElem?_eq_getElem (by omega))).le_last

/-- A loop that had to put an entry leaves a log that ends with the message. -/
theorem Outcome.last_of_new {base k : Nat} {e : Entry} {result : Raft D × Bool}
    (h : Outcome r base entries result) (hyes : result.2 = true) (hbase : base ≤ r.indices.last)
    (hk : entries[k]? = some e) (hnew : ¬ r.indices.Covers (base + k + 1) e.term) :
    result.1.indices.last = base + entries.length := by
  cases h with
  | covered hall => exact absurd (hall k e hk) hnew
  | refused => cases hyes
  | cut k e wal hk hnew hcommit hfirst =>
      have hlen := (List.getElem?_eq_some_iff.mp hk).1
      have hoffset : r.logOffset < base + k + 1 := not_le.mp fun hle => hnew (.inl hle)
      have hwithin : base + k ≤ r.logOffset + r.log.length :=
        le_last_of_first hbase (fun j x hj => hfirst j x hj) hlen.le
      simp only [indices, Indices.last, List.length_append, List.length_take, List.length_drop]
      omega

/-! ## The checks before the loop -/

variable {msg : Message D}

theorem raised_term (r : Raft D) (msg : Message D) :
    (if msg.term > r.term then r.becomeFollower msg.term msg.sender else r).term =
      max r.term msg.term := by
  split
  next hlt => rw [becomeFollower_term (le_of_lt hlt), max_eq_right (le_of_lt hlt)]
  next hle => rw [max_eq_left (not_lt.mp hle)]

/-- Whether the message is looked at, on a node that can store the new term. -/
theorem prepareForLeaderRpc_ready_iff (r : Raft D) (msg : Message D)
    (hhealthy : (r.prepareForLeaderRpc msg).1.storageFailed = false) :
    (r.prepareForLeaderRpc msg).2 = true ↔ r.rejects msg = false ∧ r.term ≤ msg.term := by
  unfold prepareForLeaderRpc at hhealthy ⊢
  by_cases hrejects : r.rejects msg = true
  · rw [if_pos hrejects]
    simp [hrejects]
  rw [if_neg hrejects] at hhealthy ⊢
  rw [Bool.not_eq_true] at hrejects
  have hterm := raised_term r msg
  generalize (if msg.term > r.term then r.becomeFollower msg.term msg.sender else r) = raised at *
  dsimp only at hhealthy ⊢
  split at hhealthy
  next hstop =>
    have hstale := hstop.resolve_left fun hfailed => by cases hhealthy.symm.trans hfailed
    rw [if_pos hstop]
    refine iff_of_false Bool.false_ne_true fun h => ?_
    rw [hterm, max_eq_right h.2] at hstale
    omega
  next hgo =>
    rw [if_neg hgo]
    simp only [not_or, not_lt] at hgo
    exact iff_of_true rfl ⟨hrejects, (le_max_left _ _).trans (hterm ▸ hgo.2)⟩

/-- The check leaves the log alone, and passes only on a node that can store. -/
theorem prepareForLeaderRpc_sameLog (r : Raft D) (msg : Message D) :
    SameLog r (r.prepareForLeaderRpc msg).1 ∧
      ((r.prepareForLeaderRpc msg).2 = true →
        (r.prepareForLeaderRpc msg).1.storageFailed = false) := by
  unfold prepareForLeaderRpc
  split
  · exact ⟨.refl r, fun h => by cases h⟩
  · have hraised : SameLog r
        (if msg.term > r.term then r.becomeFollower msg.term msg.sender else r) := by
      split
      · exact becomeFollower_sameLog
      · exact .refl r
    have hterm := raised_term r msg
    generalize (if msg.term > r.term then r.becomeFollower msg.term msg.sender else r) = raised at *
    dsimp only
    split
    · exact ⟨hraised, fun h => by cases h⟩
    next hgo =>
      simp only [not_or, not_lt, Bool.not_eq_true] at hgo
      split
      · refine ⟨hraised.trans (becomeFollower_sameLog.trans ⟨rfl, rfl, rfl, rfl, rfl⟩), fun _ => ?_⟩
        rw [becomeFollower_of_eq (le_antisymm (hterm ▸ le_max_right _ _) hgo.2)]
        exact hgo.1
      · exact ⟨hraised.trans ⟨rfl, rfl, rfl, rfl, rfl⟩, fun _ => hgo.1⟩

/-- When `handle_append_entries` reports success. -/
def Acceptable (r : Raft D) (msg : Message D) : Prop :=
  msg.receiver = r.id ∧ msg.sender ≠ r.id ∧ r.isMember msg.sender = true ∧ r.term ≤ msg.term ∧
    (msg.prevLogIndex = 0 ∨ r.logOffset ≤ msg.prevLogIndex ∧
      msg.prevLogIndex ≤ r.lastLogIndex ∧ r.termAt msg.prevLogIndex = msg.prevLogTerm) ∧
    ∀ k e, msg.entries[k]? = some e → msg.prevLogIndex + k + 1 ≤ r.commitIndex →
      ¬ r.indices.Conflicts (msg.prevLogIndex + k + 1) e.term

/-- The consistency check, in a log whose end does not wrap. -/
theorem logOk_iff : r.logOk msg = true ↔ msg.prevLogIndex = 0 ∨
    r.logOffset ≤ msg.prevLogIndex ∧ msg.prevLogIndex ≤ r.lastLogIndex ∧
      r.termAt msg.prevLogIndex = msg.prevLogTerm := by
  unfold logOk
  by_cases hzero : msg.prevLogIndex = 0
  · simp [hzero]
  · rw [if_neg hzero]
    by_cases hwithin : msg.prevLogIndex ≥ r.logOffset ∧ r.lastLogIndex ≥ msg.prevLogIndex
    · rw [if_pos hwithin]
      simp [hzero, hwithin.1, hwithin.2]
    · rw [if_neg hwithin]
      refine iff_of_false Bool.false_ne_true ?_
      rintro (h | ⟨h1, h2, -⟩)
      · exact hzero h
      · exact hwithin ⟨h1, h2⟩

theorem SameLog.ordered {next : Raft D} (hsame : SameLog r next) (hordered : r.indices.Ordered) :
    next.indices.Ordered := by
  obtain ⟨hindexed, hoffset, happlied, hcommit, hlast⟩ := hordered
  simp only [indices, Indices.last] at *
  constructor <;>
    simpa only [Indices.last, hsame.log, hsame.logOffset, hsame.commitIndex, hsame.lastApplied]

theorem SameLog.logOk {next : Raft D} (hsame : SameLog r next) (msg : Message D) :
    next.logOk msg = r.logOk msg := by
  unfold Raft.logOk
  rw [hsame.lastLogIndex, hsame.logOffset, hsame.termAt]

/-- Only an acceptable message runs through the loop, whatever the storage does. -/
theorem acceptable_of_complete (hready : (r.prepareForLeaderRpc msg).2 = true)
    (hok : r.logOk msg = true) {looped : Raft D × Bool}
    (houtcome : Outcome (r.prepareForLeaderRpc msg).1 msg.prevLogIndex msg.entries looped)
    (hcomplete : looped.2 = true) : r.Acceptable msg := by
  have hsame := prepareForLeaderRpc_sameLog r msg
  obtain ⟨hrejects, hterm⟩ := (prepareForLeaderRpc_ready_iff r msg (hsame.2 hready)).mp hready
  rw [rejects, Bool.or_eq_false_iff, Bool.or_eq_false_iff, bne_eq_false_iff_eq,
    beq_eq_false_iff_ne, Bool.not_eq_false'] at hrejects
  have hnone := houtcome.complete_iff.mp hcomplete
  rw [indices_prepareForLeaderRpc, hsame.1.commitIndex] at hnone
  exact ⟨hrejects.1.1, hrejects.1.2, hrejects.2, hterm, logOk_iff.mp hok, hnone⟩

/-! ## The handler -/

variable [Blob D]

/-- What is left to happen after the loop: the flushes, the answer and the commit index. -/
structure Finished (msg : Message D) (mid : Raft D) (complete : Bool)
    (result : Raft D × Message D) : Prop where
  log : result.1.log = mid.log
  logOffset : result.1.logOffset = mid.logOffset
  matchIndex : result.2.success = true →
    complete = true ∧ result.2.matchIndex = wrap64 (msg.prevLogIndex + msg.entries.length)
  commit : result.1.commitIndex = mid.commitIndex ∨ complete = true ∧
    mid.commitIndex < msg.leaderCommit ∧
    result.1.commitIndex = min msg.leaderCommit mid.lastLogIndex
  broken : complete = false → result = (mid, mid.appendResponse msg false mid.commitIndex)
  healthy : complete = true → result.1.storageFailed = false → result.2.success = true ∧
    result.1.commitIndex = if msg.leaderCommit > mid.commitIndex then
      min msg.leaderCommit mid.lastLogIndex else mid.commitIndex

theorem acceptEntries_finished (r : Raft D) (msg : Message D) :
    Finished msg (r.appendLoop msg.prevLogIndex 0 msg.entries).1
      (r.appendLoop msg.prevLogIndex 0 msg.entries).2 (r.acceptEntries msg) := by
  unfold acceptEntries finishEntries
  generalize r.appendLoop msg.prevLogIndex 0 msg.entries = looped
  obtain ⟨mid, complete⟩ := looped
  dsimp only
  cases complete with
  | false =>
      exact ⟨rfl, rfl, fun h => (by cases h), .inl rfl, fun _ => rfl, fun h => (by cases h)⟩
  | true =>
      rw [if_neg (by simp)]
      have hflush : ∀ flushed : Raft D × Bool,
          flushed = (if msg.entries.isEmpty then (mid, true) else mid.syncWal) →
          flushed.1.log = mid.log ∧ flushed.1.logOffset = mid.logOffset ∧
            flushed.1.commitIndex = mid.commitIndex ∧ flushed.1.lastLogIndex = mid.lastLogIndex ∧
            (flushed.2 = false → flushed.1.storageFailed = true) := by
        rintro flushed rfl
        split
        · exact ⟨rfl, rfl, rfl, rfl, fun h => by cases h⟩
        · exact ⟨rfl, rfl, rfl, rfl, syncWal_failed⟩
      obtain ⟨hlog, hoffset, hcommit, hlast, hfailed⟩ := hflush _ rfl
      generalize (if msg.entries.isEmpty then (mid, true) else mid.syncWal) = flushed at *
      obtain ⟨flushed, synced⟩ := flushed
      dsimp only at *
      cases synced with
      | false =>
          refine ⟨hlog, hoffset, fun h => (by cases h), .inl hcommit, fun h => (by cases h),
            fun _ h => ?_⟩
          cases h.symm.trans (hfailed rfl)
      | true =>
          rw [if_neg (by simp), hcommit]
          by_cases hlearn : msg.leaderCommit > mid.commitIndex
          · rw [if_pos hlearn]
            refine ⟨hlog, hoffset, fun _ => ⟨rfl, rfl⟩, .inr ⟨rfl, hlearn, ?_⟩,
              fun h => (by cases h),
              fun _ h => ⟨?_, ?_⟩⟩
            · exact congrArg (min msg.leaderCommit) hlast
            · by_contra hno
              have := syncWal_failed (Bool.not_eq_true _ ▸ hno)
              cases h.symm.trans this
            · rw [if_pos hlearn]
              exact congrArg (min msg.leaderCommit) hlast
          · rw [if_neg hlearn]
            exact ⟨hlog, hoffset, fun _ => ⟨rfl, rfl⟩, .inl hcommit, fun h => (by cases h),
              fun _ _ => ⟨rfl, by rw [if_neg hlearn]; exact hcommit⟩⟩

/-- On a node that can store, the answer says whether the loop ran to its end. -/
theorem acceptEntries_answer (hhealthy : (r.acceptEntries msg).1.storageFailed = false) :
    (r.acceptEntries msg).2 = (r.acceptEntries msg).1.appendResponse msg
      (r.appendLoop msg.prevLogIndex 0 msg.entries).2
      (if (r.appendLoop msg.prevLogIndex 0 msg.entries).2 then
        wrap64 (msg.prevLogIndex + msg.entries.length)
      else (r.acceptEntries msg).1.commitIndex) := by
  have hfinished := acceptEntries_finished r msg
  cases hcomplete : (r.appendLoop msg.prevLogIndex 0 msg.entries).2 with
  | false =>
      rw [hfinished.broken hcomplete]
      rfl
  | true =>
      have hsuccess := (hfinished.healthy hcomplete hhealthy).1
      have hindex := (hfinished.matchIndex hsuccess).2
      obtain ⟨success, index, hreply⟩ := r.acceptEntries_reply msg
      rw [hreply] at hsuccess hindex
      rw [hreply, show success = true from hsuccess, if_pos rfl, ← hindex]
      rfl

theorem prepared_healthy (hhealthy : (r.handleAppendEntries msg).1.storageFailed = false) :
    (r.prepareForLeaderRpc msg).1.storageFailed = false := by
  cases hready : (r.prepareForLeaderRpc msg).2 with
  | true => exact (prepareForLeaderRpc_sameLog r msg).2 hready
  | false => simpa [handleAppendEntries, hready] using hhealthy

/-- The handler either answers no before the loop, or runs the loop on an unchanged log. -/
theorem handleAppendEntries_cases (hordered : r.indices.Ordered) (hnumbered : msg.Numbered) :
    (((r.prepareForLeaderRpc msg).2 = false ∨ r.logOk msg = false) ∧
      r.handleAppendEntries msg =
        ((r.prepareForLeaderRpc msg).1, (r.prepareForLeaderRpc msg).1.appendResponse msg false 0)) ∨
    ((r.prepareForLeaderRpc msg).2 = true ∧ r.logOk msg = true ∧ ∃ looped,
      Outcome (r.prepareForLeaderRpc msg).1 msg.prevLogIndex msg.entries looped ∧
      Finished msg looped.1 looped.2 (r.handleAppendEntries msg)) := by
  have hsame := (prepareForLeaderRpc_sameLog r msg).1.logOk msg
  have hindices := indices_prepareForLeaderRpc r msg
  unfold handleAppendEntries
  generalize r.prepareForLeaderRpc msg = prepared at *
  obtain ⟨prepared, ready⟩ := prepared
  dsimp only at hsame hindices ⊢
  cases ready with
  | false => exact .inl ⟨.inl rfl, rfl⟩
  | true =>
      rw [if_neg (by simp)]
      cases hok : r.logOk msg with
      | false =>
          rw [hok] at hsame
          exact .inl ⟨.inr rfl, by rw [if_pos (by simp [hsame])]⟩
      | true =>
          rw [hok] at hsame
          rw [← hindices] at hordered
          refine .inr ⟨rfl, rfl, prepared.appendLoop msg.prevLogIndex 0 msg.entries, ?_, ?_⟩
          · exact appendLoop_message hordered hnumbered (prev_le_of_ordered hordered hsame)
          · rw [if_neg (by simp [hsame])]
            exact acceptEntries_finished prepared msg

/-- On a node that can store, an acceptable message runs the whole loop and is answered yes, and
no other message is. -/
theorem handleAppendEntries_success_iff (hordered : r.indices.Ordered) (hnumbered : msg.Numbered)
    (hhealthy : (r.handleAppendEntries msg).1.storageFailed = false) :
    (r.handleAppendEntries msg).2.success = true ↔ r.Acceptable msg := by
  have hready := prepareForLeaderRpc_ready_iff r msg
  rcases handleAppendEntries_cases hordered hnumbered with
    ⟨hno, heq⟩ | ⟨hyes, hok, ⟨mid, complete⟩, houtcome, hfinished⟩
  · rw [heq] at hhealthy ⊢
    refine iff_of_false Bool.false_ne_true fun hacceptable => ?_
    obtain ⟨hto, hfrom, hmember, hterm, hprev, -⟩ := hacceptable
    rcases hno with hno | hno
    · have hyes := (hready hhealthy).mpr ⟨by simp [rejects, hto, hfrom, hmember], hterm⟩
      cases hno.symm.trans hyes
    · cases hno.symm.trans (logOk_iff.mpr hprev)
  · have hcomplete := houtcome.complete_iff
    rw [indices_prepareForLeaderRpc, (prepareForLeaderRpc_sameLog r msg).1.commitIndex] at hcomplete
    refine ⟨fun h => acceptable_of_complete hyes hok houtcome (hfinished.matchIndex h).1,
      fun h => ?_⟩
    exact (hfinished.healthy (hcomplete.mpr h.2.2.2.2.2) hhealthy).1

end Raft

end RaftKv
