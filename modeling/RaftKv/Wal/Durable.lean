import RaftKv.Raft.State

/-! # The durable part of a node

What `restore` rebuilds from a recovered file: term, vote, commit index, the
retained log and the snapshot under it. Every record the node writes is
admissible for the state the earlier records describe. A file of admissible
records describes a valid state at each of its prefixes, so a node can restart
from any of them.
-/

namespace RaftKv

structure Durable (D : Type) where
  term : Nat
  vote : Nat
  commit : Nat
  log : List Entry
  offset : Nat
  offsetTerm : Nat
  data : D
  deriving DecidableEq, Repr

/-- What `restore` keeps of a recovered file. -/
def Recovered.durable {D : Type} (st : Recovered D) : Durable D where
  term := st.hardState.term
  vote := st.hardState.vote
  commit := max st.snapshot.index st.hardState.commit
  log := st.entries
  offset := st.snapshot.index
  offsetTerm := st.snapshot.term
  data := st.snapshot.state

def Raft.durable {D : Type} (r : Raft D) : Durable D where
  term := r.term
  vote := r.votedFor
  commit := r.commitIndex
  log := r.log
  offset := r.logOffset
  offsetTerm := r.logOffsetTerm
  data := r.lastSnapshotData

namespace Durable

variable {D : Type}

def start [Blob D] : Durable D := ⟨0, 0, 0, [], 0, 0, Blob.empty⟩

/-- Index of the last entry. -/
def last (d : Durable D) : Nat := d.offset + d.log.length

/-- Effect of one record on the state it is replayed over. -/
def apply (d : Durable D) : Record D → Durable D
  | .hardState hs =>
      { d with term := hs.term, vote := hs.vote, commit := max d.offset hs.commit }
  | .entry e => { d with log := d.log.takeWhile (fun x => x.index < e.index) ++ [e] }
  | .snapshot snap =>
      { d with
        commit := max snap.index d.commit
        log := if snap.discardSuffix then []
          else d.log.dropWhile (fun x => x.index ≤ snap.index)
        offset := snap.index
        offsetTerm := snap.term
        data := snap.state }

theorem foldl_offset {records : List (Record D)} (hkeeps : ∀ record ∈ records, record.KeepsStart)
    (d : Durable D) : (records.foldl apply d).offset = d.offset := by
  induction records generalizing d with
  | nil => rfl
  | cons record rest ih =>
      obtain ⟨hrecord, hrest⟩ := List.forall_mem_cons.mp hkeeps
      rw [List.foldl_cons, ih hrest]
      cases record with
      | snapshot snap => cases hrecord
      | _ => rfl

/-- Entries carry their own index, the commit index points into the retained log
and no index reaches the end of its 64-bit range. -/
structure Valid (d : Durable D) : Prop where
  term_lt : d.term < 2 ^ 64
  indexed : ∀ k e, d.log[k]? = some e → e.index = d.offset + k + 1
  offset_le : d.offset ≤ d.commit
  commit_le : d.commit ≤ d.last
  bound : d.last + 1 < 2 ^ 64

/-- When a record may follow: the commit index never goes back or past the log, entries never
replace committed ones, and a snapshot covers committed entries only or everything. -/
def Admits (d : Durable D) : Record D → Prop
  | .hardState hs => hs.term < 2 ^ 64 ∧ d.commit ≤ hs.commit ∧ hs.commit ≤ d.last
  | .entry e => d.commit < e.index ∧ e.index ≤ d.last + 1 ∧ e.index + 1 < 2 ^ 64
  | .snapshot snap =>
      if snap.discardSuffix then d.commit ≤ snap.index ∧ snap.index + 1 < 2 ^ 64
      else d.offset ≤ snap.index ∧ snap.index ≤ d.commit

/-- Each record of the list is admissible after the ones before it. -/
def Accepts (d : Durable D) : List (Record D) → Prop
  | [] => True
  | record :: rest => d.Admits record ∧ (d.apply record).Accepts rest

theorem valid_start [Blob D] : (start : Durable D).Valid where
  term_lt := by simp [start]
  indexed := by simp [start]
  offset_le := le_rfl
  commit_le := le_rfl
  bound := by simp [start, last]

/-! ## Sorted entries

`std::lower_bound` and `std::upper_bound` on consecutive indices. -/

theorem takeWhile_index {log : List Entry} {offset i : Nat}
    (hindexed : ∀ k e, log[k]? = some e → e.index = offset + k + 1) :
    log.takeWhile (fun x => x.index < i) = log.take (i - offset - 1) := by
  induction log generalizing offset with
  | nil => simp
  | cons e rest ih =>
      have hhead : e.index = offset + 1 := by simpa using hindexed 0 e rfl
      have hrest : ∀ k x, rest[k]? = some x → x.index = offset + 1 + k + 1 := by
        intro k x hx
        have := hindexed (k + 1) x (by simpa using hx)
        omega
      by_cases hi : e.index < i
      · obtain ⟨n, hn⟩ : ∃ n, i - offset - 1 = n + 1 := ⟨i - offset - 2, by omega⟩
        have hn' : i - (offset + 1) - 1 = n := by omega
        rw [List.takeWhile_cons_of_pos (by simpa using hi), ih hrest, hn, hn', List.take_succ_cons]
      · rw [List.takeWhile_cons_of_neg (by simpa using hi)]
        simp [show i - offset - 1 = 0 by omega]

theorem dropWhile_index {log : List Entry} {offset i : Nat}
    (hindexed : ∀ k e, log[k]? = some e → e.index = offset + k + 1) :
    log.dropWhile (fun x => x.index ≤ i) = log.drop (i - offset) := by
  induction log generalizing offset with
  | nil => simp
  | cons e rest ih =>
      have hhead : e.index = offset + 1 := by simpa using hindexed 0 e rfl
      have hrest : ∀ k x, rest[k]? = some x → x.index = offset + 1 + k + 1 := by
        intro k x hx
        have := hindexed (k + 1) x (by simpa using hx)
        omega
      by_cases hi : e.index ≤ i
      · obtain ⟨n, hn⟩ : ∃ n, i - offset = n + 1 := ⟨i - offset - 1, by omega⟩
        have hn' : i - (offset + 1) = n := by omega
        rw [List.dropWhile_cons_of_pos (by simpa using hi), ih hrest, hn, hn', List.drop_succ_cons]
      · rw [List.dropWhile_cons_of_neg (by simpa using hi)]
        simp [show i - offset = 0 by omega]

/-! ## Admissible records keep the state valid -/

theorem Valid.apply {d : Durable D} (hvalid : d.Valid) {record : Record D}
    (hadmits : d.Admits record) : (d.apply record).Valid := by
  obtain ⟨hterm, hindexed, hoffset, hcommit, hbound⟩ := hvalid
  cases record with
  | hardState hs =>
      obtain ⟨hlt, hge, hle⟩ := hadmits
      exact ⟨hlt, hindexed, le_max_left _ _, max_le (le_trans hoffset hcommit) hle, hbound⟩
  | entry e =>
      obtain ⟨hge, hle, hlt⟩ := hadmits
      simp only [last] at hcommit hle
      have hlen : (d.log.take (e.index - d.offset - 1)).length = e.index - d.offset - 1 := by
        rw [List.length_take]
        omega
      simp only [Durable.apply, takeWhile_index hindexed]
      refine ⟨hterm, ?_, hoffset, ?_, ?_⟩
      · intro k x hx
        simp only [List.getElem?_append, hlen] at hx
        split at hx
        next hk =>
          rw [List.getElem?_take_of_lt hk] at hx
          exact hindexed k x hx
        next hk =>
          rw [List.getElem?_singleton] at hx
          split at hx
          · obtain rfl := Option.some.inj hx
            show _ = d.offset + k + 1
            omega
          · cases hx
      · simp only [last, List.length_append, hlen, List.length_singleton]
        omega
      · simp only [last, List.length_append, hlen, List.length_singleton]
        omega
  | snapshot snap =>
      simp only [Admits] at hadmits
      simp only [last] at hcommit hbound
      cases hdiscard : snap.discardSuffix with
      | true =>
          simp only [hdiscard, if_true] at hadmits
          refine ⟨hterm, ?_, le_max_left _ _, ?_, ?_⟩
          · simp [Durable.apply, hdiscard]
          · simp [Durable.apply, last, hdiscard, hadmits.1]
          · simpa [Durable.apply, last, hdiscard] using hadmits.2
      | false =>
          simp only [hdiscard, Bool.false_eq_true, if_false] at hadmits
          simp only [Durable.apply, hdiscard, Bool.false_eq_true, if_false,
            dropWhile_index hindexed]
          refine ⟨hterm, ?_, le_max_left _ _, ?_, ?_⟩
          · intro k x hx
            rw [List.getElem?_drop] at hx
            have := hindexed _ x hx
            show _ = snap.index + k + 1
            omega
          · simp only [last, List.length_drop]
            omega
          · simp only [last, List.length_drop]
            omega

theorem Accepts.valid {d : Durable D} {records : List (Record D)} (hvalid : d.Valid)
    (haccepts : d.Accepts records) : (records.foldl apply d).Valid := by
  induction records generalizing d with
  | nil => exact hvalid
  | cons record rest ih => exact ih (hvalid.apply haccepts.1) haccepts.2

theorem Accepts.commit_le {d : Durable D} {records : List (Record D)}
    (haccepts : d.Accepts records) :
    d.commit ≤ (records.foldl apply d).commit := by
  induction records generalizing d with
  | nil => exact le_rfl
  | cons record rest ih =>
      refine le_trans ?_ (ih haccepts.2)
      cases record with
      | hardState hs => exact le_trans haccepts.1.2.1 (le_max_right _ _)
      | entry e => exact le_rfl
      | snapshot snap => exact le_max_right _ _

theorem accepts_append {d : Durable D} {records more : List (Record D)} :
    d.Accepts (records ++ more) ↔ d.Accepts records ∧ (records.foldl apply d).Accepts more := by
  induction records generalizing d with
  | nil => simp [Accepts]
  | cons record rest ih => simp [Accepts, ih, and_assoc]

theorem Accepts.of_isPrefix {d : Durable D} {records more : List (Record D)}
    (hpre : records <+: more) (haccepts : d.Accepts more) : d.Accepts records := by
  obtain ⟨rest, rfl⟩ := hpre
  exact (accepts_append.mp haccepts).1

end Durable

/-! ## Recovery rebuilds it -/

theorem Recovered.durable_apply {D : Type} {st : Recovered D} {record : Record D}
    (hadmits : st.durable.Admits record) :
    (st.apply record).durable = st.durable.apply record := by
  cases record with
  | hardState hs => rfl
  | entry e => rfl
  | snapshot snap =>
      have hcommit : st.snapshot.index ≤ st.durable.commit := le_max_left _ _
      have hindex : st.snapshot.index ≤ snap.index := by
        simp only [Durable.Admits] at hadmits
        split at hadmits
        · exact le_trans hcommit hadmits.1
        · exact hadmits.1
      simp only [Recovered.apply, Recovered.durable, Durable.apply, Durable.mk.injEq, true_and,
        and_true]
      omega

theorem Recovered.durable_foldl {D : Type} {st : Recovered D} {records : List (Record D)}
    (haccepts : st.durable.Accepts records) :
    (records.foldl Recovered.apply st).durable = records.foldl Durable.apply st.durable := by
  induction records generalizing st with
  | nil => rfl
  | cons record rest ih =>
      have hstep := durable_apply haccepts.1
      rw [List.foldl_cons, List.foldl_cons, ← hstep]
      exact ih (hstep ▸ haccepts.2)

theorem durable_replay {D : Type} [Blob D] {records : List (Record D)}
    (haccepts : (Durable.start : Durable D).Accepts records) :
    (replay records).durable = records.foldl Durable.apply Durable.start :=
  Recovered.durable_foldl haccepts

namespace Raft

variable {D : Type}

/-- Consecutive entries above the snapshot are taken over as they are. -/
theorem restoreLog_eq {offset expected : Nat} {entries : List Entry}
    (hindexed : ∀ k e, entries[k]? = some e → e.index = expected + k)
    (hoffset : offset < expected) (hbound : expected + entries.length < 2 ^ 64) :
    restoreLog offset expected entries = some entries := by
  induction entries generalizing expected with
  | nil => rfl
  | cons e rest ih =>
      have hhead : e.index = expected := by simpa using hindexed 0 e rfl
      simp only [List.length_cons] at hbound
      have hrest : restoreLog offset (wrap64 (expected + 1)) rest = some rest := by
        rw [wrap64_of_lt (by omega)]
        refine ih ?_ (by omega) (by omega)
        intro k x hx
        have := hindexed (k + 1) x (by simpa using hx)
        omega
      simp [restoreLog, hhead, hoffset, hrest]

/-- `restore` succeeds on a valid state and rebuilds exactly that state. -/
theorem restore_of_valid {st : Recovered D} (r : Raft D) (hvalid : st.durable.Valid) :
    r.restore st.hardState st.entries st.snapshot = some { r with
      logOffset := st.snapshot.index
      logOffsetTerm := st.snapshot.term
      lastSnapshotIndex := st.snapshot.index
      lastSnapshotData := st.snapshot.state
      log := st.entries
      term := st.hardState.term
      votedFor := st.hardState.vote
      commitIndex := max st.snapshot.index st.hardState.commit
      lastApplied := st.snapshot.index } := by
  obtain ⟨_, hindexed, _, hcommit, hbound⟩ := hvalid
  simp only [Recovered.durable, Durable.last] at hindexed hcommit hbound
  have hlog : restoreLog st.snapshot.index (wrap64 (st.snapshot.index + 1)) st.entries =
      some st.entries := by
    rw [wrap64_of_lt (by omega)]
    refine restoreLog_eq ?_ (by omega) (by omega)
    intro k e he
    have := hindexed k e he
    omega
  have hlast : wrap64 (st.snapshot.index + st.entries.length) =
      st.snapshot.index + st.entries.length := wrap64_of_lt (by omega)
  simp only [restore, hlog, lastLogIndex, hlast, gt_iff_lt, not_lt.mpr hcommit, if_false]

end Raft

end RaftKv
