import RaftKv.Raft.Mirror

/-! # Starting a node

`recover_storage` of `node_runtime.cpp`: rebuild the Raft object from the records
of its WAL and advance it through the committed entries, which also rebuilds the
state machine. A missing WAL is an empty one.
-/

namespace RaftKv

variable {D : Type}

/-- The loop over the recovered entries, with the state machine's applied index; none when
it throws on a gap. -/
def replayCommitted (snapshotIndex : Nat) :
    Raft D → Nat → List Entry → Option (Raft D × Nat)
  | r, applied, [] => some (r, applied)
  | r, applied, e :: rest =>
      if e.index ≤ snapshotIndex then replayCommitted snapshotIndex r applied rest
      else if e.index > r.commitIndex then some (r, applied)
      else if e.index ≠ wrap64 (applied + 1) then none
      else replayCommitted snapshotIndex (r.advance e.index) e.index rest

/-- The replay stops exactly at the commit index. -/
theorem replayCommitted_eq {r : Raft D} {snapshotIndex applied : Nat} {entries : List Entry}
    (hindexed : ∀ k e, entries[k]? = some e → e.index = applied + k + 1)
    (hsnapshot : snapshotIndex ≤ applied) (happlied : r.lastApplied = applied)
    (hge : applied ≤ r.commitIndex) (hle : r.commitIndex ≤ applied + entries.length)
    (hbound : applied + entries.length + 1 < 2 ^ 64) :
    replayCommitted snapshotIndex r applied entries =
      some ({ r with lastApplied := r.commitIndex }, r.commitIndex) := by
  -- once the commit index is reached there is nothing left to do
  have hdone : ∀ r : Raft D, r.lastApplied = r.commitIndex →
      some (r, r.commitIndex) = some ({ r with lastApplied := r.commitIndex }, r.commitIndex) :=
    fun r h => congrArg (fun n => some ({ r with lastApplied := n }, r.commitIndex)) h
  induction entries generalizing r applied with
  | nil =>
      obtain rfl : applied = r.commitIndex := by simp at hle; omega
      exact hdone r happlied
  | cons e rest ih =>
      simp only [List.length_cons] at hle hbound
      have hhead : e.index = applied + 1 := by simpa using hindexed 0 e rfl
      have hwrap : wrap64 (applied + 1) = applied + 1 := wrap64_of_lt (by omega)
      have hrest : ∀ k x, rest[k]? = some x → x.index = e.index + k + 1 := by
        intro k x hx
        have := hindexed (k + 1) x (by simpa using hx)
        omega
      rw [replayCommitted, if_neg (by omega)]
      by_cases hcommit : e.index > r.commitIndex
      · obtain rfl : applied = r.commitIndex := by omega
        rw [if_pos hcommit]
        exact hdone r happlied
      · have hadvance : r.advance e.index = { r with lastApplied := e.index } := by
          have : ¬ (e.index > r.commitIndex ∨ e.index ≠ wrap64 (r.lastApplied + 1)) := by
            rw [happlied, hwrap]
            omega
          simp [Raft.advance, this]
        rw [if_neg hcommit, if_neg (by omega), hadvance]
        rw [ih (r := { r with lastApplied := e.index }) hrest (by omega) rfl (by simp only; omega)
          (by simp only; omega) (by omega)]

section

variable [Blob D]

/-- A node started on the given records; none when the constructor, `restore` or the replay
throws. -/
def boot (config : Config) (draws : List Nat) (file : List (Record D)) : Option (Raft D) :=
  match Raft.new config draws with
  | none => none
  | some r =>
      let st := replay file
      match r.restore st.hardState st.entries st.snapshot with
      | none => none
      | some r =>
          match replayCommitted st.snapshot.index r st.snapshot.index st.entries with
          | none => none
          | some (r, applied) =>
              if applied ≠ r.commitIndex then none else some (r.setWal { file := file })

end

/-! ## What every booted node has in common -/

theorem replayCommitted_frame {snapshotIndex applied applied' : Nat} {entries : List Entry}
    {r next : Raft D} (hreplay : replayCommitted snapshotIndex r applied entries =
      some (next, applied')) : ∃ n, next = { r with lastApplied := n } := by
  induction entries generalizing r applied with
  | nil =>
      obtain ⟨rfl, -⟩ := Prod.mk.inj (Option.some.inj hreplay)
      exact ⟨r.lastApplied, rfl⟩
  | cons e rest ih =>
      rw [replayCommitted] at hreplay
      split at hreplay
      · exact ih hreplay
      · split at hreplay
        · obtain ⟨rfl, -⟩ := Prod.mk.inj (Option.some.inj hreplay)
          exact ⟨r.lastApplied, rfl⟩
        · split at hreplay
          · cases hreplay
          · obtain ⟨n, rfl⟩ := ih hreplay
            unfold Raft.advance
            split <;> exact ⟨n, rfl⟩

variable [Blob D]

/-- A started node is a silent follower with the term and vote of its file. -/
structure Booted (config : Config) (file : List (Record D)) (r : Raft D) : Prop where
  valid : config.valid = true
  id : r.id = config.id
  peers : r.peers = config.peers
  threshold : r.snapshotThreshold = config.snapshotThreshold
  state : r.state = .follower
  lead : r.lead = 0
  pending : r.pendingPreVoteTerm = 0
  noRead : r.readIndexPending = false
  firstRead : r.nextReadContext = 1
  noAcks : r.readIndexAcks = Table.empty
  noProgress : r.progress = Table.empty
  wal : r.wal = some { file := file }
  healthy : r.storageFailed = false
  msgs : r.msgs = []
  term : r.term = (replay file).hardState.term
  vote : r.votedFor = (replay file).hardState.vote

theorem boot_booted {config : Config} {draws : List Nat} {file : List (Record D)} {r : Raft D}
    (hboot : boot config draws file = some r) : Booted config file r := by
  unfold boot at hboot
  split at hboot
  · cases hboot
  next fresh hnew =>
    dsimp only at hboot
    split at hboot
    · cases hboot
    next restored hrestore =>
      split at hboot
      · cases hboot
      next replayed applied hreplay =>
        obtain ⟨n, rfl⟩ := replayCommitted_frame hreplay
        split at hboot
        · cases hboot
        · obtain rfl := Option.some.inj hboot
          unfold Raft.restore at hrestore
          split at hrestore
          · cases hrestore
          · dsimp only at hrestore
            split at hrestore
            · cases hrestore
            · obtain rfl := Option.some.inj hrestore
              unfold Raft.new at hnew
              split at hnew
              next hvalid =>
                obtain rfl := Option.some.inj hnew
                exact ⟨hvalid, rfl, rfl, rfl, rfl, rfl, rfl, rfl, rfl, rfl, rfl, rfl, rfl, rfl, rfl,
                  rfl⟩
              · cases hnew

theorem Config.id_ne_zero {config : Config} (hvalid : config.valid = true) : config.id ≠ 0 := by
  intro hzero
  simp [Config.valid, hzero] at hvalid

theorem Booted.inTerm {config : Config} {file : List (Record D)} {r : Raft D}
    (hbooted : Booted config file r) (hterm : r.term < 2 ^ 64) : r.InTerm where
  term_lt := hterm
  pending := .inl hbooted.pending
  id_ne_zero := by
    rw [hbooted.id]
    exact Config.id_ne_zero hbooted.valid
  candidate h := by
    rw [hbooted.state] at h
    cases h

/-! ## Starting from admissible records -/

/-- A node starts on every file that describes a valid state, and is that state. -/
theorem boot_of_valid {config : Config} {file : List (Record D)} (draws : List Nat)
    (hconfig : config.valid = true) (hvalid : (replay file).durable.Valid) :
    ∃ r, boot config draws file = some r ∧ r.durable = (replay file).durable ∧
      r.lastApplied = r.commitIndex := by
  obtain ⟨fresh, hfresh⟩ : ∃ fresh : Raft D, Raft.new config draws = some fresh := by
    simp [Raft.new, hconfig]
  have hrestore := Raft.restore_of_valid fresh hvalid
  obtain ⟨-, hindexed, hge, hle, hbound⟩ := hvalid
  simp only [Recovered.durable, Durable.last] at hindexed hge hle hbound
  let restored : Raft D := { fresh with
    logOffset := (replay file).snapshot.index
    logOffsetTerm := (replay file).snapshot.term
    lastSnapshotIndex := (replay file).snapshot.index
    lastSnapshotData := (replay file).snapshot.state
    log := (replay file).entries
    term := (replay file).hardState.term
    votedFor := (replay file).hardState.vote
    commitIndex := max (replay file).snapshot.index (replay file).hardState.commit
    lastApplied := (replay file).snapshot.index }
  have hreplay := replayCommitted_eq (r := restored) hindexed le_rfl rfl hge hle hbound
  refine ⟨({ restored with lastApplied := restored.commitIndex } : Raft D).setWal { file := file },
    ?_, rfl, rfl⟩
  unfold boot
  rw [hfresh]
  dsimp only
  rw [hrestore]
  dsimp only
  rw [hreplay]
  dsimp only
  rw [if_neg (by simp)]

/-- A node that starts on admissible records is the state they describe, fully applied. -/
theorem boot_durable {config : Config} {draws : List Nat} {file : List (Record D)} {r : Raft D}
    (haccepts : (Durable.start : Durable D).Accepts file)
    (hboot : boot config draws file = some r) :
    r.durable = file.foldl Durable.apply Durable.start ∧ r.durable.Valid ∧
      r.lastApplied = r.commitIndex := by
  have hdurable := durable_replay haccepts
  have hvalid := haccepts.valid Durable.valid_start
  rw [← hdurable] at hvalid ⊢
  obtain ⟨r', hboot', hd, happlied⟩ := boot_of_valid draws (boot_booted hboot).valid hvalid
  obtain rfl : r = r' := Option.some.inj (hboot.symm.trans hboot')
  exact ⟨hd, hd ▸ hvalid, happlied⟩

/-- A booted node satisfies the invariant, when its file holds admissible records. -/
theorem boot_mirrors {config : Config} {draws : List Nat} {file : List (Record D)} {r : Raft D}
    (haccepts : (Durable.start : Durable D).Accepts file)
    (hboot : boot config draws file = some r) :
    r.Mirrors := by
  have hbooted := boot_booted hboot
  obtain ⟨hdurable, hvalid, happlied⟩ := boot_durable haccepts hboot
  refine ⟨hbooted.inTerm hvalid.term_lt, ⟨hvalid, ?_, happlied.le⟩, _, hbooted.wal, ?_, ?_,
    fun _ => ⟨⟨rfl, rfl, rfl⟩, hdurable⟩⟩
  · rw [happlied]
    exact hvalid.offset_le
  · rw [hbooted.healthy]
  · simpa using haccepts

end RaftKv
