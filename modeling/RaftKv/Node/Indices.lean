import RaftKv.Node.Run
import RaftKv.Raft.Indices

/-! # Indices of a node in use

A Raft object may be used without its runtime: with a WAL or without one, after failed
flushes, called in any order. Its indices stay consistent all the same as long as none
of them reaches the last 64-bit value; and in normal use no single operation, whatever
the message it handles, touches what is committed.
-/

namespace RaftKv

variable {D : Type}

section

variable [Blob D]

/-- The objects that come about by construction, `restore`, `set_wal`, `read_messages` and
calls that meet `Ok`; restored ones meet `Start`. -/
inductive Operated (config : Config) (Start : Raft D → Prop) (Ok : Raft D → Input D → Prop) :
    Raft D → Prop
  | fresh (draws : List Nat) (r : Raft D) (hnew : Raft.new config draws = some r) :
      Operated config Start Ok r
  | restored (draws : List Nat) (fresh r : Raft D) (hs : HardState) (entries : List Entry)
      (snap : SnapshotMeta D) (hnew : Raft.new config draws = some fresh)
      (hsnap : snap.index < 2 ^ 64) (hrestore : fresh.restore hs entries snap = some r)
      (hstart : Start r) : Operated config Start Ok r
  | attach (r : Raft D) (w : Wal D) (hr : Operated config Start Ok r) :
      Operated config Start Ok (r.setWal w)
  | drain (r : Raft D) (hr : Operated config Start Ok r) :
      Operated config Start Ok r.readMessages.1
  | step (r : Raft D) (env : Env) (input : Input D) (hr : Operated config Start Ok r)
      (hok : Ok r input) : Operated config Start Ok ((r.arm env).step input)

end

namespace Raft

section

variable [Blob D]

/-- An index of a retained entry, and the place where `log_entry` finds it. -/
def Retains (r : Raft D) (i : Nat) : Prop :=
  r.logOffset < i ∧ i ≤ r.lastLogIndex ∧ r.logPosition i = i - r.logOffset - 1 ∧
    ∃ e, r.log[r.logPosition i]? = some e ∧ e.index = i

/-- The order of the indices, and what the unchecked accesses and subtractions need. -/
structure SafeIndices (r : Raft D) : Prop where
  indexed : ∀ k e, r.log[k]? = some e → e.index = r.logOffset + k + 1
  snapshot : r.lastSnapshotIndex = r.logOffset
  offset_le : r.logOffset ≤ r.lastApplied
  applied_le : r.lastApplied ≤ r.commitIndex
  commit_le : r.commitIndex ≤ r.lastLogIndex
  /-- Any access or erase between the offset and the end of the log. -/
  access : ∀ i, r.logOffset < i → i ≤ r.lastLogIndex → r.Retains i
  /-- Loop counters that run to the end of the log can leave it. -/
  loops : r.lastLogIndex + 1 < 2 ^ 64
  /-- The entry `next_entry_to_apply` reads. -/
  apply : r.lastApplied < r.commitIndex → r.Retains (wrap64 (r.lastApplied + 1))
  /-- The entries the commit loop reads. -/
  choose : ∀ i, wrap64 (r.commitIndex + 1) ≤ i → i ≤ r.lastLogIndex → r.Retains i
  /-- What `broadcast_heartbeat` does with `progress_[peer].next`. -/
  heartbeat : ∀ peer, (r.progressOf peer).next ≤ r.logOffset ∨
    1 ≤ (r.progressOf peer).next ∧
      ∀ i, (r.progressOf peer).next ≤ i → i ≤ r.lastLogIndex → r.Retains i

end

section

variable {r : Raft D}

theorem retains_of_ordered (hordered : r.indices.Ordered) {i : Nat} (hoffset : r.logOffset < i)
    (hlast : i ≤ r.lastLogIndex) : r.Retains i := by
  have hle := hlast
  have hbound := hordered.last_lt
  rw [lastLogIndex_of_ordered hordered] at hle
  have hposition : r.logPosition i = i - r.logOffset - 1 :=
    logPosition_of_lt hoffset (lt_of_le_of_lt hle hbound)
  have hlength : i - r.logOffset - 1 < r.log.length := by
    simp only [Indices.last, indices] at hle
    omega
  refine ⟨hoffset, hlast, hposition, r.log[i - r.logOffset - 1], ?_, ?_⟩
  · rw [hposition, List.getElem?_eq_getElem hlength]
  · have hindex := hordered.indexed _ _ (List.getElem?_eq_getElem hlength)
    simp only [indices] at hindex
    rw [hindex]
    omega

theorem safeIndices_of_ordered (hordered : r.indices.Ordered)
    (hsnapshot : r.indices.snapshot = r.indices.offset) (hroom : r.indices.last + 1 < 2 ^ 64) :
    r.SafeIndices := by
  have hlast := lastLogIndex_of_ordered hordered
  rw [← hlast] at hroom
  have hcommit : r.commitIndex ≤ r.lastLogIndex := hlast ▸ hordered.commit_le
  have happlied : r.lastApplied ≤ r.commitIndex := hordered.applied_le
  have hoffset : r.logOffset ≤ r.lastApplied := hordered.offset_le
  have hwrap : ∀ i, i ≤ r.lastLogIndex → wrap64 (i + 1) = i + 1 := fun i hi =>
    wrap64_of_lt (by omega)
  refine ⟨hordered.indexed, hsnapshot, hoffset, happlied, hcommit,
    fun i => retains_of_ordered hordered, hroom, fun hnext => ?_, fun i hi hle => ?_,
    fun peer => ?_⟩
  · rw [hwrap _ (happlied.trans hcommit)]
    exact retains_of_ordered hordered (Nat.lt_succ_of_le hoffset) (hnext.trans_le hcommit)
  · rw [hwrap _ hcommit] at hi
    exact retains_of_ordered hordered (lt_of_le_of_lt (hoffset.trans happlied) hi) hle
  · by_cases hnext : (r.progressOf peer).next ≤ r.logOffset
    · exact .inl hnext
    · refine .inr ⟨by omega, fun i hi hle => retains_of_ordered hordered (by omega) hle⟩

/-- Entries that are kept follow each other; the counter cannot wrap to one that is. -/
theorem restoreLog_indexed {offset expected : Nat} {entries log : List Entry}
    (hbound : expected < 2 ^ 64) (hrestore : restoreLog offset expected entries = some log) :
    (∀ k e, log[k]? = some e → e.index = expected + k) ∧ expected + log.length ≤ 2 ^ 64 ∧
      (expected ≤ offset → log = []) := by
  induction entries generalizing expected log with
  | nil =>
      obtain rfl := Option.some.inj hrestore
      exact ⟨by simp, hbound.le, fun _ => rfl⟩
  | cons e rest ih =>
      unfold restoreLog at hrestore
      split at hrestore
      next habove =>
        split at hrestore
        · cases hrestore
        next hnext =>
          obtain ⟨tail, htail, rfl⟩ := Option.map_eq_some_iff.mp hrestore
          obtain ⟨hindexed, hlength, hempty⟩ := ih (wrap64_lt _) htail
          have hhead : e.index = expected := not_not.mp hnext
          by_cases hlast : expected + 1 < 2 ^ 64
          · rw [wrap64_of_lt hlast] at hindexed hlength
            refine ⟨fun k x hx => ?_, by simpa [Nat.add_assoc, Nat.add_comm 1] using hlength,
              fun h => by omega⟩
            cases k with
            | zero =>
                cases hx
                exact hhead
            | succ k =>
                rw [hindexed k x (by simpa using hx)]
                omega
          · have hwrap : wrap64 (expected + 1) = 0 := by
              rw [show expected + 1 = 2 ^ 64 by omega]
              rfl
            obtain rfl := hempty (by omega)
            refine ⟨fun k x hx => ?_, by simp; omega, fun h => by omega⟩
            cases k with
            | zero =>
                cases hx
                exact hhead
            | succ k => simp at hx
      · exact ih hbound hrestore

theorem restore_ordered {fresh : Raft D} {hs : HardState} {entries : List Entry}
    {snap : SnapshotMeta D} (hsnap : snap.index < 2 ^ 64)
    (hrestore : fresh.restore hs entries snap = some r) :
    r.indices.Ordered ∧ r.indices.snapshot = r.indices.offset := by
  unfold restore at hrestore
  split at hrestore
  · cases hrestore
  next log hlog =>
    obtain ⟨hindexed, hlength, hempty⟩ := restoreLog_indexed (wrap64_lt _) hlog
    have hlast : snap.index + log.length < 2 ^ 64 ∧
        ∀ k e, log[k]? = some e → e.index = snap.index + k + 1 := by
      by_cases hnext : snap.index + 1 < 2 ^ 64
      · rw [wrap64_of_lt hnext] at hindexed hlength
        exact ⟨by omega, fun k e he => by rw [hindexed k e he]; omega⟩
      · obtain rfl := hempty (by
          rw [show snap.index + 1 = 2 ^ 64 by omega]
          exact Nat.zero_le _)
        exact ⟨by simpa using hsnap, by simp⟩
    dsimp only at hrestore
    split at hrestore
    · cases hrestore
    next hcommit =>
      obtain rfl := Option.some.inj hrestore
      refine ⟨⟨hlast.2, le_rfl, le_max_left _ _, ?_, hlast.1⟩, rfl⟩
      simp only [lastLogIndex, wrap64_of_lt hlast.1, not_lt] at hcommit
      exact hcommit

theorem InRange.below {input : Input D} (hordered : r.indices.Ordered) (hrange : r.InRange input) :
    r.Below (2 ^ 64 - 1) input := by
  have hlast := lastLogIndex_of_ordered hordered
  cases input with
  | message msg =>
      refine ⟨fun htype e he => ?_, fun htype => ?_⟩
      · obtain ⟨k, hk⟩ := List.mem_iff_getElem?.mp he
        have hindex := hrange.indexed htype k e hk
        have hlength := hrange.entries htype
        have := (List.getElem?_eq_some_iff.mp hk).1
        omega
      · have := hrange.snapshot htype
        omega
  | propose data =>
      simp only [InRange] at hrange
      simp only [Below]
      omega
  | readIndex =>
      simp only [InRange] at hrange
      simp only [Below]
      omega
  | _ => trivial

variable [Blob D]

theorem new_indices {config : Config} {draws : List Nat} (hnew : new config draws = some r) :
    r.indices = ⟨[], 0, 0, 0, 0⟩ := by
  unfold new at hnew
  split at hnew
  · obtain rfl := Option.some.inj hnew
    rfl
  · cases hnew

end

end Raft

section

variable [Blob D]

/-- The index order of every object that is operated in range. -/
theorem Operated.ordered {config : Config} {r : Raft D}
    (hoperated : Operated config (fun r => r.lastLogIndex + 1 < 2 ^ 64)
      (fun r input => input.Wire ∧ r.InRange input) r) :
    r.indices.Ordered ∧ r.indices.snapshot = r.indices.offset ∧ r.indices.last < 2 ^ 64 - 1 := by
  induction hoperated with
  | fresh draws r hnew =>
      rw [Raft.new_indices hnew]
      exact ⟨⟨by simp, le_rfl, le_rfl, le_rfl, by simp [Indices.last]⟩, rfl, by simp [Indices.last]⟩
  | restored draws fresh r hs entries snap hnew hsnap hrestore hstart =>
      obtain ⟨hordered, hsnapshot⟩ := Raft.restore_ordered hsnap hrestore
      rw [Raft.lastLogIndex_of_ordered hordered] at hstart
      exact ⟨hordered, hsnapshot, by omega⟩
  | attach r w _ ih => exact ih
  | drain r _ ih => exact ih
  | step r env input _ hok ih =>
      obtain ⟨hordered, hsnapshot, hlast⟩ := ih
      obtain ⟨hwire, hrange⟩ := hok
      have hbelow : (r.arm env).Below (2 ^ 64 - 1) input := hrange.below hordered
      rw [← Raft.indices_arm r env] at hordered hlast
      have hchanges := Raft.step_changes (by decide) hordered (by omega) hwire hbelow
      obtain ⟨hnext, -, hbound⟩ := hchanges.spec (by decide) hordered
      exact ⟨hnext, hchanges.snapshot_eq hsnapshot, hbound hlast⟩

/-- The invariant holds in every object that is operated in range, also between the
iterations of the follower's loop. -/
theorem indices_safe {config : Config} {r : Raft D}
    (hoperated : Operated config (fun r => r.lastLogIndex + 1 < 2 ^ 64)
      (fun r input => input.Wire ∧ r.InRange input) r) :
    r.SafeIndices ∧ ∀ msg : Message D, msg.type = .appendEntries → msg.Wire → msg.InRange →
      (r.prepareForLeaderRpc msg).1.logOk msg = true →
      ∀ done rest, msg.entries = done ++ rest →
        ((r.prepareForLeaderRpc msg).1.appendLoop msg.prevLogIndex 0 done).1.SafeIndices := by
  obtain ⟨hordered, hsnapshot, hlast⟩ := hoperated.ordered
  refine ⟨Raft.safeIndices_of_ordered hordered hsnapshot (by omega), ?_⟩
  intro msg htype hwire hrange hlog done rest hentries
  rw [← Raft.indices_prepareForLeaderRpc r msg] at hordered hsnapshot hlast
  have hinput : (r.prepareForLeaderRpc msg).1.InRange (.message msg) := hrange
  have hbelow : ∀ e ∈ done, e.index < 2 ^ 64 - 1 := fun e he =>
    (hinput.below hordered).1 htype e (hentries ▸ List.mem_append_left rest he)
  have hindexed : ∀ k e, done[k]? = some e → e.index = wrap64 (msg.prevLogIndex + 0 + k + 1) := by
    intro k e he
    refine hwire.indexed htype k e ?_
    rw [hentries, List.getElem?_append_left (List.getElem?_eq_some_iff.mp he).1, he]
  have hchanges := Raft.appendLoop_changes (by decide) hordered hbelow hindexed
    ((wrap64_le _).trans (Nat.succ_le_succ (Raft.prev_le_of_ordered hordered hlog)))
  obtain ⟨hnext, -, hbound⟩ := hchanges.spec (by decide) hordered
  have hroom := hbound hlast
  exact Raft.safeIndices_of_ordered hnext (hchanges.snapshot_eq hsnapshot) (by omega)

theorem Operated.act {config : Config} {Start : Raft D → Prop} {Ok : Raft D → Input D → Prop}
    {r : Raft D} {env : Env} {input : Input D} (hoperated : Operated config Start Ok r)
    (hok : Ok r input) : Operated config Start Ok (r.act env input).1 := by
  unfold Raft.act
  split
  · exact hoperated
  · split
    · exact .step r env input hoperated hok
    · exact .drain _ (.step r env input hoperated hok)

theorem Operated.actAll {config : Config} {Start : Raft D → Prop} {Ok : Raft D → Input D → Prop}
    {r : Raft D} {inputs : List (Env × Input D)} (hoperated : Operated config Start Ok r)
    (hok : r.ActsOk Ok inputs) : Operated config Start Ok (r.actAll inputs) := by
  induction inputs generalizing r with
  | nil => exact hoperated
  | cons i rest ih => exact ih (hoperated.act hok.1) hok.2

/-- Node 1 without a WAL. -/
def bareOne : Raft Bytes := (Raft.new nodeOne []).get (by decide +kernel)

theorem bareOne_operated (Start : Raft Bytes → Prop) (Ok : Raft Bytes → Input Bytes → Prop) :
    Operated nodeOne Start Ok bareOne :=
  .fresh [] bareOne (Option.some_get _).symm

theorem indices_safe_bareOne :
    ∃ r : Raft Bytes, r.log.length = 1 ∧ r.logOffset = 5 ∧ r.SafeIndices := by
  refine ⟨bareOne.actAll ([(.calm, snapshotFromTwo 5)] ++ electionOfOne ++ [(.calm, .propose [7])]),
    by decide +kernel, by decide +kernel, ?_⟩
  exact (indices_safe ((bareOne_operated _ _).actAll (by decide +kernel))).1

/-- After a snapshot of the last 64-bit index, a proposal takes the end of the log to zero. -/
theorem wrapped_indices_unsafe :
    ∃ r : Raft Bytes, Operated nodeOne (fun _ => True) OnWire r ∧ r.lastLogIndex = 0 ∧
      r.commitIndex = 2 ^ 64 - 1 ∧ ¬ r.SafeIndices := by
  have hlast : (bareOne.actAll wrappedProposal).lastLogIndex = 0 := by decide +kernel
  have hcommit : (bareOne.actAll wrappedProposal).commitIndex = 2 ^ 64 - 1 := by decide +kernel
  refine ⟨bareOne.actAll wrappedProposal, (bareOne_operated _ _).actAll (by decide +kernel), hlast,
    hcommit, fun hsafe => ?_⟩
  have hle := hsafe.commit_le
  rw [hlast, hcommit] at hle
  exact absurd hle (by decide)

/-! ## What is committed stays -/

end

namespace Raft

section

variable [Blob D]

/-- The counters of a node do not go back, a vote is kept within its term, and so are the
committed entries. -/
structure KeepsCommitted (r next : Raft D) : Prop where
  term_le : r.term ≤ next.term
  vote : next.votedFor = r.votedFor ∨ r.votedFor = 0 ∨ r.term < next.term
  commit_le : r.commitIndex ≤ next.commitIndex
  applied_le : r.lastApplied ≤ next.lastApplied
  offset_le : r.logOffset ≤ next.logOffset
  entries : ∀ i, next.logOffset < i → i ≤ r.commitIndex →
    next.log[i - next.logOffset - 1]? = r.log[i - r.logOffset - 1]?

/-- An entry of the message disagrees with a committed one. -/
def Conflicts (r : Raft D) (msg : Message D) : Prop :=
  ∃ k e x, msg.entries[k]? = some e ∧ r.logOffset < msg.prevLogIndex + k + 1 ∧
    msg.prevLogIndex + k + 1 ≤ r.commitIndex ∧
    r.log[msg.prevLogIndex + k + 1 - r.logOffset - 1]? = some x ∧ x.term ≠ e.term

end

variable {r next : Raft D} {msg : Message D}

theorem keepsCommitted_of (hfollows : Follows (r.term, r.votedFor) (next.term, next.votedFor))
    (hkeeps : r.indices.Keeps next.indices) : r.KeepsCommitted next := by
  obtain ⟨hoffset, happlied, hcommit, hentries⟩ := hkeeps
  refine ⟨?_, ?_, hcommit, happlied, hoffset, hentries⟩
  · rcases hfollows with hlt | ⟨heq, -⟩
    · exact hlt.le
    · exact heq.le
  · rcases hfollows with hlt | ⟨-, hzero | hsame⟩
    · exact .inr (.inr hlt)
    · exact .inr (.inl hzero)
    · exact .inl hsame

theorem Sane.ordered (hsane : r.Sane) : r.indices.Ordered :=
  ⟨hsane.valid.indexed, hsane.offset_le, hsane.applied_le, hsane.valid.commit_le,
    Nat.lt_of_succ_lt hsane.valid.bound⟩

/-- Any index fits below the end of the 64-bit range on a node that has room. -/
theorem below_of_wire {input : Input D} (hroom : r.indices.last + 1 < 2 ^ 64)
    (hwire : input.Wire) : r.Below (2 ^ 64) input := by
  cases input with
  | message msg =>
      refine ⟨fun htype e he => ?_, fun _ => hwire.snapshot⟩
      obtain ⟨k, hk⟩ := List.mem_iff_getElem?.mp he
      rw [hwire.indexed htype k e hk]
      exact wrap64_lt _
  | propose => exact hroom
  | readIndex => exact hroom
  | _ => trivial

variable [Blob D]

theorem handleAppendEntries_conflict (hordered : r.indices.Ordered) (hconflicts : r.Conflicts msg) :
    (r.handleAppendEntries msg).1.indices = r.indices := by
  obtain ⟨k, e, x, hk, hoffset, hcommit, hentry, hterm⟩ := hconflicts
  have hsame := indices_prepareForLeaderRpc r msg
  unfold handleAppendEntries
  generalize r.prepareForLeaderRpc msg = prepared at *
  obtain ⟨prepared, ready⟩ := prepared
  dsimp only at hsame ⊢
  split
  · exact hsame
  · split
    · exact hsame
    · have hoffset' : prepared.logOffset < msg.prevLogIndex + 0 + k + 1 :=
        (congrArg Indices.offset hsame).trans_lt hoffset
      have hcommit' : msg.prevLogIndex + 0 + k + 1 ≤ prepared.commitIndex :=
        hcommit.trans_eq (congrArg Indices.commit hsame).symm
      have hentry' : prepared.indices.entryAt? (msg.prevLogIndex + 0 + k + 1) = some x := by
        rw [hsame]
        exact hentry
      have hloop := appendLoop_conflict (hsame ▸ hordered) hk hoffset' hcommit' hentry' hterm
      rw [acceptEntries, hloop]
      exact hsame

theorem handleInstallSnapshot_stale
    (hstale : msg.snapshotIndex < r.commitIndex ∨ msg.snapshotIndex ≤ r.lastApplied) :
    (r.handleInstallSnapshot msg).1.indices = r.indices := by
  have hsame := indices_prepareForLeaderRpc r msg
  unfold handleInstallSnapshot
  generalize r.prepareForLeaderRpc msg = prepared at *
  obtain ⟨prepared, ready⟩ := prepared
  dsimp only at hsame ⊢
  split
  · exact hsame
  · split
    · exact hsame
    · have hcommit : prepared.commitIndex = r.commitIndex := congrArg Indices.commit hsame
      have happlied : prepared.lastApplied = r.lastApplied := congrArg Indices.applied hsame
      rw [if_pos (by rw [hcommit, happlied]; exact hstale)]
      exact hsame

/-- Every message that fits the wire may come, and anything else may happen. -/
def wireOutside : Outside D where
  message := Message.Wire
  snapshot _ _ _ := True
  room _ := True
  install _ _ := True

theorem wireOutside_allows {input : Input D} (hwire : input.Wire) : r.Allows wireOutside input := by
  cases input with
  | message msg => exact ⟨hwire, fun _ _ _ _ => trivial⟩
  | _ => trivial

theorem step_keepsCommitted {input : Input D} (hmirrors : r.Mirrors)
    (hhealthy : r.storageFailed = false) (hwire : input.Wire) :
    r.KeepsCommitted (r.step input) := by
  have hordered := hmirrors.sane.ordered
  have hroom : r.indices.last + 1 < 2 ^ 64 := hmirrors.sane.valid.bound
  have hchanges := step_changes le_rfl hordered hroom hwire (below_of_wire hroom hwire)
  have hmoves := step_moves hhealthy (wireOutside_allows hwire)
  have hmsgs : ∀ msg : Message D, wireOutside.message msg → msg.term < 2 ^ 64 := fun _ h => h.term
  exact keepsCommitted_of (hmoves.follows hmsgs hmirrors.inTerm).2
    (hchanges.spec le_rfl hordered).2.1

end Raft

variable [Blob D]

/-- In normal use no single operation takes a counter back, changes a vote within its term or
touches a committed entry, whatever it is sent; conflicts with committed entries and stale
snapshots leave the log alone. -/
theorem committed_kept {config : Config} {r : Raft D} (hreach : Reach config Raft.InRange r)
    (env : Env) (input : Input D) (hwire : input.Wire) :
    r.KeepsCommitted (r.act env input).1 ∧
      ∀ msg, input = .message msg →
        (msg.type = .appendEntries → r.Conflicts msg →
          (r.act env input).1.log = r.log ∧ (r.act env input).1.logOffset = r.logOffset) ∧
        (msg.type = .installSnapshot →
          msg.snapshotIndex < r.commitIndex ∨ msg.snapshotIndex ≤ r.lastApplied →
          (r.act env input).1.log = r.log ∧ (r.act env input).1.logOffset = r.logOffset) := by
  have hmirrors := hreach.mirrors
  by_cases hfailed : r.storageFailed = true
  · have hstays : (r.act env input).1 = r := by simp [Raft.act, hfailed]
    rw [hstays]
    exact ⟨Raft.keepsCommitted_of (.refl _) (.refl _), fun _ _ => ⟨fun _ _ => ⟨rfl, rfl⟩,
      fun _ _ => ⟨rfl, rfl⟩⟩⟩
  · have hhealthy : r.storageFailed = false := by simpa using hfailed
    have hact : ∃ msgs, (r.act env input).1 = { (r.arm env).step input with msgs := msgs } := by
      unfold Raft.act
      rw [if_neg hfailed]
      split
      · exact ⟨_, rfl⟩
      · exact ⟨[], rfl⟩
    obtain ⟨msgs, heq⟩ := hact
    rw [heq]
    have hkeeps := Raft.step_keepsCommitted (hmirrors.arm env) hhealthy hwire
    refine ⟨⟨hkeeps.term_le, hkeeps.vote, hkeeps.commit_le, hkeeps.applied_le, hkeeps.offset_le,
      hkeeps.entries⟩, ?_⟩
    rintro msg rfl
    refine ⟨fun htype hconflicts => ?_, fun htype hstale => ?_⟩
    · have hsame := Raft.handleAppendEntries_conflict (r := r.arm env)
        hmirrors.sane.ordered hconflicts
      simp only [Raft.step, Raft.handleMessage, htype]
      exact ⟨congrArg Indices.log hsame, congrArg Indices.offset hsame⟩
    · have hsame := Raft.handleInstallSnapshot_stale (r := r.arm env) hstale
      simp only [Raft.step, Raft.handleMessage, htype]
      exact ⟨congrArg Indices.log hsame, congrArg Indices.offset hsame⟩

/-- Node 2, in a later term, disagrees about the first entry. -/
def conflictingFromTwo : Message Bytes :=
  { fromTwo .appendEntries 2 with
    entries := [{ term := 2, index := 1 }, { term := 2, index := 2 }] }

theorem committed_kept_conflicting :
    ∃ r : Raft Bytes, r.commitIndex = 2 ∧
      r.KeepsCommitted (r.act .calm (.message conflictingFromTwo)).1 ∧
      (r.act .calm (.message conflictingFromTwo)).1.log = r.log := by
  have hreach : Reach nodeOne Raft.InRange (freshOne.actAll [(.calm, committedFromTwo)]) :=
    (freshOne_reach _).actAll (by decide +kernel)
  have hkept := committed_kept hreach .calm (.message conflictingFromTwo) (by decide +kernel)
  refine ⟨_, by decide +kernel, hkept.1, ((hkept.2 _ rfl).1 rfl ?_).1⟩
  exact ⟨0, { term := 2, index := 1 }, { term := 1, index := 1 }, rfl, by decide +kernel,
    by decide +kernel, by decide +kernel, by decide⟩

end RaftKv
