import RaftKv.Raft.Range

/-! # The log and the indices into it

Of the members of a node only five say which entry a log index stands for. This module
lists the ways in which an operation can change them, whatever the storage does and
whatever a message contains, and derives two things from the list: the order of the
indices is an invariant, and nothing committed ever changes.
-/

namespace RaftKv

/-- `log_`, `log_offset_`, `last_snapshot_index_`, `last_applied_` and `commit_index_`. -/
structure Indices where
  log : List Entry
  offset : Nat
  snapshot : Nat
  applied : Nat
  commit : Nat

namespace Indices

def last (x : Indices) : Nat := x.offset + x.log.length

/-- The entry at a log index, if it is retained. -/
def entryAt? (x : Indices) (i : Nat) : Option Entry := x.log[i - x.offset - 1]?

structure Ordered (x : Indices) : Prop where
  indexed : ∀ k e, x.log[k]? = some e → e.index = x.offset + k + 1
  offset_le : x.offset ≤ x.applied
  applied_le : x.applied ≤ x.commit
  commit_le : x.commit ≤ x.last
  last_lt : x.last < 2 ^ 64

/-- No index goes back, and the committed entries that are still retained are the same. -/
structure Keeps (x y : Indices) : Prop where
  offset_le : x.offset ≤ y.offset
  applied_le : x.applied ≤ y.applied
  commit_le : x.commit ≤ y.commit
  entries : ∀ i, y.offset < i → i ≤ x.commit → y.entryAt? i = x.entryAt? i

theorem Keeps.refl (x : Indices) : x.Keeps x := ⟨le_rfl, le_rfl, le_rfl, fun _ _ _ => rfl⟩

theorem Keeps.trans {x y z : Indices} (hxy : x.Keeps y) (hyz : y.Keeps z) : x.Keeps z where
  offset_le := hxy.offset_le.trans hyz.offset_le
  applied_le := hxy.applied_le.trans hyz.applied_le
  commit_le := hxy.commit_le.trans hyz.commit_le
  entries i hoffset hcommit := by
    rw [hyz.entries i hoffset (hcommit.trans hxy.commit_le)]
    exact hxy.entries i (lt_of_le_of_lt hyz.offset_le hoffset) hcommit

/-- The log up to a committed index is the same, as long as it starts where it did. -/
theorem Keeps.take_eq {x y : Indices} {i : Nat} (hkeeps : x.Keeps y) (hoffset : y.offset = x.offset)
    (hi : i ≤ x.commit) : y.log.take (i - x.offset) = x.log.take (i - x.offset) := by
  refine List.ext_getElem? fun k => ?_
  by_cases hk : k < i - x.offset
  · have hentry := hkeeps.entries (x.offset + k + 1) (by omega) (by omega)
    simp only [entryAt?, hoffset] at hentry
    rw [show x.offset + k + 1 - x.offset - 1 = k by omega] at hentry
    rw [List.getElem?_take_of_lt hk, List.getElem?_take_of_lt hk, hentry]
  · rw [List.getElem?_take, List.getElem?_take, if_neg hk, if_neg hk]

/-- The ways in which an operation changes the indices. New ones stay below the limit. -/
inductive Change (limit : Nat) (x : Indices) : Indices → Prop
  /-- An entry is put at its index, and whatever stood from there on is dropped. -/
  | put (e : Entry) (hcommit : x.commit < e.index) (hlast : e.index ≤ x.last + 1)
      (hbound : e.index < limit) :
      Change limit x { x with log := x.log.take (e.index - x.offset - 1) ++ [e] }
  | commit (c : Nat) (hcommit : x.commit ≤ c) (hlast : c ≤ x.last) :
      Change limit x { x with commit := c }
  | apply (happlied : x.applied < x.commit) : Change limit x { x with applied := x.applied + 1 }
  | compact (i : Nat) (hoffset : x.offset < i) (happlied : i ≤ x.applied) :
      Change limit x { x with log := x.log.drop (i - x.offset), offset := i, snapshot := i }
  | install (i : Nat) (hcommit : x.commit ≤ i) (hbound : i < limit) :
      Change limit x ⟨[], i, i, i, i⟩

def Changes (limit : Nat) : Indices → Indices → Prop := Relation.ReflTransGen (Change limit)

variable {limit : Nat} {x y : Indices}

theorem Change.ordered (hlimit : limit ≤ 2 ^ 64) (hordered : x.Ordered)
    (hchange : Change limit x y) : y.Ordered := by
  obtain ⟨hindexed, hoffset, happlied, hcommit, hlast⟩ := hordered
  simp only [last] at hcommit hlast
  cases hchange with
  | put e habove hnext hbound =>
      simp only [last] at hnext
      refine ⟨fun k x hx => ?_, hoffset, happlied, ?_, ?_⟩
      · rw [List.getElem?_append] at hx
        split at hx
        next hk =>
          rw [List.getElem?_take] at hx
          split at hx
          · exact hindexed k x hx
          · cases hx
        next hk =>
          rw [List.getElem?_singleton] at hx
          split at hx
          · cases hx
            rw [List.length_take] at *
            simp only
            omega
          · cases hx
      · simp only [last, List.length_append, List.length_take, List.length_singleton]
        omega
      · simp only [last, List.length_append, List.length_take, List.length_singleton]
        omega
  | commit c habove hle => exact ⟨hindexed, hoffset, happlied.trans habove, hle, hlast⟩
  | apply hbelow => exact ⟨hindexed, Nat.le_succ_of_le hoffset, hbelow, hcommit, hlast⟩
  | compact i habove hle =>
      refine ⟨fun k x hx => ?_, hle, happlied, ?_, ?_⟩
      · rw [List.getElem?_drop] at hx
        have := hindexed _ x hx
        simp only
        omega
      · simp only [last, List.length_drop]
        omega
      · simp only [last, List.length_drop]
        omega
  | install i habove hbound =>
      exact ⟨(fun k x hx => by cases hx), le_rfl, le_rfl, le_rfl, lt_of_lt_of_le hbound hlimit⟩

theorem Change.keeps (hordered : x.Ordered) (hchange : Change limit x y) : x.Keeps y := by
  obtain ⟨-, hoffset, happlied, hcommit, -⟩ := hordered
  simp only [last] at hcommit
  cases hchange with
  | put e habove hnext =>
      refine ⟨le_rfl, le_rfl, le_rfl, fun i hi hle => ?_⟩
      simp only [last] at hnext hi hle
      simp only [entryAt?]
      rw [List.getElem?_append_left (by rw [List.length_take]; omega), List.getElem?_take,
        if_pos (by omega)]
  | commit c habove => exact ⟨le_rfl, le_rfl, habove, fun _ _ _ => rfl⟩
  | apply => exact ⟨le_rfl, Nat.le_succ _, le_rfl, fun _ _ _ => rfl⟩
  | compact i habove hle =>
      refine ⟨habove.le, le_rfl, le_rfl, fun j hj _ => ?_⟩
      simp only at hj
      simp only [entryAt?, List.getElem?_drop]
      congr 1
      omega
  | install i habove =>
      refine ⟨hoffset.trans (happlied.trans habove), happlied.trans habove, habove,
        fun j hj hle => ?_⟩
      exact absurd hle (not_le.mpr (lt_of_le_of_lt habove hj))

theorem Change.last_lt (hordered : x.Ordered) (hlast : x.last < limit)
    (hchange : Change limit x y) : y.last < limit := by
  have hoffset := hordered.offset_le.trans hordered.applied_le
  have hcommit := hordered.commit_le
  have happlied := hordered.applied_le
  simp only [last] at hcommit hlast
  cases hchange with
  | put e habove hnext hbound =>
      simp only [last, List.length_append, List.length_take, List.length_singleton]
      omega
  | commit => exact hlast
  | apply => exact hlast
  | compact i habove hle =>
      simp only [last, List.length_drop]
      omega
  | install i habove hbound => exact hbound

theorem Changes.spec (hlimit : limit ≤ 2 ^ 64) (hordered : x.Ordered)
    (hchanges : Changes limit x y) :
    y.Ordered ∧ x.Keeps y ∧ (x.last < limit → y.last < limit) := by
  induction hchanges with
  | refl => exact ⟨hordered, .refl x, fun h => h⟩
  | tail _ hchange ih =>
      obtain ⟨hmid, hkeeps, hlast⟩ := ih
      exact ⟨hchange.ordered hlimit hmid, hkeeps.trans (hchange.keeps hmid),
        fun h => hchange.last_lt hmid (hlast h)⟩

/-- The last snapshot stays at the offset. -/
theorem Changes.snapshot_eq (hsnapshot : x.snapshot = x.offset) (hchanges : Changes limit x y) :
    y.snapshot = y.offset := by
  induction hchanges with
  | refl => exact hsnapshot
  | tail _ hchange ih =>
      cases hchange with
      | put => exact ih
      | commit => exact ih
      | apply => exact ih
      | compact => rfl
      | install => rfl

end Indices

namespace Raft

variable {D : Type}

def indices (r : Raft D) : Indices :=
  ⟨r.log, r.logOffset, r.lastSnapshotIndex, r.lastApplied, r.commitIndex⟩

/-! ## What leaves the indices alone -/

@[simp] theorem indices_arm (r : Raft D) (env : Env) : (r.arm env).indices = r.indices := rfl

@[simp] theorem indices_becomeFollower (r : Raft D) (term lead : Nat) :
    (r.becomeFollower term lead).indices = r.indices := by
  unfold becomeFollower
  split
  · rfl
  · dsimp only
    split <;> rfl

@[simp] theorem indices_recordVote (r : Raft D) (msg : Message D) :
    (r.recordVote msg).indices = r.indices := by
  unfold recordVote
  split <;> rfl

@[simp] theorem indices_recordPreVote (r : Raft D) (msg : Message D) :
    (r.recordPreVote msg).indices = r.indices := by
  unfold recordPreVote
  split <;> rfl

@[simp] theorem indices_noteReadAck (r : Raft D) (msg : Message D) :
    (r.noteReadAck msg).indices = r.indices := by
  unfold noteReadAck
  split <;> rfl

@[simp] theorem indices_finishReadIndex (r : Raft D) (read : ReadIndexToken) :
    (r.finishReadIndex read).indices = r.indices := by
  unfold finishReadIndex
  split <;> rfl

@[simp] theorem indices_prepareForLeaderRpc (r : Raft D) (msg : Message D) :
    (r.prepareForLeaderRpc msg).1.indices = r.indices := by
  have hraised : (if msg.term > r.term then r.becomeFollower msg.term msg.sender else r).indices =
      r.indices := by
    split <;> simp
  unfold prepareForLeaderRpc
  split
  · rfl
  · generalize (if msg.term > r.term then r.becomeFollower msg.term msg.sender else r) = raised at *
    dsimp only
    split
    · exact hraised
    · split
      · exact (indices_becomeFollower raised _ _).trans hraised
      · exact hraised

section

variable [Blob D]

@[simp] theorem indices_preCampaign (r : Raft D) : r.preCampaign.indices = r.indices := by
  unfold preCampaign
  split <;> rfl

@[simp] theorem indices_campaign (r : Raft D) : r.campaign.indices = r.indices := by
  unfold campaign
  split <;> rfl

@[simp] theorem indices_tick (r : Raft D) : r.tick.indices = r.indices := by
  unfold tick
  split
  · rfl
  · split
    · dsimp only
      split <;> rfl
    · dsimp only
      split
      · rw [indices_preCampaign]
        rfl
      · rfl

@[simp] theorem indices_handleRequestVote (r : Raft D) (msg : Message D) :
    (r.handleRequestVote msg).1.indices = r.indices := by
  have hraised : (if msg.term > r.term then r.becomeFollower msg.term 0 else r).indices =
      r.indices := by
    split <;> simp
  unfold handleRequestVote
  split
  · rfl
  · generalize (if msg.term > r.term then r.becomeFollower msg.term 0 else r) = raised at *
    dsimp only
    split
    · exact hraised
    · split <;> exact hraised

@[simp] theorem indices_handleRequestVoteResponse (r : Raft D) (msg : Message D) :
    (r.handleRequestVoteResponse msg).indices = r.indices := by
  unfold handleRequestVoteResponse
  dsimp only
  split_ifs
  · rfl
  · exact indices_becomeFollower r _ _
  · rfl
  · exact indices_recordVote r msg
  · exact indices_recordVote r msg

@[simp] theorem indices_handlePreVoteResponse (r : Raft D) (msg : Message D) :
    (r.handlePreVoteResponse msg).indices = r.indices := by
  unfold handlePreVoteResponse
  dsimp only
  split_ifs
  · rfl
  · exact indices_becomeFollower r _ _
  · rfl
  · rfl
  · exact (indices_campaign _).trans (indices_recordPreVote r msg)
  · exact indices_recordPreVote r msg

@[simp] theorem indices_handleInstallSnapshotResponse (r : Raft D) (msg : Message D) :
    (r.handleInstallSnapshotResponse msg).indices = r.indices := by
  unfold handleInstallSnapshotResponse
  split_ifs <;> first | rfl | simp

/-! ## What changes them -/

end

section Changes

open Indices (Ordered Change Changes)

variable {limit : Nat} {r : Raft D} {msg : Message D}

theorem lastLogIndex_of_ordered (hordered : r.indices.Ordered) :
    r.lastLogIndex = r.indices.last := wrap64_of_lt hordered.last_lt

/-- One iteration of the follower's loop. -/
theorem appendEntry_changes {next : Raft D} {e : Entry} (hlimit : limit ≤ 2 ^ 64)
    (hordered : r.indices.Ordered) (hlast : e.index ≤ r.indices.last + 1) (hbound : e.index < limit)
    (happend : r.appendEntry e.index e = some next) :
    Changes limit r.indices next.indices ∧ e.index ≤ next.indices.last := by
  have hoffset := hordered.offset_le.trans (hordered.applied_le.trans hordered.commit_le)
  have hcommit := hordered.commit_le
  unfold appendEntry at happend
  rw [lastLogIndex_of_ordered hordered] at happend
  split at happend
  next hbelow =>
    obtain rfl := Option.some.inj happend
    exact ⟨.refl, hbelow.trans hoffset⟩
  next habove =>
    split at happend
    next hwithin =>
      split at happend
      · split at happend
        · cases happend
        next hfree =>
          obtain rfl := Option.some.inj happend
          have hput := Change.put e (not_le.mp hfree) hlast hbound
          rw [logPosition_of_lt (not_le.mp habove) (by omega)]
          refine ⟨.single hput, ?_⟩
          simp only [Indices.last, indices] at hwithin ⊢
          simp only [saveEntry, List.length_append, List.length_take, List.length_singleton]
          omega
      · obtain rfl := Option.some.inj happend
        exact ⟨.refl, hwithin⟩
    next hbeyond =>
      obtain rfl := Option.some.inj happend
      have hput := Change.put e (by simp only [Indices.last] at *; omega) hlast hbound
      rw [List.take_of_length_le (by simp only [Indices.last] at *; omega)] at hput
      refine ⟨.single hput, ?_⟩
      simp only [Indices.last, indices, saveEntry, List.length_append, List.length_singleton] at *
      omega

theorem appendLoop_changes {prev i : Nat} {entries : List Entry} (hlimit : limit ≤ 2 ^ 64)
    (hordered : r.indices.Ordered) (hbound : ∀ e ∈ entries, e.index < limit)
    (hindexed : ∀ k e, entries[k]? = some e → e.index = wrap64 (prev + i + k + 1))
    (hlast : wrap64 (prev + i + 1) ≤ r.indices.last + 1) :
    Changes limit r.indices (r.appendLoop prev i entries).1.indices := by
  induction entries generalizing r i with
  | nil => exact .refl
  | cons e rest ih =>
      have hhead : e.index = wrap64 (prev + i + 1) := hindexed 0 e rfl
      rw [appendLoop, ← hhead]
      cases happend : r.appendEntry e.index e with
      | none => exact .refl
      | some next =>
          obtain ⟨hchanges, hreached⟩ :=
            appendEntry_changes hlimit hordered (hhead ▸ hlast) (hbound e List.mem_cons_self)
              happend
          refine hchanges.trans (ih (hchanges.spec hlimit hordered).1
            (fun x hx => hbound x (List.mem_cons_of_mem e hx)) (fun k x hx => ?_) ?_)
          · rw [hindexed (k + 1) x (by simpa using hx)]
            congr 1
            omega
          · have hnext : wrap64 (prev + (i + 1) + 1) ≤ wrap64 (prev + i + 1) + 1 := by
              unfold wrap64
              omega
            omega

theorem termAt_of_ordered {i : Nat} {e : Entry} (hordered : r.indices.Ordered)
    (hoffset : r.logOffset < i) (hentry : r.indices.entryAt? i = some e) : r.termAt i = e.term := by
  have hlast := lastLogIndex_of_ordered hordered
  have hbound := hordered.last_lt
  have hposition := (List.getElem?_eq_some_iff.mp hentry).1
  simp only [indices, Indices.last, Indices.entryAt?] at hlast hbound hposition hentry
  rw [termAt, if_neg (by omega), if_neg (by omega), if_neg (by omega), logEntry,
    logPosition_of_lt hoffset (by omega), List.getD_eq_getElem?_getD, hentry]
  rfl

/-- A message that disagrees with a committed entry is refused before anything is taken over. -/
theorem appendLoop_conflict {prev i k : Nat} {entries : List Entry} {e x : Entry}
    (hordered : r.indices.Ordered) (hk : entries[k]? = some e)
    (hoffset : r.logOffset < prev + i + k + 1) (hcommit : prev + i + k + 1 ≤ r.commitIndex)
    (hentry : r.indices.entryAt? (prev + i + k + 1) = some x) (hterm : x.term ≠ e.term) :
    r.appendLoop prev i entries = (r, false) := by
  have hlast : r.commitIndex ≤ r.lastLogIndex := by
    rw [lastLogIndex_of_ordered hordered]
    exact hordered.commit_le
  have hbound : r.lastLogIndex < 2 ^ 64 := wrap64_lt _
  induction entries generalizing i k with
  | nil => simp at hk
  | cons first rest ih =>
      rw [appendLoop, wrap64_of_lt (by omega), appendEntry]
      cases k with
      | zero =>
          cases hk
          have hat : r.termAt (prev + i + 1) ≠ e.term := by
            rw [termAt_of_ordered hordered hoffset hentry]
            exact hterm
          rw [if_neg (by omega), if_pos (by omega), if_pos hat, if_pos (by omega)]
      | succ k =>
          have hrest : r.appendLoop prev (i + 1) rest = (r, false) := by
            have hindex : prev + i + (k + 1) + 1 = prev + (i + 1) + k + 1 := by omega
            rw [hindex] at hoffset hcommit hentry
            exact ih (by simpa using hk) hoffset hcommit hentry
          split
          next hnone => rfl
          next next hsome =>
            have hsame : next = r := by
              split at hsome
              · exact (Option.some.inj hsome).symm
              · rw [if_pos (by omega)] at hsome
                split at hsome
                · rw [if_pos (by omega)] at hsome
                  cases hsome
                · exact (Option.some.inj hsome).symm
            rw [hsame, hrest]

theorem learnCommit_changes (hordered : r.indices.Ordered)
    (hcommit : msg.leaderCommit > r.commitIndex) :
    Changes limit r.indices (r.learnCommit msg).1.indices := by
  have hchange : Change limit r.indices _ := .commit (min msg.leaderCommit r.indices.last)
    (le_min hcommit.le hordered.commit_le) (min_le_right _ _)
  rw [← lastLogIndex_of_ordered hordered] at hchange
  exact .single hchange

theorem prev_le_of_ordered (hordered : r.indices.Ordered) (hlog : r.logOk msg = true) :
    msg.prevLogIndex ≤ r.indices.last := by
  unfold logOk at hlog
  rw [lastLogIndex_of_ordered hordered] at hlog
  split at hlog
  · omega
  · split at hlog
    next hwithin => exact hwithin.2
    · cases hlog

/-- The commit loop only looks at entries above the commit index. -/
theorem chooseCommit_changes (hordered : r.indices.Ordered) (hroom : r.indices.last + 1 < 2 ^ 64) :
    Changes limit r.indices r.chooseCommit.indices := by
  have hcommit := hordered.commit_le
  obtain ⟨c, heq, hc⟩ := advanceCommit_foldl r (List.range' (wrap64 (r.commitIndex + 1))
    (r.lastLogIndex + 1 - wrap64 (r.commitIndex + 1)))
  have hadvance : r.advanceCommit = { r with commitIndex := c } := heq
  have hbetween : r.commitIndex ≤ c ∧ c ≤ r.indices.last := by
    rcases hc with rfl | ⟨hmem, -⟩
    · exact ⟨le_rfl, hcommit⟩
    · rw [wrap64_of_lt (by simp only [indices] at hcommit hroom; omega),
        lastLogIndex_of_ordered hordered, List.mem_range'_1] at hmem
      omega
  have hchange : Change limit r.indices _ := .commit c hbetween.1 hbetween.2
  unfold chooseCommit
  rw [hadvance]
  split <;> exact .single hchange

theorem appendOwn_changes (hlimit : limit ≤ 2 ^ 64) (hordered : r.indices.Ordered)
    (hroom : r.indices.last + 1 < limit) (data : Bytes) :
    Changes limit r.indices (r.appendOwn (r.nextEntry data)).1.indices := by
  have hindex : (r.nextEntry data).index = r.indices.last + 1 := by
    show wrap64 (r.lastLogIndex + 1) = _
    rw [lastLogIndex_of_ordered hordered, wrap64_of_lt (by omega)]
  have hcommit := hordered.commit_le
  have hput : Change limit r.indices _ :=
    .put (r.nextEntry data) (by omega) hindex.le (by omega)
  rw [List.take_of_length_le (by simp only [hindex, Indices.last]; omega)] at hput
  unfold appendOwn
  split
  next synced ok heq =>
    obtain rfl : synced = _ := (congrArg Prod.fst heq).symm
    split
    · -- the failed append is undone
      simp only [indices, syncWal, saveEntry, List.dropLast_concat]
      exact .refl
    · exact .single hput

theorem advance_changes (hordered : r.indices.Ordered) (hroom : r.indices.last + 1 < 2 ^ 64)
    (index : Nat) : Changes limit r.indices (r.advance index).indices := by
  have happlied := hordered.applied_le.trans hordered.commit_le
  unfold advance
  split
  · exact .refl
  next hnext =>
    simp only [not_or, not_lt, not_not] at hnext
    obtain ⟨hcommit, rfl⟩ := hnext
    have hwrap : wrap64 (r.lastApplied + 1) = r.lastApplied + 1 := by
      refine wrap64_of_lt ?_
      simp only [indices] at happlied hroom
      omega
    rw [hwrap] at hcommit ⊢
    exact .single (.apply hcommit)

variable [Blob D]

theorem acceptEntries_changes (hlimit : limit ≤ 2 ^ 64) (hordered : r.indices.Ordered)
    (hindexed : ∀ k e, msg.entries[k]? = some e → e.index = wrap64 (msg.prevLogIndex + k + 1))
    (hbound : ∀ e ∈ msg.entries, e.index < limit) (hlog : r.logOk msg = true) :
    Changes limit r.indices (r.acceptEntries msg).1.indices := by
  have hprev := prev_le_of_ordered hordered hlog
  have hnext : wrap64 (msg.prevLogIndex + 0 + 1) ≤ r.indices.last + 1 :=
    (wrap64_le _).trans (by omega)
  refine acceptEntries_rule (P := fun mid => Changes limit r.indices mid.indices)
    (appendLoop_changes hlimit hordered hbound hindexed hnext) (fun _ hmid => hmid)
    fun mid hmid hcommit => ?_
  exact hmid.trans (learnCommit_changes (hmid.spec hlimit hordered).1 hcommit)

theorem handleAppendEntries_changes (hlimit : limit ≤ 2 ^ 64) (hordered : r.indices.Ordered)
    (hindexed : ∀ k e, msg.entries[k]? = some e → e.index = wrap64 (msg.prevLogIndex + k + 1))
    (hbound : ∀ e ∈ msg.entries, e.index < limit) :
    Changes limit r.indices (r.handleAppendEntries msg).1.indices := by
  have hsame := indices_prepareForLeaderRpc r msg
  unfold handleAppendEntries
  generalize r.prepareForLeaderRpc msg = prepared at *
  obtain ⟨prepared, ready⟩ := prepared
  dsimp only at hsame ⊢
  rw [← hsame] at hordered ⊢
  split
  · exact .refl
  · split
    · exact .refl
    next hlog => exact acceptEntries_changes hlimit hordered hindexed hbound (by simpa using hlog)

theorem handleAppendEntriesResponse_changes (hordered : r.indices.Ordered)
    (hroom : r.indices.last + 1 < 2 ^ 64) :
    Changes limit r.indices (r.handleAppendEntriesResponse msg).indices := by
  unfold handleAppendEntriesResponse
  split
  · exact .refl
  split
  · rw [indices_becomeFollower]
    exact .refl
  split
  · exact .refl
  split
  · exact .refl
  split
  · exact .refl
  split
  · have hsame : ((r.noteMatch msg).noteReadAck msg).indices = r.indices := by
      rw [indices_noteReadAck]
      rfl
    rw [← hsame] at hordered hroom ⊢
    exact chooseCommit_changes hordered hroom
  · dsimp only
    split <;> exact .refl

theorem propose_changes (hlimit : limit ≤ 2 ^ 64) (hordered : r.indices.Ordered)
    (hroom : r.indices.last + 1 < limit) (data : Bytes) :
    Changes limit r.indices (r.propose data).1.indices := by
  have hchanges := appendOwn_changes hlimit hordered hroom data
  unfold propose
  split
  · exact .refl
  · dsimp only
    split <;> exact hchanges

theorem readIndex_changes (hlimit : limit ≤ 2 ^ 64) (hordered : r.indices.Ordered)
    (hroom : r.indices.last + 1 < limit) :
    Changes limit r.indices r.readIndex.1.indices := by
  unfold readIndex
  split
  · exact .refl
  split
  · exact .refl
  dsimp only
  split
  · have hchanges := propose_changes (r := { r.startReadRound with
        pendingReadIndex := wrap64 (r.startReadRound.lastLogIndex + 1) }) hlimit hordered hroom []
    split
    next heq =>
      rw [indices_finishReadIndex]
      rw [heq] at hchanges
      exact hchanges
    next heq =>
      rw [heq] at hchanges
      exact hchanges
  · exact .refl

theorem takeSnapshot_changes (hordered : r.indices.Ordered) (index : Nat) (state : D) :
    Changes limit r.indices (r.takeSnapshot index state).indices := by
  have happlied := hordered.applied_le.trans hordered.commit_le
  unfold takeSnapshot
  split
  · exact .refl
  next hgood =>
    simp only [not_or, not_le, not_lt] at hgood
    obtain ⟨-, hoffset, hle⟩ := hgood
    dsimp only
    split
    · exact .refl
    · have hcompact : Change limit r.indices _ := .compact index hoffset hle
      have hlog : compactLog r.log index = r.log.drop (index - r.logOffset) :=
        compactLog_eq hordered.indexed hoffset (hle.trans happlied)
      simp only [indices, syncWal, saveSnapshot, hlog]
      exact .single hcompact

theorem handleInstallSnapshot_changes (hbound : msg.snapshotIndex < limit) :
    Changes limit r.indices (r.handleInstallSnapshot msg).1.indices := by
  have hsame := indices_prepareForLeaderRpc r msg
  unfold handleInstallSnapshot
  generalize r.prepareForLeaderRpc msg = prepared at *
  obtain ⟨prepared, ready⟩ := prepared
  dsimp only at hsame ⊢
  rw [← hsame]
  split
  · exact .refl
  split
  · exact .refl
  split
  · exact .refl
  next hfresh =>
    split
    · exact .refl
    · have hinstall : Change limit prepared.indices _ :=
        .install msg.snapshotIndex (by simp only [indices]; omega) hbound
      unfold installSnapshot
      dsimp only
      split
      · exact .refl
      · split <;> exact .single hinstall

/-- The indices an input brings in are below the limit. -/
def Below (limit : Nat) (r : Raft D) : Input D → Prop
  | .message msg => (msg.type = .appendEntries → ∀ e ∈ msg.entries, e.index < limit) ∧
      (msg.type = .installSnapshot → msg.snapshotIndex < limit)
  | .propose _ => r.indices.last + 1 < limit
  | .readIndex => r.indices.last + 1 < limit
  | _ => True

/-- Every operation changes the indices in these ways only, whatever a message contains and
whatever the storage does. -/
theorem step_changes {input : Input D} (hlimit : limit ≤ 2 ^ 64) (hordered : r.indices.Ordered)
    (hroom : r.indices.last + 1 < 2 ^ 64) (hwire : input.Wire) (hbelow : r.Below limit input) :
    Changes limit r.indices (r.step input).indices := by
  cases input with
  | tick =>
      rw [step, indices_tick]
      exact .refl
  | message msg =>
      simp only [step, handleMessage]
      obtain ⟨hentries, hsnapshot⟩ := hbelow
      split
      · have hsame : ((r.handleRequestVote msg).1.send (r.handleRequestVote msg).2).indices =
          r.indices := indices_handleRequestVote r msg
        rw [hsame]
        exact .refl
      · simpa using .refl
      · exact .refl
      · simpa using .refl
      next htype =>
        exact handleAppendEntries_changes hlimit hordered (Message.Wire.indexed hwire htype)
          (hentries htype)
      · exact handleAppendEntriesResponse_changes hordered hroom
      next htype => exact handleInstallSnapshot_changes (hsnapshot htype)
      · simpa using .refl
      · exact .refl
  | propose data => exact propose_changes hlimit hordered hbelow data
  | readIndex => exact readIndex_changes hlimit hordered hbelow
  | finishRead read =>
      rw [step, indices_finishReadIndex]
      exact .refl
  | advance index => exact advance_changes hordered hroom index
  | takeSnapshot index state => exact takeSnapshot_changes hordered index state

end Changes

end Raft

end RaftKv
