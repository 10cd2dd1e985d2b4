import RaftKv.Raft.Append
import RaftKv.Node.Indices
import RaftKv.Node.Oversize

/-! # What one AppendEntries does to a follower

The whole handler as a merge of the message into the log, and how far it moves the commit
index. The merge is that of the handler with the exception `append_record` throws for an
entry that does not fit.
-/

namespace RaftKv

variable {D : Type} [Blob D] {r : Raft D} {msg : Message D}

namespace Raft

/-- The reply and the log are those of a merge: the handler succeeds exactly on acceptable
messages, keeps the log up to the first carried entry that is not there, and otherwise
changes nothing. -/
structure Merges (r : Raft D) (msg : Message D) (next : Raft D) (reply : Message D) : Prop where
  success_iff : reply.success = true ↔ r.Acceptable msg
  matchIndex : reply.success = true → reply.matchIndex = msg.prevLogIndex + msg.entries.length
  logOffset : next.logOffset = r.logOffset
  unchanged : reply.success = true →
    (∀ k e, msg.entries[k]? = some e → r.indices.Covers (msg.prevLogIndex + k + 1) e.term) →
    next.log = r.log
  merged : reply.success = true → ∀ k e, msg.entries[k]? = some e →
    ¬ r.indices.Covers (msg.prevLogIndex + k + 1) e.term →
    (∀ j x, j < k → msg.entries[j]? = some x →
      r.indices.Covers (msg.prevLogIndex + j + 1) x.term) →
    next.log = r.log.take (msg.prevLogIndex + k - r.logOffset) ++ msg.entries.drop k
  refused : reply.success = false → next.log = r.log ∧ next.commitIndex = r.commitIndex

theorem merges_of_healthy (hordered : r.indices.Ordered) (hnumbered : msg.Numbered)
    (hhealthy : (r.handleAppendEntries msg).1.storageFailed = false) :
    Merges r msg (r.handleAppendEntries msg).1 (r.handleAppendEntries msg).2 := by
  have hsame := (prepareForLeaderRpc_sameLog r msg).1
  have hindices := indices_prepareForLeaderRpc r msg
  have hsuccess := handleAppendEntries_success_iff hordered hnumbered hhealthy
  rcases handleAppendEntries_cases hordered hnumbered with
    ⟨hno, heq⟩ | ⟨hyes, hok, ⟨mid, complete⟩, houtcome, hfinished⟩
  · rw [heq] at hsuccess ⊢
    exact ⟨hsuccess, fun h => (by cases h), hsame.logOffset, fun h => (by cases h),
      fun h => (by cases h), fun _ => ⟨hsame.log, hsame.commitIndex⟩⟩
  · refine ⟨hsuccess, fun h => ?_,
      hfinished.logOffset.trans (houtcome.frame.1.trans hsame.logOffset), fun h hall => ?_,
      fun h k e hk hnew hfirst => ?_, fun h => ?_⟩
    · rw [(hfinished.matchIndex h).2, wrap64_of_lt hnumbered.fits]
    · rw [hfinished.log, houtcome.eq_of_covers (hindices ▸ hall), hsame.log]
    · rw [hfinished.log, houtcome.log_of_first (hfinished.matchIndex h).1 hk (hindices ▸ hnew)
        (hindices ▸ hfirst), hsame.log, hsame.logOffset]
    · have hbroken : complete = false := by
        cases complete with
        | false => rfl
        | true => cases h.symm.trans (hfinished.healthy rfl hhealthy).1
      exact ⟨hfinished.log.trans ((houtcome.log_of_refused hbroken).trans hsame.log),
        (congrArg (fun result => result.1.commitIndex) (hfinished.broken hbroken)).trans
          (houtcome.frame.2.trans hsame.commitIndex)⟩

/-- For a message whose entries fit records of the log, the handler returns, and if the
storage does not fail what it returns is the merge. -/
theorem handleAppendEntries_merges (codec : Codec D) (hordered : r.indices.Ordered)
    (hnumbered : msg.Numbered)
    (hfits : ∀ e ∈ msg.entries, (codec.packEntry e).length ≤ kMaxRecordPayload) :
    ∃ next reply, r.tryHandleAppendEntries codec msg = .ok (next, reply) ∧
      (next.storageFailed = false → Merges r msg next reply) := by
  refine ⟨(r.handleAppendEntries msg).1, (r.handleAppendEntries msg).2, ?_,
    merges_of_healthy hordered hnumbered⟩
  refine (tryHandleAppendEntries_follows r msg).ok fun record hrecord => ?_
  obtain ⟨e, he, rfl⟩ := List.mem_map.mp hrecord
  exact hfits e he

end Raft

/-- Node 1 holds three entries of term 1 and knows none to be committed. -/
def trailingOne : Raft Bytes :=
  freshOne.actAll [(.calm, .message { fromTwo .appendEntries 1 with
    entries := [{ term := 1, index := 1 }, { term := 1, index := 2 }, { term := 1, index := 3 }] })]

theorem trailingOne_reach : Reach nodeOne Raft.InRange trailingOne :=
  (freshOne_reach _).actAll (by decide +kernel)

theorem trailingOne_ordered : trailingOne.indices.Ordered := trailingOne_reach.mirrors.sane.ordered

/-- Node 2, in term 2, agrees about the first entry only. -/
def repairFromTwo : Message Bytes :=
  { fromTwo .appendEntries 2 with
    prevLogIndex := 1, prevLogTerm := 1, entries := [{ term := 2, index := 2 }], leaderCommit := 2 }

theorem repairFromTwo_numbered : repairFromTwo.Numbered := by
  refine ⟨fun k e he => ?_, by decide⟩
  cases k with
  | zero => rw [← Option.some.inj he]; rfl
  | succ k => cases he

theorem handleAppendEntries_merges_repair :
    ∃ next reply,
      trailingOne.tryHandleAppendEntries msgpack.codec repairFromTwo = .ok (next, reply) ∧
      reply.success = true ∧ reply.matchIndex = 2 ∧
      next.log = trailingOne.log.take 1 ++ repairFromTwo.entries := by
  obtain ⟨next, reply, hreturns, hmerges⟩ := Raft.handleAppendEntries_merges msgpack.codec
    trailingOne_ordered repairFromTwo_numbered (by decide +kernel)
  have hplain : trailingOne.tryHandleAppendEntries msgpack.codec repairFromTwo =
      .ok (trailingOne.handleAppendEntries repairFromTwo) :=
    (Raft.tryHandleAppendEntries_follows trailingOne repairFromTwo).ok (by decide +kernel)
  obtain rfl : next = (trailingOne.handleAppendEntries repairFromTwo).1 :=
    congrArg Prod.fst (Except.ok.inj (hreturns.symm.trans hplain))
  obtain rfl : reply = (trailingOne.handleAppendEntries repairFromTwo).2 :=
    congrArg Prod.snd (Except.ok.inj (hreturns.symm.trans hplain))
  have hmerged := hmerges (by decide +kernel)
  have hsuccess : (trailingOne.handleAppendEntries repairFromTwo).2.success = true := by
    decide +kernel
  refine ⟨_, _, hreturns, hsuccess, hmerged.matchIndex hsuccess,
    hmerged.merged hsuccess 0 { term := 2, index := 2 } rfl ?_ fun j _ hj => by omega⟩
  rintro (hle | ⟨e, he, hterm⟩)
  · revert hle
    decide +kernel
  · have hentry : trailingOne.indices.entryAt? 2 = some { term := 1, index := 2 } := by
      decide +kernel
    rw [← Option.some.inj (hentry.symm.trans he)] at hterm
    cases hterm

/-- An entry is packed with all its data. -/
theorem data_length_lt_packEntry (e : Entry) :
    e.data.length < (msgpack.codec.packEntry e).length := by
  have hpack : msgpack.codec.packEntry e = packArray e.members := rfl
  rw [hpack]
  simp only [packArray, Entry.members, List.flatMap_cons, List.flatMap_nil, List.append_nil,
    List.length_append, Field.pack]
  have hhead : 0 < (binHead e.data.length).length := by
    unfold binHead
    split_ifs <;> exact Nat.zero_lt_succ _
  omega

/-- Node 2, leading term 1, sends the first entry. -/
def entryFromTwo (data : Bytes) : Message Bytes :=
  { fromTwo .appendEntries 1 with entries := [{ term := 1, index := 1, data := data }] }

theorem entryFromTwo_acceptable (data : Bytes) : freshOne.Acceptable (entryFromTwo data) := by
  have hstate : 2 ≠ freshOne.id ∧ freshOne.isMember 2 = true ∧ freshOne.term ≤ 1 ∧
      freshOne.commitIndex = 0 := by decide +kernel
  obtain ⟨hother, hmember, hterm, hcommit⟩ := hstate
  refine ⟨rfl, hother, hmember, hterm, .inl rfl, fun k e _ hcommitted => ?_⟩
  rw [hcommit] at hcommitted
  omega

theorem entryFromTwo_throws {data : Bytes} (hlong : kMaxRecordPayload ≤ data.length) :
    ∃ left, freshOne.tryHandleAppendEntries msgpack.codec (entryFromTwo data) = .error left ∧
      left.log = (entryFromTwo data).entries := by
  have hprepared : freshOne.prepareForLeaderRpc (entryFromTwo data) =
      freshOne.prepareForLeaderRpc (entryFromTwo []) := rfl
  have hstate : (freshOne.prepareForLeaderRpc (entryFromTwo [])).2 = true ∧
      (freshOne.prepareForLeaderRpc (entryFromTwo [])).1.logOffset = 0 ∧
      (freshOne.prepareForLeaderRpc (entryFromTwo [])).1.log = [] ∧
      (freshOne.prepareForLeaderRpc (entryFromTwo [])).1.lastLogIndex = 0 ∧
      (freshOne.prepareForLeaderRpc (entryFromTwo [])).1.wal.isSome = true := by
    decide +kernel
  obtain ⟨hready, hoffset, hlog, hlast, hwal⟩ := hstate
  have hpacked := data_length_lt_packEntry { term := 1, index := 1, data := data }
  unfold Raft.tryHandleAppendEntries
  rw [hprepared]
  generalize freshOne.prepareForLeaderRpc (entryFromTwo []) = prepared at *
  obtain ⟨q, ready⟩ := prepared
  obtain rfl : ready = true := hready
  dsimp only at hoffset hlog hlast hwal
  refine ⟨{ q with log := q.log ++ (entryFromTwo data).entries }, ?_, by simp [hlog]⟩
  have hentry : q.tryAppendEntry msgpack.codec 1 { term := 1, index := 1, data := data } =
      .error { q with log := q.log ++ (entryFromTwo data).entries } := by
    unfold Raft.tryAppendEntry
    rw [if_neg (by simp [hoffset]), if_neg (by simp [hlast]), Raft.trySaveEntry,
      if_pos ⟨hwal, hlong.trans_lt hpacked⟩]
    rfl
  have hloop : q.tryAppendLoop msgpack.codec 0 0 [{ term := 1, index := 1, data := data }] =
      .error { q with log := q.log ++ (entryFromTwo data).entries } := by
    have hindex : wrap64 (0 + 0 + 1) = 1 := rfl
    simp only [Raft.tryAppendLoop, hindex, hentry]
  change (q.tryAppendLoop msgpack.codec 0 0 [{ term := 1, index := 1, data := data }]).map
    (Raft.finishEntries (entryFromTwo data)) = _
  rw [hloop]
  rfl

/-- An acceptable message with an entry of 2^24 bytes: the handler throws, with the entry in
the log of the node and no reply. -/
theorem oversized_entry_throws :
    ∃ (r : Raft Bytes) (msg : Message Bytes) (left : Raft Bytes),
      Reach nodeOne Raft.InRange r ∧ r.indices.Ordered ∧ r.storageFailed = false ∧
      msg.Numbered ∧ r.Acceptable msg ∧
      r.tryHandleAppendEntries msgpack.codec msg = .error left ∧ left.log = msg.entries := by
  have hlong : kMaxRecordPayload ≤ (List.replicate (2 ^ 24) (0 : UInt8)).length := by
    rw [List.length_replicate]
    exact Nat.sub_le _ 1
  obtain ⟨left, hthrows, hlog⟩ := entryFromTwo_throws hlong
  refine ⟨freshOne, _, left, freshOne_reach _, (freshOne_reach _).mirrors.sane.ordered,
    by decide +kernel, ⟨fun k e he => ?_, by decide⟩, entryFromTwo_acceptable _, hthrows, hlog⟩
  cases k with
  | zero => rw [← Option.some.inj he]; rfl
  | succ k => cases he

/-! ## The commit index -/

namespace Raft

/-- If the message is accepted, then either the leader's commit index or the end of the log
lies within what it proves, or it brings a new entry, and the log then ends with the message. -/
def CommitVerified (r : Raft D) (msg : Message D) : Prop :=
  r.Acceptable msg →
    min msg.leaderCommit r.lastLogIndex ≤
        max r.commitIndex (msg.prevLogIndex + msg.entries.length) ∨
      ∃ k e, msg.entries[k]? = some e ∧ ¬ r.indices.Covers (msg.prevLogIndex + k + 1) e.term

/-- Under the condition the commit index stays within what the message proves, whatever the
storage does; and where the storage does not fail, only under it. -/
theorem handleAppendEntries_commit_verified (hordered : r.indices.Ordered)
    (hnumbered : msg.Numbered) :
    (r.CommitVerified msg → (r.handleAppendEntries msg).1.commitIndex ≤
      max r.commitIndex (msg.prevLogIndex + msg.entries.length)) ∧
    ((r.handleAppendEntries msg).1.storageFailed = false →
      ((r.handleAppendEntries msg).1.commitIndex ≤
        max r.commitIndex (msg.prevLogIndex + msg.entries.length) ↔ r.CommitVerified msg)) := by
  have hsame := (prepareForLeaderRpc_sameLog r msg).1
  have hindices := indices_prepareForLeaderRpc r msg
  have hsuccess := handleAppendEntries_success_iff hordered hnumbered
  have henough : r.CommitVerified msg → (r.handleAppendEntries msg).1.commitIndex ≤
      max r.commitIndex (msg.prevLogIndex + msg.entries.length) := by
    intro hverified
    rcases handleAppendEntries_cases hordered hnumbered with
      ⟨-, heq⟩ | ⟨hready, hok, ⟨mid, complete⟩, houtcome, hfinished⟩
    · rw [heq]
      exact hsame.commitIndex ▸ le_max_left _ _
    have hcommit : mid.commitIndex = r.commitIndex := houtcome.frame.2.trans hsame.commitIndex
    rcases hfinished.commit with heq | ⟨hcomplete, -, heq⟩
    · exact heq.trans hcommit ▸ le_max_left _ _
    rw [heq]
    have hacceptable := acceptable_of_complete hready hok houtcome hcomplete
    by_cases hall : ∀ k e, msg.entries[k]? = some e →
        r.indices.Covers (msg.prevLogIndex + k + 1) e.term
    · -- nothing is new, so the log is the old one
      have hlast : mid.lastLogIndex = r.lastLogIndex :=
        (congrArg lastLogIndex (houtcome.eq_of_covers (hindices ▸ hall))).trans hsame.lastLogIndex
      rw [hlast]
      rcases hverified hacceptable with hmin | ⟨k, e, hk, hnew⟩
      · exact hmin
      · exact absurd (hall k e hk) hnew
    · push Not at hall
      obtain ⟨k, e, hk, hnew⟩ := hall
      have hlast := houtcome.last_of_new hcomplete
        (hindices ▸ prev_le_of_ordered hordered hok) hk (hindices ▸ hnew)
      have hend : mid.lastLogIndex = msg.prevLogIndex + msg.entries.length :=
        (congrArg wrap64 hlast).trans (wrap64_of_lt hnumbered.fits)
      rw [hend]
      exact (min_le_right _ _).trans (le_max_right _ _)
  refine ⟨henough, fun hhealthy => ⟨fun hle hacceptable => ?_, henough⟩⟩
  have hyes := (hsuccess hhealthy).mpr hacceptable
  rcases handleAppendEntries_cases hordered hnumbered with
    ⟨-, heq⟩ | ⟨-, -, ⟨mid, complete⟩, houtcome, hfinished⟩
  · rw [heq] at hyes
    cases hyes
  by_cases hall : ∀ k e, msg.entries[k]? = some e →
      r.indices.Covers (msg.prevLogIndex + k + 1) e.term
  · have hlast : mid.lastLogIndex = r.lastLogIndex :=
      (congrArg lastLogIndex (houtcome.eq_of_covers (hindices ▸ hall))).trans hsame.lastLogIndex
    have hcommit : mid.commitIndex = r.commitIndex := houtcome.frame.2.trans hsame.commitIndex
    rw [(hfinished.healthy (hfinished.matchIndex hyes).1 hhealthy).2, hlast, hcommit] at hle
    split at hle
    next => exact .inl hle
    next hold => exact .inl (by omega)
  · push Not at hall
    exact .inr hall

end Raft

theorem handleAppendEntries_commit_verified_repair :
    (trailingOne.handleAppendEntries repairFromTwo).1.commitIndex ≤ 2 := by
  refine (Raft.handleAppendEntries_commit_verified trailingOne_ordered repairFromTwo_numbered).1
    fun _ => .inl ?_
  decide +kernel

/-- A message that proves one entry commits all three: the two later ones are an old suffix that
the sender may not hold. -/
theorem stale_suffix_committed :
    ∃ (r : Raft Bytes) (msg : Message Bytes), Reach nodeOne Raft.InRange r ∧ r.indices.Ordered ∧
      msg.Numbered ∧ msg.type = .appendEntries ∧ r.isMember msg.sender = true ∧
      r.term ≤ msg.term ∧ max r.commitIndex (msg.prevLogIndex + msg.entries.length) = 1 ∧
      (r.handleAppendEntries msg).2.success = true ∧
      (r.handleAppendEntries msg).1.commitIndex = 3 := by
  refine ⟨trailingOne, { fromTwo .appendEntries 2 with
    prevLogIndex := 1, prevLogTerm := 1, leaderCommit := 3 }, trailingOne_reach,
    trailingOne_ordered, ⟨fun k e he => (by cases he), by decide⟩, rfl, ?_⟩
  decide +kernel

end RaftKv
