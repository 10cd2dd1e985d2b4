import RaftKv.Cluster.Copying
import RaftKv.Cluster.Stream
import RaftKv.Cluster.Trace

/-! # Replication in any order

Copies of one log absorb each other. With the order in a leader's stream this makes it
irrelevant whether an earlier message of the stream is handled before a later one, after it
or not at all.
-/

namespace RaftKv

open TermLog

variable {setup : Setup} {a a' : Sys Nat Entry} {i : Nat} {r next : Raft Capture}
  {msg : Message Capture}

namespace Raft

/-! ## Two messages of a stream -/

section Pair

variable {earlier later : Message Capture}

/-- A message whose beginning the follower has, by what it got earlier or acknowledged. -/
theorem Copies.preceding_of_earlier (hcopies : r.Copies setup a i) (hholding : Holding a)
    (hhealthy : r.storageFailed = false) (hstream : earlier.SameStream later)
    (hsucceeds : earlier.Succeeds a later) (hreceiver : later.receiver = i)
    (hterm : r.term ≤ later.term) (hpre : earlier.preceding a <+: r.log) :
    later.preceding a <+: r.log := by
  rcases hsucceeds.start with hle | hack
  · refine List.IsPrefix.trans ?_ hpre
    rw [Message.preceding, Message.preceding, hstream.term]
    exact List.take_prefix_take_left hle
  · obtain ⟨w, hrun⟩ := hcopies.sim.stores.running hcopies.inv hcopies.sim.mirrors hhealthy
      hcopies.sim.id
    rw [hreceiver] at hack
    rcases Nat.eq_or_lt_of_le hterm with heq | hlt
    · rw [← heq, ← hrun.term] at hack
      have hheld := hholding i _ hack
      rwa [hrun.log, hcopies.history_eq, hrun.term, heq] at hheld
    · -- it cannot have acknowledged anything in a term it has not reached
      rw [hcopies.inv.ack_eq_zero (hrun.term.trans_lt hlt)] at hack
      rw [Message.preceding, Nat.le_zero.mp hack]
      exact List.nil_prefix

theorem Copies.rejects_eq {b : Sys Nat Entry} (hcopies : r.Copies setup a i)
    (hnext : next.Copies setup b i) (hsender : msg.sender = later.sender)
    (hreceiver : msg.receiver = later.receiver) : next.rejects msg = r.rejects later := by
  unfold rejects isMember
  rw [hsender, hreceiver, hcopies.sim.id, hnext.sim.id, hcopies.sim.peers, hnext.sim.peers]

theorem Copied.grow (hgrow : Grows a a') (hhonest : msg.Honest setup a)
    (htype : msg.type = .appendEntries) (hcopied : Copied a' msg r next) : Copied a msg r next := by
  obtain ⟨heq, heq'⟩ := hhonest.copied_grow hgrow htype
  refine ⟨hcopied.term, hcopied.offset, ?_, ?_⟩
  · rw [← heq, ← heq']
    exact hcopied.accepted
  · rw [← heq']
    exact hcopied.refused

theorem replicated_eq {s : Raft Capture} (hlog : r.log = s.log)
    (hcommit : r.commitIndex = s.commitIndex) (hterm : r.term = s.term) :
    r.replicated = s.replicated := by
  rw [replicated, replicated, hlog, hcommit, hterm]

/-- How two messages of a stream compare, for a follower with this log. -/
structure Follow (a : Sys Nat Entry) (log : List Entry) (earlier later : Message Capture) :
    Prop where
  term : earlier.term = later.term
  copied : earlier.copied a <+: later.copied a
  commit : earlier.leaderCommit ≤ later.leaderCommit
  start : earlier.preceding a <+: log → later.preceding a <+: log

theorem Message.preceding_isPrefix_copied (a : Sys Nat Entry) (msg : Message Capture) :
    msg.preceding a <+: msg.copied a :=
  List.take_prefix_take_left (Nat.le_add_right _ _)

/-- A later message makes up for an earlier one. -/
theorem Copied.later_after {r₁ r₁₂ r₂ : Raft Capture} (hfollow : Follow a r.log earlier later)
    (h₁ : Copied a earlier r r₁) (h₁₂ : Copied a later r₁ r₁₂) (h₂ : Copied a later r r₂) :
    r₁₂.replicated = r₂.replicated := by
  have hterm := h₁₂.term.trans h₂.term.symm
  have hcommit := hfollow.commit
  by_cases hearlier : earlier.preceding a <+: r.log
  · have hlater := hfollow.start hearlier
    obtain ⟨hlog₁, hcommit₁⟩ := h₁.accepted hearlier
    obtain ⟨hlog₂, hcommit₂⟩ := h₂.accepted hlater
    have hstill : later.preceding a <+: r₁.log := by
      rw [hlog₁]
      refine isPrefix_overwrite_of_isPrefix hlater (Message.preceding_isPrefix_copied a later) ?_
      exact hfollow.copied
    obtain ⟨hlog₁₂, hcommit₁₂⟩ := h₁₂.accepted hstill
    refine replicated_eq ?_ ?_ hterm
    · rw [hlog₁₂, hlog₁, hlog₂, overwrite_overwrite_of_isPrefix hfollow.copied]
    · rw [hcommit₁₂, hcommit₁, hcommit₂]
      omega
  · obtain ⟨hlog₁, hcommit₁⟩ := h₁.refused hearlier
    by_cases hlater : later.preceding a <+: r.log
    · obtain ⟨hlog₁₂, hcommit₁₂⟩ := h₁₂.accepted (hlog₁ ▸ hlater)
      obtain ⟨hlog₂, hcommit₂⟩ := h₂.accepted hlater
      exact replicated_eq (by rw [hlog₁₂, hlog₁, hlog₂]) (by rw [hcommit₁₂, hcommit₁, hcommit₂])
        hterm
    · obtain ⟨hlog₁₂, hcommit₁₂⟩ := h₁₂.refused (hlog₁ ▸ hlater)
      obtain ⟨hlog₂, hcommit₂⟩ := h₂.refused hlater
      exact replicated_eq (by rw [hlog₁₂, hlog₁, hlog₂]) (by rw [hcommit₁₂, hcommit₁, hcommit₂])
        hterm

/-- An earlier message changes nothing after a later one. -/
theorem Copied.earlier_after {r₂ r₂₁ : Raft Capture} (hfollow : Follow a r.log earlier later)
    (h₂ : Copied a later r r₂) (h₂₁ : Copied a earlier r₂ r₂₁) :
    r₂₁.replicated = r₂.replicated := by
  have hterm : r₂₁.term = r₂.term := h₂₁.term.trans (hfollow.term.trans h₂.term.symm)
  have hcommit := hfollow.commit
  by_cases hlater : later.preceding a <+: r.log
  · obtain ⟨hlog₂, hcommit₂⟩ := h₂.accepted hlater
    have hstill : earlier.preceding a <+: r₂.log := by
      rw [hlog₂]
      exact (Message.preceding_isPrefix_copied a earlier).trans
        (hfollow.copied.trans (isPrefix_overwrite _ _))
    obtain ⟨hlog₂₁, hcommit₂₁⟩ := h₂₁.accepted hstill
    refine replicated_eq ?_ ?_ hterm
    · rw [hlog₂₁, hlog₂, overwrite_overwrite_self hfollow.copied]
    · rw [hcommit₂₁, hcommit₂]
      omega
  · obtain ⟨hlog₂, hcommit₂⟩ := h₂.refused hlater
    have hearlier : ¬ earlier.preceding a <+: r₂.log :=
      hlog₂ ▸ fun h => hlater (hfollow.start h)
    obtain ⟨hlog₂₁, hcommit₂₁⟩ := h₂₁.refused hearlier
    exact replicated_eq hlog₂₁ hcommit₂₁ hterm

theorem Absorbs.copied_of (habsorbs : Absorbs a msg r next) (hrejects : r.rejects msg = false)
    (hterm : r.term ≤ msg.term) : Copied a msg r next := by
  cases habsorbs with
  | ignored hignored =>
      rcases hignored with h | h
      · cases hrejects.symm.trans h
      · omega
  | copied _ _ hcopied => exact hcopied

theorem Absorbs.same_of (habsorbs : Absorbs a msg r next)
    (hignored : r.rejects msg = true ∨ msg.term < r.term) : next.replicated = r.replicated := by
  cases habsorbs with
  | ignored _ hsame => exact hsame
  | copied hrejects hterm =>
      rcases hignored with h | h
      · cases hrejects.symm.trans h
      · omega

theorem Copies.follow (hcopies : r.Copies setup a i) (hholding : Holding a)
    (hhealthy : r.storageFailed = false) (hstream : earlier.SameStream later)
    (hsucceeds : earlier.Succeeds a later) (hreceiver : later.receiver = i)
    (hterm : r.term ≤ later.term) : Follow a r.log earlier later where
  term := hstream.term
  copied := by
    rw [Message.copied, Message.copied, hstream.term]
    exact List.take_prefix_take_left hsucceeds.reach
  commit := hsucceeds.commit
  start := hcopies.preceding_of_earlier hholding hhealthy hstream hsucceeds hreceiver hterm

/-- Whether an earlier message of a stream is handled before a later one, after it or not at
all, and the later one once or twice: the follower ends up with the same. -/
theorem Copies.stream_order {r₁ r₁₂ r₂ r₂₁ r₂₂ : Raft Capture} (hmember : i ∈ setup.members)
    (hcopies : r.Copies setup a i) (hholding : Holding a) (hearlier : earlier.Honest setup a)
    (hlater : later.Honest setup a) (hstream : earlier.SameStream later)
    (hsucceeds : earlier.Succeeds a later) (hreceiver : later.receiver = i)
    (h₁ : r.Handles earlier r₁) (h₁₂ : r₁.Handles later r₁₂) (h₂ : r.Handles later r₂)
    (h₂₁ : r₂.Handles earlier r₂₁) (h₂₂ : r₂.Handles later r₂₂) :
    r₁₂.replicated = r₂.replicated ∧ r₂₁.replicated = r₂.replicated ∧
      r₂₂.replicated = r₂.replicated := by
  cases hhealthy : r.storageFailed with
  | true =>
      obtain rfl := h₁.eq_of_failed hhealthy
      obtain rfl := h₂.eq_of_failed hhealthy
      rw [h₁₂.eq_of_failed hhealthy, h₂₁.eq_of_failed hhealthy, h₂₂.eq_of_failed hhealthy]
      exact ⟨rfl, rfl, rfl⟩
  | false =>
      obtain ⟨habsorbs₁, hhealthy₁, a₁, hgrow₁, hcopies₁⟩ :=
        hcopies.handles hmember hearlier hstream.appends hhealthy h₁
      obtain ⟨habsorbs₂, hhealthy₂, a₂, hgrow₂, hcopies₂⟩ :=
        hcopies.handles hmember hlater hstream.appends' hhealthy h₂
      have habsorbs₁₂ := (hcopies₁.handles hmember (hlater.grow hgrow₁) hstream.appends' hhealthy₁
        h₁₂).1
      have habsorbs₂₁ := (hcopies₂.handles hmember (hearlier.grow hgrow₂) hstream.appends hhealthy₂
        h₂₁).1
      have habsorbs₂₂ := (hcopies₂.handles hmember (hlater.grow hgrow₂) hstream.appends' hhealthy₂
        h₂₂).1
      -- all of them are refused for their addresses or their term, or none is
      have hrejects : r.rejects earlier = r.rejects later :=
        hcopies.rejects_eq hcopies hstream.sender hstream.receiver
      have hrejects₁₂ : r₁.rejects later = r.rejects later := hcopies.rejects_eq hcopies₁ rfl rfl
      have hrejects₂₁ : r₂.rejects earlier = r.rejects later :=
        hcopies.rejects_eq hcopies₂ hstream.sender hstream.receiver
      have hrejects₂₂ : r₂.rejects later = r.rejects later := hcopies.rejects_eq hcopies₂ rfl rfl
      by_cases hignored : r.rejects later = true ∨ later.term < r.term
      · have hsame₁ := habsorbs₁.same_of (by rwa [hrejects, hstream.term])
        have hsame₂ := habsorbs₂.same_of hignored
        have hterm₁ : r₁.term = r.term := congrArg (fun x => x.2.2) hsame₁
        have hterm₂ : r₂.term = r.term := congrArg (fun x => x.2.2) hsame₂
        refine ⟨?_, ?_, ?_⟩
        · rw [habsorbs₁₂.same_of (by rwa [hrejects₁₂, hterm₁]), hsame₁, hsame₂]
        · exact habsorbs₂₁.same_of (by rwa [hrejects₂₁, hstream.term, hterm₂])
        · exact habsorbs₂₂.same_of (by rwa [hrejects₂₂, hterm₂])
      · push Not at hignored
        obtain ⟨haccepts, hterm⟩ := hignored
        rw [ne_eq, Bool.not_eq_true] at haccepts
        have hcopied₁ := habsorbs₁.copied_of (hrejects.trans haccepts) (hstream.term ▸ hterm)
        have hcopied₂ := habsorbs₂.copied_of haccepts hterm
        have hterm₁ : r₁.term = later.term := hcopied₁.term.trans hstream.term
        have hcopied₁₂ := (habsorbs₁₂.copied_of (hrejects₁₂.trans haccepts) hterm₁.le).grow hgrow₁
          hlater hstream.appends'
        have hcopied₂₁ := (habsorbs₂₁.copied_of (hrejects₂₁.trans haccepts)
          (hcopied₂.term.trans hstream.term.symm).le).grow hgrow₂ hearlier hstream.appends
        have hcopied₂₂ := (habsorbs₂₂.copied_of (hrejects₂₂.trans haccepts) hcopied₂.term.le).grow
          hgrow₂ hlater hstream.appends'
        have hfollow := hcopies.follow hholding hhealthy hstream hsucceeds hreceiver hterm
        have hself : Follow a r.log later later := ⟨rfl, List.prefix_rfl, le_rfl, fun h => h⟩
        exact ⟨hcopied₁.later_after hfollow hcopied₁₂ hcopied₂,
          hcopied₂.earlier_after hfollow hcopied₂₁, hcopied₂.earlier_after hself hcopied₂₂⟩

end Pair

end Raft

/-! ## The cluster -/

/-- Dropping, repeating or swapping the replication of one leader is invisible. In every
reachable state without snapshots, for two messages of a leader to a member in one term, the
one sent earlier and the other later: handling both in order, only the later one, both in
the opposite order or the later one twice leaves the member with the same log, commit index
and term. -/
theorem replication_order_irrelevant {c : Cluster} {past : List Cluster}
    (hno : ∀ i ∈ setup.members, setup.snapshotThreshold i = 0)
    (hrun : Run setup Anything (c :: past)) (hi : i ∈ setup.members)
    {j k : Nat} {earlier later : Message Capture} (hj : c.net[j]? = some earlier)
    (hk : c.net[k]? = some later) (hjk : j < k) (hstream : earlier.SameStream later)
    (hreceiver : later.receiver = i) {r₁ r₁₂ r₂ r₂₁ r₂₂ : Raft Capture}
    (h₁ : (c.node i).Handles earlier r₁) (h₁₂ : r₁.Handles later r₁₂)
    (h₂ : (c.node i).Handles later r₂) (h₂₁ : r₂.Handles earlier r₂₁)
    (h₂₂ : r₂.Handles later r₂₂) :
    (r₁₂.log, r₁₂.commitIndex, r₁₂.term) = (r₂.log, r₂.commitIndex, r₂.term) ∧
      (r₂₁.log, r₂₁.commitIndex, r₂₁.term) = (r₂.log, r₂.commitIndex, r₂.term) ∧
      (r₂₂.log, r₂₂.commitIndex, r₂₂.term) = (r₂.log, r₂.commitIndex, r₂.term) := by
  obtain ⟨hsafe, hwhole⟩ := hrun.whole hno
  obtain ⟨a, hstreaming⟩ := hsafe.streaming
  have hrefines := hstreaming.refines
  have hcopies : (c.node i).Copies setup a i :=
    ⟨hrefines.inv, hrefines.node i hi, ((hwhole c List.mem_cons_self).node i hi).memory⟩
  obtain ⟨hlt, rfl⟩ := List.getElem?_eq_some_iff.mp hj
  obtain ⟨hlt', rfl⟩ := List.getElem?_eq_some_iff.mp hk
  have hsucceeds := List.pairwise_iff_getElem.mp hstreaming.order j k hlt hlt' hjk hstream
  exact hcopies.stream_order hi hstreaming.holding (hrefines.net _ (List.getElem_mem hlt))
    (hrefines.net _ (List.getElem_mem hlt')) hstream hsucceeds hreceiver h₁ h₁₂ h₂ h₂₁ h₂₂

/-- Node 1 leads and replicates an entry, and after the answer of node 2 another one. -/
def proposesTwice : List (Cluster → Action) :=
  electsOne ++ [Cluster.propose 1 [1], Cluster.deliver 8, Cluster.deliver 10, Cluster.propose 1 [2]]

theorem proposedTwice_records :
    (Cluster.record (trio 0) Anything [] (Cluster.fresh 0) proposesTwice).isSome := by
  decide +kernel

def proposedTwice : List Event × Cluster :=
  (Cluster.record (trio 0) Anything [] (Cluster.fresh 0) proposesTwice).get proposedTwice_records

theorem proposedTwice_trace : Trace (trio 0) Anything proposedTwice.1 proposedTwice.2 :=
  Trace.record (.start _ (Cluster.fresh_initial 0)) (Option.some_get proposedTwice_records).symm

/-- The replication of the first and of the second entry to node 2. -/
def firstAppend : Message Capture := (proposedTwice.2.net[8]?).getD Message.default

def secondAppend : Message Capture := (proposedTwice.2.net[11]?).getD Message.default

theorem firstAppend_stream : firstAppend.SameStream secondAppend := by
  constructor <;> decide +kernel

/-- Node 2 after these messages. -/
def nodeTwoAfter (msgs : List (Message Capture)) : Raft Capture :=
  msgs.foldl (fun r msg => (r.act .calm (.message msg)).1) (proposedTwice.2.node 2)

theorem replication_order_irrelevant_proposedTwice :
    firstAppend.prevLogIndex = 0 ∧ secondAppend.prevLogIndex = 1 ∧
      (nodeTwoAfter [secondAppend]).log.length = 2 ∧
      (nodeTwoAfter [secondAppend]).commitIndex = 1 ∧
      (nodeTwoAfter [secondAppend, firstAppend]).log = (nodeTwoAfter [secondAppend]).log := by
  have hfirst : proposedTwice.2.net[8]? = some firstAppend := by decide +kernel
  have hsecond : proposedTwice.2.net[11]? = some secondAppend := by decide +kernel
  have h₁ : (proposedTwice.2.node 2).Handles firstAppend (nodeTwoAfter [firstAppend]) :=
    ⟨.calm, rfl, by decide +kernel⟩
  have h₁₂ : (nodeTwoAfter [firstAppend]).Handles secondAppend
      (nodeTwoAfter [firstAppend, secondAppend]) := ⟨.calm, rfl, by decide +kernel⟩
  have h₂ : (proposedTwice.2.node 2).Handles secondAppend (nodeTwoAfter [secondAppend]) :=
    ⟨.calm, rfl, by decide +kernel⟩
  have h₂₁ : (nodeTwoAfter [secondAppend]).Handles firstAppend
      (nodeTwoAfter [secondAppend, firstAppend]) := ⟨.calm, rfl, by decide +kernel⟩
  have h₂₂ : (nodeTwoAfter [secondAppend]).Handles secondAppend
      (nodeTwoAfter [secondAppend, secondAppend]) := ⟨.calm, rfl, by decide +kernel⟩
  have horder := @replication_order_irrelevant (trio 0) 2 _ _ (fun _ _ => rfl)
    proposedTwice_trace.run (by decide) 8 11 _ _ hfirst hsecond (by decide) firstAppend_stream
    (by decide +kernel) _ _ _ _ _ h₁ h₁₂ h₂ h₂₁ h₂₂
  exact ⟨by decide +kernel, by decide +kernel, by decide +kernel, by decide +kernel,
    (Prod.mk.inj horder.2.1).1⟩

end RaftKv
