import RaftKv.Cluster.Simulation
import RaftKv.Node.Indices
import RaftKv.Raft.Append
import RaftKv.TermLog.Copy

/-! # Replication as copying

On a log that was never compacted, handling a replication message copies a prefix of the
leader's log, if the follower has it up to where the message starts, and otherwise leaves
the log alone.
-/

namespace RaftKv

open TermLog

variable {setup : Setup} {a a' : Sys Nat Entry} {i : Nat} {r next : Raft Capture}
  {msg : Message Capture}

theorem getElem?_of_isPrefix {l l' : List Entry} (hpre : l <+: l') {k : Nat} {x : Entry}
    (hx : l[k]? = some x) : l'[k]? = some x := by
  obtain ⟨hlt, rfl⟩ := List.getElem?_eq_some_iff.mp hx
  exact List.prefix_iff_getElem?.mp hpre k hlt

/-- The log of the leader as far as a replication message goes. -/
def Message.copied (a : Sys Nat Entry) (msg : Message Capture) : List Entry :=
  (a.termLog msg.term).take (msg.prevLogIndex + msg.entries.length)

/-- The log of the leader up to where a replication message starts. -/
def Message.preceding (a : Sys Nat Entry) (msg : Message Capture) : List Entry :=
  (a.termLog msg.term).take msg.prevLogIndex

namespace Message.Honest

theorem length_le (hhonest : msg.Honest setup a) (htype : msg.type = .appendEntries) :
    msg.prevLogIndex + msg.entries.length ≤ (a.termLog msg.term).length := by
  obtain ⟨before, hlen, -, hpre, -⟩ := hhonest.entries htype
  rw [← hlen, ← List.length_append]
  exact hpre.length_le

theorem copied_eq (hhonest : msg.Honest setup a) (htype : msg.type = .appendEntries) :
    msg.copied a = msg.preceding a ++ msg.entries := by
  obtain ⟨before, hlen, -, hpre, -⟩ := hhonest.entries htype
  have hbefore : msg.preceding a = before := by
    rw [Message.preceding, ← hlen]
    exact (List.prefix_iff_eq_take.mp ((List.prefix_append _ _).trans hpre)).symm
  rw [hbefore, Message.copied, ← hlen, ← List.length_append]
  exact (List.prefix_iff_eq_take.mp hpre).symm

theorem length_preceding (hhonest : msg.Honest setup a) (htype : msg.type = .appendEntries) :
    (msg.preceding a).length = msg.prevLogIndex := by
  have hle := hhonest.length_le htype
  rw [Message.preceding, List.length_take]
  omega

theorem length_copied (hhonest : msg.Honest setup a) (htype : msg.type = .appendEntries) :
    (msg.copied a).length = msg.prevLogIndex + msg.entries.length := by
  rw [hhonest.copied_eq htype, List.length_append, hhonest.length_preceding htype]

theorem getElem?_copied (hhonest : msg.Honest setup a) (htype : msg.type = .appendEntries)
    {j : Nat} {x : Entry} (hx : msg.entries[j]? = some x) :
    (msg.copied a)[msg.prevLogIndex + j]? = some x := by
  have hlen := hhonest.length_preceding htype
  rw [hhonest.copied_eq htype, List.getElem?_append_right (by omega), hlen,
    Nat.add_sub_cancel_left, hx]

theorem copied_grow (hgrow : Grows a a') (hhonest : msg.Honest setup a)
    (htype : msg.type = .appendEntries) :
    msg.copied a' = msg.copied a ∧ msg.preceding a' = msg.preceding a := by
  have hle := hhonest.length_le htype
  exact ⟨hgrow.termLog_take hle, hgrow.termLog_take (by omega)⟩

theorem prevLogTerm_eq (hhonest : msg.Honest setup a) (htype : msg.type = .appendEntries) :
    msg.prevLogTerm = setup.protocol.lastStamp (msg.preceding a) := by
  obtain ⟨before, hlen, hterm, hpre, -⟩ := hhonest.entries htype
  rw [hterm, Message.preceding, ← hlen,
    ← List.prefix_iff_eq_take.mp ((List.prefix_append _ _).trans hpre)]

theorem leaderCommit_le (hhonest : msg.Honest setup a) (htype : msg.type = .appendEntries) :
    msg.leaderCommit ≤ msg.prevLogIndex + msg.entries.length := by
  obtain ⟨before, hlen, -, -, hle, -⟩ := hhonest.entries htype
  rwa [List.length_append, hlen] at hle

theorem numbered (hhonest : msg.Honest setup a) (htype : msg.type = .appendEntries) :
    msg.Numbered where
  indexed := hhonest.inRange.indexed htype
  fits := by
    have := hhonest.inRange.entries htype
    omega

end Message.Honest

namespace Raft

/-! ## One message -/

/-- A follower whose log is whole, in a state of the abstract system. -/
structure Copies (setup : Setup) (a : Sys Nat Entry) (i : Nat) (r : Raft Capture) : Prop where
  inv : setup.protocol.Inv a
  sim : r.Simulated setup a i
  offset : r.logOffset = 0

namespace Copies

theorem grounded (hcopies : r.Copies setup a i) : r.durable.Grounded setup a :=
  hcopies.sim.stores.memory

theorem history_eq (hcopies : r.Copies setup a i) : r.history = r.log := by
  have hnone : r.lastSnapshotData.entries = [] :=
    List.eq_nil_of_length_eq_zero (hcopies.grounded.covered.trans hcopies.offset)
  rw [Raft.history, hnone, List.nil_append]

theorem rooted (hcopies : r.Copies setup a i) : setup.protocol.Rooted a r.log := by
  rw [← hcopies.history_eq]
  exact hcopies.grounded.rooted

theorem valid (hcopies : r.Copies setup a i) : r.durable.Valid := hcopies.sim.mirrors.sane.valid

theorem ordered (hcopies : r.Copies setup a i) : r.indices.Ordered :=
  hcopies.sim.mirrors.sane.ordered

/-- The consistency check tells whether the follower has what comes before the message. -/
theorem logOk_iff_isPrefix (hcopies : r.Copies setup a i) (hhonest : msg.Honest setup a)
    (htype : msg.type = .appendEntries) : r.logOk msg = true ↔ msg.preceding a <+: r.log := by
  have hlast := lastLogIndex_eq hcopies.valid hcopies.grounded
  have hlen := hhonest.length_preceding htype
  have hterm := hhonest.prevLogTerm_eq htype
  rw [logOk_iff, hlast, ← hcopies.history_eq]
  constructor
  · rintro (hzero | ⟨hoffset, hle, hsame⟩)
    · rw [List.eq_nil_of_length_eq_zero (hlen.trans hzero)]
      exact List.nil_prefix
    · rw [termAt_eq hcopies.valid hcopies.grounded hoffset hle, hterm] at hsame
      have heq : r.history.take msg.prevLogIndex = msg.preceding a :=
        Protocol.Inv.eq_of_lastStamp
          (hcopies.grounded.rooted.of_isPrefix _ (List.take_prefix _ _))
          ((hcopies.inv.termLogRooted _).of_isPrefix _ (List.take_prefix _ _))
          (by rw [List.length_take, Nat.min_eq_left hle, hlen]) hsame
      rw [← heq]
      exact List.take_prefix _ _
  · intro hpre
    have hle := hpre.length_le
    rw [hlen] at hle
    refine .inr ⟨hcopies.offset.le.trans (Nat.zero_le _), hle, ?_⟩
    rw [termAt_eq hcopies.valid hcopies.grounded (hcopies.offset.le.trans (Nat.zero_le _)) hle,
      hterm, ← hlen, ← List.prefix_iff_eq_take.mp hpre]

/-- Where the entries of a message are there already, the logs are the same. -/
theorem take_eq_of_covers (hcopies : r.Copies setup a i) (hhonest : msg.Honest setup a)
    (htype : msg.type = .appendEntries) (hpre : msg.preceding a <+: r.log) {k : Nat}
    (hk : k ≤ msg.entries.length) (hfirst : ∀ j x, j < k → msg.entries[j]? = some x →
      r.indices.Covers (msg.prevLogIndex + j + 1) x.term) :
    r.log.take (msg.prevLogIndex + k) = (a.termLog msg.term).take (msg.prevLogIndex + k) := by
  cases k with
  | zero =>
      have htake := List.prefix_iff_eq_take.mp hpre
      rw [hhonest.length_preceding htype] at htake
      exact htake.symm
  | succ j =>
      have hx := List.getElem?_eq_getElem (show j < msg.entries.length by omega)
      rcases hfirst j _ j.lt_succ_self hx with hzero | ⟨e, he, hterm⟩
      · simp only [indices, hcopies.offset] at hzero
        omega
      · have hentry : r.log[msg.prevLogIndex + j]? = some e := by
          simp only [Indices.entryAt?, indices, hcopies.offset] at he
          exact he
        exact Protocol.Inv.take_eq_of_stamp hcopies.rooted (hcopies.inv.termLogRooted _) hentry
          (getElem?_of_isPrefix (List.take_prefix _ _) (hhonest.getElem?_copied htype hx)) hterm

/-- No entry of a message contradicts a committed one. -/
theorem not_conflicts (hcopies : r.Copies setup a i) (hhonest : msg.Honest setup a)
    (htype : msg.type = .appendEntries) (hterm : r.term ≤ msg.term) {k : Nat} {e : Entry}
    (hk : msg.entries[k]? = some e) (hcommit : msg.prevLogIndex + k + 1 ≤ r.commitIndex) :
    ¬ r.indices.Conflicts (msg.prevLogIndex + k + 1) e.term := by
  rintro ⟨-, x, hx, hne⟩
  have hentry : r.log[msg.prevLogIndex + k]? = some x := by
    simp only [Indices.entryAt?, indices, hcopies.offset] at hx
    exact hx
  have hcommitted : r.history.take r.commitIndex <+: a.termLog msg.term :=
    hcopies.inv.committed_isPrefix hterm (by simp [hhonest.leader (.inl htype)])
      hcopies.grounded.committed
  rw [hcopies.history_eq] at hcommitted
  have htaken : (r.log.take r.commitIndex)[msg.prevLogIndex + k]? = some x := by
    rw [List.getElem?_take_of_lt (by omega), hentry]
  have hleader := getElem?_of_isPrefix (List.take_prefix _ _) (hhonest.getElem?_copied htype hk)
  rw [getElem?_of_isPrefix hcommitted htaken] at hleader
  exact hne (congrArg Entry.term (Option.some.inj hleader))

/-- The loop over the entries copies the leader's log. -/
theorem log_of_outcome {prepared : Raft Capture} {result : Raft Capture × Bool}
    (hcopies : r.Copies setup a i) (hhonest : msg.Honest setup a)
    (htype : msg.type = .appendEntries) (hterm : r.term ≤ msg.term)
    (hpre : msg.preceding a <+: r.log) (hindices : prepared.indices = r.indices)
    (houtcome : Outcome prepared msg.prevLogIndex msg.entries result) :
    result.2 = true ∧ result.1.log = overwrite r.log (msg.copied a) ∧
      result.1.commitIndex = r.commitIndex ∧ result.1.logOffset = 0 := by
  have hlog : prepared.log = r.log := congrArg Indices.log hindices
  have hcommit : prepared.commitIndex = r.commitIndex := congrArg Indices.commit hindices
  have hoffset : prepared.logOffset = 0 := (congrArg Indices.offset hindices).trans hcopies.offset
  cases houtcome with
  | covered hall =>
      rw [hindices] at hall
      have htake := hcopies.take_eq_of_covers hhonest htype hpre le_rfl fun j x _ => hall j x
      refine ⟨rfl, ?_, hcommit, hoffset⟩
      rw [hlog, overwrite_of_isPrefix]
      rw [Message.copied, ← htake]
      exact List.take_prefix _ _
  | cut k e wal hk hnew _ hfirst =>
      rw [hindices] at hnew hfirst
      have hlt := (List.getElem?_eq_some_iff.mp hk).1
      have htake := hcopies.take_eq_of_covers hhonest htype hpre hlt.le hfirst
      refine ⟨rfl, ?_, hcommit, hoffset⟩
      have hcut : r.log.take (msg.prevLogIndex + k) ++ msg.entries.drop k = msg.copied a := by
        have htaken : (msg.copied a).take (msg.prevLogIndex + k) =
            (a.termLog msg.term).take (msg.prevLogIndex + k) := by
          rw [Message.copied, List.take_take, Nat.min_eq_left (by omega)]
        have hdropped : (msg.copied a).drop (msg.prevLogIndex + k) = msg.entries.drop k := by
          have hlen := hhonest.length_preceding htype
          rw [hhonest.copied_eq htype, List.drop_append, List.drop_eq_nil_of_le (by omega), hlen,
            Nat.add_sub_cancel_left, List.nil_append]
        rw [htake, ← htaken, ← hdropped, List.take_append_drop]
      rw [overwrite_of_not_isPrefix, hlog, hoffset, Nat.sub_zero, hcut]
      intro hall
      refine hnew (.inr ⟨e, ?_, rfl⟩)
      simp only [Indices.entryAt?, indices, hcopies.offset]
      exact getElem?_of_isPrefix hall (hhonest.getElem?_copied htype hk)
  | refused k e hk hconflict hcommitted =>
      rw [hindices] at hconflict
      rw [hcommit] at hcommitted
      exact absurd hconflict (hcopies.not_conflicts hhonest htype hterm hk hcommitted)

end Copies

theorem Copies.length_overwrite_lt (hcopies : r.Copies setup a i) (hhonest : msg.Honest setup a)
    (htype : msg.type = .appendEntries) :
    (overwrite r.log (msg.copied a)).length < 2 ^ 64 := by
  unfold overwrite
  split
  · have hlast := hcopies.ordered.last_lt
    simp only [indices, Indices.last, hcopies.offset] at hlast
    omega
  · rw [hhonest.length_copied htype]
    exact (hhonest.numbered htype).fits

theorem handleAppendEntries_term (r : Raft Capture) (msg : Message Capture) :
    (r.handleAppendEntries msg).1.term = (r.prepareForLeaderRpc msg).1.term := by
  unfold handleAppendEntries
  dsimp only
  split
  · rfl
  · split
    · rfl
    · obtain ⟨log, commit, wal, failed, heq⟩ :=
        (r.prepareForLeaderRpc msg).1.acceptEntries_frame msg
      rw [heq]

/-- What a follower makes of a message from the leader of its term, or of a later one. -/
structure Copied (a : Sys Nat Entry) (msg : Message Capture) (r next : Raft Capture) : Prop where
  term : next.term = msg.term
  offset : next.logOffset = 0
  accepted : msg.preceding a <+: r.log → next.log = overwrite r.log (msg.copied a) ∧
    next.commitIndex = max r.commitIndex msg.leaderCommit
  refused : ¬ msg.preceding a <+: r.log → next.log = r.log ∧ next.commitIndex = r.commitIndex

theorem Copies.handleAppendEntries_copied (hcopies : r.Copies setup a i)
    (hhonest : msg.Honest setup a) (htype : msg.type = .appendEntries)
    (hrejects : r.rejects msg = false) (hterm : r.term ≤ msg.term)
    (hbefore : r.storageFailed = false)
    (hhealthy : (r.handleAppendEntries msg).1.storageFailed = false) :
    Copied a msg r (r.handleAppendEntries msg).1 := by
  have hready : (r.prepareForLeaderRpc msg).2 = true :=
    (prepareForLeaderRpc_ready_iff r msg (prepared_healthy hhealthy)).mpr ⟨hrejects, hterm⟩
  have hindices := indices_prepareForLeaderRpc r msg
  have hreached : (r.handleAppendEntries msg).1.term = msg.term := by
    rw [handleAppendEntries_term]
    have hmoves := prepareForLeaderRpc_moves (o := honestOutside setup a) hhonest
      (.inl htype) hbefore
    exact (hmoves.2.2 hready).term.symm
  have hok := hcopies.logOk_iff_isPrefix hhonest htype
  rcases handleAppendEntries_cases hcopies.ordered (hhonest.numbered htype) with
    ⟨hno, heq⟩ | ⟨-, hyes, looped, houtcome, hfinished⟩
  · have hrefused : r.logOk msg = false := hno.resolve_left (by simp [hready])
    refine ⟨hreached, ?_, fun hpre => ?_, fun _ => ?_⟩
    · rw [heq]
      exact (congrArg Indices.offset hindices).trans hcopies.offset
    · cases hrefused.symm.trans (hok.mpr hpre)
    · rw [heq]
      exact ⟨congrArg Indices.log hindices, congrArg Indices.commit hindices⟩
  · have hpre := hok.mp hyes
    obtain ⟨hcomplete, hlog, hcommit, hoffset⟩ :=
      hcopies.log_of_outcome hhonest htype hterm hpre hindices houtcome
    refine ⟨hreached, hfinished.logOffset.trans hoffset, fun _ => ⟨hfinished.log.trans hlog, ?_⟩,
      fun hnot => absurd hpre hnot⟩
    -- all that the leader calls committed has been copied
    have hlast : msg.leaderCommit ≤ looped.1.lastLogIndex := by
      rw [lastLogIndex, hoffset, hlog, Nat.zero_add,
        wrap64_of_lt (hcopies.length_overwrite_lt hhonest htype)]
      have hle := (isPrefix_overwrite r.log (msg.copied a)).length_le
      rw [hhonest.length_copied htype] at hle
      exact (hhonest.leaderCommit_le htype).trans hle
    rw [(hfinished.healthy hcomplete hhealthy).2, hcommit, Nat.min_eq_left hlast]
    split <;> omega

/-- Other messages of leaders are not for this node, or late. -/
theorem handleAppendEntries_ignored (hignored : r.rejects msg = true ∨ msg.term < r.term) :
    (r.handleAppendEntries msg).1 = r := by
  have hprepared : r.prepareForLeaderRpc msg = (r, false) := by
    unfold prepareForLeaderRpc
    split
    · rfl
    next hrejects =>
      have hlate := hignored.resolve_left hrejects
      dsimp only
      rw [if_neg (by omega : ¬ msg.term > r.term), if_pos (.inr hlate)]
  unfold handleAppendEntries
  rw [hprepared]
  rfl

/-! ## Handling -/

/-- A node handles a message, and no flush fails on the way. -/
def Handles (r : Raft Capture) (msg : Message Capture) (next : Raft Capture) : Prop :=
  ∃ env, next = (r.act env (.message msg)).1 ∧
    (r.storageFailed = false → next.storageFailed = false)

/-- What replication is about. -/
def replicated (r : Raft Capture) : List Entry × Nat × Nat := (r.log, r.commitIndex, r.term)

theorem Handles.eq_of_failed (hfailed : r.storageFailed = true) (hhandles : r.Handles msg next) :
    next = r := by
  obtain ⟨env, rfl, -⟩ := hhandles
  rw [act, if_pos hfailed]

theorem act_appendEntries (env : Env) (hhealthy : r.storageFailed = false)
    (htype : msg.type = .appendEntries) : ∃ msgs, (r.act env (.message msg)).1 =
      { ((r.arm env).handleAppendEntries msg).1 with msgs := msgs } := by
  have hstep : (r.arm env).step (.message msg) =
      ((r.arm env).handleAppendEntries msg).1.send ((r.arm env).handleAppendEntries msg).2 := by
    simp only [step, handleMessage, htype]
  rw [act, if_neg (by simp [hhealthy]), hstep]
  dsimp only
  split
  · exact ⟨_, rfl⟩
  · exact ⟨_, rfl⟩

/-- What a follower makes of any replication message. -/
inductive Absorbs (a : Sys Nat Entry) (msg : Message Capture) (r next : Raft Capture) : Prop
  | ignored (hignored : r.rejects msg = true ∨ msg.term < r.term)
      (hsame : next.replicated = r.replicated)
  | copied (hrejects : r.rejects msg = false) (hterm : r.term ≤ msg.term)
      (hcopied : Copied a msg r next)

theorem Copies.handles (hmember : i ∈ setup.members) (hcopies : r.Copies setup a i)
    (hhonest : msg.Honest setup a) (htype : msg.type = .appendEntries)
    (hbefore : r.storageFailed = false) (hhandles : r.Handles msg next) :
    Absorbs a msg r next ∧ next.storageFailed = false ∧
      ∃ a', Grows a a' ∧ next.Copies setup a' i := by
  obtain ⟨env, rfl, hkept⟩ := hhandles
  have hhealthy := hkept hbefore
  have harmed : (r.arm env).Copies setup a i :=
    ⟨hcopies.inv, hcopies.sim.arm env, hcopies.offset⟩
  obtain ⟨msgs, heq⟩ := act_appendEntries env hbefore htype
  have hallows : (r.arm env).Allows (honestOutside setup a) (.message msg) :=
    ⟨hhonest, fun h => by cases htype.symm.trans h⟩
  obtain ⟨a', hsteps, hsim, -⟩ := hcopies.sim.act env hmember hcopies.inv hallows
  have hevolves := hsteps.evolves hcopies.inv
  have hhandled : ((r.arm env).handleAppendEntries msg).1.storageFailed = false := by
    rw [heq] at hhealthy
    exact hhealthy
  suffices habsorbs : Absorbs a msg r (r.act env (.message msg)).1 ∧
      (r.act env (.message msg)).1.logOffset = 0 from
    ⟨habsorbs.1, hhealthy, a', hevolves.grows, hevolves.inv, hsim, habsorbs.2⟩
  rw [heq]
  by_cases hignored : r.rejects msg = true ∨ msg.term < r.term
  · have hsame := handleAppendEntries_ignored (r := r.arm env) hignored
    rw [hsame]
    exact ⟨.ignored hignored rfl, hcopies.offset⟩
  · push Not at hignored
    have hrejects : r.rejects msg = false := by simpa using hignored.1
    have hcopied := harmed.handleAppendEntries_copied hhonest htype hrejects hignored.2 hbefore
      hhandled
    exact ⟨.copied hrejects hignored.2
      ⟨hcopied.term, hcopied.offset, hcopied.accepted, hcopied.refused⟩, hcopied.offset⟩

end Raft

end RaftKv
