import RaftKv.Cluster.Roles
import RaftKv.Raft.Sent

/-! # Honest messages

Whatever a running node says is true of the abstract system, once it has acknowledged
what it holds.
-/

namespace RaftKv

open TermLog

variable {setup : Setup} {a a' : Sys Nat Entry} {i : Nat} {r next : Raft Capture}
  {w : Wal Capture} {msg : Message Capture}

/-- Pre-votes and negative answers. -/
theorem Message.honest_of_plain (hplain : msg.Plain) (hterm : msg.term < 2 ^ 64) :
    msg.Honest setup a := by
  unfold Message.Plain at hplain
  have hnot : msg.type ≠ .requestVote ∧ ¬ msg.FromLeader := by
    unfold Message.FromLeader
    split at hplain <;> simp_all
  unfold Message.FromLeader at hnot
  push Not at hnot
  refine ⟨⟨hterm, fun h => absurd h hnot.2.1, fun h => absurd h hnot.2.1,
    fun h => absurd h hnot.2.2⟩, fun h => absurd h hnot.1, fun htype hgranted => ?_,
    fun h => absurd h (by unfold Message.FromLeader; push Not; exact hnot.2),
    fun h => absurd h hnot.2.1, fun htype hsuccess => ?_, fun h => absurd h hnot.2.2⟩
  · rw [htype] at hplain
    simp only at hplain
    rw [hplain] at hgranted
    cases hgranted
  · rcases htype with htype | htype <;>
      · rw [htype] at hplain
        simp only at hplain
        rw [hplain] at hsuccess
        cases hsuccess

namespace Raft.Running

theorem term_lt (hrun : Running setup a i r w) : r.term < 2 ^ 64 := hrun.mirrors.inTerm.term_lt

theorem bound (hrun : Running setup a i r w) : r.history.length + 1 < 2 ^ 64 := by
  rw [length_history hrun.grounded]
  exact hrun.valid.bound

/-! ## Elections -/

theorem preVote_honest (peer : Nat)
    (hpending : r.pendingPreVoteTerm = wrap64 (r.term + 1)) :
    (r.makePreVote peer).Honest setup a :=
  Message.honest_of_plain trivial (by
    show r.pendingPreVoteTerm < 2 ^ 64
    rw [hpending]
    exact wrap64_lt _)

theorem candidacy_honest (hrun : Running setup a i r w) (hplays : r.Plays setup a i)
    (hstate : r.state = .candidate) (peer : Nat) : (r.makeRequestVote peer).Honest setup a where
  inRange := ⟨hrun.term_lt, (by intro h; cases h), (by intro h; cases h), (by intro h; cases h)⟩
  candidacy _ := by
    refine ⟨r.history, ?_, lastLogIndex_eq hrun.valid hrun.grounded, lastLogTerm_eq hrun.grounded⟩
    rw [show (r.makeRequestVote peer).sender = i from hrun.id]
    exact (hplays.candidate hrun.healthy hstate).1
  vote h := by cases h
  leader h := by rcases h with h | h <;> cases h
  entries h := by cases h
  accepted h := by rcases h with h | h <;> cases h
  snapshot h := by cases h

theorem vote_honest (hrun : Running setup a i r w) {request : Message Capture}
    (hsender : request.sender ≠ 0) (hvote : r.votedFor = request.sender) :
    (r.voteResponse request true).Honest setup a where
  inRange := ⟨hrun.term_lt, (by intro h; cases h), (by intro h; cases h), (by intro h; cases h)⟩
  candidacy h := by cases h
  vote _ _ := by
    have hcast : a.vote i r.term = if r.votedFor = 0 then none else some r.votedFor :=
      hrun.located.vote
    rw [hvote, if_neg hsender] at hcast
    rw [show (r.voteResponse request true).sender = i from hrun.id]
    exact hcast
  leader h := by rcases h with h | h <;> cases h
  entries h := by cases h
  accepted h := by rcases h with h | h <;> cases h
  snapshot h := by cases h

/-! ## Leaders -/

theorem snapshot_honest (hrun : Running setup a i r w) (hplays : r.Plays setup a i)
    (hstate : r.state = .leader) (peer : Nat) : (r.makeInstallSnapshot peer).Honest setup a where
  inRange := by
    refine ⟨hrun.term_lt, (by intro h; cases h), (by intro h; cases h), fun _ => ?_⟩
    show r.logOffset + 1 < 2 ^ 64
    have hle := hrun.offset_le.trans hrun.commit_le
    have hbound := hrun.bound
    omega
  candidacy h := by cases h
  vote h := by cases h
  leader _ := by
    rw [show (r.makeInstallSnapshot peer).sender = i from hrun.id]
    exact (hplays.leader hstate).1
  entries h := by cases h
  accepted h := by rcases h with h | h <;> cases h
  snapshot _ := by
    refine ⟨hrun.grounded.covered, hrun.grounded.boundary, ?_⟩
    have htake : r.history.take r.logOffset = r.lastSnapshotData.entries :=
      Durable.history_take_offset hrun.grounded
    show setup.protocol.Committed a r.term r.lastSnapshotData.entries
    rw [← htake]
    exact hrun.grounded.committed.of_isPrefix _
      (List.take_prefix_take_left hrun.offset_le)

/-- The entries sent are the rest of the history. -/
theorem entriesFrom_eq (hrun : Running setup a i r w) {next : Nat} (hlt : r.logOffset < next)
    (hle : next ≤ r.history.length + 1) : r.entriesFrom next = r.history.drop (next - 1) := by
  apply List.ext_getElem?
  intro k
  unfold entriesFrom
  rw [lastLogIndex_eq hrun.valid hrun.grounded, List.getElem?_map, List.getElem?_drop]
  by_cases hk : k < r.history.length + 1 - next
  · rw [List.getElem?_range' hk, Option.map_some, Nat.one_mul,
      ← hrun.getElem?_history (by omega) (by omega), show next + k - 1 = next - 1 + k by omega]
  · rw [List.getElem?_eq_none (by simpa using hk), List.getElem?_eq_none (by omega)]
    rfl

theorem appendEntries_honest (hrun : Running setup a i r w) (hplays : r.Plays setup a i)
    (hstate : r.state = .leader) {peer : Nat} (hpeer : peer ∈ r.others)
    (hnext : ¬ (r.progressOf peer).next ≤ r.logOffset) :
    (r.makeAppendEntries peer).Honest setup a := by
  obtain ⟨pr, hpr⟩ := hplays.known hrun.healthy hstate peer hpeer
  have htracks := hplays.tracks hrun.healthy hstate peer pr hpr
  have hprogress : r.progressOf peer = pr := by rw [progressOf, hpr]; rfl
  rw [hprogress, not_le] at hnext
  have hpos := htracks.next_pos
  have hle := htracks.next_le
  have hbound := hrun.bound
  have hprev : sub64 pr.next 1 = pr.next - 1 := sub64_of_le hpos (by omega)
  have hentries : (r.makeAppendEntries peer).entries = r.history.drop (pr.next - 1) := by
    show r.entriesFrom (r.progressOf peer).next = _
    rw [hprogress, hrun.entriesFrom_eq hnext hle]
  have hprevIndex : (r.makeAppendEntries peer).prevLogIndex = pr.next - 1 := by
    show sub64 (r.progressOf peer).next 1 = _
    rw [hprogress, hprev]
  have hprevTerm : (r.makeAppendEntries peer).prevLogTerm =
      setup.protocol.lastStamp (r.history.take (pr.next - 1)) := by
    unfold makeAppendEntries
    simp only [hprogress, hprev]
    split
    next hzero =>
      rw [hzero]
      rfl
    · exact termAt_eq hrun.valid hrun.grounded (by omega) (by omega)
  have hsplit : r.history.take (pr.next - 1) ++ (r.makeAppendEntries peer).entries = r.history := by
    rw [hentries, List.take_append_drop]
  refine ⟨⟨hrun.term_lt, fun _ k e he => ?_, fun _ => ?_, (by intro h; cases h)⟩,
    (by intro h; cases h), (by intro h; cases h), fun _ => ?_, fun _ => ?_,
    (by intro h; rcases h with h | h <;> cases h), (by intro h; cases h)⟩
  · rw [hentries, List.getElem?_drop] at he
    have hget : r.history[pr.next - 1 + k]? = r.log[pr.next - 1 + k - r.logOffset]? :=
      Durable.history_getElem? hrun.grounded (show r.logOffset ≤ pr.next - 1 + k by omega)
    rw [hget] at he
    have hindex := log_indexed hrun.valid _ e he
    rw [hprevIndex]
    omega
  · rw [hprevIndex, hentries, List.length_drop]
    omega
  · rw [show (r.makeAppendEntries peer).sender = i from hrun.id]
    exact (hplays.leader hstate).1
  · refine ⟨r.history.take (pr.next - 1), ?_, hprevTerm, ?_, ?_, ?_⟩
    · rw [hprevIndex, List.length_take]
      omega
    · rw [hsplit]
      obtain ⟨_, _, _, _, hpre⟩ := hplays.leader hstate
      exact hpre
    · rw [hsplit]
      exact hrun.commit_le
    · rw [hsplit]
      exact hrun.grounded.committed

theorem heartbeat_honest (hrun : Running setup a i r w) (hplays : r.Plays setup a i)
    (hstate : r.state = .leader) {peer : Nat} (hpeer : peer ∈ r.others) :
    (r.heartbeatFor peer).Honest setup a := by
  unfold heartbeatFor
  split
  · exact hrun.snapshot_honest hplays hstate peer
  next hnext => exact hrun.appendEntries_honest hplays hstate hpeer hnext

/-! ## Answers to a leader -/

/-- A node that could store a snapshot has it. -/
theorem installSnapshot_done (r : Raft Capture) (msg : Message Capture)
    (hhealthy : (r.installSnapshot msg).1.storageFailed = false) :
    (r.installSnapshot msg).1.term = r.term ∧
      (r.installSnapshot msg).1.history = msg.snapshotData.entries := by
  obtain ⟨⟨wal, hstored⟩, -⟩ := installSnapshot_stored hhealthy
  rw [hstored]
  exact ⟨rfl, List.append_nil _⟩

/-- A node that has acknowledged all it holds may say so. -/
theorem acked (hrun : Running setup a i r w) (hfull : Protocol.FullyAcked a i)
    (hlead : a.leader r.term ≠ none) {k : Nat} (hk : k ≤ (a.termLog r.term).length)
    (hholds : (a.termLog r.term).take k <+: r.history) : k ≤ a.ack i r.term := by
  have hall := hfull (by rw [hrun.term]; exact hlead) k
  rw [hrun.term, hrun.log] at hall
  exact hall hk hholds

theorem answer_honest (hrun : Running setup a i r w) {reply : Message Capture}
    (htype : reply.type = .appendEntriesResponse ∨ reply.type = .installSnapshotResponse)
    (hsender : reply.sender = r.id) (hterm : reply.term = r.term)
    (hack : reply.matchIndex ≤ a.ack i r.term) : reply.Honest setup a := by
  have hnot : reply.type ≠ .requestVote ∧ reply.type ≠ .requestVoteResponse ∧
      reply.type ≠ .appendEntries ∧ reply.type ≠ .installSnapshot := by
    rcases htype with htype | htype <;> simp [htype]
  refine ⟨⟨hterm ▸ hrun.term_lt, fun h => absurd h hnot.2.2.1, fun h => absurd h hnot.2.2.1,
    fun h => absurd h hnot.2.2.2⟩, fun h => absurd h hnot.1, fun h => absurd h hnot.2.1,
    fun h => h.elim (fun h => absurd h hnot.2.2.1) (fun h => absurd h hnot.2.2.2),
    fun h => absurd h hnot.2.2.1, fun _ _ => ?_, fun h => absurd h hnot.2.2.2⟩
  rw [hsender, hrun.id, hterm]
  exact hack

theorem accepted_honest {w' : Wal Capture} (hrun : Running setup a i r w)
    (hgrow : Grows a a')
    (hrun' : Running setup a' i ((r.acceptEntries msg).1.send (r.acceptEntries msg).2) w')
    (hfull : Protocol.FullyAcked a' i) (hhonest : msg.Honest setup a)
    (htype : msg.type = .appendEntries) (hready : r.Ready msg) (hlog : r.logOk msg = true)
    (hsuccess : (r.acceptEntries msg).2.success = true) :
    (r.acceptEntries msg).2.Honest setup a' := by
  obtain ⟨hle, hholds⟩ := hrun.accept_holds hhonest htype hready hlog hsuccess
  obtain ⟨success, index, hreply⟩ := r.acceptEntries_reply msg
  have hterm : (r.acceptEntries msg).1.term = r.term := by
    obtain ⟨log, commit, wal, failed, heq⟩ := r.acceptEntries_frame msg
    rw [heq]
  have hlead : a'.leader r.term ≠ none := by
    rw [← hready.term, hgrow.leader _ _ (hhonest.leader (.inl htype))]
    simp
  refine hrun'.answer_honest ?_ ?_ ?_ ?_
  · rw [hreply]
    exact .inl rfl
  · rw [hreply]
    rfl
  · rw [hreply]
    rfl
  · refine hrun'.acked hfull ?_ ?_ ?_
    · rw [show ((r.acceptEntries msg).1.send (r.acceptEntries msg).2).term = r.term from hterm]
      exact hlead
    · rw [show ((r.acceptEntries msg).1.send (r.acceptEntries msg).2).term = r.term from hterm]
      exact hle.trans (hgrow.termLog r.term).length_le
    · rw [show ((r.acceptEntries msg).1.send (r.acceptEntries msg).2).term = r.term from hterm,
        hgrow.termLog_take hle]
      exact hholds

/-- What a follower has committed is in its leader's log. -/
theorem commit_isPrefix (hrun : Running setup a i r w) (hlead : a.leader r.term ≠ none) :
    r.history.take r.commitIndex <+: a.termLog r.term :=
  hrun.inv.committed_isPrefix le_rfl hlead hrun.grounded.committed

theorem stale_honest (hrun : Running setup a i r w) (hfull : Protocol.FullyAcked a i)
    (hhonest : msg.Honest setup a) (htype : msg.type = .installSnapshot) (hready : r.Ready msg) :
    (r.snapshotResponse msg true (max r.commitIndex r.lastApplied)).Honest setup a := by
  have hlead : a.leader r.term ≠ none := by
    rw [← hready.term, hhonest.leader (.inr htype)]
    simp
  have hpre := hrun.commit_isPrefix hlead
  have hlen : (r.history.take r.commitIndex).length = r.commitIndex := by
    rw [List.length_take, Nat.min_eq_left hrun.commit_le]
  refine hrun.answer_honest (.inr rfl) rfl rfl ?_
  show max r.commitIndex r.lastApplied ≤ a.ack i r.term
  rw [max_eq_left hrun.mirrors.sane.applied_le]
  have htake : r.history.take r.commitIndex = (a.termLog r.term).take r.commitIndex := by
    rw [List.prefix_iff_eq_take.mp hpre, hlen]
  refine hrun.acked hfull hlead (hlen ▸ hpre.length_le) ?_
  rw [← htake]
  exact List.take_prefix _ _

theorem installed_honest {w' : Wal Capture} {reply : Message Capture}
    (hgrow : Grows a a')
    (hrun' : Running setup a' i ((r.installSnapshot msg).1.send reply) w')
    (hfull : Protocol.FullyAcked a' i) (hhonest : msg.Honest setup a)
    (htype : msg.type = .installSnapshot) (hready : r.Ready msg) :
    ((r.installSnapshot msg).1.snapshotResponse msg true msg.snapshotIndex).Honest setup a' := by
  obtain ⟨hlen, -, hcommitted⟩ := hhonest.snapshot htype
  obtain ⟨hterm, hhistory⟩ := installSnapshot_done r msg hrun'.healthy
  have hlead : a'.leader r.term ≠ none := by
    rw [← hready.term, hgrow.leader _ _ (hhonest.leader (.inr htype))]
    simp
  have hpre : msg.snapshotData.entries <+: a'.termLog r.term :=
    hrun'.inv.committed_isPrefix (hready.term.le) hlead (hcommitted.grow _ hgrow le_rfl)
  refine hrun'.answer_honest (.inr rfl) rfl rfl (hrun'.acked hfull ?_ ?_ ?_)
  · rw [show ((r.installSnapshot msg).1.send reply).term = r.term from hterm]
    exact hlead
  · rw [show ((r.installSnapshot msg).1.send reply).term = r.term from hterm]
    exact hlen ▸ hpre.length_le
  · rw [show ((r.installSnapshot msg).1.send reply).term = r.term from hterm,
      show ((r.installSnapshot msg).1.send reply).history = msg.snapshotData.entries from hhistory]
    show (a'.termLog r.term).take msg.snapshotIndex <+: _
    rw [← hlen, ← List.prefix_iff_eq_take.mp hpre]

theorem unsend {reply : Message Capture} (hrun : Running setup a i (r.send reply) w) :
    Running setup a i r w where
  inv := hrun.inv
  mirrors :=
    ⟨⟨hrun.mirrors.inTerm.term_lt, hrun.mirrors.inTerm.pending, hrun.mirrors.inTerm.id_ne_zero,
      hrun.mirrors.inTerm.candidate⟩, ⟨hrun.mirrors.sane.valid, hrun.mirrors.sane.offset_le,
      hrun.mirrors.sane.applied_le⟩, hrun.mirrors.stored⟩
  healthy := hrun.healthy
  wal := hrun.wal
  clean := hrun.clean
  durable := hrun.durable
  stores := ⟨hrun.stores.located, hrun.stores.disk, hrun.stores.memory⟩
  id := hrun.id

end Raft.Running

/-- Everything a move says is true afterwards. -/
theorem Raft.Sent.honest {o : Outside Capture} {w' : Wal Capture} (hrun : Running setup a i r w)
    (hgrow : Grows a a') (hrun' : Running setup a' i next w') (hplays : next.Plays setup a' i)
    (hfull : Protocol.FullyAcked a' i) (hhonest : ∀ m, o.message m → m.Honest setup a)
    (hsent : Sent o r next msg) : msg.Honest setup a' := by
  cases hsent with
  | plain _ hplain hterm _ => exact Message.honest_of_plain hplain (hterm ▸ hrun'.term_lt)
  | preVote peer hpending => exact Running.preVote_honest peer hpending
  | candidacy peer _ hstate => exact hrun'.candidacy_honest hplays hstate peer
  | vote request _ _ haddressed _ _ hvote =>
      exact hrun'.vote_honest (sender_ne_zero haddressed) hvote
  | heartbeat peer hpeer hstate => exact hrun'.heartbeat_honest hplays hstate hpeer
  | snapshot peer _ hstate _ => exact hrun'.snapshot_honest hplays hstate peer
  | accepted request hmsg htype hready hlog hnext hsuccess =>
      subst hnext
      exact hrun.accepted_honest hgrow hrun' hfull (hhonest request hmsg) htype hready hlog hsuccess
  | stale request hmsg htype hready _ hnext =>
      subst hnext
      exact hrun'.unsend.stale_honest hfull ((hhonest request hmsg).grow hgrow) htype hready
  | installed request hmsg htype hready hnext =>
      subst hnext
      exact Running.installed_honest hgrow hrun' hfull (hhonest request hmsg) htype hready

end RaftKv
