import RaftKv.Cluster.Following

/-! # Candidates and leaders

A candidate stands with its whole history and counts real votes. A leader is the leader
of its term, its history is part of the log of that term, and what it knows about a
follower has been acknowledged.
-/

namespace RaftKv

open TermLog

variable {setup : Setup} {a a' : Sys Nat Entry} {i : Nat} {r next : Raft Capture}
  {w : Wal Capture} {msg : Message Capture}

namespace Raft

/-- What a leader knows about a follower. -/
structure Tracks (setup : Setup) (a : Sys Nat Entry) (i : Nat) (r : Raft Capture) (j : Nat)
    (pr : Progress) : Prop where
  member : j ∈ setup.members
  other : j ≠ i
  acked : pr.matchIndex ≤ a.ack j r.term
  next_pos : 1 ≤ pr.next
  next_le : pr.next ≤ r.history.length + 1

/-- The role of a node is one it plays in the abstract system. -/
structure Plays (setup : Setup) (a : Sys Nat Entry) (i : Nat) (r : Raft Capture) : Prop where
  leader : r.state = .leader → a.leader r.term = some i ∧
    ∃ l, a.bid r.term i = some l ∧ l <+: r.history ∧ r.history <+: a.termLog r.term
  candidate : r.storageFailed = false → r.state = .candidate → a.bid r.term i = some r.history ∧
    ∀ v, r.votes.get? v = some true → v ∈ setup.members ∧ a.vote v r.term = some i
  known : r.storageFailed = false → r.state = .leader → ∀ j ∈ r.others,
    ∃ pr, r.progress.get? j = some pr
  tracks : r.storageFailed = false → r.state = .leader → ∀ j pr, r.progress.get? j = some pr →
    r.Tracks setup a i j pr

theorem Plays.of_quiet (hleader : next.state ≠ .leader) (hcandidate : next.state ≠ .candidate) :
    next.Plays setup a i where
  leader h := absurd h hleader
  candidate _ h := absurd h hcandidate
  known _ h := absurd h hleader
  tracks _ h := absurd h hleader

theorem Tracks.grow {j : Nat} {pr : Progress} (hgrow : Grows a a')
    (htracks : r.Tracks setup a i j pr) (hterm : next.term = r.term)
    (hhistory : r.history <+: next.history) : next.Tracks setup a' i j pr where
  member := htracks.member
  other := htracks.other
  acked := by
    rw [hterm]
    exact htracks.acked.trans (hgrow.ack _ _)
  next_pos := htracks.next_pos
  next_le := htracks.next_le.trans (Nat.succ_le_succ hhistory.length_le)

/-- Nothing the role depends on has changed. -/
theorem Plays.of_same (hgrow : Grows a a') (hplays : r.Plays setup a i)
    (hhealthy : next.storageFailed = false → r.storageFailed = false)
    (hstate : next.state = r.state) (hterm : next.term = r.term)
    (hhistory : next.history = r.history) (hvotes : next.votes = r.votes)
    (hprogress : next.progress = r.progress) (hothers : next.others = r.others) :
    next.Plays setup a' i where
  leader h := by
    rw [hstate] at h
    obtain ⟨hlead, l, hbid, hl, hpre⟩ := hplays.leader h
    rw [hterm, hhistory]
    exact ⟨hgrow.leader _ _ hlead, l, hgrow.bid _ _ _ hbid, hl, hpre.trans (hgrow.termLog _)⟩
  candidate hrunning h := by
    rw [hstate] at h
    obtain ⟨hbid, hcast⟩ := hplays.candidate (hhealthy hrunning) h
    rw [hterm, hhistory, hvotes]
    exact ⟨hgrow.bid _ _ _ hbid, fun v hv => ⟨(hcast v hv).1, hgrow.vote _ _ _ (hcast v hv).2⟩⟩
  known hrunning h := by
    rw [hstate] at h
    rw [hothers, hprogress]
    exact hplays.known (hhealthy hrunning) h
  tracks hrunning h j pr hj := by
    rw [hstate] at h
    rw [hprogress] at hj
    exact (hplays.tracks (hhealthy hrunning) h j pr hj).grow hgrow hterm
      (hhistory ▸ List.prefix_rfl)

/-! ## Candidates -/

theorem Plays.stand (hbid : next.storageFailed = false → a.bid next.term i = some next.history)
    (hstate : next.state = .candidate) (hvotes : next.votes = Table.empty) :
    next.Plays setup a i where
  leader h := by rw [hstate] at h; cases h
  candidate hrunning _ := ⟨hbid hrunning, fun v hv => by rw [hvotes] at hv; simp at hv⟩
  known _ h := by rw [hstate] at h; cases h
  tracks _ h := by rw [hstate] at h; cases h

/-- One more vote for a candidate. -/
theorem Plays.record (hplays : r.Plays setup a i) (hstate : r.state = .candidate) {v : Nat}
    (hmember : v ∈ setup.members) (hvote : a.vote v r.term = some i) :
    ({ r with votes := r.votes.insert v true } : Raft Capture).Plays setup a i where
  leader h := by cases hstate.symm.trans h
  candidate hrunning _ := by
    obtain ⟨hbid, hcast⟩ := hplays.candidate hrunning hstate
    refine ⟨hbid, fun x hx => ?_⟩
    simp only [Table.get?_insert] at hx
    split at hx
    next heq =>
      subst heq
      exact ⟨hmember, hvote⟩
    · exact hcast x hx
  known _ h := by cases hstate.symm.trans h
  tracks _ h := by cases hstate.symm.trans h

/-- A candidate with two votes becomes the leader of its term. -/
theorem Running.elect (hrun : Running setup a i r w) (hplays : r.Plays setup a i)
    (hpeers : r.peers = setup.members) (hstate : r.state = .candidate)
    (hcount : r.votes.count (fun granted => granted) > r.peers.length / 2) :
    ∃ a', setup.protocol.Steps i a a' ∧ r.Stores setup a' i ∧ a'.leader r.term = some i ∧
      a'.bid r.term i = some r.history ∧ a'.termLog r.term = r.history := by
  obtain ⟨hbid, hcast⟩ := hplays.candidate hrun.healthy hstate
  rw [hpeers, setup.three] at hcount
  obtain ⟨x, y, vx, vy, hne, hx, hvx, hy, hvy⟩ := Table.exists_two_of_count hcount
  obtain rfl : vx = true := hvx
  obtain rfl : vy = true := hvy
  have hquorum : setup.protocol.quorum { v | a.vote v r.term = some i } :=
    ⟨x, y, hne, (hcast x hx).1, (hcast y hy).1, (hcast x hx).2, (hcast y hy).2⟩
  cases hlead : a.leader r.term with
  | none =>
      have hstep : setup.protocol.Step i a (a.setLeader (a.term i) i (a.log i)) :=
        .elect a _ (by rw [hrun.term, hlead]) (by rw [hrun.term, hrun.log, hbid]) hquorum
          (fun v hv => by rw [hrun.term]; exact hv)
      have hgrow := hstep.grows hrun.inv
      have hlocated := hrun.stores.located
      refine ⟨_, .single hstep, ⟨⟨hlocated.term, hlocated.log, hlocated.vote⟩,
        hrun.stores.disk.grow hgrow, hrun.stores.memory.grow hgrow⟩, ?_, hbid, ?_⟩
      · simp [Sys.setLeader, hrun.term]
      · simp [Sys.setLeader, hrun.term, hrun.log]
  | some m =>
      -- nobody else can have won the term
      obtain ⟨S, hS, hvotes⟩ := hrun.inv.leaderVotes r.term m hlead
      obtain ⟨v, hvS, hv⟩ := setup.protocol.meet S _ hS hquorum
      obtain rfl : m = i := Option.some.inj ((hvotes v hvS).symm.trans hv)
      exact ⟨a, .refl, hrun.stores, hlead, hbid, (hrun.history_eq hlead).symm⟩

/-! ## Leaders -/

theorem Plays.crown (hvalid : r.durable.Valid) (hground : r.durable.Grounded setup a)
    (hid : r.id = i) (hpeers : r.peers = setup.members) (hlead : a.leader r.term = some i)
    (hbid : a.bid r.term i = some r.history) (htermLog : a.termLog r.term = r.history) :
    r.becomeLeader.Plays setup a i := by
  have hlast := lastLogIndex_eq hvalid hground
  have hbound : r.history.length + 1 < 2 ^ 64 := by
    rw [length_history hground]
    exact hvalid.bound
  have hprogress : ∀ j, r.becomeLeader.progress.get? j =
      if j ∈ r.others then some ⟨0, r.history.length + 1⟩ else none := by
    intro j
    show (r.others.foldl (fun progress peer => progress.insert peer
      (⟨0, wrap64 (r.lastLogIndex + 1)⟩ : Progress)) Table.empty).get? j = _
    rw [Table.get?_foldl_insert, hlast, wrap64_of_lt hbound]
    rfl
  refine ⟨fun _ => ⟨hlead, r.history, hbid, List.prefix_rfl, ?_⟩, fun _ h => (by cases h),
    fun _ _ j hj => ?_, fun _ _ j pr hj => ?_⟩
  · exact htermLog ▸ List.prefix_rfl
  · exact ⟨_, (hprogress j).trans (if_pos hj)⟩
  · rw [hprogress j] at hj
    split at hj
    next hmem =>
      obtain rfl := Option.some.inj hj
      simp only [others, List.mem_filter, bne_iff_ne] at hmem
      exact ⟨hpeers ▸ hmem.1, hid ▸ hmem.2, Nat.zero_le _, Nat.succ_le_succ (Nat.zero_le _), le_rfl⟩
    · cases hj

/-- A leader learns about one follower. -/
theorem Plays.learn (hplays : r.Plays setup a i) (hstate : r.state = .leader) {j : Nat}
    {pr : Progress} (htracks : r.storageFailed = false → r.Tracks setup a i j pr) :
    ({ r with progress := r.progress.insert j pr } : Raft Capture).Plays setup a i where
  leader := hplays.leader
  candidate _ h := by cases hstate.symm.trans h
  known hrunning _ k hk := by
    obtain ⟨pr', hpr'⟩ := hplays.known hrunning hstate k hk
    simp only [Table.get?_insert]
    split
    · exact ⟨pr, rfl⟩
    · exact ⟨pr', hpr'⟩
  tracks hrunning _ k pr' hk := by
    simp only [Table.get?_insert] at hk
    split at hk
    next heq =>
      obtain rfl := Option.some.inj hk
      subst heq
      have h := htracks hrunning
      exact ⟨h.member, h.other, h.acked, h.next_pos, h.next_le⟩
    · have h := hplays.tracks hrunning hstate k pr' hk
      exact ⟨h.member, h.other, h.acked, h.next_pos, h.next_le⟩

theorem Plays.extend (hgrow : Grows a a') (hplays : r.Plays setup a i)
    (hhealthy : r.storageFailed = false) (hstate : r.state = .leader)
    (hstate' : next.state = .leader) (hterm : next.term = r.term)
    (hhistory : r.history <+: next.history) (htermLog : next.history <+: a'.termLog r.term)
    (hprogress : next.progress = r.progress) (hothers : next.others = r.others) :
    next.Plays setup a' i where
  leader _ := by
    obtain ⟨hlead, l, hbid, hl, -⟩ := hplays.leader hstate
    rw [hterm]
    exact ⟨hgrow.leader _ _ hlead, l, hgrow.bid _ _ _ hbid, hl.trans hhistory, htermLog⟩
  candidate _ h := by cases hstate'.symm.trans h
  known _ _ := by
    rw [hothers, hprogress]
    exact hplays.known hhealthy hstate
  tracks _ _ j pr hj := by
    rw [hprogress] at hj
    exact (hplays.tracks hhealthy hstate j pr hj).grow hgrow hterm hhistory

end Raft

end RaftKv
