import RaftKv.Raft.Ballot
import RaftKv.Raft.Sent

/-! # What a node's role rests on

A candidate counts votes that were cast, a leader has two of them, and a node
follows only a node that leads its term. Which votes were cast and which nodes have
led is evidence from outside, carried by the messages; a node's own vote is in its
own file.
-/

namespace RaftKv

variable {D : Type}

/-- Votes known to have been cast and leaderships known to have been exercised. -/
structure Evidence where
  voted (voter term candidate : Nat) : Prop
  led (node term : Nat) : Prop

/-- A message says nothing without evidence. -/
structure Evidence.Supports (ev : Evidence) (msg : Message D) : Prop where
  term_lt : msg.term < 2 ^ 64
  granted : msg.type = .requestVoteResponse → msg.voteGranted = true →
    ev.voted msg.sender msg.term msg.receiver
  leader : msg.FromLeader → ev.led msg.sender msg.term

namespace Raft

/-- Node `v` voted for this one in its term. -/
def SupportedBy (ev : Evidence) (r : Raft D) (v : Nat) : Prop :=
  v ∈ r.peers ∧ (v = r.id ∧ Voted r.synced r.term r.id ∨ ev.voted v r.term r.id)

structure Founded (ev : Evidence) (r : Raft D) : Prop where
  member : r.id ∈ r.peers
  three : r.peers.length = 3
  votes : r.state = .candidate → ∀ v, r.votes.get? v = some true → r.SupportedBy ev v
  leader : r.state = .leader → ∃ a b, a ≠ b ∧ r.SupportedBy ev a ∧ r.SupportedBy ev b
  lead : r.lead ≠ 0 → ev.led r.lead r.term ∨ r.state = .leader ∧ r.lead = r.id

variable {ev : Evidence} {o : Outside D} {r next : Raft D} {msg : Message D}

theorem SupportedBy.mono {v : Nat} (hid : next.id = r.id) (hpeers : next.peers = r.peers)
    (hterm : next.term = r.term) (hgrows : r.synced <+: next.synced)
    (hsupported : r.SupportedBy ev v) : next.SupportedBy ev v := by
  obtain ⟨hmem, hvote⟩ := hsupported
  refine ⟨hpeers ▸ hmem, ?_⟩
  rw [hid, hterm]
  exact hvote.imp_left fun ⟨hv, hvoted⟩ => ⟨hv, hvoted.mono hgrows⟩

/-- The last vote in the file is the node's. -/
theorem Cast.voted (hcast : r.Cast) (hvote : r.votedFor ≠ 0) :
    Voted r.synced r.term r.votedFor := by
  obtain ⟨w, hwal, _, _, hlast, _⟩ := hcast
  refine ⟨hvote, ?_⟩
  have hsynced : r.synced = w.file := by simp [synced, hwal]
  rw [hsynced, ← hlast]
  unfold lastVote
  cases hlast' : (votesIn w.file).getLast? with
  | none =>
      rw [lastVote, hlast'] at hlast
      exact absurd (congrArg Prod.snd hlast).symm hvote
  | some p => exact List.mem_of_getLast? hlast'

/-- Roles and lead unchanged, term unchanged. -/
theorem Founded.of_same (hfounded : r.Founded ev) (hid : next.id = r.id)
    (hpeers : next.peers = r.peers) (hterm : next.term = r.term)
    (hgrows : r.synced <+: next.synced) (hstate : next.state = r.state)
    (hvotes : next.votes = r.votes) (hlead : next.lead = r.lead) : next.Founded ev := by
  obtain ⟨hmember, hthree, hcandidate, hleader, hfollows⟩ := hfounded
  refine ⟨?_, ?_, ?_, ?_, ?_⟩
  · rwa [hid, hpeers]
  · rwa [hpeers]
  · rw [hstate, hvotes]
    exact fun h v hv => (hcandidate h v hv).mono hid hpeers hterm hgrows
  · rw [hstate]
    intro h
    obtain ⟨a, b, hne, ha, hb⟩ := hleader h
    exact ⟨a, b, hne, ha.mono hid hpeers hterm hgrows, hb.mono hid hpeers hterm hgrows⟩
  · rwa [hlead, hterm, hstate, hid]

/-- A node that is neither candidate nor leader has nothing to show but its lead. -/
theorem Founded.of_passive (hfounded : r.Founded ev) (hid : next.id = r.id)
    (hpeers : next.peers = r.peers) (hcandidate : next.state ≠ .candidate)
    (hleader : next.state ≠ .leader) (hlead : next.lead ≠ 0 → ev.led next.lead next.term) :
    next.Founded ev where
  member := by rw [hid, hpeers]; exact hfounded.member
  three := by rw [hpeers]; exact hfounded.three
  votes h := absurd h hcandidate
  leader h := absurd h hleader
  lead h := .inl (hlead h)

section

variable [Blob D]

/-- A candidate with more than half of the votes has two supporters. -/
theorem Founded.crown (hfounded : r.Founded ev) (hstate : r.state = .candidate)
    (hcount : r.votes.count (fun granted => granted) > r.peers.length / 2) :
    r.becomeLeader.Founded ev := by
  obtain ⟨hmember, hthree, hcandidate, _, _⟩ := hfounded
  rw [hthree] at hcount
  obtain ⟨a, b, x, y, hne, ha, hx, hb, hy⟩ := Table.exists_two_of_count (by simpa using hcount)
  refine ⟨hmember, hthree, (fun h => by cases h), fun _ => ⟨a, b, hne, ?_, ?_⟩,
    fun _ => .inr ⟨rfl, rfl⟩⟩
  · exact (hcandidate hstate a (hx ▸ ha)).mono rfl rfl rfl List.prefix_rfl
  · exact (hcandidate hstate b (hy ▸ hb)).mono rfl rfl rfl List.prefix_rfl

theorem Move.founded (hsupports : ∀ msg, o.message msg → ev.Supports msg) (hterms : r.InTerm)
    (hcast : r.storageFailed = false → r.Cast) (hgrows : r.synced <+: next.synced)
    (hfounded : r.Founded ev) (hmove : Move o r next) : next.Founded ev := by
  have hstored (hsaves : Saves r next) : next.Founded ev := by
    obtain ⟨_, _, _, _, _, _, _, _, _, _, rfl⟩ := hsaves.frame
    exact hfounded.of_same rfl rfl rfl hgrows rfl rfl rfl
  cases hmove with
  | raise msg lead hmsg _ haddressed hterm hlead =>
      rw [becomeFollower_of_lt hterm] at hgrows ⊢
      refine hfounded.of_passive rfl rfl (fun h => by cases h) (fun h => by cases h) fun hne => ?_
      rcases hlead with rfl | ⟨hfrom, rfl⟩
      · exact absurd rfl hne
      · exact (hsupports msg hmsg).leader hfrom
  | demote msg hmsg _ _ hfrom hterm =>
      rw [becomeFollower_of_eq hterm] at hgrows ⊢
      refine hfounded.of_passive rfl rfl (fun h => by cases h) (fun h => by cases h) fun _ => ?_
      exact (show msg.term = r.term from hterm) ▸ (hsupports msg hmsg).leader hfrom
  | follow msg hmsg _ hfrom hterm hstate =>
      refine hfounded.of_passive rfl rfl ?_ ?_ fun _ => ?_
      · simp [hstate]
      · simp [hstate]
      · exact (show msg.term = r.term from hterm) ▸ (hsupports msg hmsg).leader hfrom
  | withdraw =>
      exact hfounded.of_passive rfl rfl (fun h => by cases h) (fun h => by cases h)
        (fun h => absurd rfl h)
  | stand =>
      refine ⟨hfounded.member, hfounded.three, fun _ v hv => ?_, (fun h => by cases h),
        fun h => absurd rfl h⟩
      cases hv
  | canvass hstate =>
      unfold campaign
      split
      · exact hfounded
      next hhealthy =>
        have hself := hterms.candidate hstate
        have hvoted := (hcast (by simpa using hhealthy)).voted (hself ▸ hterms.id_ne_zero)
        rw [hself] at hvoted
        refine ⟨hfounded.member, hfounded.three, fun _ v hv => ?_,
          fun h => by simp [hstate] at h, ?_⟩
        · simp only [Table.get?_insert] at hv
          split at hv
          next heq =>
            subst heq
            exact ⟨hfounded.member, .inl ⟨rfl, hvoted⟩⟩
          · exact (hfounded.votes hstate v hv).mono rfl rfl rfl List.prefix_rfl
        · exact hfounded.lead
  | grant msg =>
      exact hfounded.of_same rfl rfl rfl hgrows rfl rfl rfl
  | recordVote msg hmsg htype haddressed hgranted hterm hstate =>
      refine ⟨hfounded.member, hfounded.three, fun _ v hv => ?_, fun h => by simp [hstate] at h,
        hfounded.lead⟩
      simp only [Table.get?_insert] at hv
      split at hv
      next heq =>
        subst heq
        have hvoted := (hsupports msg hmsg).granted htype hgranted
        rw [hterm, receiver_eq_id haddressed] at hvoted
        exact ⟨sender_mem_peers haddressed, .inr hvoted⟩
      · exact (hfounded.votes hstate v hv).mono rfl rfl rfl List.prefix_rfl
  | crown msg _ _ hstate _ hcount => exact hfounded.crown hstate hcount
  | sound =>
      unfold preCampaign at hgrows ⊢
      split
      · exact hfounded
      · exact hfounded.of_same rfl rfl rfl List.prefix_rfl rfl rfl rfl
  | accept | choose | extend | apply | compact => exact hstored (by constructor)
  | install => exact hstored (.install _)
  | _ => exact hfounded.of_same rfl rfl rfl hgrows rfl rfl rfl

end

/-! ## What it says -/

/-- Every queued message is stamped by this node, and a vote it grants is in its file. -/
structure Spoken (r : Raft D) (msg : Message D) : Prop where
  term_lt : msg.term < 2 ^ 64
  sender : msg.sender = r.id
  granted : msg.type = .requestVoteResponse → msg.voteGranted = true →
    Voted r.synced msg.term msg.receiver

theorem Spoken.mono (hid : next.id = r.id) (hgrows : r.synced <+: next.synced)
    (hspoken : r.Spoken msg) : next.Spoken msg :=
  ⟨hspoken.term_lt, hspoken.sender.trans hid.symm,
    fun htype hgranted => (hspoken.granted htype hgranted).mono hgrows⟩

variable [Blob D]

theorem Sent.spoken (hterms : next.InTerm) (hcast : next.storageFailed = false → next.Cast)
    (hsent : Sent o r next msg) : next.Spoken msg := by
  have hlt := hterms.term_lt
  cases hsent with
  | plain msg hplain hterm hsender =>
      refine ⟨hterm ▸ hlt, hsender, fun htype hgranted => ?_⟩
      simp [Message.Plain, htype, hgranted] at hplain
  | preVote peer hpending =>
      refine ⟨?_, rfl, fun h => by cases h⟩
      show next.pendingPreVoteTerm < 2 ^ 64
      rw [hpending]
      exact wrap64_lt _
  | candidacy => exact ⟨hlt, rfl, fun h => by cases h⟩
  | vote request _ _ haddressed hhealthy _ hvote =>
      refine ⟨hlt, rfl, fun _ _ => ?_⟩
      have hvoted := (hcast hhealthy).voted (hvote ▸ sender_ne_zero haddressed)
      rwa [hvote] at hvoted
  | heartbeat peer =>
      unfold heartbeatFor
      split <;> exact ⟨hlt, rfl, fun h => by cases h⟩
  | snapshot => exact ⟨hlt, rfl, fun h => by cases h⟩
  | accepted request _ _ _ _ hnext =>
      obtain ⟨success, index, heq⟩ := r.acceptEntries_reply request
      rw [hnext] at hlt ⊢
      rw [heq]
      exact ⟨hlt, rfl, fun h => by cases h⟩
  | stale request _ _ _ _ hnext =>
      rw [hnext] at hlt ⊢
      exact ⟨hlt, rfl, fun h => by cases h⟩
  | installed request _ _ _ hnext =>
      rw [hnext] at hlt ⊢
      exact ⟨hlt, rfl, fun h => by cases h⟩

/-! ## Whole calls -/

/-- What a call leaves behind, as far as elections go. -/
structure Office (ev : Evidence) (start r : Raft D) : Prop where
  id : r.id = start.id
  inTerm : r.InTerm
  ballots : Ballots start r
  founded : r.Founded ev
  spoken : ∀ msg ∈ r.msgs, r.Spoken msg

theorem Move.synced_grows (hmsgs : ∀ msg, o.message msg → msg.term < 2 ^ 64)
    (hterms : r.InTerm) (hcast : r.storageFailed = false → r.Cast)
    (hmove : Move o r next) : r.synced <+: next.synced := by
  cases hfailed : r.storageFailed with
  | false => exact (hmove.ballots hmsgs hterms (hcast hfailed) hfailed).grows
  | true => simp [synced, (hmove.of_failed hfailed).1]

theorem Moves.office (hsupports : ∀ msg, o.message msg → ev.Supports msg) (hterms : r.InTerm)
    (hcast : r.Cast) (hfounded : r.Founded ev) (hmsgs : r.msgs = []) (hmoves : Moves o r next) :
    Office ev r next := by
  have hlt : ∀ msg, o.message msg → msg.term < 2 ^ 64 :=
    fun msg hmsg => (hsupports msg hmsg).term_lt
  induction hmoves with
  | refl =>
      obtain ⟨hterms, hballots⟩ := Moves.ballots hlt hterms hcast .refl
      exact ⟨rfl, hterms, hballots, hfounded, by simp [hmsgs]⟩
  | tail hmoves hmove ih =>
      obtain ⟨hnext, hballots⟩ := Moves.ballots hlt hterms hcast (hmoves.tail hmove)
      have hgrows := hmove.synced_grows hlt ih.inTerm ih.ballots.cast
      refine ⟨hmove.same_config.1.trans ih.id, hnext, hballots,
        hmove.founded hsupports ih.inTerm ih.ballots.cast hgrows ih.founded, ?_⟩
      obtain ⟨new, hnew, hsent⟩ := hmove.sends
      intro msg hmsg
      rw [hnew] at hmsg
      rcases List.mem_append.mp hmsg with hold | hadded
      · exact (ih.spoken msg hold).mono hmove.same_config.1 hgrows
      · exact (hsent msg hadded).spoken hnext hballots.cast

/-- Only a vote makes a leader, and only of a node that can store. -/
theorem Move.was_leader_or (hmove : Move o r next) (hleader : next.state = .leader) :
    r.state = .leader ∧ next.term = r.term ∨
      r.storageFailed = false ∧ ∃ msg, o.message msg ∧ msg.type = .requestVoteResponse := by
  refine or_iff_not_imp_right.mpr fun hno => ?_
  have hstored (hsaves : Saves r next) : r.state = .leader ∧ next.term = r.term := by
    obtain ⟨_, _, _, _, _, _, _, _, _, _, rfl⟩ := hsaves.frame
    exact ⟨hleader, rfl⟩
  cases hmove with
  | raise msg lead _ _ _ hterm =>
      rw [becomeFollower_of_lt hterm] at hleader
      cases hleader
  | demote msg _ _ _ _ hterm =>
      rw [becomeFollower_of_eq hterm] at hleader
      cases hleader
  | withdraw | stand => cases hleader
  | crown msg hmsg htype _ hhealthy => exact absurd ⟨hhealthy, msg, hmsg, htype⟩ hno
  | sound =>
      unfold preCampaign at hleader ⊢
      split at hleader <;> exact ⟨hleader, by split <;> rfl⟩
  | canvass =>
      unfold campaign at hleader ⊢
      split at hleader <;> exact ⟨hleader, by split <;> rfl⟩
  | accept | choose | extend | apply | compact => exact hstored (by constructor)
  | install => exact hstored (.install _)
  | _ => exact ⟨hleader, rfl⟩

/-- The call itself is all a node hears of. -/
def heard (input : Input D) : Outside D where
  message msg := input = .message msg
  snapshot _ _ _ := True
  room _ := True
  install _ _ := True

theorem heard_allows (input : Input D) : r.Allows (heard input) input := by
  cases input with
  | message msg => exact ⟨rfl, fun _ _ _ _ => trivial⟩
  | _ => trivial

end Raft

end RaftKv
