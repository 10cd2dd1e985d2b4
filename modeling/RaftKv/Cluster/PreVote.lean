import RaftKv.Cluster.Trace

/-! # A new term needs a pre-vote quorum

Pre-vote responses of earlier rounds, terms and incarnations stay in the network and are
matched by their term alone. Still, whenever a node stands for a term, another member
has granted exactly that term to a request the node sent one term below.
-/

namespace RaftKv

/-- What a member checks before it grants a pre-vote. -/
structure Raft.Grants {D : Type} (r : Raft D) (req : Message D) : Prop where
  term : r.term < req.term
  idle : r.lead = 0 ∨ r.electionTimeout ≤ r.electionElapsed
  log : r.lastLogTerm < req.lastLogTerm ∨
    r.lastLogTerm = req.lastLogTerm ∧ r.lastLogIndex ≤ req.lastLogIndex

/-- Node `n` sent the request while it was one term below. -/
def Asked (past : List Event) (n : Nat) (req : Message Capture) : Prop :=
  ∃ c env input, (c, Action.call n env input) ∈ past ∧
    req ∈ ((c.node n).act env input).2 ∧ (c.node n).term + 1 = req.term

/-- Member `m` handled a pre-vote request for term `t` that `n` had sent before, met its
conditions and answered yes. -/
def Granted (past : List Event) (m n t : Nat) : Prop :=
  ∃ later before c env req, past = later ++ (c, Action.call m env (.message req)) :: before ∧
    req.type = .preVote ∧ req.sender = n ∧ req.receiver = m ∧ req.term = t ∧
    Asked before n req ∧ (c.node m).Grants req ∧
    ∃ reply ∈ ((c.node m).act env (.message req)).2,
      reply.type = .preVoteResponse ∧ reply.voteGranted = true

theorem Asked.mono {past : List Event} {n : Nat} {req : Message Capture} (event : Event)
    (hasked : Asked past n req) : Asked (event :: past) n req := by
  obtain ⟨c, env, input, hmem, hsent⟩ := hasked
  exact ⟨c, env, input, List.mem_cons_of_mem _ hmem, hsent⟩

theorem Granted.mono {past : List Event} {m n t : Nat} (event : Event)
    (hgranted : Granted past m n t) : Granted (event :: past) m n t := by
  obtain ⟨later, before, c, env, req, rfl, hgrant⟩ := hgranted
  exact ⟨event :: later, before, c, env, req, rfl, hgrant⟩

section Node

variable {D : Type} [Blob D] {r : Raft D} {req : Message D}

theorem Raft.handlePreVote_grants (hgranted : (r.handlePreVote req).voteGranted = true) :
    r.Grants req ∧ (r.handlePreVote req).sender = r.id ∧
      (r.handlePreVote req).receiver = req.sender ∧
      (r.handlePreVote req).preVoteTerm = req.term := by
  unfold handlePreVote at hgranted ⊢
  split at hgranted
  · cases hgranted
  next hrejects =>
    rw [if_neg hrejects]
    split at hgranted
    · cases hgranted
    next hterm =>
      rw [if_neg hterm]
      split at hgranted
      · cases hgranted
      next hidle =>
        rw [if_neg hidle]
        refine ⟨⟨?_, ?_, ?_⟩, rfl, rfl, rfl⟩
        · exact not_le.mp fun h => hterm (.inr h)
        · rw [not_and_or, not_not, not_lt] at hidle
          exact hidle
        · have hlog : r.isLogUpToDate req.lastLogIndex req.lastLogTerm = true := hgranted
          unfold isLogUpToDate at hlog
          split at hlog
          · exact .inl (by simpa using hlog)
          next hsame => exact .inr ⟨(not_not.mp hsame).symm, by simpa using hlog⟩

end Node

/-- What holds of the pre-votes of a run. -/
structure PreVotes (setup : Setup) (past : List Event) (c : Cluster) : Prop where
  asked : ∀ req ∈ c.net, req.type = .preVote → req.term ≠ 0 → Asked past req.sender req
  granted : ∀ reply ∈ c.net, reply.type = .preVoteResponse → reply.voteGranted = true →
    Granted past reply.sender reply.receiver reply.preVoteTerm
  supporters : ∀ n ∈ setup.members, (c.node n).state = .preCandidate → ∀ m,
    (c.node n).preVotes.get? m = some true →
      m = n ∨ m ∈ setup.members ∧ Granted past m n (c.node n).pendingPreVoteTerm

variable {setup : Setup} {c next : Cluster} {past : List Event}

/-- A node's supporters, the sender of a response that is being counted included. -/
theorem PreVotes.recorded {n : Nat} {env : Env} {msg : Message Capture}
    (hpre : PreVotes setup past c) (helections : Elections setup (c :: past.map Prod.fst) c)
    (hn : n ∈ setup.members) (hmsg : msg ∈ c.net)
    (hcounts : ((c.node n).arm env).CountsPreVote msg) {m : Nat}
    (hm : (((c.node n).arm env).recordPreVote msg).preVotes.get? m = some true) :
    m = n ∨ m ∈ setup.members ∧ Granted past m n (c.node n).pendingPreVoteTerm := by
  have hold := hpre.supporters n hn hcounts.state m
  unfold Raft.recordPreVote at hm
  split at hm
  next hyes =>
    simp only [Table.get?_insert] at hm
    split at hm
    next hsender =>
      have haddressed := hcounts.addressed
      have hmember : msg.sender ∈ (c.node n).peers := Raft.sender_mem_peers haddressed
      have hreceiver : msg.receiver = (c.node n).id := Raft.receiver_eq_id haddressed
      rw [helections.peers n hn] at hmember
      rw [helections.id n hn] at hreceiver
      have hgranted := hpre.granted msg hmsg hcounts.type hyes
      rw [hreceiver, hcounts.pending, ← hsender] at hgranted
      exact .inr ⟨hsender ▸ hmember, hgranted⟩
    · exact hold hm
  · exact hold hm

/-- The supporters of a node after a call. -/
theorem PreVotes.role {n m : Nat} {env : Env} {input : Input Capture} {role : Role}
    (hpre : PreVotes setup past c) (helections : Elections setup (c :: past.map Prod.fst) c)
    (hn : n ∈ setup.members) (hmay : c.mayCall n input = true)
    (hchange : Raft.RoleChange ((c.node n).arm env) input role)
    (hstate : role.state = .preCandidate) (hm : role.preVotes.get? m = some true) :
    m = n ∨ m ∈ setup.members ∧ Granted past m n role.pendingPreVoteTerm := by
  have hold := hpre.supporters n hn
  cases hchange with
  | same => exact hold hstate m hm
  | follow => cases hstate
  | canvass =>
      simp only [Table.get?_insert, Table.get?_empty] at hm
      split at hm
      next hself => exact .inl (hself.trans (helections.id n hn))
      · cases hm
  | preVote msg hinput hcounts =>
      subst hinput
      exact hpre.recorded helections hn (Cluster.mem_net_of_mayCall hmay).1 hcounts hm
  | stand => cases hstate
  | crown => cases hstate
  | ack => exact hold hstate m hm
  | start => exact hold hstate m hm
  | give => exact hold hstate m hm
  | finish => exact hold hstate m hm

theorem PreVotes.call {n : Nat} {env : Env} {input : Input Capture} (hpre : PreVotes setup past c)
    (helections : Elections setup (c :: past.map Prod.fst) c)
    (hstep : c.step setup (.call n env input) = some next) :
    PreVotes setup ((c, .call n env input) :: past) next := by
  have hself := (helections.step hstep).id n
  obtain ⟨hn, hmay, rfl⟩ := Cluster.step_call hstep
  replace hself : ((c.node n).act env input).1.id = n := by simpa using hself hn
  have hnode := helections.elector n hn
  have hemits : ∀ msg ∈ ((c.node n).act env input).2, Raft.Emits ((c.node n).arm env) input
      ((c.node n).act env input).1 msg := fun msg hmsg => Raft.act_emits hnode.silent hmsg
  refine ⟨fun req hreq htype hterm => ?_, fun reply hreply htype hyes => ?_,
    fun i hi hstate m hm => ?_⟩
  · rcases List.mem_append.mp hreq with hold | hsent
    · exact (hpre.asked req hold htype hterm).mono _
    · cases hemits req hsent with
      | preVote peer hinput hsame hpending =>
          have hbound := hnode.inTerm.term_lt
          have hterm' : wrap64 ((c.node n).term + 1) ≠ 0 := by
            rw [show (c.node n).term = _ from hsame.symm, ← hpending]
            exact hterm
          have hsucc : wrap64 ((c.node n).term + 1) = (c.node n).term + 1 := by
            refine wrap64_of_lt (lt_of_le_of_ne hbound fun hwrap => hterm' ?_)
            rw [hwrap]
            rfl
          rw [show (((c.node n).act env input).1.makePreVote peer).sender = n from hself]
          refine ⟨c, env, input, List.mem_cons_self, hsent, ?_⟩
          show (c.node n).term + 1 = ((c.node n).act env input).1.pendingPreVoteTerm
          rw [hpending, hsame]
          exact hsucc.symm
      | preVoteReply request => simp [Raft.handlePreVote_type] at htype
      | entries _ hentries | snapshot _ hentries => simp [hentries] at htype
      | reply => simp [Raft.appendResponse] at htype
      | other _ hnot => exact absurd htype hnot
  · rcases List.mem_append.mp hreply with hold | hsent
    · exact (hpre.granted reply hold htype hyes).mono _
    · cases hemits reply hsent with
      | preVoteReply request hinput hrequest =>
          subst hinput
          obtain ⟨hgrants, hsender, hreceiver, hasked⟩ := Raft.handlePreVote_grants hyes
          obtain ⟨hmem, haddress⟩ := Cluster.mem_net_of_mayCall hmay
          rw [hsender, hreceiver, hasked, show ((c.node n).arm env).id = n from helections.id n hn]
          refine ⟨[], past, c, env, request, rfl, hrequest, rfl, haddress, rfl, ?_,
            ⟨hgrants.term, hgrants.idle, hgrants.log⟩, _, hsent, htype, hyes⟩
          exact hpre.asked request hmem hrequest (Nat.ne_of_gt (Nat.zero_lt_of_lt hgrants.term))
      | preVote peer => simp [Raft.makePreVote] at htype
      | entries _ hentries | snapshot _ hentries => simp [hentries] at htype
      | reply => simp [Raft.appendResponse] at htype
      | other _ _ hnot => exact absurd htype hnot
  · by_cases hin : i = n
    · subst hin
      rw [show ({ c.setNode i _ with net := _ } : Cluster).node i = _ from
        c.setNode_node_self i _] at hstate hm ⊢
      exact (hpre.role helections hn hmay (Raft.act_role (c.node i) env input) hstate hm).imp_right
        fun h => ⟨h.1, h.2.mono _⟩
    · rw [show ({ c.setNode n _ with net := _ } : Cluster).node i = c.node i from
        c.setNode_node_of_ne _ hin] at hstate hm ⊢
      exact (hpre.supporters i hi hstate m hm).imp_right fun h => ⟨h.1, h.2.mono _⟩

/-- Of two supporters one is another node. -/
theorem PreVotes.candidacy {n : Nat} {env : Env} {input : Input Capture} {role : Role}
    (hpre : PreVotes setup past c) (helections : Elections setup (c :: past.map Prod.fst) c)
    (hn : n ∈ setup.members) (hmay : c.mayCall n input = true)
    (hchange : Raft.RoleChange ((c.node n).arm env) input role)
    (hcandidate : role.state = .candidate)
    (hentered : (c.node n).state ≠ .candidate ∨ role.term ≠ (c.node n).term) :
    role.term = (c.node n).term + 1 ∧
      ∃ m ∈ setup.members, m ≠ n ∧ Granted past m n role.term := by
  have hnot : role.state = (c.node n).state → role.term = (c.node n).term → False :=
    fun hstate hterm => hentered.elim (fun h => h (hstate ▸ hcandidate)) (fun h => h hterm)
  cases hchange with
  | stand msg hinput hcounts hquorum =>
      subst hinput
      have hpeers : ((c.node n).arm env).peers.length = 3 := by
        rw [show ((c.node n).arm env).peers = _ from helections.peers n hn, setup.three]
      rw [hpeers] at hquorum
      have hterms := (helections.elector n hn).inTerm
      have hsucc := wrap64_of_lt (hterms.term_succ hcounts.asked)
      have hpending : (c.node n).pendingPreVoteTerm = (c.node n).term + 1 :=
        (hterms.pending.resolve_left hcounts.asked).trans hsucc
      refine ⟨hsucc, ?_⟩
      obtain ⟨a, b, x, y, hne, ha, hx, hb, hy⟩ := Table.exists_two_of_count hquorum
      obtain rfl : x = true := hx
      obtain rfl : y = true := hy
      have hgranted : ∀ m, (((c.node n).arm env).recordPreVote msg).preVotes.get? m = some true →
          m ≠ n → ∃ m ∈ setup.members, m ≠ n ∧
          Granted past m n (wrap64 ((c.node n).term + 1)) := by
        intro m hm hmn
        have hgrant := (hpre.recorded helections hn (Cluster.mem_net_of_mayCall hmay).1 hcounts
          hm).resolve_left hmn
        rw [hpending, ← hsucc] at hgrant
        exact ⟨m, hgrant.1, hmn, hgrant.2⟩
      by_cases han : a = n
      · exact hgranted b hb (fun hbn => hne (han.trans hbn.symm))
      · exact hgranted a ha han
  | same => exact (hnot rfl rfl).elim
  | follow => cases hcandidate
  | canvass => cases hcandidate
  | preVote => exact (hnot rfl rfl).elim
  | crown => cases hcandidate
  | ack => exact (hnot rfl rfl).elim
  | start => exact (hnot rfl rfl).elim
  | give => exact (hnot rfl rfl).elim
  | finish => exact (hnot rfl rfl).elim

theorem PreVotes.restart {n : Nat} {draws : List Nat} (hpre : PreVotes setup past c)
    (hstep : c.step setup (.restart n draws) = some next) :
    PreVotes setup ((c, .restart n draws) :: past) next := by
  obtain ⟨hn, r, hboot, rfl⟩ := Cluster.step_restart hstep
  refine ⟨fun req hreq htype hterm => (hpre.asked req hreq htype hterm).mono _,
    fun reply hreply htype hyes => (hpre.granted reply hreply htype hyes).mono _,
    fun i hi hstate m hm => ?_⟩
  by_cases hin : i = n
  · subst hin
    rw [c.setNode_node_self, (boot_booted hboot).state] at hstate
    cases hstate
  · rw [c.setNode_node_of_ne r hin] at hstate hm ⊢
    exact (hpre.supporters i hi hstate m hm).imp_right fun h => ⟨h.1, h.2.mono _⟩

theorem Trace.preVotes {Ok : Cluster → Action → Prop} (htrace : Trace setup Ok past c) :
    PreVotes setup past c := by
  induction htrace with
  | start c hinitial =>
      refine ⟨by simp [hinitial.1], by simp [hinitial.1], fun n hn hstate => ?_⟩
      obtain ⟨draws, hboot⟩ := hinitial.2 n hn
      rw [(boot_booted hboot).state] at hstate
      cases hstate
  | step c next past action htrace _ hstep ih =>
      cases action with
      | call n env input => exact ih.call htrace.elections hstep
      | restart n draws => exact ih.restart hstep

/-- Whoever enters a candidacy was one term below, and another member had granted exactly
that term to a request it had sent from there. -/
theorem candidacy_needs_preVote {action : Action} (htrace : Trace setup Anything past c)
    (hstep : c.step setup action = some next) {n : Nat} (hn : n ∈ setup.members)
    (hcandidate : (next.node n).state = .candidate)
    (hentered : (c.node n).state ≠ .candidate ∨ (next.node n).term ≠ (c.node n).term) :
    (next.node n).term = (c.node n).term + 1 ∧
      ∃ m ∈ setup.members, m ≠ n ∧ Granted past m n (next.node n).term := by
  have hpre := htrace.preVotes
  have helections := htrace.elections
  cases action with
  | restart i draws =>
      obtain ⟨-, r, hboot, rfl⟩ := Cluster.step_restart hstep
      by_cases hin : n = i
      · subst hin
        rw [c.setNode_node_self, (boot_booted hboot).state] at hcandidate
        cases hcandidate
      · rw [c.setNode_node_of_ne r hin] at hcandidate hentered
        exact absurd hcandidate (hentered.resolve_right fun h => h rfl)
  | call i env input =>
      obtain ⟨-, hmay, rfl⟩ := Cluster.step_call hstep
      by_cases hin : n = i
      · subst hin
        rw [show ({ c.setNode n _ with net := _ } : Cluster).node n = _ from
          c.setNode_node_self n _] at hcandidate hentered ⊢
        exact hpre.candidacy helections hn hmay (Raft.act_role (c.node n) env input) hcandidate
          hentered
      · rw [show ({ c.setNode i _ with net := _ } : Cluster).node n = c.node n from
          c.setNode_node_of_ne _ hin] at hcandidate hentered
        exact absurd hcandidate (hentered.resolve_right fun h => h rfl)

theorem canvassed_records :
    (Cluster.record (trio 1) Anything [] (Cluster.fresh 1)
      [Cluster.tick 1, Cluster.deliver 0]).isSome := by
  decide +kernel

/-- Node 1 has asked for term 1 and node 2 has said yes. -/
def canvassed : List Event × Cluster :=
  (Cluster.record (trio 1) Anything [] (Cluster.fresh 1)
    [Cluster.tick 1, Cluster.deliver 0]).get canvassed_records

theorem canvassed_trace : Trace (trio 1) Anything canvassed.1 canvassed.2 :=
  Trace.record (.start _ (Cluster.fresh_initial 1)) (Option.some_get canvassed_records).symm

theorem canvassed_steps :
    (canvassed.2.step (trio 1) (Cluster.deliver 2 canvassed.2)).isSome := by
  decide +kernel

theorem candidacy_needs_preVote_canvassed :
    ∃ next, canvassed.2.step (trio 1) (Cluster.deliver 2 canvassed.2) = some next ∧
      (next.node 1).state = .candidate ∧ (next.node 1).term = (canvassed.2.node 1).term + 1 ∧
      ∃ m ∈ (trio 1).members, m ≠ 1 ∧ Granted canvassed.1 m 1 (next.node 1).term :=
  have hstands : (((canvassed.2.step (trio 1) (Cluster.deliver 2 canvassed.2)).get
      canvassed_steps).node 1).state = .candidate := by decide +kernel
  ⟨_, (Option.some_get canvassed_steps).symm, hstands,
    candidacy_needs_preVote canvassed_trace (Option.some_get canvassed_steps).symm (by decide)
      hstands (.inl (by decide +kernel))⟩

end RaftKv
