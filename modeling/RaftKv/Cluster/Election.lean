import RaftKv.Cluster.State
import RaftKv.Raft.Emit

/-! # Election safety

Votes are counted only if they are in some node's file, a file holds one vote a
term, and two majorities of three nodes share a node. So a term has one leader in
the whole run, and whoever a node follows has been that leader.
-/

namespace RaftKv

variable {D : Type}

/-! ## One node -/

/-- One body of evidence contains another. -/
structure Evidence.Extends (ev more : Evidence) : Prop where
  voted : ∀ v t x, ev.voted v t x → more.voted v t x
  led : ∀ x t, ev.led x t → more.led x t

variable {ev more : Evidence} {r : Raft D} {msg : Message D}

theorem Evidence.Supports.extend (hextends : ev.Extends more) (hsupports : ev.Supports msg) :
    more.Supports msg where
  term_lt := hsupports.term_lt
  granted htype hgranted := hextends.voted _ _ _ (hsupports.granted htype hgranted)
  leader hfrom := hextends.led _ _ (hsupports.leader hfrom)

namespace Raft

theorem SupportedBy.extend {v : Nat} (hextends : ev.Extends more) (h : r.SupportedBy ev v) :
    r.SupportedBy more v :=
  ⟨h.1, h.2.imp_right (hextends.voted _ _ _)⟩

theorem Founded.extend (hextends : ev.Extends more) (hfounded : r.Founded ev) :
    r.Founded more where
  member := hfounded.member
  three := hfounded.three
  votes hstate v hv := (hfounded.votes hstate v hv).extend hextends
  leader hstate := by
    obtain ⟨a, b, hne, ha, hb⟩ := hfounded.leader hstate
    exact ⟨a, b, hne, ha.extend hextends, hb.extend hextends⟩
  lead hne := (hfounded.lead hne).imp_left (hextends.led _ _)

/-- What holds of a node between calls, whether or not its storage has failed. -/
structure Elector (ev : Evidence) (r : Raft D) : Prop where
  inTerm : r.InTerm
  ordered : Ordered r.synced
  bounded : ∀ p ∈ votesIn r.synced, p.1 < 2 ^ 64
  cast : r.storageFailed = false → r.Cast
  silent : r.storageFailed = false → r.msgs = []
  founded : r.Founded ev

theorem Elector.extend (hextends : ev.Extends more) (helector : r.Elector ev) : r.Elector more :=
  { helector with founded := helector.founded.extend hextends }

theorem InTerm.arm [Blob D] (hterms : r.InTerm) (env : Env) : (r.arm env).InTerm :=
  ⟨hterms.term_lt, hterms.pending, hterms.id_ne_zero, hterms.candidate⟩

theorem Cast.arm [Blob D] (hcast : r.Cast) (env : Env) : (r.arm env).Cast := by
  obtain ⟨w, hwal, hfailed, hordered, hlast, hbuffer⟩ := hcast
  exact ⟨{ w with device := env.device }, by simp [Raft.arm, hwal], hfailed, hordered, hlast,
    hbuffer⟩

@[simp] theorem synced_arm [Blob D] (r : Raft D) (env : Env) : (r.arm env).synced = r.synced := by
  cases hwal : r.wal <;> simp [synced, Raft.arm, hwal]

theorem Founded.arm [Blob D] (hfounded : r.Founded ev) (env : Env) : (r.arm env).Founded ev :=
  hfounded.of_same rfl rfl rfl (by simp) rfl rfl rfl

variable [Blob D]

/-- What a call did to the node, and what it made the node say. -/
structure Acted (ev : Evidence) (r next : Raft D) (sent : List (Message D)) : Prop where
  elector : next.Elector ev
  id : next.id = r.id
  peers : next.peers = r.peers
  grows : r.synced <+: next.synced
  spoken : ∀ msg ∈ sent, next.Spoken msg
  leads : ∀ msg ∈ sent, msg.FromLeader → next.state = .leader ∧ msg.term = next.term

theorem Elector.act (env : Env) {input : Input D}
    (hsupports : ∀ msg, input = .message msg → ev.Supports msg) (helector : r.Elector ev) :
    Acted ev r (r.act env input).1 (r.act env input).2 := by
  unfold Raft.act
  split
  · exact ⟨helector, rfl, rfl, List.prefix_rfl, by simp, by simp⟩
  next hhealthy =>
    rw [Bool.not_eq_true] at hhealthy
    have harmed : (r.arm env).storageFailed = false := hhealthy
    have hsilent : (r.arm env).msgs = [] := helector.silent hhealthy
    have hmoves := step_moves harmed (heard_allows input)
    have hconfig := hmoves.same_config
    obtain ⟨-, hterms, ⟨hgrows, hordered, hbounded, hcast⟩, hfounded, hspoken⟩ :=
      hmoves.office (fun msg hmsg => hsupports msg hmsg) (helector.inTerm.arm env)
        ((helector.cast hhealthy).arm env) (helector.founded.arm env) hsilent
    rw [synced_arm] at hgrows
    split
    next hfailed =>
      exact ⟨⟨hterms, hordered, hbounded, hcast, (fun h => by rw [h] at hfailed; cases hfailed),
        hfounded⟩,
        hconfig.1, hconfig.2.1, hgrows, by simp, by simp⟩
    · refine ⟨⟨⟨hterms.term_lt, hterms.pending, hterms.id_ne_zero, hterms.candidate⟩, hordered,
        hbounded, hcast, fun _ => rfl, ?_⟩, hconfig.1, hconfig.2.1, hgrows,
        fun msg hmsg => Spoken.mono (r := (r.arm env).step input) rfl List.prefix_rfl
          (hspoken msg hmsg),
        fun msg hmsg hfrom => step_leads hsilent hmsg hfrom⟩
      exact hfounded.of_same rfl rfl rfl List.prefix_rfl rfl rfl rfl

end Raft

variable [Blob D]

/-- A started node is an elector with no commitments but the votes in its file. -/
theorem Booted.elector {config : Config} {file : List (Record D)} (hbooted : Booted config file r)
    (hordered : Ordered file) (hbounded : ∀ p ∈ votesIn file, p.1 < 2 ^ 64) : r.Elector ev := by
  have hlast : lastVote file = (r.term, r.votedFor) := by
    rw [hbooted.term, hbooted.vote, lastVote_replay]
  have hterm : r.term < 2 ^ 64 := by
    rw [show r.term = (lastVote file).1 by rw [hlast]]
    unfold lastVote
    cases hvotes : (votesIn file).getLast? with
    | none => decide
    | some p => exact hbounded p (List.mem_of_getLast? hvotes)
  have hsynced : r.synced = file := by simp [Raft.synced, hbooted.wal]
  have hvalid := hbooted.valid
  simp only [Config.valid, Bool.not_eq_true', Bool.or_eq_false_iff, bne_eq_false_iff_eq,
    Bool.not_eq_false', List.contains_iff_mem] at hvalid
  refine ⟨hbooted.inTerm hterm, hsynced ▸ hordered, hsynced ▸ hbounded, fun _ => ?_,
    fun _ => hbooted.msgs, ?_, ?_, fun h => ?_, fun h => ?_, fun h => absurd hbooted.lead h⟩
  · exact ⟨_, hbooted.wal, hbooted.healthy.symm, hordered, hlast, by simp [votesIn]⟩
  · rw [hbooted.id, hbooted.peers]
    exact hvalid.2
  · rw [hbooted.peers]
    exact hvalid.1.1.1.2
  · rw [hbooted.state] at h
    cases h
  · rw [hbooted.state] at h
    cases h

/-! ## The cluster -/

variable {setup : Setup} {c next : Cluster} {past : List Cluster}

/-- Node `x` leads term `t` in one of the states. -/
def Led (setup : Setup) (states : List Cluster) (x t : Nat) : Prop :=
  x ∈ setup.members ∧ ∃ c ∈ states, (c.node x).state = .leader ∧ (c.node x).term = t

/-- The files of two nodes record a vote for `x` in term `t`. -/
def Cluster.Won (setup : Setup) (c : Cluster) (x t : Nat) : Prop :=
  ∃ a b, a ≠ b ∧ a ∈ setup.members ∧ b ∈ setup.members ∧
    Voted (c.node a).synced t x ∧ Voted (c.node b).synced t x

/-- The votes on disk, and the leaders of all states so far. -/
def Cluster.evidence (setup : Setup) (states : List Cluster) (c : Cluster) : Evidence where
  voted v t x := Voted (c.node v).synced t x
  led := Led setup states

structure Elections (setup : Setup) (states : List Cluster) (c : Cluster) : Prop where
  id : ∀ i ∈ setup.members, (c.node i).id = i
  peers : ∀ i ∈ setup.members, (c.node i).peers = setup.members
  elector : ∀ i ∈ setup.members, (c.node i).Elector (c.evidence setup states)
  net : ∀ msg ∈ c.net, (c.evidence setup states).Supports msg
  won : ∀ x t, Led setup states x t → c.Won setup x t

/-- Two nodes that won a term are one. -/
theorem Elections.won_unique {states : List Cluster} (helections : Elections setup states c)
    {x y t : Nat} (hx : c.Won setup x t) (hy : c.Won setup y t) : x = y := by
  obtain ⟨a, b, hab, ha, hb, hax, hbx⟩ := hx
  obtain ⟨a', b', hab', ha', hb', hay, hby⟩ := hy
  rcases two_of_three setup.three hab hab' ha hb ha' hb' with rfl | rfl | rfl | rfl
  · exact (helections.elector _ ha).ordered.voted_unique hax hay
  · exact (helections.elector _ ha).ordered.voted_unique hax hby
  · exact (helections.elector _ hb).ordered.voted_unique hbx hay
  · exact (helections.elector _ hb).ordered.voted_unique hbx hby

/-- One node moved on, its file grew, and what it said has evidence by now. -/
theorem Elections.advance {n : Nat} {r : Raft Capture} (hn : n ∈ setup.members)
    (helections : Elections setup (c :: past) c) (hnode : next.node n = r)
    (hothers : ∀ i, i ≠ n → next.node i = c.node i) (hgrows : (c.node n).synced <+: r.synced)
    (hid : r.id = n) (hpeers : r.peers = setup.members)
    (helector : r.Elector (c.evidence setup (c :: past)))
    (hnet : ∀ msg ∈ next.net, msg ∈ c.net ∨
      (next.evidence setup (next :: c :: past)).Supports msg) :
    Elections setup (next :: c :: past) next := by
  subst hnode
  have hfiles : ∀ i, (c.node i).synced <+: (next.node i).synced := by
    intro i
    by_cases hi : i = n
    · exact hi ▸ hgrows
    · rw [hothers i hi]
  have hextends : (c.evidence setup (c :: past)).Extends
      (next.evidence setup (next :: c :: past)) :=
    ⟨fun v t x hvoted => hvoted.mono (hfiles v),
      fun x t ⟨hx, c', hc', hled⟩ => ⟨hx, c', List.mem_cons_of_mem _ hc', hled⟩⟩
  have hwon : ∀ x t, c.Won setup x t → next.Won setup x t :=
    fun x t ⟨a, b, hab, ha, hb, hax, hbx⟩ =>
      ⟨a, b, hab, ha, hb, hax.mono (hfiles a), hbx.mono (hfiles b)⟩
  refine ⟨fun i hi => ?_, fun i hi => ?_, fun i hi => ?_, fun msg hmsg => ?_, fun x t hled => ?_⟩
  · by_cases hin : i = n
    · exact hin ▸ hid
    · rw [hothers i hin]
      exact helections.id i hi
  · by_cases hin : i = n
    · exact hin ▸ hpeers
    · rw [hothers i hin]
      exact helections.peers i hi
  · by_cases hin : i = n
    · exact hin ▸ helector.extend hextends
    · rw [hothers i hin]
      exact (helections.elector i hi).extend hextends
  · exact (hnet msg hmsg).elim (fun h => (helections.net msg h).extend hextends) (fun h => h)
  · obtain ⟨hx, c', hc', hstate, hterm⟩ := hled
    rcases List.mem_cons.mp hc' with rfl | hpast
    · by_cases hxn : x = n
      · -- a new leader was supported by two nodes
        subst hxn
        obtain ⟨a, b, hab, ⟨ha, hvoteA⟩, hb, hvoteB⟩ := helector.founded.leader hstate
        rw [hpeers] at ha hb
        rw [hid, hterm] at hvoteA hvoteB
        refine ⟨a, b, hab, ha, hb, ?_, ?_⟩
        · exact hvoteA.elim (fun ⟨heq, h⟩ => heq ▸ h) (fun h => Voted.mono (hfiles a) h)
        · exact hvoteB.elim (fun ⟨heq, h⟩ => heq ▸ h) (fun h => Voted.mono (hfiles b) h)
      · rw [hothers x hxn] at hstate hterm
        exact hwon x t (helections.won x t ⟨hx, c, List.mem_cons_self, hstate, hterm⟩)
    · exact hwon x t (helections.won x t ⟨hx, c', hpast, hstate, hterm⟩)

theorem Elections.step {action : Action} (helections : Elections setup (c :: past) c)
    (hstep : c.step setup action = some next) : Elections setup (next :: c :: past) next := by
  cases action with
  | call n env input =>
      obtain ⟨hn, hmay, rfl⟩ := Cluster.step_call hstep
      have hsupports : ∀ msg, input = .message msg →
          (c.evidence setup (c :: past)).Supports msg := by
        rintro msg rfl
        simp only [Cluster.mayCall, Bool.and_eq_true, decide_eq_true_eq] at hmay
        exact helections.net msg hmay.1
      have hacted := (helections.elector n hn).act env hsupports
      have hid := hacted.id.trans (helections.id n hn)
      refine helections.advance hn (c.setNode_node_self n _)
        (fun i hi => c.setNode_node_of_ne _ hi) hacted.grows hid
        (hacted.peers.trans (helections.peers n hn)) hacted.elector fun msg hmsg => ?_
      refine (List.mem_append.mp hmsg).imp_right fun hsent => ?_
      have hspoken := hacted.spoken msg hsent
      have hsender : msg.sender = n := hspoken.sender.trans hid
      refine ⟨hspoken.term_lt, fun htype hgranted => ?_, fun hfrom => ⟨hsender ▸ hn, ?_⟩⟩
      · simpa [Cluster.evidence, hsender] using hspoken.granted htype hgranted
      · rw [hsender]
        obtain ⟨hstate, hterm⟩ := hacted.leads msg hsent hfrom
        exact ⟨_, List.mem_cons_self, by simpa using hstate, by simpa using hterm.symm⟩
  | restart n draws =>
      obtain ⟨hn, r, hboot, rfl⟩ := Cluster.step_restart hstep
      have hbooted := boot_booted hboot
      have hold := helections.elector n hn
      refine helections.advance hn (c.setNode_node_self n r)
        (fun i hi => c.setNode_node_of_ne r hi) ?_ hbooted.id hbooted.peers
        (hbooted.elector hold.ordered hold.bounded) (fun msg hmsg => .inl hmsg)
      simp [Raft.synced, hbooted.wal]

theorem Elections.initial (hinitial : c.Initial setup) : Elections setup [c] c := by
  have hbooted : ∀ i ∈ setup.members, Booted (setup.config i) [] (c.node i) := by
    intro i hi
    obtain ⟨draws, hboot⟩ := hinitial.2 i hi
    exact boot_booted hboot
  refine ⟨fun i hi => (hbooted i hi).id, fun i hi => (hbooted i hi).peers,
    fun i hi => (hbooted i hi).elector .nil (by simp [votesIn]), by simp [hinitial.1], ?_⟩
  rintro x t ⟨hx, c', hc', hstate, -⟩
  obtain rfl := List.mem_singleton.mp hc'
  rw [(hbooted x hx).state] at hstate
  cases hstate

theorem Elections.led_lead (helections : Elections setup (c :: past) c) :
    ∀ i ∈ setup.members, (c.node i).lead ≠ 0 →
      Led setup (c :: past) (c.node i).lead (c.node i).term := by
  intro i hi hlead
  rcases (helections.elector i hi).founded.lead hlead with hled | ⟨hstate, hself⟩
  · exact hled
  · rw [hself.trans (helections.id i hi)]
    exact ⟨hi, c, List.mem_cons_self, hstate, rfl⟩

theorem Run.elections {Ok : Cluster → Action → Prop} (hrun : Run setup Ok (c :: past)) :
    Elections setup (c :: past) c := by
  generalize hstates : c :: past = states at hrun
  induction hrun generalizing c past with
  | start c' hinitial =>
      obtain ⟨rfl, rfl⟩ := List.cons.inj hstates
      exact .initial hinitial
  | step c' next past' action _ _ hstep ih =>
      obtain ⟨rfl, rfl⟩ := List.cons.inj hstates
      exact (ih rfl).step hstep

/-- Whatever the network, the disks and the restarts do, a term has one leader in the
whole run, and a node that follows some node in a term follows that leader. -/
theorem election_safety {states : List Cluster} (hrun : Run setup Anything states) :
    (∀ t x y, Led setup states x t → Led setup states y t → x = y) ∧
      ∀ c ∈ states, ∀ i ∈ setup.members, (c.node i).lead ≠ 0 →
        Led setup states (c.node i).lead (c.node i).term := by
  constructor
  · intro t x y hx hy
    obtain ⟨c, past, rfl⟩ : ∃ c past, states = c :: past := by
      cases hrun <;> exact ⟨_, _, rfl⟩
    have helections := hrun.elections
    exact helections.won_unique (helections.won x t hx) (helections.won y t hy)
  · induction hrun with
    | start c hinitial =>
        intro c' hc'
        obtain rfl := List.mem_singleton.mp hc'
        exact (Elections.initial hinitial).led_lead
    | step c next past action hrun hok hstep ih =>
        intro c' hc'
        rcases List.mem_cons.mp hc' with rfl | hpast
        · exact (hrun.elections.step hstep).led_lead
        · intro i hi hlead
          obtain ⟨hx, d, hd, hled⟩ := ih c' hpast i hi hlead
          exact ⟨hx, d, List.mem_cons_of_mem _ hd, hled⟩

/-- Node 1 leads term 1 and is followed by node 3, which then leads term 2. -/
def succession : List (Cluster → Action) :=
  electsOne ++ [Cluster.deliver 7, Cluster.tick 3, Cluster.deliver 10, Cluster.deliver 11,
    Cluster.deliver 13, Cluster.deliver 14]

theorem succession_plays :
    (Cluster.play (trio 1) Anything [Cluster.fresh 1] succession).isSome := by
  decide +kernel

def succeeded : List Cluster :=
  (Cluster.play (trio 1) Anything [Cluster.fresh 1] succession).get succession_plays

theorem succeeded_run : Run (trio 1) Anything succeeded :=
  Run.play (.start _ (Cluster.fresh_initial 1)) (Option.some_get succession_plays).symm

theorem succeeded_led : Led (trio 1) succeeded 1 1 ∧ Led (trio 1) succeeded 3 2 := by
  have hled : ∀ x t, succeeded.any (fun c => (c.node x).state == .leader && (c.node x).term == t) →
      ∃ c ∈ succeeded, (c.node x).state = .leader ∧ (c.node x).term = t := by
    intro x t h
    simpa using h
  exact ⟨⟨by decide, hled 1 1 (by decide +kernel)⟩, ⟨by decide, hled 3 2 (by decide +kernel)⟩⟩

theorem election_safety_succeeded :
    (∀ y, Led (trio 1) succeeded y 1 → 1 = y) ∧ (∀ y, Led (trio 1) succeeded y 2 → 3 = y) ∧
      ∀ c ∈ succeeded, ∀ i ∈ (trio 1).members, (c.node i).lead ≠ 0 →
        Led (trio 1) succeeded (c.node i).lead (c.node i).term :=
  have hsafe := election_safety succeeded_run
  ⟨fun y => hsafe.1 1 1 y succeeded_led.1, fun y => hsafe.1 2 3 y succeeded_led.2, hsafe.2⟩

end RaftKv
