import RaftKv.Cluster.Trace

/-! # Read rounds

A leader names each read round by a counter that restarts with the process, and counts
an acknowledgement by its term and this name. Messages of earlier rounds, terms and
incarnations are still in the network. As long as a counter does not run out, whoever
is counted has handled replication that the leader sent since it opened the round.
-/

namespace RaftKv

/-- Node `n` sent the message in one of the events. -/
def Emitted (events : List Event) (n : Nat) (msg : Message Capture) : Prop :=
  ∃ c env input, (c, Action.call n env input) ∈ events ∧ msg ∈ ((c.node n).act env input).2

/-- Node `m`, in term `t`, handled replication that `n` had sent in that term, both in the
given events. -/
def Confirms (events : List Event) (m n t : Nat) : Prop :=
  ∃ c env msg, (c, Action.call m env (.message msg)) ∈ events ∧ msg.type = .appendEntries ∧
    msg.sender = n ∧ msg.receiver = m ∧ msg.term = t ∧
    ((c.node m).act env (.message msg)).1.term = t ∧ Emitted events n msg

/-- The events since, and with, the call by which `n` opened the round `context` as the
leader of term `t`. The round has been open, and `n` has not restarted, since. -/
def Opened (events : List Event) (n t context : Nat) : Prop :=
  ∃ later c env, events = later ++ [(c, Action.call n env .readIndex)] ∧
    (c.node n).state = .leader ∧ (c.node n).term = t ∧ (c.node n).readIndexPending = false ∧
    ((c.node n).act env .readIndex).1.readIndexPending = true ∧
    ((c.node n).act env .readIndex).1.pendingReadContext = context ∧
    ∀ event ∈ later, (event.1.node n).readIndexPending = true ∧
      ∀ draws, event.2 ≠ .restart n draws

theorem Emitted.mono {events : List Event} {n : Nat} {msg : Message Capture} (event : Event)
    (hemitted : Emitted events n msg) : Emitted (event :: events) n msg := by
  obtain ⟨c, env, input, hmem, hsent⟩ := hemitted
  exact ⟨c, env, input, List.mem_cons_of_mem _ hmem, hsent⟩

theorem Confirms.mono {events : List Event} {m n t : Nat} (event : Event)
    (hconfirms : Confirms events m n t) : Confirms (event :: events) m n t := by
  obtain ⟨c, env, msg, hmem, htype, hsender, hreceiver, hterm, hin, hemitted⟩ := hconfirms
  exact ⟨c, env, msg, List.mem_cons_of_mem _ hmem, htype, hsender, hreceiver, hterm, hin,
    hemitted.mono event⟩

theorem Opened.mono {events : List Event} {n t context : Nat} {event : Event}
    (hopen : (event.1.node n).readIndexPending = true)
    (hlives : ∀ draws, event.2 ≠ .restart n draws) (hopened : Opened events n t context) :
    Opened (event :: events) n t context := by
  obtain ⟨later, c, env, rfl, hstate, hterm, hidle, hpending, hcontext, hunbroken⟩ := hopened
  refine ⟨event :: later, c, env, rfl, hstate, hterm, hidle, hpending, hcontext, ?_⟩
  intro e he
  rcases List.mem_cons.mp he with rfl | he
  · exact ⟨hopen, hlives⟩
  · exact hunbroken e he

theorem Opened.mem_head {events earlier past : List Event} {n t context : Nat} {event : Event}
    (hopened : Opened events n t context) (hpast : event :: past = events ++ earlier) :
    event ∈ events := by
  obtain ⟨later, c, env, rfl, -⟩ := hopened
  cases later with
  | nil =>
      obtain ⟨rfl, -⟩ := List.cons.inj hpast
      exact List.mem_cons_self
  | cons first rest =>
      obtain ⟨rfl, -⟩ := List.cons.inj hpast
      exact List.mem_cons_self

/-! ## One node's round -/

/-- Replication from `n` of term `t`. -/
structure Message.Replicates (msg : Message Capture) (n t : Nat) : Prop where
  type : msg.type = .appendEntries
  sender : msg.sender = n
  term : msg.term = t

/-- A successful reply to `n` in term `t`. -/
structure Message.Confirmation (msg : Message Capture) (n t : Nat) : Prop where
  type : msg.type = .appendEntriesResponse
  success : msg.success = true
  receiver : msg.receiver = n
  term : msg.term = t

/-- All that carries the name of the open round belongs to the events since its opening. -/
structure Round (setup : Setup) (net : List (Message Capture)) (events : List Event) (n : Nat)
    (role : Role) : Prop where
  leader : role.state = .leader
  opened : Opened events n role.term role.pendingReadContext
  sent : ∀ msg ∈ net, msg.Replicates n role.term → msg.readContext = role.pendingReadContext →
    Emitted events n msg
  replied : ∀ msg ∈ net, msg.Confirmation n role.term →
    msg.readContext = role.pendingReadContext → Confirms events msg.sender n role.term
  acked : ∀ m, role.readIndexAcks.get? m = some true →
    m ∈ setup.members ∧ m ≠ n ∧ Confirms events m n role.term

/-- What holds of the read rounds of a node that runs. -/
structure Rounds (setup : Setup) (net : List (Message Capture)) (past : List Event) (n : Nat)
    (role : Role) : Prop where
  positive : 0 < role.nextReadContext
  candidate : role.state = .candidate → ∀ msg ∈ net, ¬ msg.Replicates n role.term
  fresh : role.state = .leader → ∀ msg ∈ net, msg.Replicates n role.term →
    msg.readContext < role.nextReadContext
  below : role.readIndexPending = true → role.pendingReadContext < role.nextReadContext
  idle : role.readIndexPending = false → ∀ m, role.readIndexAcks.get? m ≠ some true
  round : role.readIndexPending = true → ∃ events earlier, past = events ++ earlier ∧
    Round setup net events n role

/-- A successful reply repeats what the replication it answers was called. -/
def Answered (net : List (Message Capture)) : Prop :=
  ∀ reply ∈ net, reply.type = .appendEntriesResponse → reply.success = true →
    ∃ msg ∈ net, msg.Replicates reply.receiver reply.term ∧ msg.readContext = reply.readContext

/-- The read counter of the called node does not run out. -/
def Counted (c : Cluster) : Action → Prop
  | .call n _ .readIndex => (c.node n).nextReadContext + 1 < 2 ^ 64
  | _ => True

instance (c : Cluster) (action : Action) : Decidable (Counted c action) := by
  unfold Counted
  split <;> infer_instance

variable {setup : Setup} {c next : Cluster} {past events : List Event}
  {net : List (Message Capture)} {n : Nat} {role role' : Role} {env : Env}
  {input : Input Capture}

theorem Round.later {event : Event} (hopen : (event.1.node n).readIndexPending = true)
    (hlives : ∀ draws, event.2 ≠ .restart n draws) (hround : Round setup net events n role) :
    Round setup net (event :: events) n role where
  leader := hround.leader
  opened := hround.opened.mono hopen hlives
  sent msg hmsg hrep hcontext := (hround.sent msg hmsg hrep hcontext).mono event
  replied msg hmsg hconf hcontext := (hround.replied msg hmsg hconf hcontext).mono event
  acked m hm := ⟨(hround.acked m hm).1, (hround.acked m hm).2.1, (hround.acked m hm).2.2.mono event⟩

theorem Rounds.later {event : Event} (hopen : role.readIndexPending = true →
      (event.1.node n).readIndexPending = true) (hlives : ∀ draws, event.2 ≠ .restart n draws)
    (hrounds : Rounds setup net past n role) : Rounds setup net (event :: past) n role where
  positive := hrounds.positive
  candidate := hrounds.candidate
  fresh := hrounds.fresh
  below := hrounds.below
  idle := hrounds.idle
  round hpending := by
    obtain ⟨events, earlier, rfl, hround⟩ := hrounds.round hpending
    exact ⟨event :: events, earlier, rfl, hround.later (hopen hpending) hlives⟩

/-- A node that does not lead has no open round. -/
theorem Rounds.not_pending (hrounds : Rounds setup net past n role)
    (hstate : role.state ≠ .leader) : role.readIndexPending = false := by
  cases hpending : role.readIndexPending with
  | false => rfl
  | true =>
      obtain ⟨_, _, -, hround⟩ := hrounds.round hpending
      exact absurd hround.leader hstate

/-- Another role without an open round. -/
theorem Rounds.close (hpositive : 0 < role.nextReadContext)
    (hcandidate : role.state = .candidate → ∀ msg ∈ net, ¬ msg.Replicates n role.term)
    (hfresh : role.state = .leader → ∀ msg ∈ net, msg.Replicates n role.term →
      msg.readContext < role.nextReadContext)
    (hpending : role.readIndexPending = false)
    (hidle : ∀ m, role.readIndexAcks.get? m ≠ some true) : Rounds setup net past n role where
  positive := hpositive
  candidate := hcandidate
  fresh := hfresh
  below h := by rw [hpending] at h; cases h
  idle _ := hidle
  round h := by rw [hpending] at h; cases h

theorem Rounds.preVotes (hrounds : Rounds setup net past n role) (votes : Table Bool) :
    Rounds setup net past n { role with preVotes := votes } where
  positive := hrounds.positive
  candidate := hrounds.candidate
  fresh := hrounds.fresh
  below := hrounds.below
  idle := hrounds.idle
  round hpending := by
    obtain ⟨events, earlier, heq, hround⟩ := hrounds.round hpending
    exact ⟨events, earlier, heq, hround.leader, hround.opened, hround.sent, hround.replied,
      hround.acked⟩

theorem Raft.lt_nextContext {k x : Nat} (hk : k + 1 < 2 ^ 64) (hx : x ≤ k) : x < nextContext k := by
  unfold nextContext
  rw [wrap64_of_lt hk, if_neg (by omega)]
  omega

theorem Raft.nextContext_pos (k : Nat) : 0 < nextContext k := by
  unfold nextContext
  split <;> omega

/-- The opening call, before anything of the round is sent. -/
theorem Rounds.start (hrounds : Rounds setup c.net past n (c.node n).role)
    (hanswered : Answered c.net) (hcounted : (c.node n).nextReadContext + 1 < 2 ^ 64)
    (hstate : (c.node n).state = .leader) (hidle : (c.node n).readIndexPending = false)
    {index : Nat} (hrole : ((c.node n).act env .readIndex).1.role = { (c.node n).role with
        readIndexPending := true
        pendingReadIndex := index
        pendingReadContext := (c.node n).nextReadContext
        nextReadContext := Raft.nextContext (c.node n).nextReadContext
        readIndexAcks := Table.empty }) :
    Rounds setup c.net ((c, .call n env .readIndex) :: past) n { (c.node n).role with
        readIndexPending := true
        pendingReadIndex := index
        pendingReadContext := (c.node n).nextReadContext
        nextReadContext := Raft.nextContext (c.node n).nextReadContext
        readIndexAcks := Table.empty } := by
  have hfresh := hrounds.fresh hstate
  have hnone : ∀ msg ∈ c.net, msg.Replicates n (c.node n).term →
      msg.readContext ≠ (c.node n).nextReadContext :=
    fun msg hmsg hrep => Nat.ne_of_lt (hfresh msg hmsg hrep)
  refine ⟨Raft.nextContext_pos _, (fun h => by cases hstate.symm.trans h),
    fun _ msg hmsg hrep => Raft.lt_nextContext hcounted (hfresh msg hmsg hrep).le,
    fun _ => Raft.lt_nextContext hcounted le_rfl, fun h => (by cases h), fun _ => ?_⟩
  refine ⟨[(c, .call n env .readIndex)], past, rfl, hstate, ?_, ?_, ?_, ?_⟩
  · exact ⟨[], c, env, rfl, hstate, rfl, hidle, congrArg Role.readIndexPending hrole,
      congrArg Role.pendingReadContext hrole, by simp⟩
  · exact fun msg hmsg hrep hcontext => absurd hcontext (hnone msg hmsg hrep)
  · intro reply hreply hconf hcontext
    obtain ⟨msg, hmsg, hrep, hsame⟩ := hanswered reply hreply hconf.type hconf.success
    rw [hconf.receiver, hconf.term] at hrep
    exact absurd (hsame.trans hcontext) (hnone msg hmsg hrep)
  · intro m hm
    simp at hm

/-- One more acknowledgement of the open round. -/
theorem Rounds.ack {msg : Message Capture} (hrounds : Rounds setup c.net past n (c.node n).role)
    (hid : (c.node n).id = n) (hpeers : (c.node n).peers = setup.members) (hmsg : msg ∈ c.net)
    (hcounts : ((c.node n).arm env).CountsAck msg) :
    Rounds setup c.net past n { (c.node n).role with
      readIndexAcks := (c.node n).readIndexAcks.insert msg.sender true } where
  positive := hrounds.positive
  candidate := hrounds.candidate
  fresh := hrounds.fresh
  below := hrounds.below
  idle h := by cases hcounts.round.symm.trans h
  round hpending := by
    obtain ⟨events, earlier, heq, hround⟩ := hrounds.round hpending
    refine ⟨events, earlier, heq, hround.leader, hround.opened, hround.sent, hround.replied, ?_⟩
    intro m hm
    simp only [Table.get?_insert] at hm
    split at hm
    next hsender =>
      subst hsender
      have haddressed := hcounts.addressed
      have hmember : msg.sender ∈ (c.node n).peers := Raft.sender_mem_peers haddressed
      have hreceiver : msg.receiver = (c.node n).id := Raft.receiver_eq_id haddressed
      have hother : msg.sender ≠ (c.node n).id := Raft.sender_ne_id haddressed
      rw [hpeers] at hmember
      rw [hid] at hreceiver hother
      exact ⟨hmember, hother, hround.replied msg hmsg
        ⟨hcounts.type, hcounts.success, hreceiver, hcounts.term⟩ hcounts.context⟩
    · exact hround.acked m hm

theorem Booted.rounds {config : Config} {file : List (Record Capture)} {r : Raft Capture}
    (hbooted : Booted config file r) : Rounds setup net past n r.role :=
  have hstate : r.role.state = .follower := hbooted.state
  .close (Nat.lt_of_lt_of_eq Nat.zero_lt_one hbooted.firstRead.symm)
    (fun h => by cases hstate.symm.trans h) (fun h => by cases hstate.symm.trans h) hbooted.noRead
    (fun m => by rw [show r.role.readIndexAcks = _ from hbooted.noAcks]; simp)

/-- A call of the node, before what it says is in the network. -/
theorem Rounds.change (hrounds : Rounds setup c.net past n (c.node n).role)
    (hanswered : Answered c.net) (hcounted : Counted c (.call n env input))
    (hterms : (c.node n).InTerm)
    (hsent : ∀ msg ∈ c.net, msg.type = .appendEntries → msg.sender = n → msg.term ≤ (c.node n).term)
    (hid : (c.node n).id = n) (hpeers : (c.node n).peers = setup.members)
    (hmay : c.mayCall n input = true)
    (hchange : Raft.RoleChange ((c.node n).arm env) input role)
    (hrole : ((c.node n).act env input).1.role = role) :
    Rounds setup c.net ((c, .call n env input) :: past) n role := by
  have hlives : ∀ draws, ((c, .call n env input) : Event).2 ≠ .restart n draws := nofun
  have hlater := hrounds.later (fun h => h) hlives
  have hpositive : 0 < (c.node n).nextReadContext := hrounds.positive
  cases hchange with
  | same => exact hlater
  | follow => exact .close hpositive nofun nofun rfl (by simp)
  | canvass _ hstate =>
      have hidle := hrounds.not_pending hstate
      exact .close hpositive nofun nofun hidle (hrounds.idle hidle)
  | preVote => exact hlater.preVotes _
  | stand msg _ hcounts =>
      have hidle := hrounds.not_pending fun h => by cases hcounts.state.symm.trans h
      refine .close hpositive (fun _ msg hmsg hrep => ?_) nofun hidle (hrounds.idle hidle)
      have hle := hsent msg hmsg hrep.type hrep.sender
      have hsucc : msg.term = wrap64 ((c.node n).term + 1) := hrep.term
      rw [wrap64_of_lt (hterms.term_succ hcounts.asked)] at hsucc
      omega
  | crown _ _ hstate =>
      have hidle := hrounds.not_pending fun h => by cases hstate.symm.trans h
      exact .close hpositive nofun (fun _ msg hmsg hrep =>
        absurd hrep (hrounds.candidate hstate msg hmsg)) hidle (hrounds.idle hidle)
  | ack msg hinput hcounts =>
      subst hinput
      exact (hrounds.ack hid hpeers (Cluster.mem_net_of_mayCall hmay).1 hcounts).later
        (fun h => h) hlives
  | start hinput hstate hidle =>
      subst hinput
      exact hrounds.start hanswered hcounted hstate hidle hrole
  | give hinput hstate hidle =>
      subst hinput
      exact .close (Raft.nextContext_pos _) (fun h => by cases hstate.symm.trans h)
        (fun _ msg hmsg hrep =>
          Raft.lt_nextContext hcounted (hrounds.fresh hstate msg hmsg hrep).le)
        rfl (by simp)
  | finish => exact .close hpositive hrounds.candidate hrounds.fresh rfl (by simp)

/-- What a call of `n` says, for the rounds of any node `i`. -/
theorem Rounds.send {i : Nat} (hrounds : Rounds setup c.net ((c, .call n env input) :: past) i role)
    (hemits : ∀ msg ∈ ((c.node n).act env input).2,
      Raft.Emits ((c.node n).arm env) input ((c.node n).act env input).1 msg)
    (hid : ((c.node n).act env input).1.id = n)
    (hself : i = n → ((c.node n).act env input).1.role = role)
    (hmay : c.mayCall n input = true) :
    Rounds setup (c.net ++ ((c.node n).act env input).2) ((c, .call n env input) :: past) i
      role := by
  -- replication in the name of `i` comes from `i`, and bears the open round
  have hreplicates : ∀ msg ∈ ((c.node n).act env input).2, ∀ t, msg.Replicates i t → i = n ∧
      role.state = .leader ∧
      msg.readContext = if role.readIndexPending then role.pendingReadContext else 0 := by
    intro msg hmsg t hrep
    cases hemits msg hmsg with
    | entries _ htype hsender hterm hstate hcontext =>
        have hin : i = n := hrep.sender.symm.trans (hsender.trans hid)
        have hrole := hself hin
        exact ⟨hin, (congrArg Role.state hrole).symm.trans hstate, by rw [hcontext, ← hrole]; rfl⟩
    | preVote => cases hrep.type
    | preVoteReply => cases Raft.handlePreVote_type.symm.trans hrep.type
    | reply => cases hrep.type
    | snapshot _ htype => cases htype.symm.trans hrep.type
    | other _ _ _ hnot => exact absurd hrep.type hnot
  refine ⟨hrounds.positive, fun hstate msg hmsg hrep => ?_, fun hstate msg hmsg hrep => ?_,
    hrounds.below, hrounds.idle, fun hpending => ?_⟩
  · rcases List.mem_append.mp hmsg with hold | hnew
    · exact hrounds.candidate hstate msg hold hrep
    · cases hstate.symm.trans (hreplicates msg hnew _ hrep).2.1
  · rcases List.mem_append.mp hmsg with hold | hnew
    · exact hrounds.fresh hstate msg hold hrep
    · rw [(hreplicates msg hnew _ hrep).2.2]
      split
      next hpending => exact hrounds.below hpending
      · exact hrounds.positive
  · obtain ⟨events, earlier, heq, hround⟩ := hrounds.round hpending
    have hevent := hround.opened.mem_head heq
    refine ⟨events, earlier, heq, hround.leader, hround.opened, fun msg hmsg hrep hcontext => ?_,
      fun reply hreply hconf hcontext => ?_, hround.acked⟩
    · rcases List.mem_append.mp hmsg with hold | hnew
      · exact hround.sent msg hold hrep hcontext
      · obtain ⟨rfl, -⟩ := hreplicates msg hnew _ hrep
        exact ⟨c, env, input, hevent, hnew⟩
    · rcases List.mem_append.mp hreply with hold | hnew
      · exact hround.replied reply hold hconf hcontext
      · -- the request that `n` has just handled belongs to the round
        cases hemits reply hnew with
        | reply request success index hinput htype hsuccess =>
            subst hinput
            obtain ⟨hmem, hreceiver⟩ := Cluster.mem_net_of_mayCall hmay
            obtain ⟨-, hterm⟩ := hsuccess hconf.success
            have hterm' : ((c.node n).act env (.message request)).1.term = role.term := hconf.term
            have hemitted := hround.sent request hmem
              ⟨htype, hconf.receiver, hterm.trans hterm'⟩ hcontext
            rw [show (((c.node n).act env (.message request)).1.appendResponse request success
              index).sender = n from hid]
            exact ⟨c, env, request, hevent, htype, hconf.receiver, hreceiver, hterm.trans hterm',
              hterm', hemitted⟩
        | preVote => cases hconf.type
        | preVoteReply => cases Raft.handlePreVote_type.symm.trans hconf.type
        | entries _ htype | snapshot _ htype => cases htype.symm.trans hconf.type
        | other _ _ _ _ hnot => exact absurd hconf.type hnot

end RaftKv
