import RaftKv.Cluster.ReadRound

/-! # Confirmed reads

Along every run in which no read counter runs out, a read that is ready was confirmed
by replication sent since its round was opened. A counter that does run out starts again
at one, and then a reply from long ago is taken for one to the new round.
-/

namespace RaftKv

variable {setup : Setup} {c next : Cluster} {past : List Event} {n : Nat} {env : Env}
  {input : Input Capture}

namespace Raft

variable {D : Type} {r : Raft D} {env : Env} {input : Input D}

theorem acked_of_readIndexReady {read : ReadIndexToken} {members : List Nat}
    (hpeers : r.peers = members) (hthree : members.length = 3)
    (hready : r.readIndexReady read = true) :
    r.storageFailed = false ∧ r.pendingReadContext = read.context ∧
      ∃ m, r.readIndexAcks.get? m = some true := by
  unfold readIndexReady at hready
  split at hready
  · cases hready
  next hserves =>
    split at hready
    · cases hready
    next hround =>
      split at hready
      · cases hready
      · split at hready
        · cases hready
        · rw [hpeers, hthree, decide_eq_true_eq] at hready
          obtain ⟨m, acked, hm, hacked⟩ := Table.exists_of_count_pos
            (show 0 < r.readIndexAcks.count (fun acked => acked) by omega)
          obtain rfl : acked = true := hacked
          push Not at hserves hround
          exact ⟨by simpa using hserves.2, hround.1.symm, m, hm⟩

variable [Blob D]

theorem act_healthy (hhealthy : (r.act env input).1.storageFailed = false) :
    r.storageFailed = false := by
  unfold act at hhealthy
  split at hhealthy
  · exact hhealthy
  next h => simpa using h

theorem act_healthy_of_sent {msg : Message D} (hmsg : msg ∈ (r.act env input).2) :
    (r.act env input).1.storageFailed = false := by
  unfold act at hmsg ⊢
  split at hmsg
  · simp at hmsg
  next hhealthy =>
    rw [if_neg hhealthy]
    split at hmsg
    · simp at hmsg
    next hrunning =>
      rw [if_neg hrunning]
      exact (Bool.not_eq_true _).mp hrunning

end Raft

/-- What holds of replication and its replies in a run. -/
structure Reads (setup : Setup) (past : List Event) (c : Cluster) : Prop where
  terms : ∀ n ∈ setup.members, ∀ msg ∈ c.net, msg.type = .appendEntries → msg.sender = n →
    msg.term ≤ (lastVote (c.node n).synced).1
  answered : Answered c.net
  rounds : ∀ n ∈ setup.members, (c.node n).storageFailed = false →
    Rounds setup c.net past n (c.node n).role

theorem Answered.send (hanswered : Answered c.net) (hmay : c.mayCall n input = true)
    (hemits : ∀ msg ∈ ((c.node n).act env input).2,
      Raft.Emits ((c.node n).arm env) input ((c.node n).act env input).1 msg) :
    Answered (c.net ++ ((c.node n).act env input).2) := by
  intro reply hreply htype hsuccess
  rcases List.mem_append.mp hreply with hold | hnew
  · obtain ⟨msg, hmsg, hanswer⟩ := hanswered reply hold htype hsuccess
    exact ⟨msg, List.mem_append_left _ hmsg, hanswer⟩
  · cases hemits reply hnew with
    | reply request success index hinput hrequest haccepted =>
        subst hinput
        exact ⟨request, List.mem_append_left _ (Cluster.mem_net_of_mayCall hmay).1,
          ⟨hrequest, rfl, (haccepted hsuccess).2⟩, rfl⟩
    | preVote => cases htype
    | preVoteReply => cases Raft.handlePreVote_type.symm.trans htype
    | entries _ hentries | snapshot _ hentries => cases hentries.symm.trans htype
    | other _ _ _ _ hnot => exact absurd htype hnot

theorem Reads.call (hreads : Reads setup past c)
    (helections : Elections setup (c :: past.map Prod.fst) c)
    (hcounted : Counted c (.call n env input))
    (hstep : c.step setup (.call n env input) = some next) :
    Reads setup ((c, .call n env input) :: past) next := by
  obtain ⟨hn, hmay, rfl⟩ := Cluster.step_call hstep
  have hnode := helections.elector n hn
  have hemits : ∀ msg ∈ ((c.node n).act env input).2, Raft.Emits ((c.node n).arm env) input
      ((c.node n).act env input).1 msg := fun msg hmsg => Raft.act_emits hnode.silent hmsg
  have hsupports : ∀ msg, input = .message msg →
      (c.evidence setup (c :: past.map Prod.fst)).Supports msg := by
    rintro msg rfl
    exact helections.net msg (Cluster.mem_net_of_mayCall hmay).1
  have hacted := hnode.act env hsupports
  have hid := hacted.id.trans (helections.id n hn)
  refine ⟨fun i hi msg hmsg htype hsender => ?_, hreads.answered.send hmay hemits,
    fun i hi hhealthy => ?_⟩
  · rcases List.mem_append.mp hmsg with hold | hnew
    · have hle := hreads.terms i hi msg hold htype hsender
      by_cases hin : i = n
      · subst hin
        rw [show ({ c.setNode i _ with net := _ } : Cluster).node i = _ from
          c.setNode_node_self i _]
        exact hle.trans (hacted.elector.ordered.lastVote_mono hacted.grows)
      · rw [show ({ c.setNode n _ with net := _ } : Cluster).node i = c.node i from
          c.setNode_node_of_ne _ hin]
        exact hle
    · cases hemits msg hnew with
      | entries _ _ hsender' hterm =>
          obtain rfl : i = n := hsender.symm.trans (hsender'.trans hid)
          rw [show ({ c.setNode i _ with net := _ } : Cluster).node i = _ from
            c.setNode_node_self i _,
            (hacted.elector.cast (Raft.act_healthy_of_sent hnew)).lastVote_synced,
            hterm]
      | preVote => cases htype
      | preVoteReply => cases Raft.handlePreVote_type.symm.trans htype
      | reply => cases htype
      | snapshot _ hsnapshot => cases hsnapshot.symm.trans htype
      | other _ _ _ hnot => exact absurd htype hnot
  · by_cases hin : i = n
    · subst hin
      rw [show ({ c.setNode i _ with net := _ } : Cluster).node i = _ from
        c.setNode_node_self i _] at hhealthy ⊢
      have hbefore := Raft.act_healthy hhealthy
      have hlast := (hnode.cast hbefore).lastVote_synced
      have hterms : ∀ msg ∈ c.net, msg.type = .appendEntries → msg.sender = i →
          msg.term ≤ (c.node i).term := by
        intro msg hmsg htype hsender
        have hle := hreads.terms i hi msg hmsg htype hsender
        rwa [hlast] at hle
      exact ((hreads.rounds i hi hbefore).change hreads.answered hcounted hnode.inTerm hterms
        (helections.id i hi) (helections.peers i hi) hmay (Raft.act_role (c.node i) env input)
        rfl).send hemits hid (fun _ => rfl) hmay
    · rw [show ({ c.setNode n _ with net := _ } : Cluster).node i = c.node i from
        c.setNode_node_of_ne _ hin] at hhealthy ⊢
      exact ((hreads.rounds i hi hhealthy).later (fun h => h) (fun _ h => by cases h)).send hemits
        hid
        (fun heq => absurd heq hin) hmay

theorem Reads.restart {draws : List Nat} (hreads : Reads setup past c)
    (hstep : c.step setup (.restart n draws) = some next) :
    Reads setup ((c, .restart n draws) :: past) next := by
  obtain ⟨hn, r, hboot, rfl⟩ := Cluster.step_restart hstep
  have hbooted := boot_booted hboot
  have hsynced : r.synced = (c.node n).synced := by simp [Raft.synced, hbooted.wal]
  refine ⟨fun i hi msg hmsg htype hsender => ?_, hreads.answered, fun i hi hhealthy => ?_⟩
  · have hle := hreads.terms i hi msg hmsg htype hsender
    by_cases hin : i = n
    · subst hin
      rw [c.setNode_node_self, hsynced]
      exact hle
    · rw [c.setNode_node_of_ne r hin]
      exact hle
  · by_cases hin : i = n
    · subst hin
      rw [c.setNode_node_self]
      exact hbooted.rounds
    · rw [c.setNode_node_of_ne r hin] at hhealthy ⊢
      exact (hreads.rounds i hi hhealthy).later (fun h => h) fun draws' h => by
        obtain ⟨hni, -⟩ := Action.restart.inj h
        exact hin hni.symm

theorem Trace.reads (htrace : Trace setup Counted past c) : Reads setup past c := by
  induction htrace with
  | start c hinitial =>
      refine ⟨by simp [hinitial.1], (fun reply hreply => by simp [hinitial.1] at hreply),
        fun n hn _ => ?_⟩
      obtain ⟨draws, hboot⟩ := hinitial.2 n hn
      exact (boot_booted hboot).rounds
  | step c next past action htrace hok hstep ih =>
      cases action with
      | call n env input => exact ih.call htrace.elections hok hstep
      | restart n draws => exact ih.restart hstep

/-- A read that is ready was confirmed by members that handled replication which the
leader sent, in its term, since it opened the very round; nobody else is counted. -/
theorem read_confirmed_since_opened (htrace : Trace setup Counted past c)
    (hn : n ∈ setup.members) {read : ReadIndexToken}
    (hready : (c.node n).readIndexReady read = true) :
    ∃ events earlier, past = events ++ earlier ∧
      Opened events n (c.node n).term read.context ∧
      (∃ m, (c.node n).readIndexAcks.get? m = some true) ∧
      ∀ m, (c.node n).readIndexAcks.get? m = some true →
        m ∈ setup.members ∧ m ≠ n ∧ Confirms events m n (c.node n).term := by
  obtain ⟨hhealthy, hcontext, m, hm⟩ := Raft.acked_of_readIndexReady (htrace.elections.peers n hn)
    setup.three hready
  have hrounds := htrace.reads.rounds n hn hhealthy
  have hpending : (c.node n).readIndexPending = true := by
    by_contra hidle
    exact hrounds.idle ((Bool.not_eq_true _).mp hidle) m hm
  obtain ⟨events, earlier, heq, hround⟩ := hrounds.round hpending
  exact ⟨events, earlier, heq, hcontext ▸ hround.opened, ⟨m, hm⟩, hround.acked⟩

/-- The node is asked for a read index. -/
def Cluster.askRead (node : Nat) (_ : Cluster) : Action := .call node .calm .readIndex

/-- Node 1 leads, opens round 1 with an entry of its term, and commits and applies it with
the reply of node 2. -/
def readsOnce : List (Cluster → Action) :=
  electsOne ++ [Cluster.askRead 1, Cluster.deliver 8, Cluster.deliver 10, Cluster.apply 1 1]

theorem readOnce_records :
    (Cluster.record (trio 1) Counted [] (Cluster.fresh 1) readsOnce).isSome := by
  decide +kernel

def readOnce : List Event × Cluster :=
  (Cluster.record (trio 1) Counted [] (Cluster.fresh 1) readsOnce).get readOnce_records

theorem readOnce_trace : Trace (trio 1) Counted readOnce.1 readOnce.2 :=
  Trace.record (.start _ (Cluster.fresh_initial 1)) (Option.some_get readOnce_records).symm

theorem read_confirmed_since_opened_readOnce :
    (readOnce.2.node 1).readIndexReady ⟨1, 1⟩ = true ∧
      ∃ events earlier, readOnce.1 = events ++ earlier ∧
        Opened events 1 (readOnce.2.node 1).term 1 ∧
        (∃ m, (readOnce.2.node 1).readIndexAcks.get? m = some true) ∧
        ∀ m, (readOnce.2.node 1).readIndexAcks.get? m = some true →
          m ∈ (trio 1).members ∧ m ≠ 1 ∧ Confirms events m 1 (readOnce.2.node 1).term :=
  have hready : (readOnce.2.node 1).readIndexReady ⟨1, 1⟩ = true := by decide +kernel
  ⟨hready, read_confirmed_since_opened readOnce_trace (by decide) hready⟩

/-! ## A counter that runs out -/

/-- A leader between two rounds that nothing disturbs. -/
structure Raft.Quiet (r : Raft Capture) : Prop where
  settled : r.arm .calm = r
  leader : r.state = .leader
  healthy : r.storageFailed = false
  committed : r.hasCommittedEntryInCurrentTerm = true
  idle : r.readIndexPending = false
  noIndex : r.pendingReadIndex = 0
  noContext : r.pendingReadContext = 0
  noAcks : r.readIndexAcks = Table.empty
  msgs : r.msgs = []

/-- The leader after it has opened a round for what it has committed. -/
def Raft.reading (r : Raft Capture) : Raft Capture :=
  { r.startReadRound with pendingReadIndex := r.commitIndex }

namespace Raft.Quiet

variable {r : Raft Capture}

theorem settled_of (hwal : (r.wal.map fun w => { w with device := [] }) = r.wal)
    (hrng : r.electionRng = []) (hrestore : r.snapshotRestore = some true) : r.arm .calm = r := by
  show { r with
    wal := r.wal.map fun w => { w with device := [] }
    electionRng := []
    snapshotRestore := some true } = r
  rw [hwal, ← hrng, ← hrestore]

theorem counter (hquiet : r.Quiet) (k : Nat) : Quiet { r with nextReadContext := k } where
  settled := congrArg (fun r : Raft Capture => { r with nextReadContext := k }) hquiet.settled
  leader := hquiet.leader
  healthy := hquiet.healthy
  committed := hquiet.committed
  idle := hquiet.idle
  noIndex := hquiet.noIndex
  noContext := hquiet.noContext
  noAcks := hquiet.noAcks
  msgs := hquiet.msgs

theorem readIndex (hquiet : r.Quiet) : (r.act .calm .readIndex).1 = r.reading := by
  have hcommitted : r.startReadRound.hasCommittedEntryInCurrentTerm = true := hquiet.committed
  have hread : r.readIndex.1 = r.reading.broadcastHeartbeat := by
    unfold Raft.readIndex
    rw [if_neg (by simp [hquiet.leader, hquiet.healthy]), if_neg (by simp [hquiet.idle])]
    simp only [hcommitted]
    rfl
  have hhealthy : r.readIndex.1.storageFailed = false := by
    rw [hread]
    exact hquiet.healthy
  unfold act step
  rw [hquiet.settled, if_neg (by simp [hquiet.healthy]), if_neg (by simp [hhealthy]), hread]
  show { r.reading with msgs := [] } = _
  rw [← hquiet.msgs]
  rfl

/-- A round that is opened and given up leaves only the counter behind. -/
theorem round (hquiet : r.Quiet) :
    ((r.act .calm .readIndex).1.act .calm (.finishRead ⟨r.nextReadContext, r.commitIndex⟩)).1 =
      { r with nextReadContext := nextContext r.nextReadContext } := by
  rw [hquiet.readIndex]
  have hsettled : r.reading.arm .calm = r.reading := congrArg Raft.reading hquiet.settled
  have hfinish : r.reading.step (.finishRead ⟨r.nextReadContext, r.commitIndex⟩) = { r with
        readIndexPending := false
        pendingReadIndex := 0
        pendingReadContext := 0
        readIndexAcks := Table.empty
        nextReadContext := nextContext r.nextReadContext } := by
    unfold step finishReadIndex
    dsimp only
    rw [if_neg (by simp [reading, startReadRound])]
    rfl
  have hhealthy : r.reading.storageFailed = false := hquiet.healthy
  unfold act
  rw [hsettled, hfinish, if_neg (by simp [hhealthy]), if_neg (by simp [hquiet.healthy])]
  obtain ⟨-, -, -, -, hidle, hindex, hcontext, hacks, hmsgs⟩ := hquiet
  cases r
  dsimp only at hidle hindex hcontext hacks hmsgs
  subst hidle hindex hcontext hacks hmsgs
  rfl

end Raft.Quiet

/-- One more round of a quiet leader. -/
theorem Trace.round (htrace : Trace setup Anything past c) (hn : n ∈ setup.members)
    (hquiet : (c.node n).Quiet) (hlog : (c.node n).log.length < maxLogSize) :
    ∃ past' c', Trace setup Anything past' c' ∧
      c'.node n = { c.node n with nextReadContext := Raft.nextContext (c.node n).nextReadContext } ∧
      ∀ msg ∈ c.net, msg ∈ c'.net := by
  obtain ⟨c₁, hopen, hnode₁, hnet₁⟩ : ∃ c₁, c.step setup (.call n .calm .readIndex) = some c₁ ∧
      c₁.node n = ((c.node n).act .calm .readIndex).1 ∧ ∀ msg ∈ c.net, msg ∈ c₁.net :=
    Cluster.exists_step_call hn rfl (by rw [hquiet.readIndex]; exact hlog)
  have hround := hquiet.round
  rw [← hnode₁] at hround
  obtain ⟨c₂, hfinish, hnode₂, hnet₂⟩ : ∃ c₂, c₁.step setup (.call n .calm
        (.finishRead ⟨(c.node n).nextReadContext, (c.node n).commitIndex⟩)) = some c₂ ∧
      c₂.node n = _ ∧ ∀ msg ∈ c₁.net, msg ∈ c₂.net :=
    Cluster.exists_step_call hn rfl (by rw [hround]; exact hlog)
  exact ⟨_, c₂, .step _ _ _ _ (.step _ _ _ _ htrace trivial hopen) trivial hfinish,
    hnode₂.trans hround, fun msg hmsg => hnet₂ msg (hnet₁ msg hmsg)⟩

/-- As many rounds as the counter has numbers left. -/
theorem Trace.rounds (htrace : Trace setup Anything past c) (hn : n ∈ setup.members)
    (hquiet : (c.node n).Quiet) (hlog : (c.node n).log.length < maxLogSize) (count : Nat)
    (hcount : (c.node n).nextReadContext + count < 2 ^ 64) :
    ∃ past' c', Trace setup Anything past' c' ∧
      c'.node n = { c.node n with nextReadContext := (c.node n).nextReadContext + count } ∧
      ∀ msg ∈ c.net, msg ∈ c'.net := by
  induction count with
  | zero => exact ⟨past, c, htrace, rfl, fun _ h => h⟩
  | succ count ih =>
      obtain ⟨past', c', htrace', hnode, hnet⟩ := ih (by omega)
      have hquiet' : (c'.node n).Quiet := hnode ▸ hquiet.counter _
      obtain ⟨past'', c'', htrace'', hnode', hnet'⟩ := htrace'.round hn hquiet' (hnode ▸ hlog)
      refine ⟨past'', c'', htrace'', ?_, fun msg hmsg => hnet' msg (hnet msg hmsg)⟩
      have hnext : Raft.nextContext ((c.node n).nextReadContext + count) =
          (c.node n).nextReadContext + (count + 1) := by
        unfold Raft.nextContext
        rw [wrap64_of_lt (by omega), if_neg (by omega)]
        rfl
      rw [hnode', hnode]
      simp only [hnext]

/-- As before, and then the round is finished. -/
def finishesOnce : List (Cluster → Action) :=
  readsOnce ++ [fun _ => .call 1 .calm (.finishRead ⟨1, 1⟩)]

/-- All the numbers that are left, and the step from the last one to 1. -/
theorem Trace.exhaust (htrace : Trace setup Anything past c) (hn : n ∈ setup.members)
    (hquiet : (c.node n).Quiet) (hlog : (c.node n).log.length < maxLogSize)
    (hnext : (c.node n).nextReadContext < 2 ^ 64) :
    ∃ past' c', Trace setup Anything past' c' ∧
      c'.node n = { c.node n with nextReadContext := 1 } ∧ ∀ msg ∈ c.net, msg ∈ c'.net := by
  obtain ⟨past₁, c₁, htrace₁, hnode₁, hnet₁⟩ :=
    htrace.rounds hn hquiet hlog (2 ^ 64 - 1 - (c.node n).nextReadContext) (by omega)
  rw [show (c.node n).nextReadContext + (2 ^ 64 - 1 - (c.node n).nextReadContext) = 2 ^ 64 - 1
    by omega] at hnode₁
  have hquiet₁ : (c₁.node n).Quiet := hnode₁ ▸ hquiet.counter _
  obtain ⟨past₂, c₂, htrace₂, hnode₂, hnet₂⟩ := htrace₁.round hn hquiet₁ (hnode₁ ▸ hlog)
  refine ⟨past₂, c₂, htrace₂, ?_, fun msg hmsg => hnet₂ msg (hnet₁ msg hmsg)⟩
  have hlast : Raft.nextContext (2 ^ 64 - 1) = 1 := by decide
  rw [hnode₂, hnode₁]
  simp only [hlast]

/-- A round that has only heard a reply was confirmed by nobody. -/
theorem unconfirmed {c' : Cluster} {env' : Env} {reply : Message Capture} {t context : Nat}
    (htype : reply.type ≠ .appendEntries) (hidle : (c.node n).readIndexPending = false) :
    ¬ ∃ events earlier,
      (c', .call n env' (.message reply)) :: (c, .call n env .readIndex) :: past =
        events ++ earlier ∧
      Opened events n t context ∧ ∃ m, Confirms events m n t := by
  rintro ⟨events, earlier, heq, ⟨later, _, _, rfl, -, -, -, -, -, hsince⟩, m, hconfirms⟩
  match later with
  | [] => cases heq
  | [event] =>
      obtain ⟨rfl, -⟩ := List.cons.inj heq
      obtain ⟨_, _, msg, hmem, hentries, -⟩ := hconfirms
      simp only [List.cons_append, List.nil_append, List.mem_cons, List.not_mem_nil,
        or_false] at hmem
      rcases hmem with hmem | hmem <;> cases hmem
      exact htype hentries
  | event :: second :: _ =>
      obtain ⟨-, hrest⟩ := List.cons.inj heq
      obtain ⟨rfl, -⟩ := List.cons.inj hrest
      have hpending : (c.node n).readIndexPending = true :=
        (hsince (c, .call n env .readIndex) (by simp)).1
      rw [hidle] at hpending
      cases hpending

theorem spent_records :
    (Cluster.record (trio 1) Anything [] (Cluster.fresh 1) finishesOnce).isSome := by
  decide +kernel

def spent : List Event × Cluster :=
  (Cluster.record (trio 1) Anything [] (Cluster.fresh 1) finishesOnce).get spent_records

theorem spent_trace : Trace (trio 1) Anything spent.1 spent.2 :=
  Trace.record (.start _ (Cluster.fresh_initial 1)) (Option.some_get spent_records).symm

theorem spent_quiet : (spent.2.node 1).Quiet where
  settled := Raft.Quiet.settled_of (by decide +kernel) (by decide +kernel) (by decide +kernel)
  leader := by decide +kernel
  healthy := by decide +kernel
  committed := by decide +kernel
  idle := by decide +kernel
  noIndex := by decide +kernel
  noContext := by decide +kernel
  noAcks := by decide +kernel
  msgs := by decide +kernel

/-- The reply to round 1. -/
def firstReply : Message Capture := spent.2.net[10]?.getD Message.default

/-- After all numbers are used up, the reply to the first round confirms a round for which
nothing has been handled yet. -/
theorem first_reply_confirms_last_round :
    ∃ past c read, Trace (trio 1) Anything past c ∧
      (c.node 1).readIndexReady read = true ∧
      ¬ ∃ events earlier, past = events ++ earlier ∧
        Opened events 1 (c.node 1).term read.context ∧
        ∃ m, Confirms events m 1 (c.node 1).term := by
  have hlog : (spent.2.node 1).log.length < maxLogSize := by decide +kernel
  have hreply : firstReply ∈ spent.2.net := by decide +kernel
  obtain ⟨past, c, htrace, hnode, hnet⟩ :=
    spent_trace.exhaust (by decide) spent_quiet hlog (by decide +kernel)
  have hidle : (c.node 1).readIndexPending = false := by
    rw [hnode]
    exact (spent_quiet.counter 1).idle
  -- the new round 1 is opened and the old reply arrives
  obtain ⟨c₁, hopen, hnode₁, hnet₁⟩ : ∃ c₁, c.step (trio 1) (.call 1 .calm .readIndex) = some c₁ ∧
      c₁.node 1 = ((c.node 1).act .calm .readIndex).1 ∧ ∀ msg ∈ c.net, msg ∈ c₁.net :=
    Cluster.exists_step_call (by decide) rfl (by rw [hnode]; decide +kernel)
  have hmay : c₁.mayCall 1 (.message firstReply) = true := by
    simp only [Cluster.mayCall, Bool.and_eq_true, decide_eq_true_eq]
    exact ⟨hnet₁ _ (hnet _ hreply), by decide +kernel⟩
  rw [hnode] at hnode₁
  obtain ⟨c₂, hdeliver, hnode₂, -⟩ : ∃ c₂,
      c₁.step (trio 1) (.call 1 .calm (.message firstReply)) = some c₂ ∧
      c₂.node 1 = ((c₁.node 1).act .calm (.message firstReply)).1 ∧ ∀ msg ∈ c₁.net, msg ∈ c₂.net :=
    Cluster.exists_step_call (by decide) hmay (by rw [hnode₁]; decide +kernel)
  rw [hnode₁] at hnode₂
  refine ⟨_, c₂, ⟨1, 1⟩, .step _ _ _ _ (.step _ _ _ _ htrace trivial hopen) trivial hdeliver,
    by rw [hnode₂]; decide +kernel, unconfirmed (by decide +kernel) hidle⟩

end RaftKv
