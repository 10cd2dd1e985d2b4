import RaftKv.Raft.Within
import RaftKv.Runtime.Read

/-! # What one turn of the Raft loop brings about

The Raft loop never touches what the clients' requests are kept in. It posts entries of
its log to the store loop, and it turns a write down only as the outcome of its proposal.
-/

namespace RaftKv.Runtime

variable {D : Type} {n m next : Runtime D} {P : Entry → Prop}

/-- The requests, and all that is kept about them. -/
def clients (n : Runtime D) :
    Table Nat × Table PendingRead × Nat × List Request × List (Nat × Reply) :=
  (n.pendingWrites, n.pendingReads, n.nextRequestId, n.requests, n.replies)

/-- Tasks for the store loop, given which entries are known and which writes may be turned
down. -/
def FromRaft (P : Entry → Prop) (Rejects : Nat → Refusal → Prop) : StoreTask D → Prop
  | .apply e => P e
  | .rejectWrite requestId error => Rejects requestId error
  | _ => True

theorem Quiet.fromRaft {Rejects : Nat → Refusal → Prop} {task : StoreTask D} (hquiet : Quiet task) :
    FromRaft P Rejects task := by
  cases task <;> trivial

structure LoopStep (P : Entry → Prop) (Rejects : Nat → Refusal → Prop) (n next : Runtime D)
    (sent : List (Message D)) : Prop where
  config : next.config = n.config
  clients : next.clients = n.clients
  tasks : ∃ ended, (∀ task ∈ ended, task = RaftTask.stop) ∧ next.raftTasks = n.raftTasks ++ ended
  posted : ∃ added, (∀ task ∈ added, FromRaft P Rejects task) ∧
    next.storeTasks = n.storeTasks ++ added
  processed : next.processed = n.processed ∨ next.processed = []
  raft : next.raft.Within P
  sent : ∀ msg ∈ sent, msg.Within P
  waiting : ∀ turn msg, next.waiting = some (turn, msg) → msg.Within P

variable {Rejects : Nat → Refusal → Prop} {sent : List (Message D)}

/-- The same after a change that only posts to the store loop. -/
theorem LoopStep.after (hstep : LoopStep P Rejects m next sent) (hconfig : m.config = n.config)
    (hclients : m.clients = n.clients) (htasks : m.raftTasks = n.raftTasks)
    (hposted : ∃ added, (∀ task ∈ added, FromRaft P Rejects task) ∧
      m.storeTasks = n.storeTasks ++ added)
    (hprocessed : m.processed = n.processed ∨ m.processed = []) :
    LoopStep P Rejects n next sent := by
  obtain ⟨more, hmore, hnext⟩ := hstep.posted
  obtain ⟨added, hadded, hm⟩ := hposted
  refine ⟨hstep.config.trans hconfig, hstep.clients.trans hclients, htasks ▸ hstep.tasks,
    ⟨added ++ more, fun task htask => ?_, ?_⟩, ?_, hstep.raft, hstep.sent, hstep.waiting⟩
  · exact (List.mem_append.mp htask).elim (hadded task) (hmore task)
  · rw [hnext, hm, List.append_assoc]
  · rcases hstep.processed with h | h
    · rw [h]
      exact hprocessed
    · exact .inr h

/-- Nothing but flags and reads changes. -/
theorem LoopStep.still (hraft : next.raft.Within P) (hconfig : next.config = n.config)
    (hclients : next.clients = n.clients)
    (htasks : ∃ ended, (∀ task ∈ ended, task = RaftTask.stop) ∧
      next.raftTasks = n.raftTasks ++ ended)
    (hstore : next.storeTasks = n.storeTasks) (hprocessed : next.processed = n.processed)
    (hwaiting : next.waiting = none) : LoopStep P Rejects n next [] where
  config := hconfig
  clients := hclients
  tasks := htasks
  posted := ⟨[], by simp, by rw [hstore, List.append_nil]⟩
  processed := .inl hprocessed
  raft := hraft
  sent := by simp
  waiting turn msg h := by simp [hwaiting] at h

theorem requestStop_loopStep (reason : StopReason) (hraft : n.raft.Within P)
    (hidle : n.waiting = none) : LoopStep P Rejects n (n.requestStop reason) [] := by
  obtain ⟨ended, hended, heq⟩ := n.requestStop_frame reason
  rw [heq]
  exact .still hraft rfl rfl ⟨ended, hended, rfl⟩ rfl rfl hidle

theorem mem_sendAll {peers : List Nat} {sends : List Sending} {msgs : List (Message D)}
    {msg : Message D} (hmsg : msg ∈ (sendAll peers sends msgs).1) : msg ∈ msgs := by
  induction msgs generalizing sends with
  | nil => simp [sendAll] at hmsg
  | cons first rest ih =>
      unfold sendAll at hmsg
      split at hmsg
      · exact List.mem_cons_of_mem first (ih hmsg)
      · split at hmsg
        · cases hmsg
        · cases hmsg
        · rcases List.mem_cons.mp hmsg with rfl | htail
          · exact List.mem_cons_self
          · exact List.mem_cons_of_mem first (ih htail)

theorem nextEntryToApply_within {r : Raft D} (hwithin : r.Within P)
    (hblank : ∀ e : Entry, e.data = [] → P e) {e : Entry} (hnext : r.nextEntryToApply = some e) :
    P e := by
  unfold Raft.nextEntryToApply at hnext
  split at hnext
  · cases hnext
  · obtain rfl := Option.some.inj hnext
    exact hwithin.logEntry hblank _

theorem pollReadIndexes_within (hwithin : n.raft.Within P) : n.pollReadIndexes.raft.Within P := by
  rcases n.pollReadIndexes_finishes with heq | ⟨read, heq⟩ <;> rw [heq]
  · exact hwithin
  · exact hwithin.finishReadIndex read

theorem afterRaftActivity_sent (turn : Turn) (n : Runtime D) :
    ∀ msg ∈ (n.afterRaftActivity turn).2, msg ∈ n.raft.msgs := by
  intro msg hmsg
  have hpoll : n.dispatchNextCommittedEntry.pollReadIndexes.maybeCaptureSnapshot.raft.msgs =
      n.raft.msgs := by
    obtain ⟨pending, captures, -, hcapture⟩ :=
      maybeCaptureSnapshot_frame n.dispatchNextCommittedEntry.pollReadIndexes
    rw [hcapture]
    have hdispatch : n.dispatchNextCommittedEntry.raft = n.raft := by
      rcases n.dispatchNextCommittedEntry_cases with heq | ⟨entry, -, -, -, heq⟩ <;> rw [heq]
    obtain ⟨_, _, _, _, hpolled⟩ := sameButRound_pollReadIndexes n.dispatchNextCommittedEntry
    dsimp only
    rw [hpolled, hdispatch]
  unfold afterRaftActivity at hmsg
  split at hmsg
  · cases hmsg
  · unfold flushRaftMessages at hmsg
    exact hpoll ▸ mem_sendAll hmsg

theorem afterRaftActivity_loopStep (turn : Turn) (hraft : n.raft.Within P)
    (hblank : ∀ e : Entry, e.data = [] → P e) (hidle : n.waiting = none) :
    LoopStep P Rejects n (n.afterRaftActivity turn).1 (n.afterRaftActivity turn).2 := by
  have hsent : ∀ msg ∈ (n.afterRaftActivity turn).2, msg.Within P := fun msg hmsg =>
    hraft.msgs msg (afterRaftActivity_sent turn n msg hmsg)
  cases hstorage : n.raft.storageFailed with
  | true =>
      rw [afterRaftActivity, if_pos hstorage]
      exact requestStop_loopStep .walFailed hraft hidle
  | false =>
      obtain ⟨activity, heq⟩ := afterRaftActivity_healthy turn hstorage
      have hposted : ∃ added, (∀ task ∈ added, FromRaft P Rejects task) ∧
          n.dispatchNextCommittedEntry.storeTasks ++ activity.answers = n.storeTasks ++ added := by
        rcases n.dispatchNextCommittedEntry_cases with hsame | ⟨entry, hentry, -, -, hdispatch⟩
        · rw [hsame]
          exact ⟨activity.answers, fun task htask => (activity.quiet task htask).fromRaft, rfl⟩
        · rw [hdispatch]
          refine ⟨.apply entry :: activity.answers, fun task htask => ?_, by simp⟩
          rcases List.mem_cons.mp htask with rfl | htail
          · exact nextEntryToApply_within hraft hblank hentry
          · exact (activity.quiet task htail).fromRaft
      have hpolled := pollReadIndexes_within hraft
      generalize (n.afterRaftActivity turn).2 = sent at *
      rw [heq]
      exact ⟨rfl, rfl, ⟨activity.ended, activity.stop, rfl⟩, hposted, .inl rfl,
        ⟨hpolled.log, hpolled.wal, by simp [Raft.readMessages]⟩, hsent,
        fun turn msg h => by simp [hidle] at h⟩

/-! ## Tasks of the Raft loop -/

theorem cancelRaftRead_loopStep (requestId : Nat) (hraft : n.raft.Within P)
    (hidle : n.waiting = none) : LoopStep P Rejects n (n.cancelRaftRead requestId) [] := by
  unfold cancelRaftRead
  split
  · exact .still hraft rfl rfl ⟨[], by simp, by simp⟩ rfl rfl hidle
  · dsimp only
    split
    · exact .still hraft rfl rfl ⟨[], by simp, by simp⟩ rfl rfl hidle
    · exact .still (hraft.finishReadIndex _) rfl rfl ⟨[], by simp, by simp⟩ rfl rfl hidle

section

variable [Blob D]

/-- A call of the Raft object and the activity after it. -/
theorem call_loopStep (turn : Turn) (verdict : Bool) (input : Input D) (hraft : n.raft.Within P)
    (hblank : ∀ e : Entry, e.data = [] → P e) (hhealthy : n.raft.storageFailed = false)
    (hmessage : ∀ msg, input = .message msg → msg.Within P)
    (hdata : ∀ data, input = .propose data → n.raft.Proposes data P)
    (hcalled : m.raft = (n.raft.arm (turn.env verdict)).step input) (hidle : m.waiting = none)
    (hconfig : m.config = n.config)
    (hclients : m.clients = n.clients) (htasks : m.raftTasks = n.raftTasks)
    (hposted : ∃ added, (∀ task ∈ added, FromRaft P Rejects task) ∧
      m.storeTasks = n.storeTasks ++ added)
    (hprocessed : m.processed = n.processed ∨ m.processed = []) :
    LoopStep P Rejects n (m.afterRaftActivity turn).1 (m.afterRaftActivity turn).2 := by
  have hwithin : m.raft.Within P := by
    rw [hcalled]
    exact (hraft.arm _).step hblank hhealthy hmessage hdata
  exact (afterRaftActivity_loopStep turn hwithin hblank hidle).after hconfig hclients htasks hposted
    hprocessed

/-- The outcome of a proposal that turns a write down. -/
def RejectedBy (n : Runtime D) (task : RaftTask D) (requestId : Nat) (error : Refusal) : Prop :=
  ∃ bytes, task = .propose requestId bytes ∧ ∀ leader, error = .notLeader leader →
    ¬ (n.raft.state = .leader ∧ n.raft.storageFailed = false)

theorem proposeTask_loopStep (turn : Turn) (requestId : Nat) (bytes : Bytes)
    (hraft : n.raft.Within P) (hblank : ∀ e : Entry, e.data = [] → P e)
    (hhealthy : n.raft.storageFailed = false) (hidle : n.waiting = none)
    (hdata : n.raft.Proposes bytes P) :
    LoopStep P (n.RejectedBy (.propose requestId bytes)) n
      (n.proposeTask turn requestId bytes).1 (n.proposeTask turn requestId bytes).2 := by
  have hcall : ∀ m : Runtime D, m.raft = ((n.raft.arm (turn.env false)).propose bytes).1 →
      m.waiting = none → m.config = n.config → m.clients = n.clients →
      m.raftTasks = n.raftTasks → (∃ added, (∀ task ∈ added,
        FromRaft P (n.RejectedBy (.propose requestId bytes)) task) ∧
          m.storeTasks = n.storeTasks ++ added) → m.processed = n.processed →
      LoopStep P (n.RejectedBy (.propose requestId bytes)) n (m.afterRaftActivity turn).1
        (m.afterRaftActivity turn).2 := fun m hm hwait hconfig hclients htasks hposted hproc =>
    call_loopStep turn false (.propose bytes) hraft hblank hhealthy (by simp)
      (by intro data heq; cases heq; exact hdata) hm hwait hconfig hclients htasks hposted
      (.inl hproc)
  unfold proposeTask
  dsimp only
  split
  · exact hcall _ rfl hidle rfl rfl rfl ⟨[], by simp, by simp⟩ rfl
  next hnone =>
    refine hcall _ rfl hidle rfl rfl rfl ⟨_, fun task htask => ?_, rfl⟩ rfl
    rw [List.mem_singleton.mp htask]
    refine ⟨bytes, rfl, fun leader herror hleads => ?_⟩
    -- a leader that turned the proposal down could not store it
    have hfailed : ((n.raft.arm (turn.env false)).propose bytes).1.storageFailed = true := by
      have hnot : ¬ ((n.raft.arm (turn.env false)).state ≠ .leader ∨
          (n.raft.arm (turn.env false)).storageFailed = true) := by
        rintro (h | h)
        · exact h hleads.1
        · exact absurd (hleads.2.symm.trans h) (by simp)
      unfold Raft.propose at hnone ⊢
      rw [if_neg hnot] at hnone ⊢
      dsimp only at hnone ⊢
      split at hnone
      next hno =>
        rw [if_pos hno]
        unfold Raft.appendOwn at hno ⊢
        dsimp only at hno ⊢
        split at hno
        next hsync =>
          rw [if_pos hsync]
          exact Raft.syncWal_failed (by simpa using hsync)
        · simp at hno
      · cases hnone
    rw [if_pos hfailed] at herror
    cases herror

theorem acknowledgeTask_loopStep (turn : Turn) (index : Nat) (hraft : n.raft.Within P)
    (hblank : ∀ e : Entry, e.data = [] → P e) (hhealthy : n.raft.storageFailed = false)
    (hidle : n.waiting = none) :
    LoopStep P Rejects n (n.acknowledgeTask turn index).1 (n.acknowledgeTask turn index).2 := by
  unfold acknowledgeTask
  split
  · exact .still hraft rfl rfl ⟨[], by simp, by simp⟩ rfl rfl hidle
  · split
    · exact requestStop_loopStep _ hraft hidle
    · dsimp only
      split
      · have hstep : ((n.raft.arm (turn.env false)).step (.advance index)).Within P :=
          (hraft.arm _).step hblank hhealthy (by simp) (by simp)
        exact (requestStop_loopStep (n := n.callRaft turn false (.advance index)) _ hstep
          hidle).after
          rfl rfl rfl ⟨[], by simp, by simp [callRaft]⟩
          (.inl rfl)
      · exact call_loopStep turn false (.advance index) hraft hblank hhealthy (by simp)
          (by simp) rfl
          hidle rfl rfl rfl ⟨[], by simp, by simp [callRaft]⟩ (.inl rfl)

theorem handleRaftMessage_loopStep (turn : Turn) (msg : Message D) (hraft : n.raft.Within P)
    (hblank : ∀ e : Entry, e.data = [] → P e) (hhealthy : n.raft.storageFailed = false)
    (hidle : n.waiting = none) (hmsg : msg.Within P) :
    LoopStep P Rejects n (n.handleRaftMessage turn msg).1 (n.handleRaftMessage turn msg).2 := by
  unfold handleRaftMessage
  split
  · exact .still hraft rfl rfl ⟨[], by simp, by simp⟩ rfl rfl hidle
  · split
    · refine ⟨rfl, rfl, ⟨[], by simp, by simp [postStore]⟩, ⟨[_], fun task htask => ?_, rfl⟩,
        .inl rfl, hraft, by simp, fun _ other hwait => ?_⟩
      · rw [List.mem_singleton.mp htask]
        trivial
      · obtain ⟨-, rfl⟩ := Prod.mk.inj (Option.some.inj hwait)
        exact hmsg
    · exact call_loopStep turn false (.message msg) hraft hblank hhealthy
        (by rintro other ⟨⟩; exact hmsg) (by simp) rfl hidle rfl rfl rfl
        ⟨[], by simp, by simp [callRaft]⟩ (.inl rfl)

theorem runRaftTask_loopStep (turn : Turn) (task : RaftTask D) (hraft : n.raft.Within P)
    (hblank : ∀ e : Entry, e.data = [] → P e) (hsettled : ReadsSettled n)
    (hidle : n.waiting = none) (hmsg : ∀ msg, task = .message msg → msg.Within P)
    (hdata : ∀ requestId bytes, task = .propose requestId bytes → n.raft.Proposes bytes P) :
    LoopStep P (n.RejectedBy task) n (n.runRaftTask turn task).1 (n.runRaftTask turn task).2 := by
  have hstill : LoopStep P (n.RejectedBy task) n n [] :=
    .still hraft rfl rfl ⟨[], by simp, by simp⟩ rfl rfl hidle
  have hhealthy : ¬ n.stopping = true → n.raft.storageFailed = false := fun h =>
    hsettled.healthy (by simpa using h)
  cases task with
  | message msg =>
      rw [runRaftTask]
      split
      · exact hstill
      next hrunning =>
        exact handleRaftMessage_loopStep turn msg hraft hblank (hhealthy hrunning) hidle
          (hmsg msg rfl)
  | propose requestId bytes =>
      rw [runRaftTask]
      split
      · exact hstill
      next hrunning =>
        exact proposeTask_loopStep turn requestId bytes hraft hblank (hhealthy hrunning) hidle
          (hdata requestId bytes rfl)
  | read requestId =>
      rw [runRaftTask]
      split
      · exact hstill
      next hrunning =>
        have hcall : ∀ m : Runtime D, m.raft = (n.raft.arm (turn.env false)).readIndex.1 →
            m.waiting = none → m.config = n.config → m.clients = n.clients →
            m.raftTasks = n.raftTasks → (∃ added, (∀ task ∈ added,
              FromRaft P (n.RejectedBy (.read requestId)) task) ∧
                m.storeTasks = n.storeTasks ++ added) → m.processed = n.processed →
            LoopStep P (n.RejectedBy (.read requestId)) n (m.afterRaftActivity turn).1
              (m.afterRaftActivity turn).2 :=
              fun m hm hwait hconfig hclients htasks hposted hproc =>
          call_loopStep turn false .readIndex hraft hblank (hhealthy hrunning) (by simp)
            (by simp) hm
            hwait hconfig hclients htasks hposted (.inl hproc)
        unfold readTask
        dsimp only
        split
        · refine hcall _ rfl hidle rfl rfl rfl ⟨_, fun task htask => ?_, rfl⟩ rfl
          rw [List.mem_singleton.mp htask]
          trivial
        · exact hcall _ rfl hidle rfl rfl rfl ⟨[], by simp, by simp⟩ rfl
  | acknowledge index =>
      rw [runRaftTask]
      split
      · exact hstill
      next hrunning =>
        exact acknowledgeTask_loopStep turn index hraft hblank (hhealthy hrunning) hidle
  | cancelRead requestId => exact cancelRaftRead_loopStep requestId hraft hidle
  | takeSnapshot index state =>
      rw [runRaftTask]
      dsimp only
      split
      · exact .still hraft rfl rfl ⟨[], by simp, by simp⟩ rfl rfl hidle
      next hrunning =>
        exact call_loopStep turn false (.takeSnapshot index state) hraft hblank (hhealthy hrunning)
          (by simp) (by simp) rfl hidle rfl rfl rfl ⟨[], by simp, by simp [callRaft]⟩ (.inl rfl)
  | stop =>
      refine ⟨rfl, rfl, ⟨[], by simp, by simp [runRaftTask, postStore]⟩,
        ⟨[.stop], fun task htask => ?_, rfl⟩, .inl rfl, hraft, by simp [runRaftTask],
        fun _ _ h => ?_⟩
      · rw [List.mem_singleton.mp htask]
        trivial
      · simp [runRaftTask, postStore, hidle] at h

theorem resume_loopStep (turn : Turn) (msg : Message D) (verdict : Bool) (hraft : n.raft.Within P)
    (hblank : ∀ e : Entry, e.data = [] → P e) (hhealthy : n.raft.storageFailed = false)
    (hmsg : msg.Within P) :
    LoopStep P Rejects n (n.resume turn msg verdict).1 (n.resume turn msg verdict).2 := by
  have hmsg : ∀ other, Input.message msg = .message other → other.Within P := by
    rintro other ⟨⟩
    exact hmsg
  unfold resume
  dsimp only
  split
  · exact call_loopStep turn verdict (.message msg) hraft hblank hhealthy hmsg (by simp) rfl rfl rfl
      rfl rfl ⟨[], by simp, by simp [callRaft, rebase]⟩ (.inr rfl)
  · exact call_loopStep turn verdict (.message msg) hraft hblank hhealthy hmsg (by simp) rfl rfl rfl
      rfl rfl ⟨[], by simp, by simp [callRaft]⟩ (.inl rfl)

theorem tick_loopStep (turn : Turn) (hraft : n.raft.Within P)
    (hblank : ∀ e : Entry, e.data = [] → P e) (hsettled : ReadsSettled n)
    (hidle : n.waiting = none) :
    LoopStep P Rejects n (n.tick turn).1 (n.tick turn).2 := by
  unfold tick
  split
  · exact .still hraft rfl rfl ⟨[], by simp, by simp⟩ rfl rfl hidle
  next hrunning =>
    exact call_loopStep turn false .tick hraft hblank (hsettled.healthy (by simpa using hrunning))
      (by simp) (by simp) rfl hidle rfl rfl rfl ⟨[], by simp, by simp [callRaft]⟩ (.inl rfl)

theorem timeout_loopStep (turn : Turn) (msg : Message D) (hraft : n.raft.Within P)
    (hblank : ∀ e : Entry, e.data = [] → P e) (hhealthy : n.raft.storageFailed = false)
    (hmsg : msg.Within P) :
    LoopStep P Rejects n ((n.requestStop .restoreTimedOut).resume turn msg false).1
      ((n.requestStop .restoreTimedOut).resume turn msg false).2 := by
  obtain ⟨ended, hended, heq⟩ := n.requestStop_frame .restoreTimedOut
  rw [heq]
  have hstep : LoopStep P Rejects { n with
      raftTasks := n.raftTasks ++ ended
      stopping := true
      stops := n.stops ++ [.restoreTimedOut] } _ _ :=
    resume_loopStep turn msg false hraft hblank hhealthy hmsg
  obtain ⟨more, hmore, htasks⟩ := hstep.tasks
  refine ⟨hstep.config, hstep.clients, ⟨ended ++ more, fun task htask => ?_, ?_⟩, hstep.posted,
    hstep.processed, hstep.raft, hstep.sent, hstep.waiting⟩
  · exact (List.mem_append.mp htask).elim (hended task) (hmore task)
  · rw [htasks, List.append_assoc]

end

/-! ## Events -/

/-- Every entry that a node holds, has been sent, or has handed to its store satisfies `P`. -/
structure Within (P : Entry → Prop) (n : Runtime D) : Prop where
  raft : n.raft.Within P
  queued : ∀ msg, RaftTask.message msg ∈ n.raftTasks → msg.Within P
  waiting : ∀ turn msg, n.waiting = some (turn, msg) → msg.Within P
  handed : ∀ e, StoreTask.apply e ∈ n.storeTasks → P e
  processed : ∀ e ∈ n.processed, P e

theorem Within.mono {Q : Entry → Prop} (hwithin : n.Within P) (hall : ∀ e, P e → Q e) :
    n.Within Q where
  raft := hwithin.raft.mono hall
  queued msg hmsg htype e he := hall e (hwithin.queued msg hmsg htype e he)
  waiting turn msg hmsg htype e he := hall e (hwithin.waiting turn msg hmsg htype e he)
  handed e he := hall e (hwithin.handed e he)
  processed e he := hall e (hwithin.processed e he)

theorem within_true (n : Runtime D) : n.Within fun _ => True :=
  ⟨⟨fun _ _ => trivial, fun _ _ _ _ => trivial, fun _ _ _ _ _ => trivial⟩,
    fun _ _ _ _ _ => trivial, fun _ _ _ _ _ _ => trivial, fun _ _ => trivial, fun _ _ => trivial⟩

variable [Blob D]

/-- The events that the Raft loop takes. -/
def OnRaftLoop : Event D → Prop
  | .tick _ | .raft _ | .restored | .timeout => True
  | _ => False

/-- The queue an event leaves, and the writes it may turn down. -/
inductive Taken (n : Runtime D) : Event D → List (RaftTask D) → (Nat → Refusal → Prop) → Prop
  | nothing (event : Event D) (hevent : ∀ turn, event ≠ .raft turn) :
      Taken n event n.raftTasks fun _ _ => False
  | task (turn : Turn) (task : RaftTask D) (rest : List (RaftTask D))
      (hqueue : n.raftTasks = task :: rest) : Taken n (.raft turn) rest (n.RejectedBy task)

variable {codec : StoreCodec D} {event : Event D} {result : Runtime D × List (Message D)}

theorem Happens.loopStep (hwithin : n.Within P) (hblank : ∀ e : Entry, e.data = [] → P e)
    (hsettled : ReadsSettled n)
    (hdata : ∀ turn requestId bytes rest, event = .raft turn →
      n.raftTasks = .propose requestId bytes :: rest → n.raft.Proposes bytes P)
    (hhappens : Happens codec n event result) (hloop : OnRaftLoop event) :
    ∃ tasks Rejects, n.Taken event tasks Rejects ∧
      LoopStep P Rejects { n with raftTasks := tasks } result.1 result.2 := by
  cases hhappens with
  | tick turn hidle =>
      exact ⟨n.raftTasks, fun _ _ => False, .nothing _ nofun,
        tick_loopStep turn hwithin.raft hblank hsettled hidle⟩
  | raft turn task rest hidle hqueue =>
      have hrest : ReadsSettled { n with raftTasks := rest } :=
        hsettled.of_eq rfl rfl hsettled.busy fun h => h
      refine ⟨rest, n.RejectedBy task, .task turn task rest hqueue,
        runRaftTask_loopStep (n := { n with raftTasks := rest }) turn task hwithin.raft hblank hrest
          hidle ?_ ?_⟩
      · rintro msg rfl
        exact hwithin.queued msg (by simp [hqueue])
      · rintro requestId bytes rfl
        exact hdata turn requestId bytes rest rfl hqueue
  | restored turn msg verdict hwaiting =>
      exact ⟨n.raftTasks, fun _ _ => False, .nothing _ nofun,
        resume_loopStep turn msg verdict hwithin.raft hblank (hsettled.busy (by simp [hwaiting]))
          (hwithin.waiting turn msg hwaiting)⟩
  | timeout turn msg hwaiting =>
      exact ⟨n.raftTasks, fun _ _ => False, .nothing _ nofun,
        timeout_loopStep turn msg hwithin.raft hblank (hsettled.busy (by simp [hwaiting]))
          (hwithin.waiting turn msg hwaiting)⟩
  | _ => exact hloop.elim

/-- The Raft loop leaves the clients' requests alone. -/
theorem Happens.clients_eq (hsettled : ReadsSettled n) (hhappens : Happens codec n event result)
    (hloop : OnRaftLoop event) : result.1.clients = n.clients := by
  obtain ⟨tasks, Rejects, -, hstep⟩ := hhappens.loopStep n.within_true (fun _ _ => trivial) hsettled
    (fun _ _ _ _ _ _ _ _ => trivial) hloop
  exact hstep.clients

end RaftKv.Runtime
