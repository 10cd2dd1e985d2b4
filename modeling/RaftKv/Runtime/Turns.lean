import RaftKv.Runtime.Handoff
import RaftKv.Runtime.Loop

/-! # What one turn does to the Raft object and the reads

A task of the Raft loop makes at most one call of the Raft object. The activity after it
may finish the open read round, and only then are reads handed to the store loop. This is
what the loop looks like to the other nodes and to the clients that read; nothing here
concerns snapshots.
-/

namespace RaftKv.Runtime

variable {D : Type} {n m next : Runtime D}

def completion? : StoreTask D → Option Nat
  | .completeRead requestId => some requestId
  | _ => none

/-- The reads that the store loop has been told to complete. -/
def completing (n : Runtime D) : List Nat := n.storeTasks.filterMap completion?

/-! ## After a call -/

/-- What `poll_read_indexes` makes of the Raft object and the waiting reads, and the reads
that it hands to the store loop. -/
inductive Polled (r : Raft D) (reads : Table ReadIndexToken) :
    Raft D → Table ReadIndexToken → List Nat → Prop
  | nothing : Polled r reads r reads []
  | lost : Polled r reads r Table.empty []
  | ready (read : ReadIndexToken) (hready : r.readIndexReady read = true) :
      Polled r reads (r.finishReadIndex read) (reads.filter (· ≠ read))
        (reads.filter (· = read)).keys

/-- The same for `after_raft_activity`, with what the transport takes. -/
inductive Activity (r : Raft D) (reads : Table ReadIndexToken) :
    Raft D → Table ReadIndexToken → List Nat → List (Message D) → Prop
  | failed (hfailed : r.storageFailed = true) : Activity r reads r reads [] []
  | flushed (polled : Raft D) (left : Table ReadIndexToken) (completed : List Nat)
      (sent : List (Message D)) (hhealthy : r.storageFailed = false)
      (hpolled : Polled r reads polled left completed) (hsent : ∀ msg ∈ sent, msg ∈ r.msgs) :
      Activity r reads polled.readMessages.1 left completed sent

theorem pollReadIndexes_polled (n : Runtime D) :
    ∃ completed, Polled n.raft n.raftReadIndexes n.pollReadIndexes.raft
        n.pollReadIndexes.raftReadIndexes completed ∧
      n.pollReadIndexes.completing = n.completing ++ completed := by
  unfold pollReadIndexes
  split
  · exact ⟨[], .nothing, by simp⟩
  · split
    · refine ⟨[], .lost, ?_⟩
      simp only [completing, List.filterMap_append, List.filterMap_map]
      congr 1
      exact List.filterMap_eq_nil_iff.mpr fun _ _ => rfl
    · split
      · exact ⟨[], .nothing, by simp⟩
      next ready hready =>
        refine ⟨_, .ready ready (List.find?_some hready), ?_⟩
        simp only [completing, List.filterMap_append, List.filterMap_map, sharing]
        congr 1
        exact List.filterMap_some

theorem afterRaftActivity_activity (turn : Turn) (n : Runtime D) :
    ∃ completed, Activity n.raft n.raftReadIndexes (n.afterRaftActivity turn).1.raft
        (n.afterRaftActivity turn).1.raftReadIndexes completed (n.afterRaftActivity turn).2 ∧
      (n.afterRaftActivity turn).1.completing = n.completing ++ completed := by
  cases hstorage : n.raft.storageFailed with
  | true =>
      obtain ⟨ended, -, heq⟩ := afterRaftActivity_failed turn hstorage
      rw [heq]
      exact ⟨[], .failed hstorage, by simp [completing]⟩
  | false =>
      have hsent := afterRaftActivity_sent turn n
      rw [afterRaftActivity, if_neg (by simp [hstorage])] at hsent ⊢
      generalize hstarted : n.dispatchNextCommittedEntry = started at hsent ⊢
      have hbefore : started.raft = n.raft ∧ started.raftReadIndexes = n.raftReadIndexes ∧
          started.completing = n.completing := by
        rw [← hstarted]
        rcases n.dispatchNextCommittedEntry_cases with heq | ⟨entry, -, -, -, heq⟩ <;> rw [heq]
        · exact ⟨rfl, rfl, rfl⟩
        · exact ⟨rfl, rfl, by simp [completing, completion?]⟩
      obtain ⟨hraft, hreads, hcompleting⟩ := hbefore
      obtain ⟨completed, hpolled, hadded⟩ := started.pollReadIndexes_polled
      rw [hraft, hreads] at hpolled
      rw [hcompleting] at hadded
      generalize started.pollReadIndexes = polled at hsent hpolled hadded ⊢
      have hcaptured : polled.maybeCaptureSnapshot.raft = polled.raft ∧
          polled.maybeCaptureSnapshot.raftReadIndexes = polled.raftReadIndexes ∧
          polled.maybeCaptureSnapshot.completing = polled.completing := by
        unfold maybeCaptureSnapshot
        split
        · exact ⟨rfl, rfl, rfl⟩
        · exact ⟨rfl, rfl, by simp [completing, postStore, completion?]⟩
      obtain ⟨hraft', hreads', hcompleting'⟩ := hcaptured
      obtain ⟨ending, hflush⟩ := flushRaftMessages_frame turn polled.maybeCaptureSnapshot
      refine ⟨completed, ?_, ?_⟩
      · rw [hflush]
        dsimp only
        rw [hraft', hreads']
        exact .flushed polled.raft _ completed _ hstorage hpolled hsent
      · rw [hflush, ← hadded, ← hcompleting']
        rfl

/-- Tasks that capture the store or replace it. -/
def forSnapshot : StoreTask D → Bool
  | .capture | .restore _ _ => true
  | _ => false

theorem mem_posted {tasks : List (StoreTask D)} {posted : StoreTask D}
    (hposted : forSnapshot posted = false) :
    ∀ task ∈ tasks ++ [posted], task ∈ tasks ∨ forSnapshot task = false := by
  intro task htask
  rcases List.mem_append.mp htask with hold | hnew
  · exact .inl hold
  · exact .inr (List.mem_singleton.mp hnew ▸ hposted)

theorem finishReadIndex_threshold (r : Raft D) (read : ReadIndexToken) :
    (r.finishReadIndex read).snapshotThreshold = r.snapshotThreshold := by
  obtain ⟨_, _, _, _, heq⟩ := sameButRound_finishReadIndex r read
  rw [heq]

theorem Polled.threshold {r after : Raft D} {reads left : Table ReadIndexToken}
    {completed : List Nat} (hpolled : Polled r reads after left completed) :
    after.snapshotThreshold = r.snapshotThreshold := by
  cases hpolled with
  | ready read => exact finishReadIndex_threshold r read
  | _ => rfl

theorem Activity.threshold {r after : Raft D} {reads left : Table ReadIndexToken}
    {completed : List Nat} {sent : List (Message D)}
    (hactivity : Activity r reads after left completed sent) :
    after.snapshotThreshold = r.snapshotThreshold := by
  cases hactivity with
  | failed => rfl
  | flushed polled _ _ _ _ hpolled => exact hpolled.threshold

/-- Without a threshold nothing is captured. -/
theorem afterRaftActivity_posts (turn : Turn) (n : Runtime D)
    (hthreshold : n.raft.snapshotThreshold = 0) :
    ∀ task ∈ (n.afterRaftActivity turn).1.storeTasks, task ∈ n.storeTasks ∨
      forSnapshot task = false := by
  unfold afterRaftActivity
  split
  · obtain ⟨ended, -, heq⟩ := n.requestStop_frame .walFailed
    rw [heq]
    exact fun _ => .inl
  · have hdispatch : n.dispatchNextCommittedEntry.raft = n.raft ∧
        ∀ task ∈ n.dispatchNextCommittedEntry.storeTasks, task ∈ n.storeTasks ∨
          forSnapshot task = false := by
      rcases n.dispatchNextCommittedEntry_cases with heq | ⟨entry, -, -, -, heq⟩ <;> rw [heq]
      · exact ⟨rfl, fun _ => .inl⟩
      · exact ⟨rfl, mem_posted rfl⟩
    generalize n.dispatchNextCommittedEntry = started at hdispatch ⊢
    obtain ⟨completed, hpolled, -⟩ := started.pollReadIndexes_polled
    have hzero := hpolled.threshold
    rw [hdispatch.1, hthreshold] at hzero
    have hnever : started.pollReadIndexes.maybeCaptureSnapshot = started.pollReadIndexes := by
      unfold maybeCaptureSnapshot Raft.shouldSnapshot
      rw [hzero]
      simp
    rw [hnever]
    obtain ⟨ending, hflush⟩ := flushRaftMessages_frame turn started.pollReadIndexes
    rw [hflush]
    intro task (htask : task ∈ started.pollReadIndexes.storeTasks)
    unfold pollReadIndexes at htask
    split at htask
    · exact hdispatch.2 task htask
    · split at htask
      · rcases List.mem_append.mp htask with hold | hnew
        · exact hdispatch.2 task hold
        · obtain ⟨id, -, rfl⟩ := List.mem_map.mp hnew
          exact .inr rfl
      · split at htask
        · exact hdispatch.2 task htask
        · rcases List.mem_append.mp htask with hold | hnew
          · exact hdispatch.2 task hold
          · obtain ⟨id, -, rfl⟩ := List.mem_map.mp hnew
            exact .inr rfl

/-! ## One turn -/

/-- The call of the Raft object that a task is for. -/
def input? : RaftTask D → Option (Input D)
  | .message msg => some (.message msg)
  | .propose _ bytes => some (.propose bytes)
  | .read _ => some .readIndex
  | .acknowledge index => some (.advance index)
  | .takeSnapshot index state => some (.takeSnapshot index state)
  | .cancelRead _ | .stop => none

/-- The call that an event makes, and the reads that wait after it. -/
inductive Asks (n : Runtime D) : Event D → Input D → Table ReadIndexToken → Prop
  | tick (turn : Turn) : Asks n (.tick turn) .tick n.raftReadIndexes
  | task (turn : Turn) (task : RaftTask D) (rest : List (RaftTask D)) (input : Input D)
      (hqueue : n.raftTasks = task :: rest) (hinput : input? task = some input) :
      Asks n (.raft turn) input n.raftReadIndexes
  | read (turn : Turn) (requestId : Nat) (rest : List (RaftTask D)) (read : ReadIndexToken)
      (hqueue : n.raftTasks = .read requestId :: rest) :
      Asks n (.raft turn) .readIndex (n.raftReadIndexes.insert requestId read)

theorem afterRaftActivity_store (turn : Turn) (n : Runtime D) :
    (n.afterRaftActivity turn).1.store = n.store ∧
      (n.afterRaftActivity turn).1.storeAppliedIndex = n.storeAppliedIndex := by
  cases hstorage : n.raft.storageFailed with
  | true =>
      obtain ⟨ended, -, heq⟩ := afterRaftActivity_failed turn hstorage
      rw [heq]
      exact ⟨rfl, rfl⟩
  | false =>
      obtain ⟨activity, heq⟩ := afterRaftActivity_healthy turn hstorage
      rw [heq]
      exact ⟨rfl, rfl⟩

theorem requestStop_completing (n : Runtime D) (reason : StopReason) :
    (n.requestStop reason).raft = n.raft ∧
      (n.requestStop reason).raftReadIndexes = n.raftReadIndexes ∧
      (n.requestStop reason).completing = n.completing ∧
      (n.requestStop reason).waiting = n.waiting ∧
      (n.requestStop reason).storeTasks = n.storeTasks ∧
      (n.requestStop reason).store = n.store ∧
      (n.requestStop reason).storeAppliedIndex = n.storeAppliedIndex := by
  obtain ⟨ended, -, heq⟩ := n.requestStop_frame reason
  rw [heq]
  exact ⟨rfl, rfl, rfl, rfl, rfl, rfl, rfl⟩

variable [Blob D]

/-- What a turn of the Raft loop does to the Raft object, to the waiting reads and to those
on their way to the store. -/
inductive Effect (n : Runtime D) (event : Event D) (next : Runtime D) (sent : List (Message D)) :
    Prop
  | idle (hraft : next.raft = n.raft) (hreads : next.raftReadIndexes = n.raftReadIndexes)
      (hcompleting : next.completing = n.completing) (hsent : sent = [])
  | cancelled (requestId : Nat) (read : ReadIndexToken)
      (hraft : next.raft = n.raft ∨ next.raft = n.raft.finishReadIndex read)
      (hreads : next.raftReadIndexes = n.raftReadIndexes.erase requestId)
      (hcompleting : next.completing = n.completing) (hsent : sent = [])
  | called (env : Env) (input : Input D) (reads : Table ReadIndexToken) (completed : List Nat)
      (hhealthy : n.raft.storageFailed = false) (hasks : Asks n event input reads)
      (hactivity : Activity ((n.raft.arm env).step input) reads next.raft next.raftReadIndexes
        completed sent)
      (hcompleting : next.completing = n.completing ++ completed)
  /-- An acknowledgment that the Raft object does not accept ends the node. -/
  | stopped (env : Env) (index : Nat) (hhealthy : n.raft.storageFailed = false)
      (hraft : next.raft = (n.raft.arm env).step (.advance index))
      (hreads : next.raftReadIndexes = n.raftReadIndexes)
      (hcompleting : next.completing = n.completing) (hsent : sent = [])

structure Turned (n : Runtime D) (event : Event D) (next : Runtime D) (sent : List (Message D)) :
    Prop where
  effect : Effect n event next sent
  idle : next.waiting = none
  posted : n.raft.snapshotThreshold = 0 → ∀ task ∈ next.storeTasks,
    task ∈ n.storeTasks ∨ forSnapshot task = false
  store : next.store = n.store ∧ next.storeAppliedIndex = n.storeAppliedIndex

/-- No call changes what the node was configured with. -/
theorem step_threshold {r : Raft D} (hhealthy : r.storageFailed = false) (input : Input D) :
    (r.step input).snapshotThreshold = r.snapshotThreshold :=
  (Raft.step_moves hhealthy (Raft.heard_allows input)).same_config.2.2

theorem Turned.of_call {event : Event D} {input : Input D} {reads : Table ReadIndexToken}
    (turn : Turn) (hhealthy : n.raft.storageFailed = false) (hasks : Asks n event input reads)
    (hraft : m.raft = (n.raft.arm (turn.env false)).step input)
    (hreads : m.raftReadIndexes = reads) (hcompleting : m.completing = n.completing)
    (hidle : m.waiting = none)
    (hposted : ∀ task ∈ m.storeTasks, task ∈ n.storeTasks ∨ forSnapshot task = false)
    (hstore : m.store = n.store ∧ m.storeAppliedIndex = n.storeAppliedIndex) :
    Turned n event (m.afterRaftActivity turn).1 (m.afterRaftActivity turn).2 where
  effect := by
    obtain ⟨completed, hactivity, hadded⟩ := afterRaftActivity_activity turn m
    rw [hraft, hreads] at hactivity
    exact .called (turn.env false) input reads completed hhealthy hasks hactivity
      (hcompleting ▸ hadded)
  idle := (afterRaftActivity_frame turn m).1.trans hidle
  posted hzero task htask := by
    have hthreshold : m.raft.snapshotThreshold = 0 := by
      rw [hraft, step_threshold (r := n.raft.arm (turn.env false)) hhealthy]
      exact hzero
    exact (afterRaftActivity_posts turn m hthreshold task htask).elim (hposted task) .inr
  store := by
    obtain ⟨hkept, happlied⟩ := afterRaftActivity_store turn m
    exact ⟨hkept.trans hstore.1, happlied.trans hstore.2⟩

theorem Turned.still {event : Event D} (heffect : Effect n event m []) (hidle : m.waiting = none)
    (hposted : ∀ task ∈ m.storeTasks, task ∈ n.storeTasks ∨ forSnapshot task = false)
    (hstore : m.store = n.store ∧ m.storeAppliedIndex = n.storeAppliedIndex) :
    Turned n event m [] := ⟨heffect, hidle, fun _ => hposted, hstore⟩

section Tasks

variable {task : RaftTask D} {rest : List (RaftTask D)}

/-- A task that is dropped. -/
theorem Turned.dropped (event : Event D) (hidle : n.waiting = none) (rest : List (RaftTask D)) :
    Turned n event { n with raftTasks := rest } [] :=
  .still (.idle rfl rfl rfl rfl) hidle (fun _ => .inl) ⟨rfl, rfl⟩

theorem handleRaftMessage_turned (turn : Turn) {msg : Message D}
    (hqueue : n.raftTasks = .message msg :: rest) (hhealthy : n.raft.storageFailed = false)
    (hidle : n.waiting = none) (htype : msg.type ≠ .installSnapshot) :
    Turned n (.raft turn) ({ n with raftTasks := rest }.handleRaftMessage turn msg).1
      ({ n with raftTasks := rest }.handleRaftMessage turn msg).2 := by
  unfold handleRaftMessage
  split
  · exact .dropped _ hidle rest
  · have hno : asksRestore turn { n with raftTasks := rest } msg = false := by
      simp [asksRestore, htype]
    rw [if_neg (by simp [hno])]
    exact .of_call turn hhealthy (.task turn _ rest _ hqueue rfl) rfl rfl rfl hidle (fun _ => .inl)
      ⟨rfl, rfl⟩

theorem proposeTask_turned (turn : Turn) {requestId : Nat} {bytes : Bytes}
    (hqueue : n.raftTasks = .propose requestId bytes :: rest)
    (hhealthy : n.raft.storageFailed = false) (hidle : n.waiting = none) :
    Turned n (.raft turn) ({ n with raftTasks := rest }.proposeTask turn requestId bytes).1
      ({ n with raftTasks := rest }.proposeTask turn requestId bytes).2 := by
  have hasks : Asks n (.raft turn) (.propose bytes) n.raftReadIndexes :=
    .task turn _ rest _ hqueue rfl
  unfold proposeTask
  dsimp only
  split
  · exact .of_call turn hhealthy hasks rfl rfl rfl hidle (fun _ => .inl) ⟨rfl, rfl⟩
  · exact .of_call turn hhealthy hasks rfl rfl (by simp [completing, postStore, completion?]) hidle
      (mem_posted rfl) ⟨rfl, rfl⟩

theorem readTask_turned (turn : Turn) {requestId : Nat}
    (hqueue : n.raftTasks = .read requestId :: rest) (hhealthy : n.raft.storageFailed = false)
    (hidle : n.waiting = none) :
    Turned n (.raft turn) ({ n with raftTasks := rest }.readTask turn requestId).1
      ({ n with raftTasks := rest }.readTask turn requestId).2 := by
  unfold readTask
  dsimp only
  split
  · exact .of_call turn hhealthy (.task turn _ rest .readIndex hqueue rfl) rfl rfl
      (by simp [completing, postStore, completion?]) hidle (mem_posted rfl) ⟨rfl, rfl⟩
  next read _ =>
    exact .of_call turn hhealthy (.read turn requestId rest read hqueue) rfl rfl rfl hidle
      (fun _ => .inl) ⟨rfl, rfl⟩

theorem acknowledgeTask_turned (turn : Turn) {index : Nat}
    (hqueue : n.raftTasks = .acknowledge index :: rest) (hhealthy : n.raft.storageFailed = false)
    (hidle : n.waiting = none) :
    Turned n (.raft turn) ({ n with raftTasks := rest }.acknowledgeTask turn index).1
      ({ n with raftTasks := rest }.acknowledgeTask turn index).2 := by
  unfold acknowledgeTask
  split
  · exact .dropped _ hidle rest
  · split
    · obtain ⟨hraft, hreads, hcompleting, hwaiting, hstore, hkept⟩ :=
        requestStop_completing { n with raftTasks := rest } .acknowledgmentOutOfOrder
      exact .still (.idle hraft hreads hcompleting rfl) (hwaiting.trans hidle)
        (fun task htask => .inl (hstore ▸ htask)) hkept
    · dsimp only
      split
      · obtain ⟨hraft, hreads, hcompleting, hwaiting, hstore, hkept⟩ := requestStop_completing
          (callRaft turn false (.advance index) { n with raftTasks := rest })
          .acknowledgmentRejected
        exact .still (.stopped (turn.env false) index hhealthy hraft hreads hcompleting rfl)
          (hwaiting.trans hidle) (fun task htask => .inl (hstore ▸ htask)) hkept
      · exact .of_call turn hhealthy (.task turn _ rest _ hqueue rfl) rfl rfl rfl hidle
          (fun _ => .inl) ⟨rfl, rfl⟩

theorem cancelRaftRead_turned (event : Event D) (requestId : Nat) (hidle : n.waiting = none)
    (rest : List (RaftTask D)) :
    Turned n event ({ n with raftTasks := rest }.cancelRaftRead requestId) [] := by
  unfold cancelRaftRead
  split
  · exact .dropped event hidle rest
  next read _ =>
    dsimp only
    split
    · exact .still (.cancelled requestId read (.inl rfl) rfl rfl rfl) hidle (fun _ => .inl)
        ⟨rfl, rfl⟩
    · exact .still (.cancelled requestId read (.inr rfl) rfl rfl rfl) hidle (fun _ => .inl)
        ⟨rfl, rfl⟩

theorem runRaftTask_turned (turn : Turn) (hqueue : n.raftTasks = task :: rest)
    (hsettled : ReadsSettled n) (hidle : n.waiting = none)
    (htype : ∀ msg, task = .message msg → msg.type ≠ .installSnapshot) :
    Turned n (.raft turn) ({ n with raftTasks := rest }.runRaftTask turn task).1
      ({ n with raftTasks := rest }.runRaftTask turn task).2 := by
  have hhealthy : ¬ n.stopping = true → n.raft.storageFailed = false := fun h =>
    hsettled.healthy (by simpa using h)
  cases task with
  | message msg =>
      rw [runRaftTask]
      split
      · exact .dropped _ hidle rest
      next hrunning =>
        exact handleRaftMessage_turned turn hqueue (hhealthy hrunning) hidle (htype msg rfl)
  | propose requestId bytes =>
      rw [runRaftTask]
      split
      · exact .dropped _ hidle rest
      next hrunning => exact proposeTask_turned turn hqueue (hhealthy hrunning) hidle
  | read requestId =>
      rw [runRaftTask]
      split
      · exact .dropped _ hidle rest
      next hrunning => exact readTask_turned turn hqueue (hhealthy hrunning) hidle
  | acknowledge index =>
      rw [runRaftTask]
      split
      · exact .dropped _ hidle rest
      next hrunning => exact acknowledgeTask_turned turn hqueue (hhealthy hrunning) hidle
  | cancelRead requestId => exact cancelRaftRead_turned _ requestId hidle rest
  | takeSnapshot index state =>
      rw [runRaftTask]
      dsimp only
      split
      · exact .still (.idle rfl rfl rfl rfl) hidle (fun _ => .inl) ⟨rfl, rfl⟩
      next hrunning =>
        exact .of_call turn (hhealthy hrunning) (.task turn _ rest _ hqueue rfl) rfl rfl rfl hidle
          (fun _ => .inl) ⟨rfl, rfl⟩
  | stop =>
      exact .still (.idle rfl rfl (by simp [completing, runRaftTask, postStore, completion?]) rfl)
        hidle (mem_posted rfl) ⟨rfl, rfl⟩

end Tasks

theorem tick_turned (turn : Turn) (hsettled : ReadsSettled n) (hidle : n.waiting = none) :
    Turned n (.tick turn) (n.tick turn).1 (n.tick turn).2 := by
  unfold tick
  split
  · exact .dropped _ hidle n.raftTasks
  next hrunning =>
    exact .of_call turn (hsettled.healthy (by simpa using hrunning)) (.tick turn) rfl rfl rfl hidle
      (fun _ => .inl) ⟨rfl, rfl⟩

theorem Happens.turned {codec : StoreCodec D} {event : Event D}
    {result : Runtime D × List (Message D)} (hsettled : ReadsSettled n) (hidle : n.waiting = none)
    (htype : ∀ msg, RaftTask.message msg ∈ n.raftTasks → msg.type ≠ .installSnapshot)
    (hhappens : Happens codec n event result) (hloop : OnRaftLoop event) :
    Turned n event result.1 result.2 := by
  cases hhappens with
  | tick turn => exact tick_turned turn hsettled hidle
  | raft turn task rest _ hqueue =>
      refine runRaftTask_turned turn hqueue hsettled hidle ?_
      rintro msg rfl
      exact htype msg (by simp [hqueue])
  | restored turn msg verdict hwaiting => simp [hidle] at hwaiting
  | timeout turn msg hwaiting => simp [hidle] at hwaiting
  | _ => exact hloop.elim

end RaftKv.Runtime
