import RaftKv.Node.Run
import RaftKv.Runtime.State
import RaftKv.Store.Packing

/-! # Runs of the two loops

What each part of a task leaves alone, and the states a node reaches: it starts on its
WAL, takes events in any order they can happen, and may crash and start again from any
prefix of what it has written.
-/

namespace RaftKv.Runtime

variable {D : Type} {n next : Runtime D}

/-! ## What the Raft loop leaves alone -/

section RaftSide

theorem stopOnce_frame (n : Runtime D) :
    ∃ ended, (∀ task ∈ ended, task = RaftTask.stop) ∧ n.stopOnce = { n with
      raftTasks := n.raftTasks ++ ended
      stopping := true } := by
  unfold stopOnce
  split
  next hstopping => exact ⟨[], by simp, by rw [List.append_nil, ← hstopping]⟩
  · exact ⟨[.stop], by simp, rfl⟩

theorem requestStop_frame (n : Runtime D) (reason : StopReason) :
    ∃ ended, (∀ task ∈ ended, task = RaftTask.stop) ∧ n.requestStop reason = { n with
      raftTasks := n.raftTasks ++ ended
      stopping := true
      stops := n.stops ++ [reason] } :=
  stopOnce_frame { n with stops := n.stops ++ [reason] }

/-- Either there is nothing to dispatch now, or the entry after the last applied one goes to
the store loop. -/
theorem dispatchNextCommittedEntry_cases (n : Runtime D) :
    n.dispatchNextCommittedEntry = n ∨
      ∃ entry, n.raft.nextEntryToApply = some entry ∧ n.applyInFlight = none ∧
        n.stopping = false ∧ n.dispatchNextCommittedEntry = { n with
          applyInFlight := some entry.index
          storeTasks := n.storeTasks ++ [.apply entry] } := by
  unfold dispatchNextCommittedEntry
  split
  · exact .inl rfl
  next hready =>
    simp only [Bool.or_eq_true, not_or, Bool.not_eq_true, Option.isSome_eq_false_iff,
      Option.isNone_iff_eq_none] at hready
    split
    · exact .inl rfl
    next entry hentry => exact .inr ⟨entry, hentry, hready.1, hready.2, rfl⟩

/-- Tasks that answer reads or capture the store. -/
def Quiet : StoreTask D → Prop
  | .rejectRead _ _ | .completeRead _ | .capture => True
  | _ => False

theorem pollReadIndexes_frame (n : Runtime D) :
    ∃ answers, (∀ task ∈ answers, Quiet task) ∧ n.pollReadIndexes = { n with
      raft := n.pollReadIndexes.raft
      raftReadIndexes := n.pollReadIndexes.raftReadIndexes
      storeTasks := n.storeTasks ++ answers } := by
  unfold pollReadIndexes
  split
  · exact ⟨[], by simp, by rw [List.append_nil]⟩
  · split
    · refine ⟨n.raftReadIndexes.keys.map (.rejectRead · n.notLeaderError), ?_, rfl⟩
      simp only [List.mem_map]
      rintro task ⟨id, -, rfl⟩
      trivial
    · split
      · exact ⟨[], by simp, by rw [List.append_nil]⟩
      next ready _ =>
        refine ⟨(n.sharing ready).map .completeRead, ?_, rfl⟩
        simp only [List.mem_map]
        rintro task ⟨id, -, rfl⟩
        trivial

/-- The Raft object, apart from its round of reads. -/
def SameButRound (r next : Raft D) : Prop :=
  ∃ pending index context acks, next = { r with
    readIndexPending := pending
    pendingReadIndex := index
    pendingReadContext := context
    readIndexAcks := acks }

theorem sameButRound_finishReadIndex (r : Raft D) (read : ReadIndexToken) :
    SameButRound r (r.finishReadIndex read) := by
  unfold Raft.finishReadIndex
  split <;> exact ⟨_, _, _, _, rfl⟩

/-- Polling leaves the Raft object alone, or finishes its round. -/
theorem pollReadIndexes_finishes (n : Runtime D) : n.pollReadIndexes.raft = n.raft ∨
    ∃ read, n.pollReadIndexes.raft = n.raft.finishReadIndex read := by
  unfold pollReadIndexes
  split
  · exact .inl rfl
  · split
    · exact .inl rfl
    · split
      · exact .inl rfl
      next ready _ => exact .inr ⟨ready, rfl⟩

theorem sameButRound_pollReadIndexes (n : Runtime D) :
    SameButRound n.raft n.pollReadIndexes.raft := by
  rcases n.pollReadIndexes_finishes with heq | ⟨read, heq⟩ <;> rw [heq]
  · exact ⟨_, _, _, _, rfl⟩
  · exact sameButRound_finishReadIndex n.raft read

theorem cancelRaftRead_frame (n : Runtime D) (requestId : Nat) :
    ∃ reads raft, SameButRound n.raft raft ∧
      n.cancelRaftRead requestId = { n with raftReadIndexes := reads, raft := raft } := by
  unfold cancelRaftRead
  split
  · exact ⟨_, _, ⟨_, _, _, _, rfl⟩, rfl⟩
  · dsimp only
    split
    · exact ⟨_, _, ⟨_, _, _, _, rfl⟩, rfl⟩
    · exact ⟨_, _, sameButRound_finishReadIndex n.raft _, rfl⟩

/-- Polling only looks at the Raft object and the waiting reads. -/
theorem pollReadIndexes_congr {m : Runtime D} (hraft : m.raft = n.raft)
    (hreads : m.raftReadIndexes = n.raftReadIndexes) :
    m.pollReadIndexes.raft = n.pollReadIndexes.raft ∧
      m.pollReadIndexes.raftReadIndexes = n.pollReadIndexes.raftReadIndexes := by
  unfold pollReadIndexes
  rw [hraft, hreads]
  split
  · exact ⟨hraft, hreads⟩
  · split
    · exact ⟨rfl, rfl⟩
    · split
      · exact ⟨hraft, hreads⟩
      · exact ⟨rfl, rfl⟩

theorem maybeCaptureSnapshot_frame (n : Runtime D) :
    ∃ pending captures, (∀ task ∈ captures, Quiet task) ∧ n.maybeCaptureSnapshot = { n with
      snapshotCapturePending := pending
      storeTasks := n.storeTasks ++ captures } := by
  unfold maybeCaptureSnapshot
  split
  · exact ⟨n.snapshotCapturePending, [], by simp, by rw [List.append_nil]⟩
  · exact ⟨true, [.capture], by simp [Quiet], rfl⟩

theorem sendAll_failure {peers : List Nat} {sends : List Sending} {msgs : List (Message D)}
    {reason : StopReason} (hfailure : (sendAll peers sends msgs).2 = some reason) :
    reason = .outboundExhausted ∨ reason = .encodeFailed := by
  fun_induction sendAll peers sends msgs with
  | case1 => cases hfailure
  | case2 sends msg rest _ ih => exact ih hfailure
  | case3 => exact .inl (Option.some.inj hfailure).symm
  | case4 => exact .inr (Option.some.inj hfailure).symm
  | case5 => simp_all

/-- How sending messages may end: nothing happens, or the node is asked to stop. -/
structure Ending (n : Runtime D) where
  ended : List (RaftTask D)
  stopping : Bool
  stops : List StopReason
  stop : ∀ task ∈ ended, task = RaftTask.stop
  cause : stopping = n.stopping ∧ stops = n.stops ∨ stopping = true ∧
    ∃ reason, (reason = .outboundExhausted ∨ reason = .encodeFailed) ∧ stops = n.stops ++ [reason]

theorem flushRaftMessages_frame (turn : Turn) (n : Runtime D) :
    ∃ ending : Ending n, (n.flushRaftMessages turn).1 = { n with
      raft := n.raft.readMessages.1
      raftTasks := n.raftTasks ++ ending.ended
      stopping := ending.stopping
      stops := ending.stops } := by
  unfold flushRaftMessages
  dsimp only
  split
  · exact ⟨⟨[], n.stopping, n.stops, by simp, .inl ⟨rfl, rfl⟩⟩, by rw [List.append_nil]⟩
  next reason hfailure =>
    obtain ⟨ended, hended, heq⟩ :=
      requestStop_frame { n with raft := n.raft.readMessages.1 } reason
    exact ⟨⟨ended, true, n.stops ++ [reason], hended,
      .inr ⟨rfl, reason, sendAll_failure hfailure, rfl⟩⟩, heq⟩

/-- What `after_raft_activity` adds: answers to reads and a capture for the store loop, and
perhaps a request to stop. -/
structure Aftermath (n : Runtime D) extends Ending n where
  pending : Bool
  answers : List (StoreTask D)
  quiet : ∀ task ∈ answers, Quiet task

/-- Without storage `after_raft_activity` stops the node. -/
theorem afterRaftActivity_failed (turn : Turn) (hfailed : n.raft.storageFailed = true) :
    ∃ ended, (∀ task ∈ ended, task = RaftTask.stop) ∧ n.afterRaftActivity turn = ({ n with
      raftTasks := n.raftTasks ++ ended
      stopping := true
      stops := n.stops ++ [.walFailed] }, []) := by
  obtain ⟨ended, hended, heq⟩ := n.requestStop_frame .walFailed
  rw [afterRaftActivity, if_pos hfailed, heq]
  exact ⟨ended, hended, rfl⟩

/-- What it does while storage works. -/
theorem afterRaftActivity_healthy (turn : Turn) (hhealthy : n.raft.storageFailed = false) :
    ∃ activity : Aftermath n, (n.afterRaftActivity turn).1 = { n with
      raft := n.pollReadIndexes.raft.readMessages.1
      raftReadIndexes := n.pollReadIndexes.raftReadIndexes
      applyInFlight := n.dispatchNextCommittedEntry.applyInFlight
      snapshotCapturePending := activity.pending
      storeTasks := n.dispatchNextCommittedEntry.storeTasks ++ activity.answers
      raftTasks := n.raftTasks ++ activity.ended
      stopping := activity.stopping
      stops := activity.stops } := by
  unfold afterRaftActivity
  rw [if_neg (by simp [hhealthy])]
  have hdispatch : n.dispatchNextCommittedEntry = { n with
      applyInFlight := n.dispatchNextCommittedEntry.applyInFlight
      storeTasks := n.dispatchNextCommittedEntry.storeTasks } := by
    rcases n.dispatchNextCommittedEntry_cases with heq | ⟨entry, -, -, -, heq⟩ <;> rw [heq]
  generalize n.dispatchNextCommittedEntry.applyInFlight = flight at *
  generalize n.dispatchNextCommittedEntry.storeTasks = dispatched at *
  rw [hdispatch]
  obtain ⟨hraft, hreads⟩ := pollReadIndexes_congr (n := n)
    (m := { n with applyInFlight := flight, storeTasks := dispatched }) rfl rfl
  obtain ⟨answers, hanswers, hpoll⟩ :=
    pollReadIndexes_frame { n with applyInFlight := flight, storeTasks := dispatched }
  rw [hraft, hreads] at hpoll
  rw [hpoll]
  obtain ⟨pending, captures, hcaptures, hcapture⟩ := maybeCaptureSnapshot_frame { n with
    raft := n.pollReadIndexes.raft
    raftReadIndexes := n.pollReadIndexes.raftReadIndexes
    applyInFlight := flight
    storeTasks := dispatched ++ answers }
  rw [hcapture]
  obtain ⟨⟨ended, stopping, stops, hended, hcause⟩, hflush⟩ := flushRaftMessages_frame turn { n with
    raft := n.pollReadIndexes.raft
    raftReadIndexes := n.pollReadIndexes.raftReadIndexes
    applyInFlight := flight
    snapshotCapturePending := pending
    storeTasks := dispatched ++ answers ++ captures }
  have hquiet : ∀ task ∈ answers ++ captures, Quiet task := fun task htask =>
    (List.mem_append.mp htask).elim (hanswers task) (hcaptures task)
  refine ⟨⟨⟨ended, stopping, stops, hended, hcause⟩, pending, answers ++ captures, hquiet⟩, ?_⟩
  rw [hflush, List.append_assoc]

end RaftSide

/-! ## What the store loop leaves alone -/

section StoreSide

/-- A task of the store loop only posts to the Raft loop, and nothing takes a request to
stop back. -/
structure StoreSide (n next : Runtime D) : Prop where
  config : next.config = n.config
  raft : next.raft = n.raft
  reads : next.raftReadIndexes = n.raftReadIndexes
  flight : next.applyInFlight = n.applyInFlight
  capture : next.snapshotCapturePending = n.snapshotCapturePending
  waiting : next.waiting = n.waiting
  tasks : n.raftTasks <+: next.raftTasks
  stopping : n.stopping = true → next.stopping = true

/-- What a node is apart from the queue of the Raft loop and the requests to stop, as far as
the store loop leaves it alone. -/
def raftSide (n : Runtime D) :=
  (n.config, n.raft, n.raftReadIndexes, n.applyInFlight, n.snapshotCapturePending, n.waiting)

theorem StoreSide.of_posts (hsame : next.raftSide = n.raftSide)
    (htasks : n.raftTasks <+: next.raftTasks)
    (hstopping : n.stopping = true → next.stopping = true) :
    StoreSide n next := by
  simp only [raftSide, Prod.mk.injEq] at hsame
  obtain ⟨hconfig, hraft, hreads, hflight, hcapture, hwaiting⟩ := hsame
  exact ⟨hconfig, hraft, hreads, hflight, hcapture, hwaiting, htasks, hstopping⟩

/-- A change to the store loop's own fields. -/
theorem StoreSide.of_same (hsame : next.raftSide = n.raftSide)
    (htasks : next.raftTasks = n.raftTasks) (hstopping : next.stopping = n.stopping) :
    StoreSide n next :=
  .of_posts hsame (htasks ▸ List.prefix_rfl) fun h => hstopping.trans h

theorem StoreSide.refl (n : Runtime D) : StoreSide n n := .of_same rfl rfl rfl

theorem StoreSide.trans {a b c : Runtime D} (hab : StoreSide a b) (hbc : StoreSide b c) :
    StoreSide a c :=
  ⟨hbc.config.trans hab.config, hbc.raft.trans hab.raft, hbc.reads.trans hab.reads,
    hbc.flight.trans hab.flight, hbc.capture.trans hab.capture, hbc.waiting.trans hab.waiting,
    hab.tasks.trans hbc.tasks, fun h => hbc.stopping (hab.stopping h)⟩

theorem postRaft_storeSide (n : Runtime D) (task : RaftTask D) : StoreSide n (n.postRaft task) :=
  .of_posts rfl (List.prefix_append _ _) id

theorem requestStop_storeSide (n : Runtime D) (reason : StopReason) :
    StoreSide n (n.requestStop reason) := by
  obtain ⟨ended, -, heq⟩ := n.requestStop_frame reason
  rw [heq]
  exact .of_posts rfl (List.prefix_append _ _) fun _ => rfl

theorem answerWrite_frame (n : Runtime D) (requestId : Nat) (answer : Reply) :
    ∃ pending replies, n.answerWrite requestId answer = { n with
      pendingWrites := pending
      replies := replies } := by
  unfold answerWrite
  split
  · exact ⟨n.pendingWrites, n.replies, rfl⟩
  · exact ⟨_, _, rfl⟩

theorem answerRead_frame (n : Runtime D) (requestId : Nat) (answer : PendingRead → Reply) :
    ∃ pending replies, n.answerRead requestId answer = { n with
      pendingReads := pending
      replies := replies } := by
  unfold answerRead
  split
  · exact ⟨n.pendingReads, n.replies, rfl⟩
  · exact ⟨_, _, rfl⟩

theorem answerWrite_storeSide (n : Runtime D) (requestId : Nat) (answer : Reply) :
    StoreSide n (n.answerWrite requestId answer) := by
  obtain ⟨pending, replies, heq⟩ := n.answerWrite_frame requestId answer
  rw [heq]
  exact .of_same rfl rfl rfl

theorem answerRead_storeSide (n : Runtime D) (requestId : Nat) (answer : PendingRead → Reply) :
    StoreSide n (n.answerRead requestId answer) := by
  obtain ⟨pending, replies, heq⟩ := n.answerRead_frame requestId answer
  rw [heq]
  exact .of_same rfl rfl rfl

theorem foldl_storeSide {α : Type} {f : Runtime D → α → Runtime D}
    (hf : ∀ n x, StoreSide n (f n x)) (xs : List α) (n : Runtime D) :
    StoreSide n (xs.foldl f n) := by
  induction xs generalizing n with
  | nil => exact .refl n
  | cons x xs ih => exact (hf n x).trans (ih (f n x))

theorem expireClientRequests_storeSide (n : Runtime D) (writes reads : List Nat) :
    StoreSide n (n.expireClientRequests writes reads) := by
  unfold expireClientRequests
  refine (foldl_storeSide (fun n id => ?_) _ n).trans (foldl_storeSide (fun n id => ?_) _ _)
  · exact answerWrite_storeSide n id _
  · exact (answerRead_storeSide n id _).trans (postRaft_storeSide _ _)

theorem stopOnce_storeSide (n : Runtime D) : StoreSide n n.stopOnce := by
  obtain ⟨ended, -, heq⟩ := n.stopOnce_frame
  rw [heq]
  exact .of_posts rfl (List.prefix_append _ _) fun _ => rfl

theorem allocateRequestId_storeSide (n : Runtime D) : StoreSide n n.allocateRequestId.1 := by
  unfold allocateRequestId
  dsimp only
  split <;> exact .of_same rfl rfl rfl

theorem beginRead_storeSide (n : Runtime D) (key : Bytes) : StoreSide n (n.beginRead key) :=
  (allocateRequestId_storeSide n).trans (.of_posts rfl (List.prefix_append _ _) id)

theorem answerWrite_raftTasks (n : Runtime D) (requestId : Nat) (answer : Reply) :
    (n.answerWrite requestId answer).raftTasks = n.raftTasks := by
  obtain ⟨pending, replies, heq⟩ := n.answerWrite_frame requestId answer
  rw [heq]

theorem answerRead_raftTasks (n : Runtime D) (requestId : Nat) (answer : PendingRead → Reply) :
    (n.answerRead requestId answer).raftTasks = n.raftTasks := by
  obtain ⟨pending, replies, heq⟩ := n.answerRead_frame requestId answer
  rw [heq]

theorem expireClientRequests_posts (n : Runtime D) (writes reads : List Nat) :
    ∀ posted ∈ (n.expireClientRequests writes reads).raftTasks,
      posted ∈ n.raftTasks ∨ ∃ requestId, posted = .cancelRead requestId := by
  have hwrites : ∀ (ids : List Nat) (n : Runtime D), (ids.foldl
      (fun n requestId => n.rejectWrite requestId .outcomeUnknown) n).raftTasks = n.raftTasks := by
    intro ids
    induction ids with
    | nil => exact fun n => rfl
    | cons id ids ih => exact fun n => (ih _).trans (answerWrite_raftTasks n id _)
  have hreads : ∀ (ids : List Nat) (n : Runtime D), ∀ posted ∈ (ids.foldl (fun n requestId =>
      (n.rejectRead requestId .quorumUnavailable).postRaft (.cancelRead requestId)) n).raftTasks,
      posted ∈ n.raftTasks ∨ ∃ requestId, posted = .cancelRead requestId := by
    intro ids
    induction ids with
    | nil => exact fun n posted => .inl
    | cons id ids ih =>
        intro n posted hposted
        rcases ih _ posted hposted with hold | hcancel
        · rcases List.mem_append.mp hold with hfirst | hnew
          · exact .inl (answerRead_raftTasks n id _ ▸ hfirst)
          · exact .inr ⟨id, List.mem_singleton.mp hnew⟩
        · exact .inr hcancel
  intro posted hposted
  unfold expireClientRequests at hposted
  dsimp only at hposted
  refine (hreads _ _ posted hposted).imp_left fun h => ?_
  rwa [hwrites] at h

theorem beginRead_frame (n : Runtime D) (key : Bytes) :
    n.beginRead key = { n with
      nextRequestId := n.allocateRequestId.1.nextRequestId
      pendingReads := emplace n.pendingReads n.allocateRequestId.2 ⟨key, n.requests.length⟩
      requests := n.requests ++ [.read n.allocateRequestId.2 key]
      raftTasks := n.raftTasks ++ [.read n.allocateRequestId.2] } := by
  unfold beginRead allocateRequestId
  dsimp only
  split <;> rfl

variable [Blob D] {codec : StoreCodec D}

theorem applyCommittedEntry_storeSide (n : Runtime D) (entry : Entry) :
    StoreSide n (n.applyCommittedEntry codec entry) := by
  have happlied : ∀ m : Runtime D, StoreSide n m → StoreSide n (m.applied entry) := fun m hm =>
    hm.trans (.of_posts rfl (List.prefix_append _ _) id)
  unfold applyCommittedEntry
  split
  · exact .refl n
  · split
    · exact postRaft_storeSide n _
    · split
      · exact requestStop_storeSide n _
      · split
        · split
          · exact requestStop_storeSide n _
          next store result _ =>
            have hstore : StoreSide n { n with store := store } :=
              .of_same rfl rfl rfl
            refine happlied _ ?_
            dsimp only
            split
            · exact hstore.trans (answerWrite_storeSide _ _ _)
            · exact hstore
        · exact happlied n (.refl n)

theorem beginWrite_storeSide (n : Runtime D) (type : CommandType) (strs : List Bytes) :
    StoreSide n (n.beginWrite codec type strs) :=
  (allocateRequestId_storeSide n).trans (.of_posts rfl (List.prefix_append _ _) id)

theorem runStoreTask_storeSide (n : Runtime D) (task : StoreTask D) :
    StoreSide n (n.runStoreTask codec task) := by
  cases task with
  | apply entry => exact applyCommittedEntry_storeSide n entry
  | rejectWrite requestId error => exact answerWrite_storeSide n requestId _
  | rejectRead requestId error => exact answerRead_storeSide n requestId _
  | completeRead requestId => exact answerRead_storeSide n requestId _
  | capture => exact postRaft_storeSide n _
  | restore index state =>
      rw [runStoreTask]
      split <;> exact .of_same rfl rfl rfl
  | stop => exact .of_same rfl rfl rfl

/-- What a task of the store loop may post. -/
def FromStore : RaftTask D → Prop
  | .acknowledge _ | .takeSnapshot _ _ | .stop => True
  | _ => False

theorem runStoreTask_posts (n : Runtime D) (task : StoreTask D) :
    ∀ posted ∈ (n.runStoreTask codec task).raftTasks, posted ∈ n.raftTasks ∨ FromStore posted := by
  have hpost : ∀ {m : Runtime D} {task : RaftTask D}, m.raftTasks = n.raftTasks → FromStore task →
      ∀ posted ∈ (m.postRaft task).raftTasks, posted ∈ n.raftTasks ∨ FromStore posted := by
    intro m task hsame htask posted hposted
    rcases List.mem_append.mp hposted with hold | hnew
    · exact .inl (hsame ▸ hold)
    · exact .inr (List.mem_singleton.mp hnew ▸ htask)
  have hstop : ∀ reason, ∀ posted ∈ (n.requestStop reason).raftTasks,
      posted ∈ n.raftTasks ∨ FromStore posted := by
    intro reason posted hposted
    obtain ⟨ended, hended, heq⟩ := n.requestStop_frame reason
    rw [heq] at hposted
    rcases List.mem_append.mp hposted with hold | hnew
    · exact .inl hold
    · exact .inr (hended posted hnew ▸ trivial)
  cases task with
  | apply entry =>
      rw [runStoreTask]
      unfold applyCommittedEntry
      split
      · exact fun _ => .inl
      · split
        · exact hpost rfl trivial
        · split
          · exact hstop _
          · split
            · split
              · exact hstop _
              next store result _ =>
                refine hpost ?_ trivial
                dsimp only
                split
                · exact answerWrite_raftTasks _ _ _
                · rfl
            · exact hpost rfl trivial
  | rejectWrite requestId error =>
      exact fun _ h => .inl (answerWrite_raftTasks n requestId _ ▸ h)
  | rejectRead requestId error => exact fun _ h => .inl (answerRead_raftTasks n requestId _ ▸ h)
  | completeRead requestId => exact fun _ h => .inl (answerRead_raftTasks n requestId _ ▸ h)
  | capture => exact hpost rfl trivial
  | restore index state =>
      rw [runStoreTask]
      split <;> exact fun _ => .inl
  | stop => exact fun _ => .inl

/-- A write gets a number, and its command goes to the Raft loop. -/
theorem beginWrite_frame (n : Runtime D) (type : CommandType) (strs : List Bytes) :
    n.beginWrite codec type strs = { n with
      nextRequestId := n.allocateRequestId.1.nextRequestId
      pendingWrites := emplace n.pendingWrites n.allocateRequestId.2 n.requests.length
      requests := n.requests ++ [.write ⟨type, strs, n.config.id, n.allocateRequestId.2⟩]
      raftTasks := n.raftTasks ++ [.propose n.allocateRequestId.2
        (codec.packCommand ⟨type, strs, n.config.id, n.allocateRequestId.2⟩)] } := by
  unfold beginWrite allocateRequestId
  dsimp only
  split <;> rfl

end StoreSide

variable [Blob D]

/-! ## Start-up -/

section New

variable {codec : StoreCodec D} {config : Config} {draws : List Nat} {requestId : Nat}
  {file : List (Record D)}

/-- The replay that rebuilds the store advances the Raft object as `boot` does. -/
theorem replayStore_replayCommitted {snapshotIndex applied applied' : Nat} {entries : List Entry}
    {r r' : Raft D} {store store' : KVStore}
    (hreplay : replayStore codec snapshotIndex r store applied entries =
      some (r', store', applied')) :
    replayCommitted snapshotIndex r applied entries = some (r', applied') := by
  induction entries generalizing r store applied with
  | nil =>
      simp only [replayStore, Option.some.injEq, Prod.mk.injEq] at hreplay
      obtain ⟨rfl, -, rfl⟩ := hreplay
      rfl
  | cons e rest ih =>
      rw [replayStore] at hreplay
      rw [replayCommitted]
      split at hreplay
      next hsnapshot =>
        rw [if_pos hsnapshot]
        exact ih hreplay
      next hsnapshot =>
        rw [if_neg hsnapshot]
        split at hreplay
        next hcommit =>
          rw [if_pos hcommit]
          simp only [Option.some.injEq, Prod.mk.injEq] at hreplay
          obtain ⟨rfl, -, rfl⟩ := hreplay
          rfl
        next hcommit =>
          rw [if_neg hcommit]
          split at hreplay
          · cases hreplay
          next hgap =>
            rw [if_neg hgap]
            obtain ⟨store, -, hrest⟩ := Option.bind_eq_some_iff.mp hreplay
            exact ih hrest

theorem storeOf_index {snap : SnapshotMeta D} {store : KVStore} {applied : Nat}
    (hstore : storeOf codec snap = some (store, applied)) : applied = snap.index := by
  unfold storeOf at hstore
  split at hstore
  next hempty =>
    obtain ⟨-, rfl⟩ := Prod.mk.inj (Option.some.inj hstore)
    simp only [SnapshotMeta.isEmpty, Bool.and_eq_true, beq_iff_eq] at hempty
    exact hempty.1.1.symm
  · obtain ⟨store, -, heq⟩ := Option.map_eq_some_iff.mp hstore
    exact (Prod.mk.inj heq).2.symm

theorem recoverStorage_boot {r : Raft D} {store : KVStore} {applied : Nat}
    (hrecover : recoverStorage codec config draws file = some (r, store, applied)) :
    boot config draws file = some r := by
  unfold recoverStorage at hrecover
  obtain ⟨fresh, hnew, hbased⟩ := Option.bind_eq_some_iff.mp hrecover
  obtain ⟨⟨first, base⟩, hbase, hrestored⟩ := Option.bind_eq_some_iff.mp hbased
  obtain ⟨restored, hrestore, hreplayed⟩ := Option.bind_eq_some_iff.mp hrestored
  obtain ⟨⟨replayed, last, index⟩, hreplay, hdone⟩ := Option.bind_eq_some_iff.mp hreplayed
  have hbase' := storeOf_index hbase
  subst hbase'
  unfold boot
  rw [hnew]
  dsimp only
  rw [hrestore]
  dsimp only
  rw [replayStore_replayCommitted hreplay]
  dsimp only at hdone ⊢
  split at hdone
  · cases hdone
  next happlied =>
    rw [if_neg happlied]
    obtain ⟨rfl, -⟩ := Prod.mk.inj (Option.some.inj hdone)
    rfl

theorem new_boot (hnew : new codec config draws requestId file = some n) :
    boot config draws file = some n.raft ∧ n.waiting = none ∧ n.raftReadIndexes = Table.empty := by
  unfold new at hnew
  obtain ⟨⟨r, store, applied⟩, hrecover, rfl⟩ := Option.map_eq_some_iff.mp hnew
  exact ⟨recoverStorage_boot hrecover, rfl, rfl⟩

end New

/-! ## Events -/

/-- The events that can happen, each with its outcome. -/
inductive Happens (codec : StoreCodec D) (n : Runtime D) :
    Event D → Runtime D × List (Message D) → Prop
  | receive (msg : Message D) : Happens codec n (.receive msg) (n.postRaft (.message msg), [])
  | tick (turn : Turn) (hidle : n.waiting = none) : Happens codec n (.tick turn) (n.tick turn)
  | raft (turn : Turn) (task : RaftTask D) (rest : List (RaftTask D)) (hidle : n.waiting = none)
      (hqueue : n.raftTasks = task :: rest) :
      Happens codec n (.raft turn) ({ n with raftTasks := rest }.runRaftTask turn task)
  | store (task : StoreTask D) (rest : List (StoreTask D)) (hqueue : n.storeTasks = task :: rest) :
      Happens codec n .store ({ n with storeTasks := rest }.runStoreTask codec task, [])
  | restored (turn : Turn) (msg : Message D) (verdict : Bool)
      (hwaiting : n.waiting = some (turn, msg)) (hverdict : n.restored = some verdict) :
      Happens codec n .restored (n.resume turn msg verdict)
  | timeout (turn : Turn) (msg : Message D) (hwaiting : n.waiting = some (turn, msg))
      (hnone : n.restored = none) :
      Happens codec n .timeout ((n.requestStop .restoreTimedOut).resume turn msg false)
  | write (type : CommandType) (strs : List Bytes) :
      Happens codec n (.write type strs) (n.beginWrite codec type strs, [])
  | read (key : Bytes) : Happens codec n (.read key) (n.beginRead key, [])
  | expire (writes reads : List Nat) (hrunning : n.stopping = false) :
      Happens codec n (.expire writes reads) (n.expireClientRequests writes reads, [])
  | signal : Happens codec n .signal (n.stopOnce, [])

theorem step_happens {codec : StoreCodec D} {event : Event D}
    {result : Runtime D × List (Message D)} (hstep : n.step codec event = some result) :
    Happens codec n event result := by
  cases event with
  | receive msg =>
      obtain rfl := Option.some.inj hstep
      exact .receive msg
  | tick turn =>
      rw [step] at hstep
      split at hstep
      · cases hstep
      next hidle =>
        obtain rfl := Option.some.inj hstep
        exact .tick turn (by simpa using hidle)
  | raft turn =>
      rw [step] at hstep
      split at hstep
      next task rest hidle hqueue =>
        obtain rfl := Option.some.inj hstep
        exact .raft turn task rest hidle hqueue
      · cases hstep
  | store =>
      rw [step] at hstep
      split at hstep
      · cases hstep
      next task rest hqueue =>
        obtain rfl := Option.some.inj hstep
        exact .store task rest hqueue
  | restored =>
      rw [step] at hstep
      split at hstep
      next turn msg verdict hwaiting hverdict =>
        obtain rfl := Option.some.inj hstep
        exact .restored turn msg verdict hwaiting hverdict
      · cases hstep
  | timeout =>
      rw [step] at hstep
      split at hstep
      next turn msg hwaiting hnone =>
        obtain rfl := Option.some.inj hstep
        exact .timeout turn msg hwaiting hnone
      · cases hstep
  | write type strs =>
      obtain rfl := Option.some.inj hstep
      exact .write type strs
  | read key =>
      obtain rfl := Option.some.inj hstep
      exact .read key
  | expire writes reads =>
      rw [step] at hstep
      split at hstep
      · cases hstep
      next hrunning =>
        obtain rfl := Option.some.inj hstep
        exact .expire writes reads (by simpa using hrunning)
  | signal =>
      obtain rfl := Option.some.inj hstep
      exact .signal

/-! ## Reachable states -/

inductive Reach (codec : StoreCodec D) (config : Config) (Ok : Runtime D → Event D → Prop) :
    Runtime D → Prop
  | start (draws : List Nat) (requestId : Nat) (n : Runtime D)
      (hnew : new codec config draws requestId [] = some n) : Reach codec config Ok n
  | step (n : Runtime D) (event : Event D) (next : Runtime D) (sent : List (Message D))
      (hreach : Reach codec config Ok n) (hok : Ok n event)
      (hstep : n.step codec event = some (next, sent)) : Reach codec config Ok next
  | crash (n : Runtime D) (k : Nat) (draws : List Nat) (requestId : Nat) (next : Runtime D)
      (hreach : Reach codec config Ok n)
      (hnew : new codec config draws requestId (n.raft.written.take k) = some next) :
      Reach codec config Ok next

/-- Runs without further conditions. -/
def AnyEvent (_ : Runtime D) (_ : Event D) : Prop := True

instance (n : Runtime D) (event : Event D) : Decidable (AnyEvent n event) := .isTrue trivial

/-! ## Particular runs -/

/-- Continue by the given events, as long as each can happen and is `Ok`. -/
def play (codec : StoreCodec D) (Ok : Runtime D → Event D → Prop)
    [∀ n event, Decidable (Ok n event)] (n : Runtime D) : List (Event D) → Option (Runtime D)
  | [] => some n
  | event :: rest =>
      if Ok n event then (n.step codec event).bind fun result => play codec Ok result.1 rest
      else none

theorem Reach.play {codec : StoreCodec D} {config : Config} {Ok : Runtime D → Event D → Prop}
    [∀ n event, Decidable (Ok n event)] {events : List (Event D)}
    (hreach : Reach codec config Ok n) (hplay : n.play codec Ok events = some next) :
    Reach codec config Ok next := by
  induction events generalizing n with
  | nil =>
      obtain rfl := Option.some.inj hplay
      exact hreach
  | cons event rest ih =>
      rw [Runtime.play] at hplay
      split at hplay
      next hok =>
        obtain ⟨⟨mid, sent⟩, hstep, hrest⟩ := Option.bind_eq_some_iff.mp hplay
        exact ih (.step n event mid sent hreach hok hstep) hrest
      · cases hplay

/-- Node 1 starts with empty storage, and its first request gets number 1. -/
def startOne : Option (Runtime Bytes) := new msgpackStoreCodec nodeOne [] 1 []

/-- Node 2 supports node 1 in its pre-vote and its election of term 1. -/
def electOne : List (Event Bytes) :=
  [.tick {}, .receive { fromTwo .preVoteResponse 0 with preVoteTerm := 1, voteGranted := true },
    .raft {}, .receive { fromTwo .requestVoteResponse 1 with voteGranted := true }, .raft {}]

theorem Reach.of_startOne {Ok : Runtime Bytes → Event Bytes → Prop}
    [∀ n event, Decidable (Ok n event)] {n : Runtime Bytes} {events : List (Event Bytes)}
    (hplay : (startOne.bind fun n => n.play msgpackStoreCodec Ok events) = some n) :
    Reach msgpackStoreCodec nodeOne Ok n := by
  obtain ⟨first, hnew, hplay⟩ := Option.bind_eq_some_iff.mp hplay
  exact (Reach.start [] 1 first hnew).play hplay

end RaftKv.Runtime
