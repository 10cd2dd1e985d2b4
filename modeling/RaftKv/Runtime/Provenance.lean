import RaftKv.Runtime.Committed
import RaftKv.Runtime.Fleet
import RaftKv.Runtime.Requests

/-! # Where commands come from

Every entry with data that is anywhere in the system was appended by one run of a
`propose` task, and that task was posted by one write of a client. So a command is
proposed at most once, and one whose proposal was turned down is nowhere.
-/

namespace RaftKv

namespace Runtime

variable {D : Type} {n m next : Runtime D}

/-- An entry without data, or one of those that proposals have created. -/
def Known (created : List Entry) (e : Entry) : Prop := e.data = [] ∨ e ∈ created

theorem Known.append {created more : List Entry} {e : Entry} (hknown : Known created e) :
    Known (created ++ more) e :=
  hknown.imp_right (List.mem_append_left more)

def proposal? : RaftTask D → Option (Nat × Bytes)
  | .propose requestId bytes => some (requestId, bytes)
  | _ => none

/-- The proposals that wait for the Raft loop. -/
def proposals (n : Runtime D) : List (Nat × Bytes) := n.raftTasks.filterMap proposal?

/-- The entry that an event appends for a proposal. -/
def creates (n : Runtime D) : Event D → List Entry
  | .raft _ =>
      match n.raftTasks with
      | .propose _ bytes :: _ =>
          if n.raft.state = .leader ∧ n.raft.storageFailed = false then [n.raft.nextEntry bytes]
          else []
      | _ => []
  | _ => []

theorem creates_cases (n : Runtime D) (event : Event D) :
    n.creates event = [] ∨ ∃ turn requestId bytes rest, event = .raft turn ∧
      n.raftTasks = .propose requestId bytes :: rest ∧ n.raft.state = .leader ∧
        n.raft.storageFailed = false ∧ n.creates event = [n.raft.nextEntry bytes] := by
  unfold creates
  split
  next turn =>
    split
    next requestId bytes rest hqueue =>
      split
      next hleads => exact .inr ⟨turn, requestId, bytes, rest, rfl, hqueue, hleads.1, hleads.2, rfl⟩
      · exact .inl rfl
    · exact .inl rfl
  · exact .inl rfl

theorem creates_of_not_raft {event : Event D} (hraft : ∀ turn, event ≠ .raft turn) :
    n.creates event = [] :=
  (n.creates_cases event).resolve_right fun ⟨turn, _, _, _, hevent, _⟩ => hraft turn hevent

theorem mem_creates_of_leader {turn : Turn} {requestId : Nat} {bytes : Bytes}
    {rest : List (RaftTask D)} (hqueue : n.raftTasks = .propose requestId bytes :: rest)
    (hstate : n.raft.state = .leader) (hhealthy : n.raft.storageFailed = false) :
    n.raft.nextEntry bytes ∈ n.creates (.raft turn) := by
  unfold creates
  rw [hqueue]
  simp [hstate, hhealthy]

variable {event : Event D} {result : Runtime D × List (Message D)}

/-! ## Proposals -/

theorem proposals_append (more : List (RaftTask D)) (hmore : ∀ task ∈ more, proposal? task = none)
    (htasks : m.raftTasks = n.raftTasks ++ more) : m.proposals = n.proposals := by
  rw [proposals, htasks, List.filterMap_append, List.filterMap_eq_nil_iff.mpr hmore,
    List.append_nil, proposals]

theorem requestStop_proposals (n : Runtime D) (reason : StopReason) :
    (n.requestStop reason).proposals = n.proposals := by
  obtain ⟨ended, hended, heq⟩ := n.requestStop_frame reason
  rw [heq]
  refine proposals_append ended (fun task htask => ?_) rfl
  rw [hended task htask]
  rfl

theorem postRaft_proposals {task : RaftTask D} (htask : proposal? task = none)
    (htasks : m.raftTasks = n.raftTasks) : (m.postRaft task).proposals = n.proposals := by
  refine proposals_append [task] (by simpa using htask) ?_
  rw [postRaft, htasks]

theorem expireClientRequests_proposals (n : Runtime D) (writes reads : List Nat) :
    (n.expireClientRequests writes reads).proposals = n.proposals := by
  have hfold : ∀ {f : Runtime D → Nat → Runtime D}, (∀ n id, (f n id).proposals = n.proposals) →
      ∀ (ids : List Nat) (n : Runtime D), (ids.foldl f n).proposals = n.proposals := by
    intro f hf ids
    induction ids with
    | nil => exact fun n => rfl
    | cons id ids ih => exact fun n => (ih (f n id)).trans (hf n id)
  unfold expireClientRequests
  refine (hfold (fun n id => ?_) _ _).trans (hfold (fun n id => ?_) _ n)
  · exact postRaft_proposals rfl (answerRead_raftTasks n id _)
  · exact congrArg (List.filterMap proposal?) (answerWrite_raftTasks n id _)

/-- Stopping the loops is no proposal. -/
theorem proposal?_of_ended {ended : List (RaftTask D)}
    (hended : ∀ task ∈ ended, task = RaftTask.stop) : ∀ task ∈ ended, proposal? task = none := by
  intro task htask
  rw [hended task htask]
  rfl

section

variable [Blob D] {codec : StoreCodec D}

/-- What an event does to the waiting proposals. -/
inductive Proposed (codec : StoreCodec D) (n : Runtime D) (event : Event D) (next : Runtime D) :
    Prop
  | same (hproposals : next.proposals = n.proposals) (hraft : ∀ turn, event ≠ .raft turn)
      (hwrite : ∀ type strs, event ≠ .write type strs)
  | asked (type : CommandType) (strs : List Bytes) (hevent : event = .write type strs)
      (hproposals : next.proposals = n.proposals ++ [(n.allocateRequestId.2,
        codec.packCommand ⟨type, strs, n.config.id, n.allocateRequestId.2⟩)])
  | taken (turn : Turn) (task : RaftTask D) (rest : List (RaftTask D)) (hevent : event = .raft turn)
      (hqueue : n.raftTasks = task :: rest)
      (hproposals : next.proposals = rest.filterMap proposal?)

theorem runStoreTask_proposals (n : Runtime D) (task : StoreTask D) :
    (n.runStoreTask codec task).proposals = n.proposals := by
  cases task with
  | apply entry =>
      rw [runStoreTask]
      unfold applyCommittedEntry
      split
      · rfl
      · split
        · exact postRaft_proposals rfl rfl
        · split
          · exact requestStop_proposals n _
          · split
            · split
              · exact requestStop_proposals n _
              next store result _ =>
                refine postRaft_proposals rfl ?_
                dsimp only
                split
                · exact answerWrite_raftTasks _ _ _
                · rfl
            · exact postRaft_proposals rfl rfl
  | rejectWrite requestId error =>
      exact congrArg (List.filterMap proposal?) (answerWrite_raftTasks n requestId _)
  | rejectRead requestId error =>
      exact congrArg (List.filterMap proposal?) (answerRead_raftTasks n requestId _)
  | completeRead requestId =>
      exact congrArg (List.filterMap proposal?) (answerRead_raftTasks n requestId _)
  | capture => exact postRaft_proposals rfl rfl
  | restore index state =>
      rw [runStoreTask]
      split <;> rfl
  | stop => rfl

theorem Happens.proposed (hsettled : ReadsSettled n) (hhappens : Happens codec n event result) :
    Proposed codec n event result.1 := by
  have hloop : OnRaftLoop event → (∀ type strs, event ≠ .write type strs) →
      Proposed codec n event result.1 := by
    intro h hwrite
    obtain ⟨tasks, Rejects, htaken, hstep⟩ := hhappens.loopStep n.within_true (fun _ _ => trivial)
      hsettled (fun _ _ _ _ _ _ _ _ => trivial) h
    obtain ⟨ended, hended, htasks⟩ := hstep.tasks
    have hproposals :=
      proposals_append (n := { n with raftTasks := tasks }) ended (proposal?_of_ended hended) htasks
    cases htaken with
    | nothing _ hevent => exact .same hproposals hevent hwrite
    | task turn task rest hqueue => exact .taken turn task tasks rfl hqueue hproposals
  cases hhappens with
  | receive msg => exact .same (postRaft_proposals rfl rfl) nofun nofun
  | store task rest hqueue => exact .same (runStoreTask_proposals _ task) nofun nofun
  | write type strs =>
      refine .asked type strs rfl ?_
      rw [beginWrite_frame]
      simp [proposals, proposal?]
  | read key =>
      refine .same (proposals_append [.read n.allocateRequestId.2] (by simp [proposal?]) ?_)
        nofun nofun
      rw [beginRead_frame]
  | expire writes reads =>
      exact .same (n.expireClientRequests_proposals writes reads) nofun nofun
  | signal =>
      obtain ⟨ended, hended, heq⟩ := n.stopOnce_frame
      rw [heq]
      exact .same (proposals_append ended (proposal?_of_ended hended) rfl) nofun nofun
  | _ => exact hloop trivial nofun

end

/-! ## Entries -/

/-- Events of the store loop and of the clients bring in no entry but those of a received
message. -/
theorem Within.storeSide {P : Entry → Prop} (hwithin : n.Within P) (hside : StoreSide n m)
    (hposts : ∀ msg, RaftTask.message msg ∈ m.raftTasks → RaftTask.message msg ∈ n.raftTasks ∨
      msg.Within P)
    (hstore : ∀ task ∈ m.storeTasks, task ∈ n.storeTasks)
    (hprocessed : ∀ e ∈ m.processed, e ∈ n.processed ∨ P e) : m.Within P where
  raft := hside.raft ▸ hwithin.raft
  queued msg hmsg := (hposts msg hmsg).elim (hwithin.queued msg) fun h => h
  waiting := hside.waiting ▸ hwithin.waiting
  handed e he := hwithin.handed e (hstore _ he)
  processed e he := (hprocessed e he).elim (hwithin.processed e) fun h => h

/-- A step of the Raft loop keeps every entry within `P`. -/
theorem Within.loopStep {P : Entry → Prop} {Rejects : Nat → Refusal → Prop}
    {tasks : List (RaftTask D)} {sent : List (Message D)} (hwithin : n.Within P)
    (htaken : n.Taken event tasks Rejects)
    (hstep : LoopStep P Rejects { n with raftTasks := tasks } m sent) : m.Within P := by
  have htasks : ∀ task ∈ tasks, task ∈ n.raftTasks := by
    cases htaken with
    | nothing _ _ => exact fun _ h => h
    | task turn task rest hqueue =>
        rw [hqueue]
        exact fun _ => List.mem_cons_of_mem task
  obtain ⟨ended, hended, hraftTasks⟩ := hstep.tasks
  obtain ⟨added, hadded, hstoreTasks⟩ := hstep.posted
  refine ⟨hstep.raft, fun msg hmsg => ?_, hstep.waiting, fun e he => ?_, fun e he => ?_⟩
  · rw [hraftTasks] at hmsg
    rcases List.mem_append.mp hmsg with hold | hnew
    · exact hwithin.queued msg (htasks _ hold)
    · cases hended _ hnew
  · rw [hstoreTasks] at he
    rcases List.mem_append.mp he with hold | hnew
    · exact hwithin.handed e hold
    · exact hadded _ hnew
  · rcases hstep.processed with hsame | hnil
    · exact hwithin.processed e (hsame ▸ he)
    · simp [hnil] at he

variable [Blob D] {codec : StoreCodec D}

/-- A task of the store loop processes at most the entry it was given. -/
theorem runStoreTask_processed (codec : StoreCodec D) (n : Runtime D) (task : StoreTask D) :
    (n.runStoreTask codec task).processed = n.processed ∨
      ∃ e, task = .apply e ∧ (n.runStoreTask codec task).processed = n.processed ++ [e] := by
  cases task with
  | apply e => exact (applyCommittedEntry_processed n e).1.imp_right fun h => ⟨e, rfl, h⟩
  | rejectWrite requestId error => exact .inl (Beside.of_answerWrite n requestId _).processed
  | rejectRead requestId error => exact .inl (Beside.of_answerRead n requestId _).processed
  | completeRead requestId => exact .inl (Beside.of_answerRead n requestId _).processed
  | capture => exact .inl rfl
  | restore index state =>
      rw [runStoreTask]
      split <;> exact .inl rfl
  | stop => exact .inl rfl

/-- The store loop processes an entry it was handed. -/
theorem Within.runStoreTask {P : Entry → Prop} {task : StoreTask D} {rest : List (StoreTask D)}
    (codec : StoreCodec D) (hwithin : n.Within P) (hqueue : n.storeTasks = task :: rest) :
    ({ n with storeTasks := rest }.runStoreTask codec task).Within P := by
  have hrest : ({ n with storeTasks := rest } : Runtime D).Within P :=
    ⟨hwithin.raft, hwithin.queued, hwithin.waiting,
      fun e he => hwithin.handed e (hqueue ▸ List.mem_cons_of_mem task he), hwithin.processed⟩
  refine hrest.storeSide (runStoreTask_storeSide _ task) (fun msg hmsg => ?_)
    (fun other hother => ?_) fun e he => ?_
  · exact (runStoreTask_posts _ task _ hmsg).imp_right False.elim
  · obtain ⟨fields, heq⟩ := runStoreTask_frame codec { n with storeTasks := rest } task
    rwa [heq] at hother
  · rcases runStoreTask_processed codec { n with storeTasks := rest } task with
      hsame | ⟨entry, rfl, hentry⟩
    · exact .inl (hsame ▸ he)
    · rw [hentry] at he
      refine (List.mem_append.mp he).imp_right fun hnew => ?_
      rw [List.mem_singleton.mp hnew]
      exact hwithin.handed entry (by simp [hqueue])

theorem Happens.within {created : List Entry} (hsettled : ReadsSettled n)
    (hwithin : n.Within (Known created)) (hhappens : Happens codec n event result)
    (hreceived : ∀ msg, event = .receive msg → msg.Within (Known created)) :
    result.1.Within (Known (created ++ n.creates event)) ∧
      ∀ msg ∈ result.2, msg.Within (Known (created ++ n.creates event)) := by
  have hmono : n.Within (Known (created ++ n.creates event)) := hwithin.mono fun _ h => h.append
  have hblank : ∀ e : Entry, e.data = [] → Known (created ++ n.creates event) e := fun _ => .inl
  have hloop : OnRaftLoop event → result.1.Within (Known (created ++ n.creates event)) ∧
      ∀ msg ∈ result.2, msg.Within (Known (created ++ n.creates event)) := by
    intro h
    obtain ⟨tasks, Rejects, htaken, hstep⟩ := hhappens.loopStep hmono hblank hsettled
      (by
        rintro turn requestId bytes rest rfl hqueue hstate hhealthy
        exact .inr (List.mem_append_right created (mem_creates_of_leader hqueue hstate hhealthy))) h
    exact ⟨hmono.loopStep htaken hstep, hstep.sent⟩
  cases hhappens with
  | receive msg =>
      refine ⟨hmono.storeSide (postRaft_storeSide n _) (fun other hother => ?_) (fun _ h => h)
        fun _ => .inl, by simp⟩
      refine (List.mem_append.mp hother).imp_right fun hnew => ?_
      obtain rfl : other = msg := by simpa using hnew
      exact fun htype e he => (hreceived other rfl htype e he).append
  | store task rest hqueue => exact ⟨hmono.runStoreTask codec hqueue, by simp⟩
  | write type strs =>
      refine ⟨hmono.storeSide (beginWrite_storeSide n type strs) (fun msg hmsg => .inl ?_)
        (fun task htask => ?_) fun e he => .inl ?_, by simp⟩
      · rw [beginWrite_frame] at hmsg
        simpa using hmsg
      · rw [beginWrite_frame] at htask
        exact htask
      · rw [beginWrite_frame] at he
        exact he
  | read key =>
      refine ⟨hmono.storeSide (beginRead_storeSide n key) (fun msg hmsg => .inl ?_)
        (fun task htask => ?_) fun e he => .inl ?_, by simp⟩
      · rw [beginRead_frame] at hmsg
        simpa using hmsg
      · rw [beginRead_frame] at htask
        exact htask
      · rw [beginRead_frame] at he
        exact he
  | expire writes reads =>
      refine ⟨hmono.storeSide (expireClientRequests_storeSide n writes reads)
        (fun msg hmsg => .inl ?_) (fun task htask => ?_) fun e he => .inl ?_, by simp⟩
      · refine (expireClientRequests_posts n writes reads _ hmsg).resolve_right ?_
        rintro ⟨_, h⟩
        cases h
      · obtain ⟨fields, heq⟩ := n.expireClientRequests_frame writes reads
        rwa [heq] at htask
      · obtain ⟨fields, heq⟩ := n.expireClientRequests_frame writes reads
        rwa [heq] at he
  | signal =>
      obtain ⟨ended, hended, heq⟩ := n.stopOnce_frame
      refine ⟨hmono.storeSide (stopOnce_storeSide n) (fun msg hmsg => .inl ?_)
        (fun task htask => ?_) fun e he => .inl ?_, by simp⟩
      · rw [heq] at hmsg
        refine (List.mem_append.mp hmsg).resolve_right fun hnew => ?_
        cases hended _ hnew
      · rwa [heq] at htask
      · rwa [heq] at he
  | _ => exact hloop trivial

end Runtime

end RaftKv
