import RaftKv.Runtime.Traced

/-! # Writes that were turned down

A write is answered with NOT_LEADER when its proposal was turned down. The task that
proposed it has been run then and its command has gone nowhere, so that it will not be in
any entry for the rest of the run.
-/

namespace RaftKv

/-- The log that a sequence of records makes consists of entries among them. -/
theorem Durable.mem_foldl_log {D : Type} {records : List (Record D)} {d : Durable D} {e : Entry}
    (he : e ∈ (records.foldl Durable.apply d).log) : e ∈ d.log ∨ Record.entry e ∈ records := by
  induction records generalizing d with
  | nil => exact .inl he
  | cons record rest ih =>
      rcases ih he with hmid | hrest
      · cases record with
        | hardState hs => exact .inl hmid
        | entry x =>
            rcases List.mem_append.mp hmid with hold | hnew
            · exact .inl (List.takeWhile_subset _ hold)
            · exact .inr (List.mem_singleton.mp hnew ▸ List.mem_cons_self)
        | snapshot snap =>
            simp only [Durable.apply] at hmid
            split at hmid
            · cases hmid
            · exact .inl (List.dropWhile_subset _ hmid)
      · exact .inr (List.mem_cons_of_mem record hrest)

namespace Runtime

variable {D : Type} [Blob D] {codec : StoreCodec D} {n : Runtime D} {P : Entry → Prop}

/-- What a process starts with: the entries of its file, and nothing to do. -/
structure Started (n : Runtime D) : Prop where
  raftTasks : n.raftTasks = []
  storeTasks : n.storeTasks = []
  requests : n.requests = []
  replies : n.replies = []

theorem new_started {config : Config} {draws : List Nat} {requestId : Nat} {file : List (Record D)}
    (hnew : new codec config draws requestId file = some n) :
    Started n ∧ n.processed = [] ∧ n.config = config := by
  unfold new at hnew
  obtain ⟨⟨r, store, applied⟩, -, rfl⟩ := Option.map_eq_some_iff.mp hnew
  exact ⟨⟨rfl, rfl, rfl, rfl⟩, rfl, rfl⟩

theorem new_within {config : Config} {draws : List Nat} {requestId : Nat} {file : List (Record D)}
    (haccepts : (Durable.start : Durable D).Accepts file) (hfile : ∀ e, Record.entry e ∈ file → P e)
    (hnew : new codec config draws requestId file = some n) : n.Within P := by
  obtain ⟨hboot, hidle, -⟩ := new_boot hnew
  obtain ⟨hstarted, hprocessed, -⟩ := new_started hnew
  have hbooted := boot_booted hboot
  have hdurable := (boot_durable haccepts hboot).1
  refine ⟨⟨fun e he => ?_, fun w hw e he => ?_, by simp [hbooted.msgs]⟩, ?_, ?_, ?_, ?_⟩
  · have hlog : e ∈ (file.foldl Durable.apply Durable.start).log := hdurable ▸ he
    exact hfile e ((Durable.mem_foldl_log hlog).resolve_left (by simp [Durable.start]))
  · rw [hbooted.wal] at hw
    obtain rfl := Option.some.inj hw
    exact hfile e (by simpa [Wal.records] using he)
  · simp [hstarted.raftTasks]
  · simp [hidle]
  · simp [hstarted.storeTasks]
  · simp [hprocessed]

/-- A write is turned down by the proposal that has just been run. -/
theorem Happens.rejects {event : Event D} {result : Runtime D × List (Message D)}
    (hsettled : ReadsSettled n) (hhappens : Happens codec n event result) {requestId : Nat}
    {error : Refusal} (htask : StoreTask.rejectWrite requestId error ∈ result.1.storeTasks) :
    StoreTask.rejectWrite requestId error ∈ n.storeTasks ∨ ∃ turn task rest,
      event = .raft turn ∧ n.raftTasks = task :: rest ∧ n.RejectedBy task requestId error := by
  have hloop : OnRaftLoop event → StoreTask.rejectWrite requestId error ∈ n.storeTasks ∨
      ∃ turn task rest, event = .raft turn ∧ n.raftTasks = task :: rest ∧
        n.RejectedBy task requestId error := by
    intro h
    obtain ⟨tasks, Rejects, htaken, hstep⟩ := hhappens.loopStep n.within_true (fun _ _ => trivial)
      hsettled (fun _ _ _ _ _ _ _ _ => trivial) h
    obtain ⟨added, hadded, hstore⟩ := hstep.posted
    rw [hstore] at htask
    refine (List.mem_append.mp htask).imp_right fun hnew => ?_
    have hrejects := hadded _ hnew
    cases htaken with
    | nothing => exact hrejects.elim
    | task turn task rest hqueue => exact ⟨turn, task, tasks, rfl, hqueue, hrejects⟩
  cases hhappens with
  | receive msg => exact .inl htask
  | store task rest hqueue =>
      obtain ⟨fields, heq⟩ :=
        runStoreTask_frame codec { n with storeTasks := rest } task
      rw [heq] at htask
      exact .inl (hqueue ▸ List.mem_cons_of_mem task htask)
  | write type strs =>
      rw [beginWrite_frame] at htask
      exact .inl htask
  | read key =>
      rw [beginRead_frame] at htask
      exact .inl htask
  | expire writes reads =>
      obtain ⟨fields, heq⟩ := n.expireClientRequests_frame writes reads
      rw [heq] at htask
      exact .inl htask
  | signal =>
      obtain ⟨ended, -, heq⟩ := n.stopOnce_frame
      rw [heq] at htask
      exact .inl htask
  | _ => exact hloop trivial

theorem Happens.config_eq {event : Event D} {result : Runtime D × List (Message D)}
    (hsettled : ReadsSettled n) (hhappens : Happens codec n event result) :
    result.1.config = n.config := by
  have hloop : OnRaftLoop event → result.1.config = n.config := by
    intro h
    obtain ⟨tasks, Rejects, -, hstep⟩ := hhappens.loopStep n.within_true (fun _ _ => trivial)
      hsettled (fun _ _ _ _ _ _ _ _ => trivial) h
    exact hstep.config
  cases hhappens with
  | receive msg => rfl
  | store task rest hqueue =>
      exact (runStoreTask_storeSide { n with storeTasks := rest } task).config
  | write type strs => exact (beginWrite_storeSide n type strs).config
  | read key => exact (beginRead_storeSide n key).config
  | expire writes reads => exact (expireClientRequests_storeSide n writes reads).config
  | signal => exact (stopOnce_storeSide n).config
  | _ => exact hloop trivial

theorem Reach.config_eq {config : Config} {Ok : Runtime D → Event D → Prop}
    (hreach : Reach codec config Ok n) : n.config = config := by
  induction hreach with
  | start draws requestId n hnew => exact (new_started hnew).2.2
  | step n event next sent hreach _ hstep ih =>
      exact ((step_happens hstep).config_eq hreach.settled).trans ih
  | crash n k draws requestId next _ hnew => exact (new_started hnew).2.2

end Runtime

namespace Fleet

open RaftKv.Runtime

variable {D : Type} {setup : Setup} {f next : Fleet D}
  {created : List Entry} {i : Nat}

/-! ## Writes that were turned down -/

section

variable [Blob D] {codec : StoreCodec D}

/-- A write that is or will be answered with NOT_LEADER will never be proposed. -/
structure Refused (codec : StoreCodec D) (setup : Setup) (created : List Entry) (f : Fleet D) :
    Prop where
  tasks : ∀ i ∈ setup.members, ∀ requestId leader,
    StoreTask.rejectWrite requestId (.notLeader leader) ∈ (f.node i).storeTasks →
      ∃ command, Request.write command ∈ f.asked i ∧ command.requestId = requestId ∧
        Dead codec setup created f command
  replies : ∀ i ∈ setup.members, ∀ callback leader command,
    (callback, Reply.error (.notLeader leader)) ∈ (f.node i).replies →
      (f.node i).requests[callback]? = some (.write command) → Dead codec setup created f command

end

section Event

variable {n : Runtime D} {sent : List (Message D)} {event : Runtime.Event D}

variable [Blob D] {codec : StoreCodec D}

/-- A proposal that was turned down leaves no trace of its command. -/
theorem Traced.dead_of_rejected (htraced : Traced codec setup created f) (hi : i ∈ setup.members)
    (hsettled : ReadsSettled (f.node i)) {turn : Turn} {requestId : Nat} {bytes : Bytes}
    {rest : List (RaftTask D)}
    (hhappens : Happens codec (f.node i) (.raft turn) (n, sent))
    (hqueue : (f.node i).raftTasks = .propose requestId bytes :: rest)
    (hleads : ¬ ((f.node i).raft.state = .leader ∧ (f.node i).raft.storageFailed = false)) :
    ∃ command, Request.write command ∈ (f.after i n sent).asked i ∧ command.requestId = requestId ∧
      Dead codec setup (created ++ (f.node i).creates (.raft turn)) (f.after i n sent) command := by
  obtain ⟨hhead, htail⟩ := htraced.head hi hqueue
  obtain ⟨command, hcommand, hp, hnot⟩ := htraced.waiting i hi _ hhead
  obtain ⟨rfl, rfl⟩ := Prod.mk.inj hp
  have hnil : (f.node i).creates (.raft turn) = [] := by
    refine ((f.node i).creates_cases _).resolve_right ?_
    rintro ⟨_, _, _, _, -, -, hstate, hhealthy, -⟩
    exact hleads ⟨hstate, hhealthy⟩
  have hasked := (asked_after sent (hhappens.requested hsettled) i).1 _ hcommand
  refine ⟨command, hasked, rfl, ⟨i, hi, hasked⟩, by simpa [hnil] using hnot, fun j hj hmem => ?_⟩
  by_cases hji : j = i
  · subst hji
    rw [after_self] at hmem
    cases hhappens.proposed hsettled with
    | same _ hraft => exact hraft turn rfl
    | asked _ _ hevent => cases hevent
    | taken _ task rest' _ hqueue' hproposals =>
        obtain ⟨-, rfl⟩ := List.cons.inj (hqueue.symm.trans hqueue')
        rw [hproposals] at hmem
        exact htail hmem
  · rw [after_of_ne hji] at hmem
    obtain ⟨p, hp, hbytes⟩ := List.mem_map.mp hmem
    exact htraced.apart hi hj hji hhead hp hbytes

theorem Refused.happens (hrefused : Refused codec setup created f)
    (htraced : Traced codec setup created f) (hi : i ∈ setup.members)
    (hid : (f.node i).config.id = i) (hsettled : ReadsSettled (f.node i))
    (hanswering : Answering (f.node i))
    (hfresh : ∀ type strs, event = .write type strs → ∀ request ∈ f.asked i,
      number request ≠ (f.node i).allocateRequestId.2)
    (hhappens : Happens codec (f.node i) event (n, sent)) :
    Refused codec setup (created ++ (f.node i).creates event) (f.after i n sent) := by
  have hrequested := hhappens.requested hsettled
  have hdead : ∀ {command}, Dead codec setup created f command →
      Dead codec setup (created ++ (f.node i).creates event) (f.after i n sent) command :=
    fun h => h.happens htraced hi hid hsettled hfresh hhappens
  constructor
  · intro j hj requestId leader htask
    have hold : StoreTask.rejectWrite requestId (.notLeader leader) ∈ (f.node j).storeTasks →
        ∃ command, Request.write command ∈ (f.after i n sent).asked j ∧
          command.requestId = requestId ∧ Dead codec setup (created ++ (f.node i).creates event)
            (f.after i n sent) command := by
      intro h
      obtain ⟨command, hcommand, hnumber, hcdead⟩ := hrefused.tasks j hj requestId leader h
      exact ⟨command, (asked_after sent hrequested j).1 _ hcommand, hnumber, hdead hcdead⟩
    by_cases hji : j = i
    · subst hji
      rw [after_self] at htask
      rcases hhappens.rejects hsettled htask with h | ⟨turn, task, rest, rfl, hqueue, hrejected⟩
      · exact hold h
      · obtain ⟨bytes, rfl, hleads⟩ := hrejected
        exact htraced.dead_of_rejected hj hsettled hhappens hqueue (hleads leader rfl)
    · rw [after_of_ne hji] at htask
      exact hold htask
  · intro j hj callback leader command hreply hrequest
    by_cases hji : j = i
    · subst hji
      rw [after_self] at hreply hrequest
      -- a request keeps its position, so a callback that is known belongs to the old request
      have hkeep : ∀ {request}, (f.node j).requests[callback]? = some request →
          request = .write command := by
        intro request hget
        exact Option.some.inj ((hrequested.keeps hget).symm.trans hrequest)
      rcases hhappens.answers hsettled hreply with hold | hnew
      · have hlt := hanswering.made callback (List.mem_map_of_mem (f := Prod.fst) hold)
        have hget := List.getElem?_eq_getElem hlt
        rw [hkeep hget] at hget
        exact hdead (hrefused.replies j hj callback leader command hold hget)
      · cases hnew with
        | applied _ _ _ _ _ _ _ _ _ _ _ _ _ _ hanswer => exact hanswer.elim
        | refused requestId _ rest _ hqueue hpending =>
            obtain ⟨old, hold, hnumber, hcdead⟩ :=
              hrefused.tasks j hj requestId leader (by simp [hqueue])
            obtain ⟨⟨found, hget, hfound⟩, -⟩ := hanswering.write requestId callback hpending
            obtain rfl : found = command := Request.write.inj (hkeep hget)
            have hasked : Request.write found ∈ f.asked j :=
              List.mem_append_right _ (List.mem_of_getElem? hget)
            obtain rfl := htraced.numbered j hj old found hold hasked (hnumber.trans hfound.symm)
            exact hdead hcdead
        | read requestId pending _ hpending =>
            cases hkeep (hanswering.read requestId pending hpending).1
        | givenUp _ _ herror => rcases herror with h | h | h <;> cases h
    · rw [after_of_ne hji] at hreply hrequest
      exact hdead (hrefused.replies j hj callback leader command hreply hrequest)

end Event

/-! ## Restarts -/

section Restart

variable {n : Runtime D}

theorem asked_restarted (hrequests : n.requests = []) (j : Nat) :
    (f.restarted i n).asked j = f.asked j := by
  by_cases hji : j = i
  · subst hji
    simp [asked, hrequests, restarted]
  · simp [asked, setNode_node_of_ne f n hji, restarted, hji]

variable [Blob D] {codec : StoreCodec D}

theorem Dead.restart {command : Command} (hdead : Dead codec setup created f command)
    (hstarted : Started n) : Dead codec setup created (f.restarted i n) command := by
  refine ⟨?_, hdead.created, fun j hj => ?_⟩
  · obtain ⟨j, hj, hasked⟩ := hdead.asked
    exact ⟨j, hj, (asked_restarted hstarted.requests j).symm ▸ hasked⟩
  · by_cases hji : j = i
    · subst hji
      simp [restarted_self, proposals, hstarted.raftTasks]
    · rw [restarted_of_ne hji]
      exact hdead.waiting j hj

theorem Traced.restart (htraced : Traced codec setup created f) (hstarted : Started n)
    (hwithin : n.Within (Known created)) : Traced codec setup created (f.restarted i n) := by
  have hasked := fun j => asked_restarted (f := f) (i := i) hstarted.requests j
  have hnone : n.proposals = [] := by simp [proposals, hstarted.raftTasks]
  refine ⟨fun j hj => ?_, htraced.net, fun e he => ?_, htraced.unique, fun j hj => ?_,
    fun j hj => ?_, fun j hj => ?_, fun j hj => ?_⟩
  · by_cases hji : j = i
    · subst hji
      rwa [restarted_self]
    · rw [restarted_of_ne hji]
      exact htraced.held j hj
  · obtain ⟨j, hj, command, hcommand, hdata⟩ := htraced.origin e he
    exact ⟨j, hj, command, (hasked j).symm ▸ hcommand, hdata⟩
  · rw [hasked]
    by_cases hji : j = i
    · subst hji
      simp [restarted_self, hnone]
    · rw [restarted_of_ne hji]
      exact htraced.waiting j hj
  · by_cases hji : j = i
    · subst hji
      simp [restarted_self, hnone]
    · rw [restarted_of_ne hji]
      exact htraced.once j hj
  · rw [hasked]
    exact htraced.named j hj
  · rw [hasked]
    exact htraced.numbered j hj

theorem Refused.restart (hrefused : Refused codec setup created f) (hstarted : Started n) :
    Refused codec setup created (f.restarted i n) := by
  constructor
  · intro j hj requestId leader htask
    by_cases hji : j = i
    · subst hji
      simp [restarted_self, hstarted.storeTasks] at htask
    · rw [restarted_of_ne hji] at htask
      obtain ⟨command, hcommand, hnumber, hdead⟩ := hrefused.tasks j hj requestId leader htask
      exact ⟨command, (asked_restarted hstarted.requests j).symm ▸ hcommand, hnumber,
        hdead.restart hstarted⟩
  · intro j hj callback leader command hreply hrequest
    by_cases hji : j = i
    · subst hji
      simp [restarted_self, hstarted.replies] at hreply
    · rw [restarted_of_ne hji] at hreply hrequest
      exact (hrefused.replies j hj callback leader command hreply hrequest).restart hstarted

end Restart

/-! ## Runs -/

variable [Blob D] {codec : StoreCodec D}

/-- Everything there is to know about the commands of a run. -/
structure Accounted (codec : StoreCodec D) (setup : Setup) (created : List Entry) (f : Fleet D) :
    Prop where
  traced : Traced codec setup created f
  refused : Refused codec setup created f
  answering : ∀ i ∈ setup.members, Answering (f.node i)

theorem Initial.accounted (hinitial : f.Initial codec setup) : Accounted codec setup [] f := by
  obtain ⟨hnet, hpast, hnodes⟩ := hinitial
  have hnothing : (Durable.start : Durable D).Accepts [] := trivial
  have hstarted : ∀ i ∈ setup.members, Started (f.node i) := by
    intro i hi
    obtain ⟨draws, requestId, hnew⟩ := hnodes i hi
    exact (new_started hnew).1
  have hasked : ∀ i ∈ setup.members, f.asked i = [] := by
    intro i hi
    simp [asked, hpast i, (hstarted i hi).requests]
  have hnone : ∀ i ∈ setup.members, (f.node i).proposals = [] := by
    intro i hi
    simp [proposals, (hstarted i hi).raftTasks]
  refine ⟨⟨fun i hi => ?_, by simp [hnet], by simp, by simp, fun i hi => ?_, fun i hi => ?_,
    fun i hi => ?_, fun i hi => ?_⟩, ⟨fun i hi => ?_, fun i hi => ?_⟩, fun i hi => ?_⟩
  · obtain ⟨draws, requestId, hnew⟩ := hnodes i hi
    exact new_within hnothing (by simp) hnew
  · simp [hnone i hi]
  · simp [hnone i hi]
  · simp [hasked i hi]
  · simp [hasked i hi]
  · simp [(hstarted i hi).storeTasks]
  · simp [(hstarted i hi).replies]
  · obtain ⟨draws, requestId, hnew⟩ := hnodes i hi
    exact new_answering hnew

variable [DecidableEq D]

theorem Accounted.step {action : FleetAction D} (haccounted : Accounted codec setup created f)
    (hreach : Reach codec setup Regular f) (hok : f.Regular action)
    (hstep : f.step codec setup action = some next) :
    ∃ more, Accounted codec setup more next ∧
      ∀ command, Dead codec setup created f command → Dead codec setup more next command := by
  have hnode := fun {i} (hi : i ∈ setup.members) => hreach.node (fun _ _ h => h.1) hi
  obtain ⟨htraced, hrefused, hanswering⟩ := haccounted
  cases action with
  | event i event =>
      obtain ⟨hi, hmay, n, sent, hevent, rfl⟩ := step_event hstep
      have hsettled := (hnode hi).settled
      have hid : (f.node i).config.id = i := by
        rw [(hnode hi).config_eq]
        rfl
      have hhappens := step_happens hevent
      have hfresh : ∀ type strs, event = .write type strs → ∀ request ∈ f.asked i,
          number request ≠ (f.node i).allocateRequestId.2 := by
        rintro type strs rfl request hrequest
        exact hreach.fresh hi hok hrequest
      have hreceived : ∀ msg, event = .receive msg → msg ∈ f.net := by
        rintro msg rfl
        simp only [mayHappen, Bool.and_eq_true, decide_eq_true_eq] at hmay
        exact hmay.1
      refine ⟨created ++ (f.node i).creates event,
        ⟨htraced.happens hi hid hsettled hfresh hreceived hhappens,
          hrefused.happens htraced hi hid hsettled (hanswering i hi) hfresh hhappens,
          fun j hj => ?_⟩, fun command hdead =>
            hdead.happens htraced hi hid hsettled hfresh hhappens⟩
      by_cases hji : j = i
      · subst hji
        rw [after_self]
        exact hhappens.answering hsettled (hanswering j hj)
      · rw [after_of_ne hji]
        exact hanswering j hj
  | restart i draws requestId =>
      obtain ⟨hi, n, hnew, rfl⟩ := step_restart hstep
      have hstarted := (new_started hnew).1
      have hmirrors := (hnode hi).sound.posted.mirrors
      have hfile : ∀ e, Record.entry e ∈ (f.node i).raft.synced → Known created e := by
        obtain ⟨w, hwal, -⟩ := hmirrors.stored
        intro e he
        refine (htraced.held i hi).raft.wal w hwal e ?_
        simp only [Raft.synced, hwal, Option.map_some, Option.getD_some] at he
        simp [Wal.records, he]
      refine ⟨created, ⟨htraced.restart hstarted (new_within hmirrors.synced_accepts hfile hnew),
        hrefused.restart hstarted, fun j hj => ?_⟩, fun command hdead => hdead.restart hstarted⟩
      by_cases hji : j = i
      · subst hji
        rw [restarted_self]
        exact new_answering hnew
      · rw [restarted_of_ne hji]
        exact hanswering j hj

theorem Reach.accounted (hreach : Reach codec setup Regular f) :
    ∃ created, Accounted codec setup created f := by
  refine hreach.induction (motive := fun f => ∃ created, Accounted codec setup created f) ?_ ?_
  · exact fun f hinitial => ⟨[], hinitial.accounted⟩
  · rintro f next action hreach ⟨created, haccounted⟩ hok hstep
    obtain ⟨more, hmore, -⟩ := haccounted.step hreach hok hstep
    exact ⟨more, hmore⟩

/-- What will not be proposed stays so for the rest of the run. -/
theorem Accounted.steps (haccounted : Accounted codec setup created f)
    (hreach : Reach codec setup Regular f) (hsteps : Steps codec setup Regular f next) :
    ∃ more, Accounted codec setup more next ∧
      ∀ command, Dead codec setup created f command → Dead codec setup more next command := by
  induction hsteps with
  | refl => exact ⟨created, haccounted, fun _ h => h⟩
  | tail hsteps hnext ih =>
      obtain ⟨more, hmore, hdead⟩ := ih
      obtain ⟨action, hok, hstep⟩ := hnext
      obtain ⟨last, hlast, hdead'⟩ := hmore.step (hreach.steps hsteps) hok hstep
      exact ⟨last, hlast, fun command h => hdead' command (hdead command h)⟩

end Fleet

end RaftKv
