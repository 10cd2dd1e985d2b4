import RaftKv.Runtime.Refusal
import RaftKv.Runtime.Turns

/-! # The queues between the loops

What an event leaves in the queue of the Raft loop and what it adds. A node that takes no
snapshots never posts a task for one, and a read is in one place at a time: it waits to be
given a round, or for its round, or for the store.
-/

namespace RaftKv.Runtime

variable {D : Type} {n m next : Runtime D} {event : Event D}
  {result : Runtime D × List (Message D)}

/-! ## The queue of the Raft loop -/

/-- Tasks that a node without snapshots posts on its own. -/
def Own : RaftTask D → Prop
  | .acknowledge _ | .cancelRead _ | .stop => True
  | _ => False

/-- `next` has the queue of `n` and tasks of its own after it. -/
def Adds (n next : Runtime D) : Prop :=
  ∃ added, (∀ task ∈ added, Own task) ∧ next.raftTasks = n.raftTasks ++ added

theorem Adds.of_eq (htasks : next.raftTasks = n.raftTasks) : Adds n next :=
  ⟨[], by simp, by rw [htasks, List.append_nil]⟩

theorem Adds.trans (hfirst : Adds n m) (hsecond : Adds m next) : Adds n next := by
  obtain ⟨added, hadded, hm⟩ := hfirst
  obtain ⟨more, hmore, hnext⟩ := hsecond
  refine ⟨added ++ more, fun task htask => ?_, by rw [hnext, hm, List.append_assoc]⟩
  exact (List.mem_append.mp htask).elim (hadded task) (hmore task)

theorem Adds.post {task : RaftTask D} (hown : Own task) (htasks : m.raftTasks = n.raftTasks) :
    Adds n (m.postRaft task) :=
  ⟨[task], by simpa using hown, by rw [postRaft, htasks]⟩

theorem Adds.stop (n : Runtime D) : Adds n n.stopOnce := by
  obtain ⟨ended, hended, heq⟩ := n.stopOnce_frame
  exact ⟨ended, fun task htask => hended task htask ▸ trivial, by rw [heq]⟩

theorem Adds.foldl {f : Runtime D → Nat → Runtime D} (hf : ∀ n id, Adds n (f n id))
    (ids : List Nat) (n : Runtime D) : Adds n (ids.foldl f n) := by
  induction ids generalizing n with
  | nil => exact .of_eq rfl
  | cons id ids ih => exact (hf n id).trans (ih (f n id))

theorem expireClientRequests_adds (n : Runtime D) (writes reads : List Nat) :
    Adds n (n.expireClientRequests writes reads) := by
  unfold expireClientRequests
  refine (Adds.foldl (fun n id => ?_) _ n).trans (Adds.foldl (fun n id => ?_) _ _)
  · exact .of_eq (answerWrite_raftTasks n id _)
  · exact .post trivial (answerRead_raftTasks n id _)

section

variable [Blob D] {codec : StoreCodec D}

/-- What is posted from outside: a peer's message or a client's request. -/
def arrivals (codec : StoreCodec D) (n : Runtime D) : Event D → List (RaftTask D)
  | .receive msg => [.message msg]
  | .write type strs => [.propose n.allocateRequestId.2
      (codec.packCommand ⟨type, strs, n.config.id, n.allocateRequestId.2⟩)]
  | .read _ => [.read n.allocateRequestId.2]
  | _ => []

/-- What an event leaves of the queue. -/
def left (n : Runtime D) : Event D → List (RaftTask D)
  | .raft _ => n.raftTasks.tail
  | _ => n.raftTasks

theorem runStoreTask_adds (n : Runtime D) {task : StoreTask D} (hplain : forSnapshot task = false) :
    Adds n (n.runStoreTask codec task) := by
  have hstop : ∀ reason, Adds n (n.requestStop reason) := fun reason =>
    .trans (.of_eq rfl) (.stop { n with stops := n.stops ++ [reason] })
  cases task with
  | apply entry =>
      rw [runStoreTask]
      unfold applyCommittedEntry
      split
      · exact .of_eq rfl
      · split
        · exact .post trivial rfl
        · split
          · exact hstop _
          · split
            · split
              · exact hstop _
              · refine .post trivial ?_
                dsimp only
                split
                · exact answerWrite_raftTasks _ _ _
                · rfl
            · exact .post trivial rfl
  | rejectWrite requestId error => exact .of_eq (answerWrite_raftTasks n requestId _)
  | rejectRead requestId error => exact .of_eq (answerRead_raftTasks n requestId _)
  | completeRead requestId => exact .of_eq (answerRead_raftTasks n requestId _)
  | capture => cases hplain
  | restore index state => cases hplain
  | stop => exact .of_eq rfl

theorem Happens.queue (hsettled : ReadsSettled n)
    (hplain : ∀ task ∈ n.storeTasks, forSnapshot task = false)
    (hhappens : Happens codec n event result) :
    ∃ added, (∀ task ∈ added, Own task) ∧
      result.1.raftTasks = n.left event ++ n.arrivals codec event ++ added := by
  have hadds : ∀ {next : Runtime D}, n.left event = n.raftTasks → n.arrivals codec event = [] →
      Adds n next → ∃ added, (∀ task ∈ added, Own task) ∧
        next.raftTasks = n.left event ++ n.arrivals codec event ++ added := by
    rintro next hleft hnone ⟨added, hadded, htasks⟩
    exact ⟨added, hadded, by rw [hleft, hnone, List.append_nil, htasks]⟩
  have hloop : OnRaftLoop event → n.arrivals codec event = [] →
      ∃ added, (∀ task ∈ added, Own task) ∧
        result.1.raftTasks = n.left event ++ n.arrivals codec event ++ added := by
    intro h hnone
    obtain ⟨tasks, Rejects, htaken, hstep⟩ := hhappens.loopStep n.within_true (fun _ _ => trivial)
      hsettled (fun _ _ _ _ _ _ _ _ => trivial) h
    obtain ⟨ended, hended, htasks⟩ := hstep.tasks
    refine ⟨ended, fun task htask => hended task htask ▸ trivial, ?_⟩
    rw [htasks, hnone, List.append_nil]
    cases htaken with
    | nothing _ hevent =>
        cases event with
        | raft turn => exact absurd rfl (hevent turn)
        | _ => rfl
    | task turn task rest hqueue => simp [left, hqueue]
  cases hhappens with
  | receive msg => exact ⟨[], by simp, by rw [List.append_nil]; rfl⟩
  | tick turn => exact hloop trivial rfl
  | raft turn => exact hloop trivial rfl
  | store task rest hqueue =>
      refine hadds rfl rfl ?_
      exact runStoreTask_adds { n with storeTasks := rest } (hplain task (by simp [hqueue]))
  | restored => exact hloop trivial rfl
  | timeout => exact hloop trivial rfl
  | write type strs =>
      rw [beginWrite_frame]
      exact ⟨[], by simp, by rw [List.append_nil]; rfl⟩
  | read key =>
      rw [beginRead_frame]
      exact ⟨[], by simp, by rw [List.append_nil]; rfl⟩
  | expire writes reads => exact hadds rfl rfl (expireClientRequests_adds n writes reads)
  | signal => exact hadds rfl rfl (.stop n)

instance : DecidablePred (OnRaftLoop : Event D → Prop) := fun event =>
  match event with
  | .tick _ | .raft _ | .restored | .timeout => .isTrue trivial
  | .receive _ | .store | .write _ _ | .read _ | .expire _ _ | .signal => .isFalse not_false

/-- The other events leave the Raft object and its reads alone, and take at most a task from
the queue of the store loop. -/
structure OffLoop (n : Runtime D) (event : Event D) (next : Runtime D) (sent : List (Message D)) :
    Prop where
  side : StoreSide n next
  stores : next.storeTasks.Sublist n.storeTasks
  left : n.left event = n.raftTasks
  sent : sent = []

theorem Happens.offLoop (hhappens : Happens codec n event result) (hevent : ¬ OnRaftLoop event) :
    OffLoop n event result.1 result.2 := by
  cases hhappens with
  | receive msg => exact ⟨postRaft_storeSide n _, List.Sublist.refl _, rfl, rfl⟩
  | store task rest hqueue =>
      have hrest : StoreSide n { n with storeTasks := rest } :=
        (.of_same rfl rfl rfl)
      refine ⟨hrest.trans (runStoreTask_storeSide _ task), ?_, rfl, rfl⟩
      obtain ⟨fields, heq⟩ :=
        runStoreTask_frame codec { n with storeTasks := rest } task
      rw [heq, hqueue]
      exact List.sublist_cons_self task rest
  | write type strs =>
      refine ⟨beginWrite_storeSide n type strs, ?_, rfl, rfl⟩
      rw [beginWrite_frame]
  | read key =>
      refine ⟨beginRead_storeSide n key, ?_, rfl, rfl⟩
      rw [beginRead_frame]
  | expire writes reads =>
      refine ⟨expireClientRequests_storeSide n writes reads, ?_, rfl, rfl⟩
      obtain ⟨fields, heq⟩ := n.expireClientRequests_frame writes reads
      rw [heq]
      exact List.Sublist.refl _
  | signal =>
      refine ⟨stopOnce_storeSide n, ?_, rfl, rfl⟩
      obtain ⟨_, -, heq⟩ := n.stopOnce_frame
      rw [heq]
  | _ => exact absurd trivial hevent

/-! ## Nodes without snapshots -/

/-- Nothing about snapshots is under way, and nothing will be. -/
structure Plain (n : Runtime D) : Prop where
  threshold : n.raft.snapshotThreshold = 0
  idle : n.waiting = none
  tasks : ∀ index state, RaftTask.takeSnapshot index state ∉ n.raftTasks
  posted : ∀ task ∈ n.storeTasks, forSnapshot task = false

theorem Effect.threshold {sent : List (Message D)} (heffect : Effect n event next sent) :
    next.raft.snapshotThreshold = n.raft.snapshotThreshold := by
  cases heffect with
  | idle hraft => rw [hraft]
  | cancelled requestId read hraft =>
      rcases hraft with hraft | hraft <;> rw [hraft]
      exact finishReadIndex_threshold _ _
  | called env input reads completed hhealthy _ hactivity =>
      have hstep : ((n.raft.arm env).step input).snapshotThreshold = n.raft.snapshotThreshold :=
        step_threshold (r := n.raft.arm env) hhealthy input
      exact hactivity.threshold.trans hstep
  | stopped env index hhealthy hraft =>
      rw [hraft]
      exact step_threshold (r := n.raft.arm env) hhealthy _

theorem Happens.plain (hsettled : ReadsSettled n) (hplain : Plain n)
    (htype : ∀ msg, RaftTask.message msg ∈ n.raftTasks → msg.type ≠ .installSnapshot)
    (hhappens : Happens codec n event result) : Plain result.1 := by
  have htasks : ∀ index state, RaftTask.takeSnapshot index state ∉ result.1.raftTasks := by
    obtain ⟨added, hown, hqueue⟩ := hhappens.queue hsettled hplain.posted
    intro index state hmem
    rw [hqueue] at hmem
    rcases List.mem_append.mp hmem with hold | hnew
    · rcases List.mem_append.mp hold with hleft | harrives
      · refine hplain.tasks index state ?_
        cases event with
        | raft turn => exact List.mem_of_mem_tail hleft
        | _ => exact hleft
      · cases event <;> simp [arrivals] at harrives
    · exact hown _ hnew
  by_cases hloop : OnRaftLoop event
  · have hturned := hhappens.turned hsettled hplain.idle htype hloop
    refine ⟨hturned.effect.threshold.trans hplain.threshold, hturned.idle, htasks, ?_⟩
    exact fun task htask => (hturned.posted hplain.threshold task htask).elim
      (hplain.posted task) id
  · have hoff := hhappens.offLoop hloop
    exact ⟨by rw [hoff.side.raft]; exact hplain.threshold, hoff.side.waiting.trans hplain.idle,
      htasks,
      fun task htask => hplain.posted task (hoff.stores.subset htask)⟩

theorem new_plain {config : Config} {draws : List Nat} {requestId : Nat} {file : List (Record D)}
    (hthreshold : config.snapshotThreshold = 0)
    (hnew : new codec config draws requestId file = some n) : Plain n := by
  obtain ⟨hboot, hidle, -⟩ := new_boot hnew
  obtain ⟨hstarted, -, -⟩ := new_started hnew
  exact ⟨(boot_booted hboot).threshold.trans hthreshold, hidle, by simp [hstarted.raftTasks],
    by simp [hstarted.storeTasks]⟩

end

/-! ## Where the reads are -/

def read? : RaftTask D → Option Nat
  | .read requestId => some requestId
  | _ => none

/-- The reads that `read_index` has not been called for yet. -/
def queued (n : Runtime D) : List Nat := n.raftTasks.filterMap read?

theorem Polled.subperm {r after : Raft D} {reads left : Table ReadIndexToken}
    {completed : List Nat} (hpolled : Polled r reads after left completed) :
    (left.keys ++ completed).Subperm reads.keys := by
  cases hpolled with
  | nothing => rw [List.append_nil]
  | lost => exact List.nil_subperm
  | ready read =>
      refine List.Perm.subperm ?_
      simp only [Table.keys, Table.filter, ← List.map_append]
      refine List.Perm.map _ ?_
      have hsplit := List.filter_append_perm (fun entry => decide (entry.2 ≠ read)) reads.entries
      simpa using hsplit

theorem Activity.subperm {r after : Raft D} {reads left : Table ReadIndexToken}
    {completed : List Nat} {sent : List (Message D)}
    (hactivity : Activity r reads after left completed sent) :
    (left.keys ++ completed).Subperm reads.keys := by
  cases hactivity with
  | failed => rw [List.append_nil]
  | flushed _ _ _ _ _ hpolled => exact hpolled.subperm

theorem keys_erase_sublist {α : Type} (table : Table α) (key : Nat) :
    (table.erase key).keys.Sublist table.keys := List.filter_sublist.map _

theorem left_sublist (n : Runtime D) (event : Event D) :
    ((n.left event).filterMap read?).Sublist n.queued := by
  refine List.Sublist.filterMap _ ?_
  cases event with
  | raft turn => exact List.tail_sublist _
  | _ => exact List.Sublist.refl _

/-- A read that is given a round leaves the queue. -/
theorem Asks.subperm {input : Input D} {reads : Table ReadIndexToken}
    (hasks : Asks n event input reads) :
    ((n.left event).filterMap read? ++ reads.keys).Subperm
      (n.queued ++ n.raftReadIndexes.keys) := by
  cases hasks with
  | tick => exact List.Subperm.refl _
  | task => exact ((left_sublist n _).append_right _).subperm
  | read turn requestId rest read hqueue =>
      have hqueued : n.queued = requestId :: rest.filterMap read? := by
        simp [queued, hqueue, read?]
      have hleft : n.left (.raft turn) = rest := by simp [left, hqueue]
      rw [hqueued, hleft]
      exact List.perm_middle.subperm.trans
        (((keys_erase_sublist _ _).append_left _).cons_cons requestId).subperm

variable [Blob D] {codec : StoreCodec D}

/-- The reads of which the node still has something to do, once for each place. -/
def places (n : Runtime D) : List Nat := n.queued ++ n.raftReadIndexes.keys ++ n.completing

theorem Effect.subperm {sent : List (Message D)} (heffect : Effect n event next sent) :
    ((n.left event).filterMap read? ++ next.raftReadIndexes.keys ++ next.completing).Subperm
      n.places := by
  have hsame : ∀ {keys : List Nat}, keys.Sublist n.raftReadIndexes.keys →
      next.completing = n.completing →
      ((n.left event).filterMap read? ++ keys ++ next.completing).Subperm n.places := by
    intro keys hkeys hcompleting
    rw [hcompleting]
    exact (((left_sublist n event).append hkeys).append_right _).subperm
  cases heffect with
  | idle _ hreads hcompleting => exact hsame (by rw [hreads]) hcompleting
  | cancelled requestId _ _ hreads hcompleting =>
      rw [hreads]
      exact hsame (keys_erase_sublist _ _) hcompleting
  | called env input reads completed _ hasks hactivity hcompleting =>
      rw [hcompleting]
      have hmoved : ((n.left event).filterMap read? ++ next.raftReadIndexes.keys ++
          (n.completing ++ completed)).Perm ((n.left event).filterMap read? ++
            (next.raftReadIndexes.keys ++ completed) ++ n.completing) := by
        simp only [List.append_assoc]
        exact (List.perm_append_comm.append_left _).append_left _
      refine hmoved.subperm.trans ((List.subperm_append_right _).mpr ?_)
      exact ((List.subperm_append_left _).mpr hactivity.subperm).trans hasks.subperm
  | stopped _ _ _ _ hreads hcompleting => exact hsame (by rw [hreads]) hcompleting

/-- A read that a node has to do with was so before, or it has just been asked for. -/
theorem Happens.places_subperm (hsettled : ReadsSettled n) (hplain : Plain n)
    (htype : ∀ msg, RaftTask.message msg ∈ n.raftTasks → msg.type ≠ .installSnapshot)
    (hhappens : Happens codec n event result) :
    result.1.places.Subperm (n.places ++ (n.arrivals codec event).filterMap read?) := by
  obtain ⟨added, hown, hqueue⟩ := hhappens.queue hsettled hplain.posted
  have hqueued : result.1.queued =
      (n.left event).filterMap read? ++ (n.arrivals codec event).filterMap read? := by
    have hnone : added.filterMap read? = [] := List.filterMap_eq_nil_iff.mpr fun task htask => by
      have := hown task htask
      cases task <;> first | rfl | exact this.elim
    rw [queued, hqueue, List.filterMap_append, List.filterMap_append, hnone, List.append_nil]
  have hkept : ((n.left event).filterMap read? ++ result.1.raftReadIndexes.keys ++
      result.1.completing).Subperm n.places →
      result.1.places.Subperm (n.places ++ (n.arrivals codec event).filterMap read?) := by
    intro hsub
    rw [places, hqueued]
    refine List.Subperm.trans (List.Perm.subperm ?_) ((List.subperm_append_right _).mpr hsub)
    simp only [List.append_assoc]
    refine List.Perm.append_left _ ?_
    rw [← List.append_assoc _ _ ((n.arrivals codec event).filterMap read?)]
    exact List.perm_append_comm
  refine hkept ?_
  by_cases hloop : OnRaftLoop event
  · exact (hhappens.turned hsettled hplain.idle htype hloop).effect.subperm
  · have hoff := hhappens.offLoop hloop
    rw [hoff.left, hoff.side.reads]
    exact ((hoff.stores.filterMap _).append_left _).subperm

/-- Each read is in one place, and somebody asked for it. -/
structure ReadsPlaced (n : Runtime D) : Prop where
  once : n.places.Nodup
  asked : ∀ id ∈ n.places, ∃ key, Request.read id key ∈ n.requests

theorem ReadsPlaced.happens {first : Nat} (hplaced : ReadsPlaced n) (hsettled : ReadsSettled n)
    (hplain : Plain n) (hnumbered : Numbered first n)
    (htype : ∀ msg, RaftTask.message msg ∈ n.raftTasks → msg.type ≠ .installSnapshot)
    (hfew : ∀ key, event = .read key → n.requests.length + 1 < 2 ^ 64)
    (hhappens : Happens codec n event result) : ReadsPlaced result.1 := by
  have hsub := hhappens.places_subperm hsettled hplain htype
  have hrequested := hhappens.requested hsettled
  have hnodup : (n.places ++ (n.arrivals codec event).filterMap read?).Nodup := by
    cases event with
    | read key =>
        refine List.nodup_append.mpr ⟨hplaced.once, by simp [arrivals, read?], ?_⟩
        rintro id hid other hother rfl
        obtain ⟨key, hkey⟩ := hplaced.asked id hid
        refine hnumbered.fresh (hfew _ rfl) hkey ?_
        simpa [arrivals, read?, number] using hother
    | _ => simpa [arrivals, read?, List.filterMap_cons] using hplaced.once
  obtain ⟨kept, hperm, hkept⟩ := hsub
  refine ⟨hperm.nodup_iff.mp (hnodup.sublist hkept), fun id hid => ?_⟩
  rcases List.mem_append.mp (hkept.subset (hperm.mem_iff.mpr hid)) with hold | hnew
  · obtain ⟨key, hkey⟩ := hplaced.asked id hold
    obtain ⟨k, hk⟩ := List.mem_iff_getElem?.mp hkey
    exact ⟨key, List.mem_of_getElem? (hrequested.keeps hk)⟩
  · cases hhappens with
    | read key =>
        obtain rfl : id = n.allocateRequestId.2 := by simpa [arrivals, read?] using hnew
        rw [beginRead_frame]
        exact ⟨key, by simp⟩
    | _ => simp [arrivals, read?, List.filterMap_cons] at hnew

end RaftKv.Runtime
