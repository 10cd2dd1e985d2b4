import RaftKv.Runtime.Queues
import RaftKv.Runtime.Restart

/-! # The store of a node without snapshots

As long as no snapshot cuts the log short, the store is what the applied part of the log
makes of the empty store. This holds on a node whose storage has failed, too: it applies
nothing any more, and no call changes what has been committed.
-/

namespace RaftKv.Runtime

variable {D : Type} {n next : Runtime D} {event : Event D}
  {result : Runtime D × List (Message D)}

theorem Durable.foldl_start {records : List (Record D)}
    (hplain : ∀ record ∈ records, record.KeepsStart) (d : Durable D) :
    (records.foldl Durable.apply d).offset = d.offset ∧
      (records.foldl Durable.apply d).offsetTerm = d.offsetTerm ∧
      (records.foldl Durable.apply d).data = d.data := by
  induction records generalizing d with
  | nil => exact ⟨rfl, rfl, rfl⟩
  | cons record rest ih =>
      obtain ⟨hrecord, hrest⟩ := List.forall_mem_cons.mp hplain
      rw [List.foldl_cons]
      cases record with
      | snapshot snap => cases hrecord
      | _ => exact ih hrest _

variable [Blob D] {codec : StoreCodec D}

structure Replayed (codec : StoreCodec D) (n : Runtime D) : Prop where
  start : n.raft.logOffset = 0
  committed : n.storeAppliedIndex ≤ n.raft.commitIndex
  store : KVStore.processAll codec ∅ (n.raft.log.take n.storeAppliedIndex) = some n.store

/-- The store stays as it was, or it has processed the entry. -/
inductive Applies (codec : StoreCodec D) (n : Runtime D) (entry : Entry) (next : Runtime D) : Prop
  | nothing (hstore : next.store = n.store)
      (happlied : next.storeAppliedIndex = n.storeAppliedIndex)
  | entry (hrunning : n.stopping = false) (hprocess : n.store.process codec entry = some next.store)
      (happlied : next.storeAppliedIndex = entry.index)

theorem applyCommittedEntry_applies (n : Runtime D) (entry : Entry) :
    Applies codec n entry (n.applyCommittedEntry codec entry) := by
  have hstop : ∀ reason, Applies codec n entry (n.requestStop reason) := fun reason => by
    obtain ⟨ended, -, heq⟩ := n.requestStop_frame reason
    rw [heq]
    exact .nothing rfl rfl
  unfold applyCommittedEntry
  split
  · exact .nothing rfl rfl
  next hrunning =>
    have hrunning : n.stopping = false := by simpa using hrunning
    split
    · exact .nothing rfl rfl
    · split
      · exact hstop _
      · split
        next hcarries =>
          split
          · exact hstop _
          next store result hsome =>
            have hprocess : n.store.process codec entry = some store := by
              rw [KVStore.process, if_pos hcarries]
              exact Option.map_eq_some_iff.mpr ⟨_, hsome, rfl⟩
            refine .entry hrunning ?_ rfl
            dsimp only
            split
            · obtain ⟨pending, replies, heq⟩ := answerWrite_frame { n with store := store }
                result.requestId (if result.type = .set then .ok else .affected result.affected)
              rw [completeWrite, heq]
              exact hprocess
            · exact hprocess
        next hempty =>
          refine .entry hrunning ?_ rfl
          rw [KVStore.process, if_neg hempty]
          rfl

/-- No other task touches the store. -/
theorem runStoreTask_store (n : Runtime D) {task : StoreTask D} (hplain : forSnapshot task = false)
    (hother : ∀ entry, task ≠ .apply entry) :
    (n.runStoreTask codec task).store = n.store ∧
      (n.runStoreTask codec task).storeAppliedIndex = n.storeAppliedIndex := by
  have hwrite : ∀ requestId answer, (n.answerWrite requestId answer).store = n.store ∧
      (n.answerWrite requestId answer).storeAppliedIndex = n.storeAppliedIndex := by
    intro requestId answer
    obtain ⟨pending, replies, heq⟩ := n.answerWrite_frame requestId answer
    rw [heq]
    exact ⟨rfl, rfl⟩
  have hread : ∀ requestId answer, (n.answerRead requestId answer).store = n.store ∧
      (n.answerRead requestId answer).storeAppliedIndex = n.storeAppliedIndex := by
    intro requestId answer
    obtain ⟨pending, replies, heq⟩ := n.answerRead_frame requestId answer
    rw [heq]
    exact ⟨rfl, rfl⟩
  cases task with
  | apply entry => exact absurd rfl (hother entry)
  | rejectWrite requestId error => exact hwrite requestId _
  | rejectRead requestId error => exact hread requestId _
  | completeRead requestId => exact hread requestId _
  | stop => exact ⟨rfl, rfl⟩
  | _ => cases hplain

/-- The store and its index after an event that is not for the Raft loop. -/
theorem Happens.store_eq (hplain : Plain n) (hhappens : Happens codec n event result)
    (hoff : ¬ OnRaftLoop event)
    (hother : ∀ entry rest, event = .store → n.storeTasks ≠ .apply entry :: rest) :
    result.1.store = n.store ∧ result.1.storeAppliedIndex = n.storeAppliedIndex := by
  cases hhappens with
  | receive msg => exact ⟨rfl, rfl⟩
  | store task rest hqueue =>
      refine runStoreTask_store { n with storeTasks := rest }
        (hplain.posted task (by simp [hqueue])) ?_
      rintro entry rfl
      exact hother entry rest rfl hqueue
  | write type strs =>
      rw [beginWrite_frame]
      exact ⟨rfl, rfl⟩
  | read key =>
      rw [beginRead_frame]
      exact ⟨rfl, rfl⟩
  | expire writes reads =>
      obtain ⟨fields, heq⟩ := n.expireClientRequests_frame writes reads
      rw [heq]
      exact ⟨rfl, rfl⟩
  | signal =>
      obtain ⟨_, -, heq⟩ := n.stopOnce_frame
      rw [heq]
      exact ⟨rfl, rfl⟩
  | _ => exact absurd trivial hoff

/-- Nothing that was applied is lost from the log, and the index never goes back. -/
structure Extends (n next : Runtime D) : Prop where
  le : n.storeAppliedIndex ≤ next.storeAppliedIndex
  log : next.raft.log.take n.storeAppliedIndex = n.raft.log.take n.storeAppliedIndex

/-- The next committed entry is processed. -/
theorem Replayed.entry {entry : Entry} (hreplayed : Replayed codec n)
    (hat : n.raft.log[n.storeAppliedIndex]? = some entry)
    (hbelow : n.storeAppliedIndex < n.raft.commitIndex)
    (hprocess : n.store.process codec entry = some next.store) (hraft : next.raft = n.raft)
    (happlied : next.storeAppliedIndex = n.storeAppliedIndex + 1) :
    Replayed codec next ∧ Extends n next := by
  refine ⟨⟨hraft ▸ hreplayed.start, ?_, ?_⟩, ?_, by rw [hraft]⟩
  · rw [happlied, hraft]
    exact hbelow
  · rw [happlied, hraft, List.take_add_one, hat, KVStore.processAll_append, hreplayed.store]
    show KVStore.processAll codec n.store [entry] = some next.store
    rw [KVStore.processAll_cons, hprocess]
    rfl
  · rw [happlied]
    exact Nat.le_succ _

theorem Replayed.happens (hreplayed : Replayed codec n) (hsound : Sound codec n)
    (hsettled : ReadsSettled n) (hplain : Plain n)
    (htype : ∀ msg, RaftTask.message msg ∈ n.raftTasks → msg.type ≠ .installSnapshot)
    (hhappens : Happens codec n event result) (hstart : result.1.raft.logOffset = 0) :
    Replayed codec result.1 ∧ Extends n result.1 := by
  have hkeeps := (hhappens.progress hsound hsettled).keeps
  have hlog : result.1.raft.log.take n.storeAppliedIndex = n.raft.log.take n.storeAppliedIndex := by
    have htake := hkeeps.take_eq (i := n.storeAppliedIndex)
      (hstart.trans hreplayed.start.symm) hreplayed.committed
    rwa [show n.raft.indices.offset = 0 from hreplayed.start] at htake
  have hcommit : n.raft.commitIndex ≤ result.1.raft.commitIndex := hkeeps.commit_le
  have hkept : result.1.store = n.store → result.1.storeAppliedIndex = n.storeAppliedIndex →
      Replayed codec result.1 ∧ Extends n result.1 := by
    intro hstore happlied
    refine ⟨⟨hstart, ?_, ?_⟩, ?_, hlog⟩
    · rw [happlied]
      exact hreplayed.committed.trans hcommit
    · rw [happlied, hstore, hlog]
      exact hreplayed.store
    · rw [happlied]
  by_cases hloop : OnRaftLoop event
  · obtain ⟨hstore, happlied⟩ := (hhappens.turned hsettled hplain.idle htype hloop).store
    exact hkept hstore happlied
  · by_cases hentry : ∃ entry rest, event = .store ∧ n.storeTasks = .apply entry :: rest
    · obtain ⟨entry, rest, rfl, hqueue⟩ := hentry
      cases hhappens with
      | store task rest' hqueue' =>
          obtain ⟨rfl, rfl⟩ := List.cons.inj (hqueue'.symm.trans hqueue)
          have hraft : ({ n with storeTasks := rest' }.runStoreTask codec (.apply entry)).raft =
              n.raft := (applyCommittedEntry_storeSide { n with storeTasks := rest' } entry).raft
          have happlies : Applies codec { n with storeTasks := rest' } entry _ :=
            applyCommittedEntry_applies { n with storeTasks := rest' } entry
          cases happlies with
          | nothing hstore happlied => exact hkept hstore happlied
          | entry hrunning hprocess happlied =>
              obtain ⟨hindex, hentry, -, -, hbelow, -, -, hreached, -⟩ :=
                (hsound.handoff (hsettled.healthy hrunning)).handedEntry
                  hsound.posted.mirrors.sane.ordered hqueue
              have hat : n.raft.log[n.storeAppliedIndex]? = some entry := by
                rw [hreached, ← hentry]
                simp [Raft.indices, Indices.entryAt?, hreplayed.start]
              exact hreplayed.entry hat (by rw [hreached]; exact hbelow) hprocess hraft
                (happlied.trans (by rw [hindex, hreached]))
    · obtain ⟨hstore, happlied⟩ := hhappens.store_eq hplain hloop
        fun entry rest hevent hqueue => hentry ⟨entry, rest, hevent, hqueue⟩
      exact hkept hstore happlied

/-- A file without snapshots starts the store from nothing. -/
theorem new_replayed {config : Config} {draws : List Nat} {requestId : Nat}
    {file : List (Record D)} (haccepts : (Durable.start : Durable D).Accepts file)
    (hplain : ∀ record ∈ file, record.KeepsStart)
    (hnew : new codec config draws requestId file = some n) : Replayed codec n := by
  unfold new at hnew
  obtain ⟨⟨r, store, applied⟩, hrecover, rfl⟩ := Option.map_eq_some_iff.mp hnew
  have hboot := recoverStorage_boot hrecover
  have happlied := recoverStorage_applied hrecover
  obtain ⟨hdurable, hvalid, -⟩ := boot_durable haccepts hboot
  obtain ⟨hoffset, hterm, hdata⟩ := Durable.foldl_start hplain (Durable.start : Durable D)
  rw [← hdurable] at hoffset hterm hdata
  have hnothing : r.durable.snapshotStore codec = some ∅ := by
    rw [Durable.snapshotStore, storeOf, hoffset, hterm, hdata]
    simp [SnapshotMeta.isEmpty, Durable.start, codec.isEmpty_empty]
  have hbuilt : r.durable.rebuilt codec = some store := by
    rw [← durable_replay haccepts] at hdurable
    rw [hdurable] at hvalid ⊢
    rw [← recoverStorage_store draws (boot_booted hboot).valid hvalid, hrecover]
    rfl
  rw [Durable.rebuilt, hnothing, hoffset] at hbuilt
  subst happlied
  exact ⟨hoffset, le_rfl, hbuilt⟩

end RaftKv.Runtime
