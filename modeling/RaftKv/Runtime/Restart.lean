import RaftKv.Runtime.Recovery

/-! # Restarting at any point of a run

The store loop takes the history of the store one entry further, and an installed snapshot
begins a new one. With the tasks of the Raft loop this covers every step of a node, so in
every run the WAL is enough to rebuild the store.
-/

namespace RaftKv.Runtime

variable {D : Type} [Blob D] {codec : StoreCodec D} {n m : Runtime D}

/-! ## The store loop -/

/-- The next entry takes both ways one step further. -/
theorem Recoverable.applied {e : Entry} {rest : List (StoreTask D)}
    (hrecoverable : Recoverable codec n) (hhandoff : Handoff codec n)
    (hordered : n.raft.indices.Ordered) (hqueue : n.storeTasks = .apply e :: rest)
    (hprocess : ∃ store, n.store.process codec e = some store) (hraft : m.raft = n.raft)
    (hbase : m.baseIndex = n.baseIndex) (hbaseStore : m.baseStore = n.baseStore)
    (hprocessed : m.processed = n.processed ++ [e])
    (hwaiting : m.waiting = none) (hstopping : m.stopping = n.stopping)
    (hcaptures : ∀ index state, .takeSnapshot index state ∈ m.raftTasks →
      .takeSnapshot index state ∈ n.raftTasks) : Recoverable codec m := by
  obtain ⟨-, hentry, -, -, -, -, -, happlied, hreached⟩ := hhandoff.handedEntry hordered hqueue
  have hearlier : ∀ i, i ≤ n.baseIndex + n.processed.length →
      m.stateAt codec i = n.stateAt codec i := by
    intro i hi
    simp only [stateAt, hbase, hbaseStore, hprocessed]
    rw [List.take_append_of_le_length (by omega)]
  obtain ⟨store, hstore, hstates⟩ := hrecoverable.rests
  refine ⟨?_, ?_, ⟨store, ?_, fun i hoffset hle hlast => ?_⟩,
    fun hrunning index state htask => ?_, ?_⟩
  · rw [hbase, hraft]
    exact hrecoverable.base_le
  · obtain ⟨after, hafter⟩ := hprocess
    refine ⟨after, ?_⟩
    rw [hbaseStore, hprocessed, KVStore.processAll_append,
      hhandoff.store (happlied.trans hreached.symm), Option.bind_some]
    simpa [KVStore.processAll] using hafter
  · rw [hraft]
    exact hstore
  · rw [hraft] at hoffset ⊢
    rw [hbase] at hle hlast
    rw [hprocessed, List.length_append, List.length_singleton] at hlast
    by_cases hi : i ≤ n.baseIndex + n.processed.length
    · rw [hearlier i hi]
      exact hstates i hoffset hle hi
    · obtain rfl : i = n.baseIndex + n.processed.length + 1 := by omega
      have hfirst : n.raft.logOffset ≤ n.baseIndex + n.processed.length :=
        hordered.offset_le.trans_eq hreached.symm
      have hbefore := hstates _ hfirst (by omega) le_rfl
      have hlog : n.raft.log[n.baseIndex + n.processed.length - n.raft.logOffset]? = some e := by
        rw [← hreached] at hentry
        simp only [Indices.entryAt?, Raft.indices] at hentry
        rwa [Nat.sub_right_comm, Nat.add_sub_cancel] at hentry
      rw [Nat.sub_add_comm hfirst, List.take_add_one, hlog, Option.toList_some,
        KVStore.processAll_append, hbefore]
      simp only [stateAt, hbase, hbaseStore, hprocessed]
      rw [Nat.add_sub_cancel_left, List.take_length, Nat.add_assoc, Nat.add_sub_cancel_left,
        List.take_of_length_le (by simp), KVStore.processAll_append]
  · rw [hstopping] at hrunning
    rcases hrecoverable.captured hrunning index state (hcaptures index state htask) with
      hold | ⟨habove, -⟩ | ⟨hle, hlast, hat⟩
    · exact .inl (hraft ▸ hold)
    · omega
    · refine .inr (.inr ⟨hbase ▸ hle, ?_, ?_⟩)
      · rw [hbase, hprocessed, List.length_append]
        omega
      · rw [hearlier index hlast]
        exact hat
  · intro other asked hasked
    rw [hwaiting] at hasked
    cases hasked

theorem Restartable.applyCommittedEntry {e : Entry} {rest : List (StoreTask D)}
    (hrestart : Restartable codec n) (hsound : Sound codec n)
    (hqueue : n.storeTasks = .apply e :: rest) :
    Restartable codec ({ n with storeTasks := rest }.applyCommittedEntry codec e) := by
  have hordered := hsound.posted.mirrors.sane.ordered
  have hkept : StoreKept n { n with storeTasks := rest } :=
    .of_same rfl rfl
  have hstop : ∀ reason, Restartable codec ({ n with storeTasks := rest }.requestStop reason) :=
    fun reason => hrestart.kept hsound (hkept.requestStop reason)
      (requestStop_storeSide { n with storeTasks := rest } reason).raft
  have happlied : ∀ k : Runtime D, StoreSide n k → k.baseIndex = n.baseIndex →
      k.baseStore = n.baseStore → k.processed = n.processed → k.stopping = n.stopping →
      k.raftTasks = n.raftTasks → (∃ store, n.store.process codec e = some store) →
      Restartable codec (k.applied e) := by
    intro k hside hbase hbaseStore hprocessed hstopping htasks hprocess hhealthy
    have hfirst : n.raft.storageFailed = false := hside.raft ▸ hhealthy
    have hhandoff := hsound.handoff hfirst
    obtain ⟨-, -, -, hwaiting, -⟩ := hhandoff.handedEntry hordered hqueue
    refine (hrestart hfirst).applied hhandoff hordered hqueue hprocess hside.raft hbase hbaseStore
      (congrArg (· ++ [e]) hprocessed) (hside.waiting.trans hwaiting) hstopping
      fun index state htask => ?_
    rcases List.mem_append.mp htask with hold | hnew
    · exact htasks ▸ hold
    · simp at hnew
  unfold Runtime.applyCommittedEntry
  split
  · exact hrestart.kept hsound hkept rfl
  split
  · refine hrestart.kept hsound
      (.of_captures rfl fun index state htask => ?_) rfl
    rcases List.mem_append.mp htask with hold | hnew
    · exact hold
    · simp at hnew
  split
  · exact hstop _
  split
  next hcarries =>
    split
    · exact hstop _
    next store result hsome =>
      have hprocess : ∃ store, n.store.process codec e = some store := by
        refine ⟨store, ?_⟩
        rw [KVStore.process, if_pos hcarries]
        exact Option.map_eq_some_iff.mpr ⟨_, hsome, rfl⟩
      dsimp only
      split
      · obtain ⟨pending, replies, heq⟩ := answerWrite_frame
          { n with storeTasks := rest, store := store } result.requestId
          (if result.type = .set then .ok else .affected result.affected)
        rw [completeWrite, heq]
        exact happlied _ (.of_same rfl rfl rfl) rfl rfl rfl rfl rfl
          hprocess
      · exact happlied _ (.of_same rfl rfl rfl) rfl rfl rfl rfl rfl
          hprocess
  next hempty =>
    exact happlied _ (.of_same rfl rfl rfl) rfl rfl rfl rfl rfl
      ⟨n.store, by rw [KVStore.process, if_neg hempty]⟩

/-- A capture is the state at the index the store stands at. -/
theorem Recoverable.capture (hrecoverable : Recoverable codec n) (hhandoff : Handoff codec n) :
    Recoverable codec
      (n.postRaft (.takeSnapshot n.storeAppliedIndex (codec.serialize n.store))) := by
  refine ⟨hrecoverable.base_le, hrecoverable.ran, hrecoverable.rests,
    fun hrunning index state htask => ?_,
    hrecoverable.answered⟩
  rcases List.mem_append.mp htask with hold | hnew
  · exact hrecoverable.captured hrunning index state hold
  · obtain ⟨rfl, rfl⟩ := RaftTask.takeSnapshot.inj (List.mem_singleton.mp hnew)
    rcases hhandoff.phase.reached_le_applied.lt_or_eq with habove | hsame
    · exact .inr (.inl ⟨habove, rfl⟩)
    · have hstate := hhandoff.store hsame.symm
      refine .inr (.inr ⟨?_, hsame.ge, n.store, ?_, rfl⟩)
      · exact (Nat.le_add_right _ _).trans hsame.le
      · have hlength : n.storeAppliedIndex - n.baseIndex = n.processed.length := by
          rw [show n.storeAppliedIndex = n.baseIndex + n.processed.length from hsame.symm]
          omega
        simp only [stateAt, postRaft, hlength, List.take_length]
        exact hstate

/-- The store takes the snapshot that the Raft loop waits for. -/
theorem Recoverable.restore {index : Nat} {state : D} {rest : List (StoreTask D)}
    (hrecoverable : Recoverable codec n) (hhandoff : Handoff codec n)
    (hqueue : n.storeTasks = .restore index state :: rest) :
    Recoverable codec ({ n with storeTasks := rest }.runStoreTask codec
      (.restore index state)) := by
  rw [runStoreTask]
  split
  · exact ⟨hrecoverable.base_le, hrecoverable.ran, hrecoverable.rests, hrecoverable.captured,
      fun _ _ _ h => by cases h⟩
  next store hstore =>
    refine ⟨hrecoverable.base_le, hrecoverable.ran, hrecoverable.rests,
      fun hrunning i captured htask => ?_,
      fun turn asked hasked _ => ?_⟩
    · rcases hhandoff.handedSnapshot hqueue with ⟨msg, -, -, -, hsettled⟩ | ⟨-, hstopping⟩
      · rcases hrecoverable.captured hrunning i captured htask with hold | ⟨habove, -⟩ | hstate
        · exact .inl hold
        · omega
        · exact .inr (.inr hstate)
      · exact absurd hstopping (by simp [show n.stopping = false from hrunning])
    · have hwaiting : n.waiting = some (turn, asked) := hasked
      rcases hhandoff.handedSnapshot hqueue with ⟨msg, hmsg, -, rfl, -⟩ | ⟨hnone, -⟩
      · rw [hwaiting] at hmsg
        obtain rfl : asked = msg := by simpa using hmsg
        exact hstore
      · rw [hwaiting] at hnone
        cases hnone

theorem runStoreTask_recoverable {task : StoreTask D} {rest : List (StoreTask D)}
    (hrestart : Restartable codec n) (hsound : Sound codec n)
    (hqueue : n.storeTasks = task :: rest) :
    Restartable codec ({ n with storeTasks := rest }.runStoreTask codec task) := by
  have hkept : StoreKept n { n with storeTasks := rest } :=
    .of_same rfl rfl
  cases task with
  | apply e => exact hrestart.applyCommittedEntry hsound hqueue
  | restore index state =>
      intro hhealthy
      have hside : StoreSide { n with storeTasks := rest } (runStoreTask codec _ _) :=
        runStoreTask_storeSide { n with storeTasks := rest } (.restore index state)
      rw [hside.raft] at hhealthy
      exact (hrestart hhealthy).restore (hsound.handoff hhealthy) hqueue
  | rejectWrite requestId error =>
      obtain ⟨pending, replies, heq⟩ :=
        answerWrite_frame { n with storeTasks := rest } requestId (.error error)
      rw [runStoreTask, rejectWrite, heq]
      exact hrestart.kept hsound (.of_same rfl rfl) rfl
  | rejectRead requestId error =>
      obtain ⟨pending, replies, heq⟩ :=
        answerRead_frame { n with storeTasks := rest } requestId fun _ => .error error
      rw [runStoreTask, rejectRead, heq]
      exact hrestart.kept hsound (.of_same rfl rfl) rfl
  | completeRead requestId =>
      obtain ⟨pending, replies, heq⟩ := answerRead_frame { n with storeTasks := rest } requestId
        fun pending => .value (n.store.get pending.key)
      rw [runStoreTask, completeRead, heq]
      exact hrestart.kept hsound (.of_same rfl rfl) rfl
  | capture =>
      intro hhealthy
      have hcapture := (hrestart hhealthy).capture (hsound.handoff hhealthy)
      exact ⟨hcapture.base_le, hcapture.ran, hcapture.rests, hcapture.captured, hcapture.answered⟩
  | stop =>
      exact hrestart.kept hsound (.of_same rfl rfl) rfl

/-! ## Snapshots of the leader -/

/-- The snapshot replaces the log together with the history of the store. -/
theorem Recoverable.install {turn : Turn} {msg : Message D} (hrecoverable : Recoverable codec n)
    (hsound : Sound codec n) (hhealthy : n.raft.storageFailed = false)
    (hwaiting : n.waiting = some (turn, msg)) (hverdict : n.restored = some true)
    (hstill : ((n.raft.arm (turn.env true)).step (.message msg)).storageFailed = false) :
    Recoverable codec
      (callRaft turn true (.message msg) { n.rebase with waiting := none }) := by
  obtain ⟨-, hasks⟩ := hsound.posted.asked turn msg hwaiting
  obtain ⟨hindices, hdata⟩ := asksRestore_installs hasks hstill
  have hfresh := asksRestore_fresh hasks
  have hstore := hrecoverable.answered turn msg hwaiting hverdict
  obtain ⟨happlied, hreached⟩ := (hsound.handoff hhealthy).loadedSnapshot hwaiting hverdict
  generalize hinstalled : (n.raft.arm (turn.env true)).step (.message msg) = installed at *
  have hoffset : installed.logOffset = msg.snapshotIndex := congrArg Indices.offset hindices
  have hlast : installed.lastApplied = msg.snapshotIndex := congrArg Indices.applied hindices
  have hcalled : (callRaft turn true (.message msg) { n.rebase with waiting := none }).raft =
      installed := hinstalled
  refine ⟨?_, ⟨n.store, rfl⟩, ⟨n.store, ?_, fun i hfirst hbase hle => ?_⟩,
    fun hrunning index state htask => ?_,
    nofun⟩
  · rw [hcalled, hlast]
    exact happlied.le
  · rw [hcalled, Durable.snapshotStore_of_pos (by simp only [Raft.durable, hoffset]; omega)]
    simp only [Raft.durable, hdata]
    exact hstore
  · have hprocessed :
        (callRaft turn true (.message msg) { n.rebase with waiting := none }).processed
        = [] := rfl
    have hlog : installed.log = [] := congrArg Indices.log hindices
    rw [hcalled, hlog, stateAt, hprocessed, List.take_nil, List.take_nil]
    rfl
  · have hbelow := hsound.posted.mirrors.sane.ordered.offset_le
    simp only [Raft.indices] at hbelow
    refine .inl ?_
    rw [hcalled, hoffset]
    rcases hrecoverable.captured hrunning index state htask with hold | ⟨-, hnew⟩ | ⟨-, hle, -⟩
    · omega
    · exact (hnew.trans happlied).le
    · omega

theorem Restartable.resume_accepted {turn : Turn} {msg : Message D}
    (hrestart : Restartable codec n) (hsound : Sound codec n)
    (hhealthy : n.raft.storageFailed = false) (hwaiting : n.waiting = some (turn, msg))
    (hverdict : n.restored = some true) : Restartable codec (n.resume turn msg true).1 := by
  have hasks := (hsound.posted.asked turn msg hwaiting).2
  obtain ⟨happlied, -⟩ := (hsound.handoff hhealthy).loadedSnapshot hwaiting hverdict
  unfold Runtime.resume
  rw [if_pos rfl]
  intro hstill
  rw [(afterRaftActivity_frame turn _).2.1] at hstill
  have hinstalled := (asksRestore_installs hasks hstill).1
  refine ((hrestart hhealthy).install hsound hhealthy hwaiting hverdict hstill).activity turn hstill
    ?_
  have hcommit : ((n.raft.arm (turn.env true)).step (.message msg)).commitIndex =
      msg.snapshotIndex :=
    congrArg Indices.commit hinstalled
  exact (happlied.trans hcommit.symm).le

theorem Restartable.resume_refused {turn : Turn} {msg : Message D}
    (hrestart : Restartable codec n) (hsound : Sound codec n)
    (hhealthy : n.raft.storageFailed = false) (hwaiting : n.waiting = some (turn, msg)) :
    Restartable codec (n.resume turn msg false).1 := by
  obtain ⟨⟨hwire, -⟩, -⟩ := hsound.posted.asked turn msg hwaiting
  exact hrestart.call turn (.message msg) hsound hhealthy hwire nofun
    ⟨rfl, rfl, rfl, rfl, rfl, rfl, id, fun _ _ => id, nofun⟩ rfl

theorem Restartable.resume {turn : Turn} {msg : Message D} {verdict : Bool}
    (hrestart : Restartable codec n) (hsound : Sound codec n)
    (hhealthy : n.raft.storageFailed = false) (hwaiting : n.waiting = some (turn, msg))
    (hverdict : n.restored = some verdict) : Restartable codec (n.resume turn msg verdict).1 := by
  cases verdict with
  | true => exact hrestart.resume_accepted hsound hhealthy hwaiting hverdict
  | false => exact hrestart.resume_refused hsound hhealthy hwaiting

theorem Restartable.timeout {turn : Turn} {msg : Message D} (hrestart : Restartable codec n)
    (hsound : Sound codec n) (hhealthy : n.raft.storageFailed = false)
    (hwaiting : n.waiting = some (turn, msg)) :
    Restartable codec ((n.requestStop .restoreTimedOut).resume turn msg false).1 := by
  obtain ⟨⟨hwire, -⟩, -⟩ := hsound.posted.asked turn msg hwaiting
  have hkept : StoreKept n (n.requestStop .restoreTimedOut) :=
    .requestStop (.of_same rfl rfl) _
  refine hrestart.call turn (.message msg) hsound hhealthy hwire nofun
    ⟨hkept.baseIndex, hkept.baseStore, hkept.processed, hkept.applied, hkept.store, hkept.restored,
      hkept.stopping, hkept.captures, nofun⟩ ?_
  obtain ⟨ended, -, heq⟩ := n.requestStop_frame .restoreTimedOut
  rw [heq]
  rfl

/-! ## Runs -/

theorem Happens.restartable {event : Event D} {result : Runtime D × List (Message D)}
    (hrestart : Restartable codec n) (hsound : Sound codec n) (hsettled : ReadsSettled n)
    (hhappens : Happens codec n event result) : Restartable codec result.1 := by
  cases hhappens with
  | receive msg =>
      refine hrestart.kept hsound
        (.of_captures rfl fun index state htask => ?_) rfl
      rcases List.mem_append.mp htask with hold | hnew
      · exact hold
      · simp at hnew
  | tick turn hidle =>
      unfold Runtime.tick
      split
      · exact hrestart
      next hrunning =>
        exact hrestart.call turn .tick hsound (hsettled.healthy (by simpa using hrunning)) trivial
          nofun (.of_same rfl rfl) rfl
  | raft turn task rest hidle hqueue =>
      exact runRaftTask_recoverable turn hrestart hsound hsettled hidle hqueue
  | store task rest hqueue => exact runStoreTask_recoverable hrestart hsound hqueue
  | restored turn msg verdict hwaiting hverdict =>
      exact hrestart.resume hsound (hsettled.busy (by simp [hwaiting])) hwaiting hverdict
  | timeout turn msg hwaiting hnone =>
      exact hrestart.timeout hsound (hsettled.busy (by simp [hwaiting])) hwaiting
  | write type strs =>
      dsimp only
      rw [beginWrite_frame]
      exact hrestart.kept hsound
        (.of_captures rfl fun index state htask => by simpa using htask)
        rfl
  | read key =>
      dsimp only
      rw [beginRead_frame]
      exact hrestart.kept hsound
        (.of_captures rfl fun index state htask => by simpa using htask)
        rfl
  | expire writes reads hrunning =>
      have hside := expireClientRequests_storeSide n writes reads
      refine hrestart.kept hsound (.of_beside (.of_expireClientRequests n writes reads)
        (fun index state htask => ?_) (fun asked hasked => hside.waiting ▸ hasked)) hside.raft
      rcases expireClientRequests_posts n writes reads _ htask with hold | ⟨id, hcancel⟩
      · exact hold
      · cases hcancel
  | signal =>
      obtain ⟨ended, hended, heq⟩ := n.stopOnce_frame
      refine hrestart.kept hsound (.of_beside (.of_stopOnce n) (fun index state htask => ?_)
        (fun asked hasked => ?_)) (by rw [heq])
      · rw [heq] at htask
        exact (List.mem_append.mp htask).resolve_right fun h => nomatch hended _ h
      · rwa [heq] at hasked

theorem new_recoverable {config : Config} {draws : List Nat} {requestId : Nat}
    {file : List (Record D)} (haccepts : (Durable.start : Durable D).Accepts file)
    (hnew : new codec config draws requestId file = some n) : Recoverable codec n := by
  unfold new at hnew
  obtain ⟨⟨r, store, applied⟩, hrecover, rfl⟩ := Option.map_eq_some_iff.mp hnew
  have hboot := recoverStorage_boot hrecover
  have happlied := recoverStorage_applied hrecover
  obtain ⟨hdurable, hvalid, hlast⟩ := boot_durable haccepts hboot
  rw [← durable_replay haccepts] at hdurable
  have hbuilt : r.durable.rebuilt codec = some store := by
    rw [hdurable] at hvalid ⊢
    rw [← recoverStorage_store draws (boot_booted hboot).valid hvalid, hrecover]
    rfl
  obtain ⟨first, hfirst, hstore⟩ := Option.bind_eq_some_iff.mp hbuilt
  refine ⟨(happlied.trans hlast.symm).le, ⟨store, rfl⟩, ⟨first, hfirst, fun i _ hbase hle => ?_⟩,
    nofun, nofun⟩
  obtain rfl : i = r.commitIndex := by
    simp only [List.length_nil, Nat.add_zero] at hle
    exact (hle.antisymm hbase).trans happlied
  rw [stateAt, List.take_nil]
  exact hstore

theorem Reach.restartable {config : Config} (hreach : Reach codec config InRange n) :
    Restartable codec n := by
  induction hreach with
  | start draws requestId n hnew =>
      have hnothing : (Durable.start : Durable D).Accepts [] := trivial
      exact fun _ => new_recoverable hnothing hnew
  | step n event next sent hreach hok hstep ih =>
      exact (step_happens hstep).restartable ih hreach.sound hreach.settled
  | crash n k draws requestId next hreach hnew ih =>
      exact fun _ => new_recoverable
        (hreach.sound.posted.mirrors.written_accepts.of_isPrefix (List.take_prefix k _)) hnew

theorem new_valid {config : Config} {draws : List Nat} {requestId : Nat} {file : List (Record D)}
    (hnew : new codec config draws requestId file = some n) : config.valid = true := by
  obtain ⟨⟨r, store, applied⟩, hrecover, -⟩ := Option.map_eq_some_iff.mp hnew
  exact (boot_booted (recoverStorage_boot hrecover)).valid

theorem Reach.valid {config : Config} {Ok : Runtime D → Event D → Prop}
    (hreach : Reach codec config Ok n) : config.valid = true := by
  induction hreach with
  | start draws requestId n hnew => exact new_valid hnew
  | step n event next sent _ _ _ ih => exact ih
  | crash n k draws requestId next _ hnew _ => exact new_valid hnew

/-- The store that the WAL describes, from the state at any index the store has reached. -/
theorem Recoverable.rebuilt {i : Nat} (hrecoverable : Recoverable codec n)
    (hoffset : n.raft.logOffset ≤ i) (hbase : n.baseIndex ≤ i)
    (hle : i ≤ n.baseIndex + n.processed.length) (hcommit : i ≤ n.raft.commitIndex) :
    ∃ state, n.stateAt codec i = some state ∧
      n.raft.durable.rebuilt codec = KVStore.processAll codec state
        ((n.raft.log.drop (i - n.raft.logOffset)).take (n.raft.commitIndex - i)) := by
  obtain ⟨store, hstore, hstates⟩ := hrecoverable.rests
  obtain ⟨last, hlast⟩ := hrecoverable.ran
  rw [← List.take_append_drop (i - n.baseIndex) n.processed, KVStore.processAll_append] at hlast
  obtain ⟨state, hstate, -⟩ := Option.bind_eq_some_iff.mp hlast
  have hcut : n.raft.log.take (n.raft.commitIndex - n.raft.logOffset) =
      n.raft.log.take (i - n.raft.logOffset) ++
        (n.raft.log.drop (i - n.raft.logOffset)).take (n.raft.commitIndex - i) := by
    rw [← List.take_add]
    congr 1
    omega
  refine ⟨state, hstate, ?_⟩
  rw [Durable.rebuilt, hstore, Option.bind_some]
  simp only [Raft.durable]
  rw [hcut, KVStore.processAll_append, hstates i hoffset hbase hle,
    show n.stateAt codec i = some state from hstate, Option.bind_some]

/-- A restart rebuilds the store. At any point of a run, as long as no flush of the WAL has
failed, start-up builds the store that the node would reach from its state at
`last_applied_` with the rest of the committed entries in its log; and a state that
`take_snapshot` is given, unless outdated, is the serialization of the store after exactly
the entries up to its index. -/
theorem restart_rebuilds_store {config : Config} (hreach : Reach codec config InRange n)
    (hhealthy : n.raft.storageFailed = false) :
    (∃ state, n.stateAt codec n.raft.lastApplied = some state ∧
      ∀ draws,
        (recoverStorage codec config draws n.raft.synced).map (fun recovered => recovered.2.1) =
          KVStore.processAll codec state
            ((n.raft.log.drop (n.raft.lastApplied - n.raft.logOffset)).take
              (n.raft.commitIndex - n.raft.lastApplied))) ∧
    ∀ index bytes rest, n.raftTasks = .takeSnapshot index bytes :: rest → n.waiting = none →
      n.stopping = false → n.raft.logOffset < index →
        n.baseIndex ≤ index ∧ index ≤ n.baseIndex + n.processed.length ∧
          ∃ state, n.stateAt codec index = some state ∧ bytes = codec.serialize state := by
  have hsound := hreach.sound
  have hmirrors := hsound.posted.mirrors
  have hphase := (hsound.handoff hhealthy).phase
  have hordered := hmirrors.sane.ordered
  have hrecoverable := hreach.restartable hhealthy
  refine ⟨?_, fun index bytes rest hqueue hidle hrunning hfresh => ?_⟩
  · obtain ⟨state, hstate, hrebuilt⟩ := hrecoverable.rebuilt hmirrors.sane.offset_le
      hrecoverable.base_le (hphase.reached_le hordered).1 hmirrors.sane.applied_le
    refine ⟨state, hstate, fun draws => ?_⟩
    have hsynced := hmirrors.synced_eq hhealthy
    have hvalid : (replay n.raft.synced).durable.Valid := hsynced ▸ hmirrors.sane.valid
    rw [recoverStorage_store draws hreach.valid hvalid, hsynced, hrebuilt]
  · have hsettled : n.storeAppliedIndex = n.baseIndex + n.processed.length :=
      hphase.applied_eq (by simp [exchange, hidle]) hrunning
    rcases hrecoverable.captured hrunning index bytes (by simp [hqueue]) with
      hold | ⟨habove, -⟩ | hcaptured
    · omega
    · omega
    · exact hcaptured

/-- The entry of `writeOne` is acknowledged, and the store has been captured. -/
def captureOne : List (Event Bytes) := writeOne ++ [.raft {}, .store]

theorem restart_rebuilds_store_captureOne :
    ∃ n : Runtime Bytes, Reach msgpackStoreCodec nodeOne InRange n ∧
      ∃ state bytes, n.raftTasks.head? = some (.takeSnapshot 1 bytes) ∧
        n.stateAt msgpackStoreCodec 1 = some state ∧ bytes = msgpackStoreCodec.serialize state := by
  have hplay : ((startOne.bind fun n => n.play msgpackStoreCodec InRange captureOne).map fun n =>
      (n.raft.storageFailed, n.waiting.isSome, n.stopping, n.raft.logOffset,
        n.raftTasks.map fun task => match task with
          | .takeSnapshot index _ => index
          | _ => 0)) = some (false, false, false, 0, [1]) := by
    decide +kernel
  obtain ⟨n, hn, heq⟩ := Option.map_eq_some_iff.mp hplay
  simp only [Prod.mk.injEq] at heq
  obtain ⟨hhealthy, hidle, hrunning, hoffset, hqueue⟩ := heq
  have hreach := Reach.of_startOne hn
  obtain ⟨-, hcaptured⟩ := restart_rebuilds_store hreach hhealthy
  obtain ⟨task, htasks, htask⟩ := List.map_eq_singleton_iff.mp hqueue
  cases task with
  | takeSnapshot index bytes =>
      obtain rfl : index = 1 := htask
      obtain ⟨-, -, state, hstate, hbytes⟩ :=
        hcaptured 1 bytes [] htasks (by simpa using hidle) hrunning (by omega)
      exact ⟨n, hreach, state, bytes, by rw [htasks]; rfl, hstate, hbytes⟩
  | _ => cases htask

/-- Node 2 leads and sends a committed entry; node 1 cannot flush the new commit index. -/
def lateCommit : List (Event Bytes) :=
  let command : Command := { strs := [[107], [118]], originNode := 2, requestId := 1 }
  let entry : Entry := { term := 1, index := 1, data := msgpackStoreCodec.packCommand command }
  [.receive { fromTwo .appendEntries 1 with entries := [entry], leaderCommit := 1 },
    .raft { device := [.ok, .ok, .failed 0] }]

/-- After a failed flush the entries that the node takes for committed are more than those a
restart finds committed. -/
theorem restart_after_failed_flush :
    ∃ n : Runtime Bytes, Reach msgpackStoreCodec nodeOne InRange n ∧
      ∃ state store, n.stateAt msgpackStoreCodec n.raft.lastApplied = some state ∧
        KVStore.processAll msgpackStoreCodec state
          ((n.raft.log.drop (n.raft.lastApplied - n.raft.logOffset)).take
            (n.raft.commitIndex - n.raft.lastApplied)) = some store ∧
        (recoverStorage msgpackStoreCodec nodeOne [] n.raft.synced).map
          (fun recovered => recovered.2.1) ≠ some store := by
  have hplay : ((startOne.bind fun n => n.play msgpackStoreCodec InRange lateCommit).bind fun n =>
      (n.stateAt msgpackStoreCodec n.raft.lastApplied).bind fun state =>
        (KVStore.processAll msgpackStoreCodec state
          ((n.raft.log.drop (n.raft.lastApplied - n.raft.logOffset)).take
            (n.raft.commitIndex - n.raft.lastApplied))).map fun store =>
          (store.get [107], (recoverStorage msgpackStoreCodec nodeOne [] n.raft.synced).map
            fun recovered => KVStore.get recovered.2.1 [107])) = some (some [118], some none) := by
    decide +kernel
  obtain ⟨n, hn, hstate⟩ := Option.bind_eq_some_iff.mp hplay
  obtain ⟨state, hstate, hstore⟩ := Option.bind_eq_some_iff.mp hstate
  obtain ⟨store, hstore, hget⟩ := Option.map_eq_some_iff.mp hstore
  obtain ⟨hpresent, habsent⟩ := Prod.mk.inj hget
  refine ⟨n, .of_startOne hn, state, store, hstate, hstore, fun hsame => ?_⟩
  obtain ⟨recovered, hrecovered, hstored⟩ := Option.map_eq_some_iff.mp hsame
  rw [hrecovered, Option.map_some, hstored, hpresent] at habsent
  cases habsent

end RaftKv.Runtime
