import RaftKv.Runtime.Committed
import RaftKv.Runtime.Replay

/-! # A restart rebuilds the same store

The store of a running node and the store that start-up would rebuild from its WAL are
two ways to the same state: the entries processed since the node started, and those
behind the last snapshot. They agree because a snapshot is only ever cut at an index for
which the state was captured, although the capture, the persisting and the entries in
between happen on different loops.
-/

namespace RaftKv.Runtime

variable {D : Type} {n m : Runtime D}

/-- Nothing of the store and its history is touched, and nothing new is captured. -/
structure StoreKept (n m : Runtime D) : Prop where
  baseIndex : m.baseIndex = n.baseIndex
  baseStore : m.baseStore = n.baseStore
  processed : m.processed = n.processed
  applied : m.storeAppliedIndex = n.storeAppliedIndex
  store : m.store = n.store
  restored : m.restored = n.restored
  stopping : m.stopping = false → n.stopping = false
  captures : ∀ index state, .takeSnapshot index state ∈ m.raftTasks →
    .takeSnapshot index state ∈ n.raftTasks
  waiting : ∀ asked, m.waiting = some asked → n.waiting = some asked

/-- What the store loop has done and is asked to do. -/
def storeSide (n : Runtime D) :=
  (n.baseIndex, n.baseStore, n.processed, n.storeAppliedIndex, n.store, n.restored, n.stopping,
    n.waiting)

theorem StoreKept.of_captures (hsame : m.storeSide = n.storeSide)
    (hcaptures : ∀ index state, .takeSnapshot index state ∈ m.raftTasks →
      .takeSnapshot index state ∈ n.raftTasks) : StoreKept n m := by
  simp only [storeSide, Prod.mk.injEq] at hsame
  obtain ⟨hindex, hbase, hprocessed, happlied, hstore, hrestored, hstopping, hwaiting⟩ := hsame
  exact ⟨hindex, hbase, hprocessed, happlied, hstore, hrestored, fun h => hstopping.symm.trans h,
    hcaptures, fun _ h => hwaiting.symm.trans h⟩

/-- A change to neither the store's side nor the queue of the Raft loop. -/
theorem StoreKept.of_same (hsame : m.storeSide = n.storeSide)
    (htasks : m.raftTasks = n.raftTasks) : StoreKept n m :=
  .of_captures hsame fun _ _ h => htasks ▸ h

theorem StoreKept.of_beside (hbeside : Beside n m)
    (hcaptures : ∀ index state, .takeSnapshot index state ∈ m.raftTasks →
      .takeSnapshot index state ∈ n.raftTasks)
    (hwaiting : ∀ asked, m.waiting = some asked → n.waiting = some asked) : StoreKept n m where
  baseIndex := hbeside.baseIndex
  baseStore := hbeside.baseStore
  processed := hbeside.processed
  applied := congrArg Exchange.applied hbeside.exchange
  store := hbeside.store
  restored := congrArg Exchange.restored hbeside.exchange
  stopping h := by
    by_contra hstopping
    simp [hbeside.stopping (by simpa using hstopping)] at h
  captures := hcaptures
  waiting := hwaiting

theorem StoreKept.requestStop (hkept : StoreKept n m) (reason : StopReason) :
    StoreKept n (m.requestStop reason) := by
  obtain ⟨ended, hended, heq⟩ := m.requestStop_frame reason
  rw [heq]
  refine ⟨hkept.baseIndex, hkept.baseStore, hkept.processed, hkept.applied, hkept.store,
    hkept.restored, nofun, fun index state htask => hkept.captures index state ?_, hkept.waiting⟩
  exact (List.mem_append.mp htask).resolve_right fun h => nomatch hended _ h

theorem StoreKept.trans {l : Runtime D} (hfirst : StoreKept l n) (hthen : StoreKept n m) :
    StoreKept l m where
  baseIndex := hthen.baseIndex.trans hfirst.baseIndex
  baseStore := hthen.baseStore.trans hfirst.baseStore
  processed := hthen.processed.trans hfirst.processed
  applied := hthen.applied.trans hfirst.applied
  store := hthen.store.trans hfirst.store
  restored := hthen.restored.trans hfirst.restored
  stopping h := hfirst.stopping (hthen.stopping h)
  captures index state h := hfirst.captures index state (hthen.captures index state h)
  waiting asked h := hfirst.waiting asked (hthen.waiting asked h)

section

variable [Blob D] {codec : StoreCodec D}

/-- The state the store had after the entry at this index. -/
def stateAt (codec : StoreCodec D) (n : Runtime D) (i : Nat) : Option KVStore :=
  KVStore.processAll codec n.baseStore (n.processed.take (i - n.baseIndex))

/-- What a captured state is good for: it is outdated, or belongs to a snapshot that is about
to be installed, or is the state at its index. -/
def Captured (codec : StoreCodec D) (n : Runtime D) (index : Nat) (state : D) : Prop :=
  index ≤ n.raft.logOffset ∨
    n.baseIndex + n.processed.length < n.storeAppliedIndex ∧ index = n.storeAppliedIndex ∨
    n.baseIndex ≤ index ∧ index ≤ n.baseIndex + n.processed.length ∧
      ∃ store, n.stateAt codec index = some store ∧ state = codec.serialize store

/-- The last snapshot and the log behind it lead to the states the store went through. -/
def Rests (codec : StoreCodec D) (n : Runtime D) : Prop :=
  ∃ store, n.raft.durable.snapshotStore codec = some store ∧
    ∀ i, n.raft.logOffset ≤ i → n.baseIndex ≤ i → i ≤ n.baseIndex + n.processed.length →
      KVStore.processAll codec store (n.raft.log.take (i - n.raft.logOffset)) = n.stateAt codec i

structure Recoverable (codec : StoreCodec D) (n : Runtime D) : Prop where
  base_le : n.baseIndex ≤ n.raft.lastApplied
  ran : ∃ store, KVStore.processAll codec n.baseStore n.processed = some store
  rests : n.Rests codec
  captured : n.stopping = false → ∀ index state, .takeSnapshot index state ∈ n.raftTasks →
    n.Captured codec index state
  answered : ∀ turn msg, n.waiting = some (turn, msg) → n.restored = some true →
    codec.deserialize msg.snapshotData = some n.store

theorem StoreKept.stateAt (hkept : StoreKept n m) (i : Nat) :
    m.stateAt codec i = n.stateAt codec i := by
  simp only [Runtime.stateAt, hkept.baseStore, hkept.processed, hkept.baseIndex]

theorem Captured.kept {index : Nat} {state : D} (hcaptured : n.Captured codec index state)
    (hkept : StoreKept n m) (hoffset : n.raft.logOffset ≤ m.raft.logOffset) :
    m.Captured codec index state := by
  rcases hcaptured with hold | ⟨habove, heq⟩ | hstate
  · exact .inl (hold.trans hoffset)
  · rw [← hkept.applied, ← hkept.baseIndex, ← hkept.processed] at habove
    exact .inr (.inl ⟨habove, heq.trans hkept.applied.symm⟩)
  · refine .inr (.inr ?_)
    rwa [hkept.stateAt, hkept.baseIndex, hkept.processed]

/-- A call that leaves the start of the log alone. -/
theorem Recoverable.kept (hrecoverable : Recoverable codec n) (hkept : StoreKept n m)
    (hstart : Raft.SameStart n.raft m.raft) (hkeeps : n.raft.indices.Keeps m.raft.indices)
    (hreached : n.baseIndex + n.processed.length ≤ n.raft.commitIndex) : Recoverable codec m where
  base_le := by
    rw [hkept.baseIndex]
    exact hrecoverable.base_le.trans hkeeps.applied_le
  ran := by
    rw [hkept.baseStore, hkept.processed]
    exact hrecoverable.ran
  rests := by
    obtain ⟨store, hstore, hstates⟩ := hrecoverable.rests
    refine ⟨store, ?_, fun i hoffset hbase hle => ?_⟩
    · rw [← hstore]
      simp only [Durable.snapshotStore, Raft.durable, hstart.offset, hstart.offsetTerm,
        hstart.state]
    · rw [hstart.offset] at hoffset ⊢
      rw [hkept.baseIndex] at hbase hle
      rw [hkept.processed] at hle
      have htake : m.raft.log.take (i - n.raft.logOffset) =
          n.raft.log.take (i - n.raft.logOffset) :=
        hkeeps.take_eq hstart.offset (hle.trans hreached)
      rw [htake, hkept.stateAt]
      exact hstates i hoffset hbase hle
  captured hrunning index state htask :=
    (hrecoverable.captured (hkept.stopping hrunning) index state
      (hkept.captures index state htask)).kept hkept hstart.offset.ge
  answered turn msg hwaiting hrestored := by
    rw [hkept.store]
    exact hrecoverable.answered turn msg (hkept.waiting _ hwaiting) (hkept.restored ▸ hrestored)

end

/-! ## The Raft loop -/

theorem pollReadIndexes_durable (n : Runtime D) :
    n.pollReadIndexes.raft.durable = n.raft.durable := by
  obtain ⟨_, _, _, _, heq⟩ := sameButRound_pollReadIndexes n
  rw [heq]
  rfl

theorem cancelRaftRead_kept (n : Runtime D) (requestId : Nat) :
    StoreKept n (n.cancelRaftRead requestId) ∧
      (n.cancelRaftRead requestId).raft.durable = n.raft.durable := by
  obtain ⟨_, _, ⟨_, _, _, _, rfl⟩, heq⟩ := n.cancelRaftRead_frame requestId
  rw [heq]
  exact ⟨.of_same rfl rfl, rfl⟩

variable [Blob D] {codec : StoreCodec D}

theorem Recoverable.activity (turn : Turn) (hrecoverable : Recoverable codec n)
    (hhealthy : n.raft.storageFailed = false)
    (hreached : n.baseIndex + n.processed.length ≤ n.raft.commitIndex) :
    Recoverable codec (n.afterRaftActivity turn).1 := by
  obtain ⟨activity, heq⟩ := afterRaftActivity_healthy turn hhealthy
  have hindices := (afterRaftActivity_processed turn n).2.2
  have hdurable : (n.afterRaftActivity turn).1.raft.durable = n.raft.durable := by
    rw [heq]
    exact pollReadIndexes_durable n
  refine hrecoverable.kept ?_ (.of_durable hdurable) (hindices ▸ .refl _) hreached
  rw [heq]
  refine ⟨rfl, rfl, rfl, rfl, rfl, rfl, fun h => ?_, fun index state htask => ?_, fun _ => id⟩
  · rcases activity.cause with ⟨hsame, -⟩ | ⟨hstop, -⟩
    · exact hsame.symm.trans h
    · cases hstop.symm.trans h
  · exact (List.mem_append.mp htask).resolve_right fun h => nomatch activity.stop _ h

/-- The captured state becomes the snapshot, and the log is cut behind it. -/
theorem Recoverable.compact {r : Raft D} {index : Nat} {state : D}
    (hrecoverable : Recoverable codec n) (hcaptured : n.Captured codec index state)
    (hsettled : n.storeAppliedIndex = n.baseIndex + n.processed.length)
    (hbelow : n.raft.logOffset < index) (hlog : r.log = n.raft.log.drop (index - n.raft.logOffset))
    (hoffset : r.logOffset = index) (hstate : r.lastSnapshotData = state)
    (happlied : r.lastApplied = n.raft.lastApplied) :
    Recoverable codec { n with raft := r } := by
  obtain ⟨hbase, hle, store, hat, rfl⟩ : n.baseIndex ≤ index ∧
      index ≤ n.baseIndex + n.processed.length ∧
      ∃ store, n.stateAt codec index = some store ∧ state = codec.serialize store := by
    rcases hcaptured with hold | ⟨habove, -⟩ | hstate
    · omega
    · omega
    · exact hstate
  obtain ⟨first, hfirst, hstates⟩ := hrecoverable.rests
  refine ⟨happlied ▸ hrecoverable.base_le, hrecoverable.ran,
    ⟨store, ?_, fun i hi hbase' hle' => ?_⟩, fun hrunning j captured htask => ?_,
    hrecoverable.answered⟩
  · rw [Durable.snapshotStore_of_pos (by simp only [Raft.durable, hoffset]; omega)]
    simp only [Raft.durable, hstate]
    exact codec.deserialize_serialize store
  · dsimp only at hi hbase' hle' ⊢
    rw [hoffset] at hi
    have hcut : n.raft.log.take (i - n.raft.logOffset) =
        n.raft.log.take (index - n.raft.logOffset) ++ r.log.take (i - r.logOffset) := by
      rw [hlog, hoffset,
        show i - n.raft.logOffset = (index - n.raft.logOffset) + (i - index) by omega,
        List.take_add]
    have hwhole := hstates i (by omega) hbase' hle'
    have hhead := hstates index hbelow.le hbase hle
    rw [hcut, KVStore.processAll_append, hhead, hat, Option.bind_some] at hwhole
    exact hwhole
  · rcases hrecoverable.captured hrunning j captured htask with hold | hinstalling | hcaptured
    · exact .inl (hold.trans (hbelow.le.trans hoffset.ge))
    · exact .inr (.inl hinstalling)
    · exact .inr (.inr hcaptured)

/-- While storage works, a restart would rebuild the store. -/
def Restartable (codec : StoreCodec D) (n : Runtime D) : Prop :=
  n.raft.storageFailed = false → Recoverable codec n

theorem Restartable.moved (hrestart : Restartable codec n) (hsound : Sound codec n)
    (hkept : StoreKept n m)
    (hhealthy : m.raft.storageFailed = false → n.raft.storageFailed = false)
    (hstart : Raft.SameStart n.raft m.raft) (hkeeps : n.raft.indices.Keeps m.raft.indices) :
    Restartable codec m := by
  intro hstill
  have hfirst := hhealthy hstill
  have hreached := (hsound.handoff hfirst).phase.reached_le hsound.posted.mirrors.sane.ordered
  exact (hrestart hfirst).kept hkept hstart hkeeps hreached.2

theorem Restartable.kept (hrestart : Restartable codec n) (hsound : Sound codec n)
    (hkept : StoreKept n m) (hraft : m.raft = n.raft) : Restartable codec m := by
  refine hrestart.moved hsound hkept ?_ ?_ ?_ <;> rw [hraft]
  · exact id
  · exact ⟨rfl, rfl, rfl⟩
  · exact .refl _

/-- A call that neither takes nor installs a snapshot, and the activity after it. -/
theorem Restartable.call (turn : Turn) (input : Input D) (hrestart : Restartable codec n)
    (hsound : Sound codec n) (hhealthy : n.raft.storageFailed = false) (hwire : input.Wire)
    (htake : ∀ index state, input ≠ .takeSnapshot index state) (hkept : StoreKept n m)
    (hraft : m.raft = (n.raft.arm (turn.env false)).step input) :
    Restartable codec (m.afterRaftActivity turn).1 := by
  intro hstill
  have hmirrors := hsound.posted.mirrors
  have hreached := ((hsound.handoff hhealthy).phase.reached_le hmirrors.sane.ordered).2
  obtain ⟨hkeeps, -⟩ := call_keeps (turn.env false) hmirrors hwire
  rw [← hraft] at hkeeps
  have hstart : Raft.SameStart (n.raft.arm (turn.env false)) m.raft := by
    rw [hraft]
    exact Raft.step_sameStart hhealthy htake fun _ _ => by simp [Raft.arm, Turn.env]
  rw [(afterRaftActivity_frame turn m).2.1] at hstill
  refine ((hrestart hhealthy).kept hkept ⟨hstart.offset, hstart.offsetTerm, hstart.state⟩ hkeeps
    hreached).activity turn hstill ?_
  rw [hkept.baseIndex, hkept.processed]
  exact hreached.trans hkeeps.commit_le

/-- `take_snapshot` with a state from the queue. -/
theorem Restartable.takeSnapshot (turn : Turn) {index : Nat} {state : D}
    (hrestart : Restartable codec n) (hsound : Sound codec n)
    (hhealthy : n.raft.storageFailed = false) (hidle : n.waiting = none)
    (hrunning : n.stopping = false) (hcaptured : n.Captured codec index state) :
    Restartable codec (afterRaftActivity turn
      (n.callRaft turn false (.takeSnapshot index state))).1 := by
  intro hstill
  have hmirrors := hsound.posted.mirrors
  have hphase := (hsound.handoff hhealthy).phase
  have hreached := (hphase.reached_le hmirrors.sane.ordered).2
  have hsettled : n.storeAppliedIndex = n.baseIndex + n.processed.length :=
    hphase.applied_eq (by simp [exchange, hidle]) hrunning
  rw [(afterRaftActivity_frame turn _).2.1] at hstill
  have hordered : (n.raft.arm (turn.env false)).indices.Ordered := hmirrors.sane.ordered
  refine Recoverable.activity turn ?_ hstill ?_
  · rcases Raft.takeSnapshot_cases hordered index state hstill with hsame | hcut
    · refine (hrestart hhealthy).kept
        (.of_same rfl rfl) ?_ ?_ hreached
      · simp only [callRaft, Raft.step, hsame]
        exact ⟨rfl, rfl, rfl⟩
      · simp only [callRaft, Raft.step, hsame]
        exact .refl _
    · obtain ⟨hbelow, -, hlog, hoffset, hdata⟩ := hcut
      exact (hrestart hhealthy).compact hcaptured hsettled hbelow hlog hoffset hdata
        (Raft.takeSnapshot_lastApplied _ _ _)
  · have hkeeps := (@call_keeps D _ n.raft (.takeSnapshot index state) (turn.env false) hmirrors
      trivial).1
    exact hreached.trans hkeeps.commit_le

/-! ### One lemma a task

The task has been taken from the queue: it runs on a node `m` that has the Raft object and the
store of `n`. The invariants are those of `n`, since an acknowledgement that has left the queue
and is not handled yet breaks the hand-off. -/

theorem Restartable.handleRaftMessage (turn : Turn) {msg : Message D}
    (hrestart : Restartable codec n) (hsound : Sound codec n)
    (hhealthy : n.raft.storageFailed = false) (hwire : (Input.message msg).Wire)
    (hkept : StoreKept n m) (hraft : m.raft = n.raft) :
    Restartable codec (m.handleRaftMessage turn msg).1 := by
  have hdequeued := hrestart.kept hsound hkept hraft
  unfold Runtime.handleRaftMessage
  split
  · exact hdequeued
  · split
    · intro hstill
      have hrecoverable := hdequeued hstill
      exact ⟨hrecoverable.base_le, hrecoverable.ran, hrecoverable.rests, hrecoverable.captured,
        fun _ _ _ hrestored => by cases hrestored⟩
    · exact hrestart.call turn (.message msg) hsound hhealthy hwire (fun _ _ h => by cases h)
        (hkept.trans (.of_same rfl rfl)) (by rw [callRaft, hraft])

theorem Restartable.proposeTask (turn : Turn) (requestId : Nat) (bytes : Bytes)
    (hrestart : Restartable codec n) (hsound : Sound codec n)
    (hhealthy : n.raft.storageFailed = false) (hkept : StoreKept n m)
    (hraft : m.raft = n.raft) : Restartable codec (m.proposeTask turn requestId bytes).1 := by
  unfold Runtime.proposeTask
  dsimp only
  split <;> exact hrestart.call turn (.propose bytes) hsound hhealthy trivial
    (fun _ _ h => by cases h) (hkept.trans (.of_same rfl rfl)) (by rw [← hraft]; rfl)

theorem Restartable.readTask (turn : Turn) (requestId : Nat) (hrestart : Restartable codec n)
    (hsound : Sound codec n) (hhealthy : n.raft.storageFailed = false) (hkept : StoreKept n m)
    (hraft : m.raft = n.raft) : Restartable codec (m.readTask turn requestId).1 := by
  unfold Runtime.readTask
  dsimp only
  split <;> exact hrestart.call turn .readIndex hsound hhealthy trivial
    (fun _ _ h => by cases h) (hkept.trans (.of_same rfl rfl)) (by rw [← hraft]; rfl)

/-- An acknowledgement `advance` refuses: the node stops, its log as it was. -/
theorem Restartable.reject (turn : Turn) (index : Nat) (hrestart : Restartable codec n)
    (hsound : Sound codec n) (hhealthy : n.raft.storageFailed = false) (hkept : StoreKept n m)
    (hraft : m.raft = n.raft) :
    Restartable codec
      ((m.callRaft turn false (.advance index)).requestStop .acknowledgmentRejected) := by
  have hkeeps := (@call_keeps D _ n.raft (.advance index) (turn.env false)
    hsound.posted.mirrors trivial).1
  have hstart : Raft.SameStart (n.raft.arm (turn.env false))
      ((n.raft.arm (turn.env false)).step (.advance index)) :=
    Raft.step_sameStart hhealthy (fun _ _ h => by cases h) (fun _ h => by cases h)
  have hcalled : StoreKept n (m.callRaft turn false (.advance index)) :=
    hkept.trans (.of_same rfl rfl)
  obtain ⟨ended, -, heq⟩ := requestStop_frame
    (m.callRaft turn false (.advance index)) .acknowledgmentRejected
  refine hrestart.moved hsound (hcalled.requestStop _) (fun _ => hhealthy) ?_ ?_ <;>
    rw [heq] <;> simp only [callRaft, hraft]
  · exact ⟨hstart.offset, hstart.offsetTerm, hstart.state⟩
  · exact hkeeps

theorem Restartable.acknowledgeTask (turn : Turn) (index : Nat)
    (hrestart : Restartable codec n) (hsound : Sound codec n)
    (hhealthy : n.raft.storageFailed = false) (hkept : StoreKept n m)
    (hraft : m.raft = n.raft) : Restartable codec (m.acknowledgeTask turn index).1 := by
  unfold Runtime.acknowledgeTask
  split
  · exact hrestart.kept hsound hkept hraft
  · split
    · obtain ⟨ended, hended, heq⟩ := requestStop_frame m .acknowledgmentOutOfOrder
      refine hrestart.kept hsound (hkept.requestStop _) ?_
      rw [heq]
      exact hraft
    · dsimp only
      split
      · exact hrestart.reject turn index hsound hhealthy hkept hraft
      · exact hrestart.call turn (.advance index) hsound hhealthy trivial
          (fun _ _ h => by cases h) (hkept.trans (.of_same rfl rfl)) (by rw [callRaft, hraft])

theorem Restartable.cancelRaftRead (requestId : Nat) (hrestart : Restartable codec n)
    (hsound : Sound codec n) : Restartable codec (n.cancelRaftRead requestId) := by
  obtain ⟨hindices, hstorage⟩ := cancelRaftRead_raft n requestId
  obtain ⟨hkept, hdurable⟩ := cancelRaftRead_kept n requestId
  refine hrestart.moved hsound hkept (fun h => hstorage ▸ h) (.of_durable hdurable) ?_
  rw [hindices]
  exact .refl _

theorem runRaftTask_recoverable (turn : Turn) {task : RaftTask D} {rest : List (RaftTask D)}
    (hrestart : Restartable codec n) (hsound : Sound codec n) (hsettled : ReadsSettled n)
    (hidle : n.waiting = none) (hqueue : n.raftTasks = task :: rest) :
    Restartable codec ({ n with raftTasks := rest }.runRaftTask turn task).1 := by
  have hrest : StoreKept n { n with raftTasks := rest } :=
    .of_captures rfl fun _ _ h => hqueue ▸ List.mem_cons_of_mem _ h
  have hdequeued : Restartable codec { n with raftTasks := rest } :=
    hrestart.kept hsound hrest rfl
  by_cases hstopping : n.stopping = true
  · -- a stopping node still cancels reads, passes the stop on and forgets the capture
    cases task with
    | cancelRead requestId => exact hdequeued.cancelRaftRead requestId (hsound.dequeue hqueue rfl)
    | takeSnapshot index state =>
        rw [runRaftTask, if_pos hstopping]
        exact hdequeued.kept (hsound.dequeue hqueue rfl) (.of_same rfl rfl) rfl
    | stop => exact hdequeued.kept (hsound.dequeue hqueue rfl) (.of_same rfl rfl) rfl
    | _ =>
        rw [runRaftTask, if_pos hstopping]
        exact hdequeued
  have hhealthy := hsettled.healthy (by simpa using hstopping)
  cases task with
  | message msg =>
      rw [runRaftTask, if_neg hstopping]
      exact hrestart.handleRaftMessage turn hsound hhealthy
        (hsound.posted.queued msg (by simp [hqueue])).1 hrest rfl
  | propose requestId bytes =>
      rw [runRaftTask, if_neg hstopping]
      exact hrestart.proposeTask turn requestId bytes hsound hhealthy hrest rfl
  | read requestId =>
      rw [runRaftTask, if_neg hstopping]
      exact hrestart.readTask turn requestId hsound hhealthy hrest rfl
  | acknowledge index =>
      rw [runRaftTask, if_neg hstopping]
      exact hrestart.acknowledgeTask turn index hsound hhealthy hrest rfl
  | cancelRead requestId => exact hdequeued.cancelRaftRead requestId (hsound.dequeue hqueue rfl)
  | takeSnapshot index state =>
      have hdone := hsound.dequeue hqueue rfl
      have hpending : Sound codec { n with raftTasks := rest, snapshotCapturePending := false } :=
        hdone.beside ⟨rfl, rfl, rfl, rfl, rfl, id, List.Subset.refl _, fun _ => .inl⟩ rfl rfl
          hdone.posted.queued
      have hcaptured := (hrestart hhealthy).captured (by simpa using hstopping) index state
        (by simp [hqueue])
      rw [runRaftTask, if_neg hstopping]
      exact Restartable.takeSnapshot turn (hdequeued.kept hdone (.of_same rfl rfl) rfl) hpending
        hhealthy hidle (by simpa using hstopping) hcaptured
  | stop => exact hdequeued.kept (hsound.dequeue hqueue rfl) (.of_same rfl rfl) rfl

end RaftKv.Runtime
