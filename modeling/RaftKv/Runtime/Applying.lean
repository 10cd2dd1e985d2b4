import RaftKv.Runtime.Handoff

/-! # The hand-off on the store loop, and whole runs

The store takes the entry it is given or the snapshot it is given, and nothing else
changes it. Over a whole run it has processed exactly the committed entries, in their
order, since it started or was last given a snapshot.
-/

namespace RaftKv.Runtime

variable {D : Type} [Blob D] {codec : StoreCodec D} {n m : Runtime D}

/-! ## The store loop -/

/-- The end of `apply_committed_entry`. -/
theorem Handoff.applied {e : Entry} {rest : List (StoreTask D)} {store : KVStore}
    (hhandoff : Handoff codec n) (hordered : n.raft.indices.Ordered)
    (hqueue : n.storeTasks = .apply e :: rest) (hprocess : n.store.process codec e = some store)
    (hbeside : Beside { n with storeTasks := rest, store := store } m) (hraft : m.raft = n.raft) :
    Handoff codec (m.applied e) := by
  obtain ⟨hindex, hentry, hflight, hwaiting, hcommit, hhanded, hacknowledged, happlied, hreached⟩ :=
    hhandoff.handedEntry hordered hqueue
  have hexchange := hbeside.exchange
  simp only [Runtime.exchange, Exchange.mk.injEq, hflight, hwaiting, Option.map_none, hhanded,
    hacknowledged, happlied, hreached] at hexchange
  obtain ⟨hflight', hwaiting', -, hhanded', hacknowledged', -, hreached'⟩ := hexchange
  have hbase : m.baseIndex = n.baseIndex := hbeside.baseIndex
  have hprocessed : m.processed = n.processed := hbeside.processed
  refine ⟨?_, fun k x hx => ?_, fun x hx hoffset => ?_, fun _ => ?_, ?_⟩
  · simp only [Runtime.exchange, Runtime.applied, acknowledgeApplied, postRaft, hflight', hwaiting',
      hhanded', List.filterMap_append, hacknowledged', hindex, hraft, List.length_append,
      List.length_singleton, ← Nat.add_assoc, hreached']
    exact .processed m.restored hcommit
  · simp only [Runtime.applied, acknowledgeApplied, postRaft, hprocessed, hbase] at hx ⊢
    rw [List.getElem?_append] at hx
    split at hx
    · exact hhandoff.indexed k x hx
    · rw [List.getElem?_singleton] at hx
      split at hx
      · cases hx
        omega
      · cases hx
  · simp only [Runtime.applied, acknowledgeApplied, postRaft, hprocessed, hraft] at hx hoffset ⊢
    rcases List.mem_append.mp hx with hold | hnew
    · exact hhandoff.retained x hold hoffset
    · rw [List.mem_singleton.mp hnew, hindex]
      exact hentry
  · have hstore : m.store = store := hbeside.store
    have hbaseStore : m.baseStore = n.baseStore := hbeside.baseStore
    simp only [Runtime.applied, acknowledgeApplied, postRaft, hstore, hbaseStore, hprocessed]
    rw [KVStore.processAll_append, hhandoff.store (happlied.trans hreached.symm), Option.bind_some]
    simpa [KVStore.processAll] using hprocess
  · exact fun reason hreason => (hbeside.order reason hreason).elim (hhandoff.order reason) id

/-- A node that stops leaves the entry alone, also when the store cannot read it. -/
theorem Handoff.dropEntry {e : Entry} {rest : List (StoreTask D)} (hhandoff : Handoff codec n)
    (hordered : n.raft.indices.Ordered) (hqueue : n.storeTasks = .apply e :: rest)
    (hbeside : Beside { n with storeTasks := rest } m) (hraft : m.raft = n.raft)
    (hstopping : m.stopping = true) : Handoff codec m := by
  obtain ⟨-, -, hflight, hwaiting, hcommit, hhanded, hacknowledged, happlied, hreached⟩ :=
    hhandoff.handedEntry hordered hqueue
  have hrest : Handoff codec { n with storeTasks := rest, stopping := true } := by
    refine ⟨?_, hhandoff.indexed, hhandoff.retained, hhandoff.store, hhandoff.order⟩
    simp only [Runtime.exchange, hflight, hwaiting, Option.map_none, hhanded, hacknowledged,
      happlied, hreached]
    exact .dropped _ _ hcommit (.inl rfl) rfl
  have hlast : Beside { n with storeTasks := rest, stopping := true } m :=
    ⟨hbeside.exchange, hbeside.baseIndex, hbeside.baseStore, hbeside.processed, hbeside.store,
      fun _ => hstopping, hbeside.stops, hbeside.order⟩
  refine hrest.beside hlast ?_ hordered ?_ ?_
  · rw [hraft]
    exact .refl _
  · rw [hraft]
    exact hordered
  · rw [hraft]

theorem Handoff.applyCommittedEntry {e : Entry} {rest : List (StoreTask D)}
    (hhandoff : Handoff codec n) (hordered : n.raft.indices.Ordered)
    (hqueue : n.storeTasks = .apply e :: rest) :
    Handoff codec ({ n with storeTasks := rest }.applyCommittedEntry codec e) := by
  obtain ⟨hindex, -, -, -, hcommit, -, -, happlied, -⟩ := hhandoff.handedEntry hordered hqueue
  have hbound : n.raft.lastApplied + 1 < 2 ^ 64 :=
    lt_of_le_of_lt (Nat.succ_le_of_lt hcommit) (hordered.commit_le.trans_lt hordered.last_lt)
  unfold Runtime.applyCommittedEntry
  split
  next hstopping => exact hhandoff.dropEntry hordered hqueue (.refl _) rfl hstopping
  rw [if_neg (by simp only [happlied, hindex]; omega),
    if_neg (by simp only [happlied, hindex, wrap64_of_lt hbound]; simp)]
  split
  next hcarries =>
    split
    next hnone =>
      have hside := requestStop_storeSide { n with storeTasks := rest } .applyFailed
      obtain ⟨ended, -, heq⟩ := requestStop_frame { n with storeTasks := rest } .applyFailed
      refine hhandoff.dropEntry hordered hqueue (.of_requestStop _ rfl) hside.raft ?_
      rw [heq]
    next store result hsome =>
      have hprocess : n.store.process codec e = some store := by
        rw [KVStore.process, if_pos hcarries]
        exact Option.map_eq_some_iff.mpr ⟨_, hsome, rfl⟩
      dsimp only
      split
      · exact hhandoff.applied hordered hqueue hprocess (.of_answerWrite _ _ _)
          (answerWrite_storeSide _ _ _).raft
      · exact hhandoff.applied hordered hqueue hprocess (.refl _) rfl
  next hempty =>
    refine hhandoff.applied hordered hqueue ?_ (.refl _) rfl
    rw [KVStore.process, if_neg hempty]

/-- The store takes the snapshot, or cannot read it. -/
theorem Handoff.restore {index : Nat} {state : D} {rest : List (StoreTask D)}
    (hhandoff : Handoff codec n) (hqueue : n.storeTasks = .restore index state :: rest) :
    Handoff codec ({ n with storeTasks := rest }.runStoreTask codec (.restore index state)) := by
  have hphase := hhandoff.phase
  generalize hexchange : n.exchange = exchange at hphase
  have hhanded : exchange.handed = .restore index state :: rest.filter handsOver := by
    simp only [← hexchange, Runtime.exchange, hqueue]
    rfl
  simp only [Runtime.exchange] at hexchange
  rw [runStoreTask]
  cases hphase with
  | asked msg hfresh =>
      simp only [Exchange.mk.injEq] at hexchange
      obtain ⟨hflight, hwaiting, -, -, hacknowledged, happlied, hreached⟩ := hexchange
      obtain ⟨htask, hnil⟩ := List.cons.inj hhanded
      obtain ⟨rfl, rfl⟩ := StoreTask.restore.inj htask
      split
      · refine ⟨?_, hhandoff.indexed, hhandoff.retained, hhandoff.store, hhandoff.order⟩
        simp only [Runtime.exchange, hflight, hwaiting, ← hnil, hacknowledged, happlied, hreached]
        exact .answered msg false hfresh
      · refine ⟨?_, hhandoff.indexed, hhandoff.retained, fun h => ?_, hhandoff.order⟩
        · simp only [Runtime.exchange, hflight, hwaiting, ← hnil, hacknowledged, hreached]
          exact .answered msg true hfresh
        · dsimp only at h
          omega
  | abandoned restored handed applied hrestores hle hstopping htimedOut =>
      simp only [Exchange.mk.injEq] at hexchange
      obtain ⟨hflight, hwaiting, -, hqueued, hacknowledged, happlied, hreached⟩ := hexchange
      dsimp only at hhanded
      subst hhanded
      obtain ⟨_, _, htask, hfresh⟩ := hrestores _ List.mem_cons_self
      obtain ⟨rfl, rfl⟩ := StoreTask.restore.inj htask
      have hrest := fun task htask => hrestores task (List.mem_cons_of_mem _ htask)
      split
      · refine ⟨?_, hhandoff.indexed, hhandoff.retained, hhandoff.store, hhandoff.order⟩
        simp only [Runtime.exchange, hflight, hwaiting, hacknowledged, hreached, happlied]
        exact .abandoned _ _ _ hrest hle hstopping htimedOut
      · refine ⟨?_, hhandoff.indexed, hhandoff.retained, fun h => ?_, hhandoff.order⟩
        · simp only [Runtime.exchange, hflight, hwaiting, hacknowledged, hreached]
          exact .abandoned _ _ _ hrest hfresh.le hstopping htimedOut
        · dsimp only at h
          omega
  | idle => cases hhanded
  | sent => cases hhanded
  | processed => cases hhanded
  | dropped => cases hhanded
  | answered => cases hhanded

/-- A task of the store loop that is not part of the exchange. -/
theorem Beside.of_runStoreTask (n : Runtime D) {task : StoreTask D}
    (hother : handsOver task = false) : Beside n (n.runStoreTask codec task) := by
  cases task with
  | apply entry => cases hother
  | restore index state => cases hother
  | rejectWrite requestId error => exact .of_answerWrite n requestId _
  | rejectRead requestId error => exact .of_answerRead n requestId _
  | completeRead requestId => exact .of_answerRead n requestId _
  | capture => exact .of_postRaft n rfl
  | stop => exact ⟨rfl, rfl, rfl, rfl, rfl, id, List.Subset.refl _, fun _ => .inl⟩

theorem Posted.storeSide (hposted : Posted n) (hside : StoreSide n m)
    (hqueued : ∀ msg, RaftTask.message msg ∈ m.raftTasks → msg.Wire ∧ msg.InRange) : Posted m where
  mirrors := by
    rw [hside.raft]
    exact hposted.mirrors
  queued := hqueued
  asked turn msg h := by
    rw [hside.waiting] at h
    simp only [asksRestore, hside.raft]
    exact hposted.asked turn msg h

theorem Sound.runStoreTask {task : StoreTask D} {rest : List (StoreTask D)}
    (hsound : Sound codec n) (hqueue : n.storeTasks = task :: rest) :
    Sound codec ({ n with storeTasks := rest }.runStoreTask codec task) := by
  have hordered := hsound.posted.mirrors.sane.ordered
  have hside : StoreSide { n with storeTasks := rest } (Runtime.runStoreTask codec _ task) :=
    runStoreTask_storeSide { n with storeTasks := rest } task
  have hposts : ∀ posted ∈ (Runtime.runStoreTask codec _ task).raftTasks, _ :=
    runStoreTask_posts { n with storeTasks := rest } task
  have hrest : Posted { n with storeTasks := rest } :=
    ⟨hsound.posted.mirrors, hsound.posted.queued, hsound.posted.asked⟩
  refine ⟨hrest.storeSide hside fun msg hmsg => ?_, fun hhealthy => ?_⟩
  · exact hsound.posted.queued msg ((hposts _ hmsg).resolve_right id)
  · have hhandoff := hsound.handoff (hside.raft ▸ hhealthy)
    cases hother : handsOver task with
    | true =>
        cases task with
        | apply entry => exact hhandoff.applyCommittedEntry hordered hqueue
        | restore index state => exact hhandoff.restore hqueue
        | _ => cases hother
    | false =>
        have hdequeued : Beside n { n with storeTasks := rest } := by
          refine ⟨?_, rfl, rfl, rfl, rfl, id, List.Subset.refl _, fun _ => .inl⟩
          simp [Runtime.exchange, hqueue, hother]
        refine hhandoff.beside (hdequeued.trans (.of_runStoreTask _ hother)) ?_ hordered ?_ ?_
        · rw [hside.raft]
          exact .refl _
        · rw [hside.raft]
          exact hordered
        · rw [hside.raft]

/-! ## The end of a wait -/

/-- The store has not taken the snapshot, so nothing is installed. -/
theorem Sound.resume_refused {turn : Turn} {msg : Message D} (hsound : Sound codec n)
    (hhealthy : n.raft.storageFailed = false) (hwaiting : n.waiting = some (turn, msg))
    (hphase : n.raft.storageFailed = false →
      Phase n.raft.indices n.stopping (.restoreTimedOut ∈ n.stops)
        { n.exchange with waiting := none }) :
    Sound codec (n.resume turn msg false).1 := by
  obtain ⟨⟨hwire, hrange⟩, -⟩ := hsound.posted.asked turn msg hwaiting
  have hhandoff := hsound.handoff hhealthy
  have hresumed : Sound codec { n with waiting := none } := by
    refine ⟨⟨hsound.posted.mirrors, hsound.posted.queued, nofun⟩, fun h => ?_⟩
    exact ⟨hphase h, hhandoff.indexed, hhandoff.retained, hhandoff.store, hhandoff.order⟩
  exact hresumed.call turn (.message msg) hhealthy hrange hwire nofun
    (.of_callRaft _ turn false (.message msg)) rfl rfl rfl

/-- The store has taken the snapshot, and so does the Raft object. -/
theorem asksRestore_installs {turn : Turn} {msg : Message D} (hasks : n.asksRestore turn msg = true)
    (hhealthy : ((n.raft.arm (turn.env true)).step (.message msg)).storageFailed = false) :
    ((n.raft.arm (turn.env true)).step (.message msg)).indices =
        ⟨[], msg.snapshotIndex, msg.snapshotIndex, msg.snapshotIndex, msg.snapshotIndex⟩ ∧
      ((n.raft.arm (turn.env true)).step (.message msg)).lastSnapshotData = msg.snapshotData := by
  have hsame := Raft.indices_prepareForLeaderRpc (n.raft.arm (turn.env false)) msg
  have happlied : (Raft.prepareForLeaderRpc _ msg).1.lastApplied = n.raft.lastApplied :=
    congrArg Indices.applied hsame
  have hcommit : (Raft.prepareForLeaderRpc _ msg).1.commitIndex = n.raft.commitIndex :=
    congrArg Indices.commit hsame
  have hcallback : (n.raft.arm (turn.env true)).prepareForLeaderRpc msg = _ :=
    Raft.prepareForLeaderRpc_callback (n.raft.arm (turn.env false)) (some true) msg
  unfold asksRestore at hasks
  simp only [Bool.and_eq_true, Bool.not_eq_true', Bool.or_eq_false_iff, decide_eq_false_iff_not,
    decide_eq_true_eq, happlied, hcommit] at hasks
  obtain ⟨⟨⟨hready, htype⟩, hgood⟩, hfresh⟩ := hasks
  simp only [Raft.step, Raft.handleMessage, htype] at hhealthy ⊢
  refine Raft.handleInstallSnapshot_installs (by rw [hcallback]; exact hready) ?_ ?_ rfl hhealthy
  · simpa only [not_or, Bool.not_eq_true, and_assoc] using hgood
  · exact not_or.mpr hfresh

theorem Sound.resume_accepted {turn : Turn} {msg : Message D} (hsound : Sound codec n)
    (hhealthy : n.raft.storageFailed = false) (hwaiting : n.waiting = some (turn, msg))
    (hverdict : n.restored = some true) : Sound codec (n.resume turn msg true).1 := by
  obtain ⟨⟨hwire, hrange⟩, hasks⟩ := hsound.posted.asked turn msg hwaiting
  have hhandoff := hsound.handoff hhealthy
  have hmirrors : ((n.raft.arm (turn.env true)).step (.message msg)).Mirrors :=
    hsound.posted.mirrors.call hhealthy hrange
  obtain ⟨-, hordered⟩ := call_keeps (turn.env true) hsound.posted.mirrors
    (show (Input.message msg).Wire from hwire)
  unfold Runtime.resume
  rw [if_pos rfl]
  refine ⟨.activity turn hmirrors hsound.posted.queued rfl, fun hstill => ?_⟩
  rw [(afterRaftActivity_frame turn _).2.1] at hstill
  refine Handoff.activity turn ?_ hordered rfl hstill
  obtain ⟨hindices, -⟩ := asksRestore_installs hasks hstill
  have hphase := hhandoff.phase
  generalize hexchange : n.exchange = exchange at hphase
  have hasked : exchange.waiting = some msg := by
    simp [← hexchange, Runtime.exchange, hwaiting]
  have hanswer : exchange.restored = some true := by
    simp [← hexchange, Runtime.exchange, hverdict]
  simp only [Runtime.exchange] at hexchange
  cases hphase with
  | answered asked verdict hfresh =>
      obtain rfl : asked = msg := by simpa using hasked
      obtain rfl : verdict = true := by simpa using hanswer
      simp only [Exchange.mk.injEq] at hexchange
      obtain ⟨hflight, -, -, hhanded, hacknowledged, happlied, -⟩ := hexchange
      refine ⟨?_, by simp [callRaft, rebase], by simp [callRaft, rebase], fun _ => rfl,
        hhandoff.order⟩
      simp only [Runtime.exchange, callRaft, rebase, hflight, hhanded, hacknowledged, happlied,
        hindices, Option.map_none, List.length_nil, Nat.add_zero]
      exact .idle n.restored
  | idle => cases hasked
  | sent => cases hasked
  | processed => cases hasked
  | dropped => cases hasked
  | asked => cases hanswer
  | abandoned => cases hasked

theorem Sound.resume {turn : Turn} {msg : Message D} {verdict : Bool} (hsound : Sound codec n)
    (hhealthy : n.raft.storageFailed = false) (hwaiting : n.waiting = some (turn, msg))
    (hverdict : n.restored = some verdict) : Sound codec (n.resume turn msg verdict).1 := by
  cases verdict with
  | true => exact hsound.resume_accepted hhealthy hwaiting hverdict
  | false =>
      refine hsound.resume_refused hhealthy hwaiting fun _ => ?_
      have hphase := (hsound.handoff hhealthy).phase
      have hasked : n.exchange.waiting = some msg := by simp [Runtime.exchange, hwaiting]
      have hanswer : n.exchange.restored = some false := hverdict
      generalize n.exchange = exchange at *
      cases hphase with
      | answered asked verdict hfresh =>
          obtain rfl : verdict = false := by simpa using hanswer
          exact .idle (some false)
      | idle => cases hasked
      | sent => cases hasked
      | processed => cases hasked
      | dropped => cases hasked
      | asked => cases hanswer
      | abandoned => cases hasked

theorem Sound.timeout {turn : Turn} {msg : Message D} (hsound : Sound codec n)
    (hhealthy : n.raft.storageFailed = false) (hwaiting : n.waiting = some (turn, msg))
    (hnone : n.restored = none) :
    Sound codec ((n.requestStop .restoreTimedOut).resume turn msg false).1 := by
  obtain ⟨ended, hended, heq⟩ := n.requestStop_frame .restoreTimedOut
  have hbeside : Beside n (n.requestStop .restoreTimedOut) := .of_requestStop n rfl
  have hphase := (hsound.handoff hhealthy).phase
  have hasked : n.exchange.waiting = some msg := by simp [Runtime.exchange, hwaiting]
  have hanswer : n.exchange.restored = none := hnone
  have hstopped : Sound codec (n.requestStop .restoreTimedOut) := by
    refine hsound.beside hbeside (by rw [heq]) (by rw [heq]) fun other hother => ?_
    rw [heq] at hother
    refine hsound.posted.queued other ((List.mem_append.mp hother).resolve_right fun h => ?_)
    cases hended _ h
  refine hstopped.resume_refused (by rw [heq]; exact hhealthy) (by rw [heq]; exact hwaiting)
    fun _ => ?_
  rw [hbeside.exchange, heq]
  generalize n.exchange = exchange at *
  cases hphase with
  | asked asked hfresh =>
      refine .abandoned none _ _ ?_ le_rfl rfl (by simp)
      intro task htask
      exact ⟨_, _, List.mem_singleton.mp htask, hfresh⟩
  | idle => cases hasked
  | sent => cases hasked
  | processed => cases hasked
  | dropped => cases hasked
  | answered => cases hanswer
  | abandoned => cases hasked

/-! ## Runs -/

/-- Events that keep every log index below the last 64-bit value. -/
def InRange (n : Runtime D) : Event D → Prop
  | .receive msg => msg.Wire ∧ msg.InRange
  | .raft _ => n.raft.lastLogIndex + 2 < 2 ^ 64
  | _ => True

instance (n : Runtime D) (event : Event D) : Decidable (n.InRange event) :=
  match event with
  | .receive _ => inferInstanceAs (Decidable (_ ∧ _))
  | .raft _ => inferInstanceAs (Decidable (n.raft.lastLogIndex + 2 < 2 ^ 64))
  | .tick _ | .store | .restored | .timeout | .write _ _ | .read _ | .expire _ _ | .signal =>
      .isTrue trivial

theorem Happens.sound {event : Event D} {result : Runtime D × List (Message D)}
    (hsound : Sound codec n) (hsettled : ReadsSettled n) (hrange : n.InRange event)
    (hhappens : Happens codec n event result) : Sound codec result.1 := by
  cases hhappens with
  | receive msg =>
      refine hsound.beside (.of_postRaft n rfl) rfl rfl fun other hother => ?_
      rcases List.mem_append.mp hother with hold | hnew
      · exact hsound.posted.queued other hold
      · obtain rfl : other = msg := by simpa using hnew
        exact hrange
  | tick turn hidle =>
      unfold Runtime.tick
      split
      · exact hsound
      next hrunning =>
        exact hsound.call turn .tick (hsettled.healthy (by simpa using hrunning)) trivial trivial
          nofun (.of_callRaft n turn false .tick) rfl hidle rfl
  | raft turn task rest hidle hqueue =>
      exact hsound.runRaftTask turn hsettled hidle hqueue hrange
  | store task rest hqueue => exact hsound.runStoreTask hqueue
  | restored turn msg verdict hwaiting hverdict =>
      exact hsound.resume (hsettled.busy (by simp [hwaiting])) hwaiting hverdict
  | timeout turn msg hwaiting hnone =>
      exact hsound.timeout (hsettled.busy (by simp [hwaiting])) hwaiting hnone
  | write type strs =>
      dsimp only
      rw [beginWrite_frame]
      refine hsound.beside ⟨?_, rfl, rfl, rfl, rfl, id, List.Subset.refl _, fun _ => .inl⟩ rfl rfl
        fun msg hmsg => ?_
      · simp [Runtime.exchange, acknowledges]
      · exact hsound.posted.queued msg (by simpa using hmsg)
  | read key =>
      dsimp only
      rw [beginRead_frame]
      refine hsound.beside ⟨?_, rfl, rfl, rfl, rfl, id, List.Subset.refl _, fun _ => .inl⟩ rfl rfl
        fun msg hmsg => ?_
      · simp [Runtime.exchange, acknowledges]
      · exact hsound.posted.queued msg (by simpa using hmsg)
  | expire writes reads hrunning =>
      refine hsound.beside (.of_expireClientRequests n writes reads)
        (expireClientRequests_storeSide n writes reads).raft
        (expireClientRequests_storeSide n writes reads).waiting fun msg hmsg => ?_
      rcases expireClientRequests_posts n writes reads _ hmsg with hold | ⟨id, hcancel⟩
      · exact hsound.posted.queued msg hold
      · cases hcancel
  | signal =>
      obtain ⟨ended, hended, heq⟩ := n.stopOnce_frame
      refine hsound.beside (.of_stopOnce n) (by rw [heq]) (by rw [heq]) fun msg hmsg => ?_
      rw [heq] at hmsg
      refine hsound.posted.queued msg ((List.mem_append.mp hmsg).resolve_right fun h => ?_)
      cases hended _ h

theorem recoverStorage_applied {config : Config} {draws : List Nat} {file : List (Record D)}
    {r : Raft D} {store : KVStore} {applied : Nat}
    (hrecover : recoverStorage codec config draws file = some (r, store, applied)) :
    applied = r.commitIndex := by
  unfold recoverStorage at hrecover
  obtain ⟨fresh, -, hbased⟩ := Option.bind_eq_some_iff.mp hrecover
  obtain ⟨⟨first, base⟩, -, hrestored⟩ := Option.bind_eq_some_iff.mp hbased
  obtain ⟨restored, -, hreplayed⟩ := Option.bind_eq_some_iff.mp hrestored
  obtain ⟨⟨replayed, last, index⟩, -, hdone⟩ := Option.bind_eq_some_iff.mp hreplayed
  dsimp only at hdone
  split at hdone
  · cases hdone
  next happlied =>
    obtain ⟨rfl, -, rfl⟩ := by simpa using hdone
    exact not_not.mp happlied

/-- A node starts with everything committed processed and nothing on its way. -/
theorem new_sound {config : Config} {draws : List Nat} {requestId : Nat} {file : List (Record D)}
    (haccepts : (Durable.start : Durable D).Accepts file)
    (hnew : new codec config draws requestId file = some n) : Sound codec n := by
  unfold new at hnew
  obtain ⟨⟨r, store, applied⟩, hrecover, rfl⟩ := Option.map_eq_some_iff.mp hnew
  have hboot := recoverStorage_boot hrecover
  have happlied : applied = r.lastApplied :=
    (recoverStorage_applied hrecover).trans (boot_durable haccepts hboot).2.2.symm
  refine ⟨⟨boot_mirrors haccepts hboot, nofun, nofun⟩,
    fun _ => ⟨?_, nofun, nofun, fun _ => rfl, nofun⟩⟩
  simp only [Runtime.exchange, List.filter_nil, List.filterMap_nil, Option.map_none,
    List.length_nil, Nat.add_zero, happlied]
  exact .idle none

theorem Reach.sound {config : Config} (hreach : Reach codec config InRange n) : Sound codec n := by
  induction hreach with
  | start draws requestId n hnew =>
      have hnothing : (Durable.start : Durable D).Accepts [] := trivial
      exact new_sound hnothing hnew
  | step n event next sent hreach hok hstep ih =>
      exact (step_happens hstep).sound ih hreach.settled hok
  | crash n k draws requestId next _ hnew ih =>
      exact new_sound (ih.posted.mirrors.written_accepts.of_isPrefix (List.take_prefix k _)) hnew

end RaftKv.Runtime
