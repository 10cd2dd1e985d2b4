import Mathlib.Logic.Relation
import RaftKv.Runtime.Applying

/-! # The store has processed what is committed

Seen over a whole run, an entry counts as committed at an index when the log has held it
there at or below the commit index, at any time since the node started. The entries that
the store has processed since then, or since it was last given a snapshot, are these.
-/

namespace RaftKv.Runtime

variable {D : Type}

/-- What an event does to the list of processed entries. -/
inductive Grown (n next : Runtime D) : Prop
  | same (hprocessed : next.processed = n.processed) (hbase : next.baseIndex = n.baseIndex)
  /-- The store has processed the next committed entry. -/
  | entry (e : Entry) (hprocessed : next.processed = n.processed ++ [e])
      (hbase : next.baseIndex = n.baseIndex)
      (hoffset : n.raft.logOffset ≤ n.baseIndex + n.processed.length)
      (hcommit : n.baseIndex + n.processed.length < n.raft.commitIndex)
      (hentry : n.raft.indices.entryAt? (n.baseIndex + n.processed.length + 1) = some e)
  /-- It has been given a snapshot. -/
  | fresh (hprocessed : next.processed = [])

structure Progress (n next : Runtime D) : Prop where
  keeps : n.raft.indices.Keeps next.raft.indices
  healthy : next.raft.storageFailed = false → n.raft.storageFailed = false
  grown : next.raft.storageFailed = false → Grown n next

variable {n m : Runtime D}

theorem Progress.of_raft (hraft : m.raft = n.raft) (hprocessed : m.processed = n.processed)
    (hbase : m.baseIndex = n.baseIndex) : Progress n m where
  keeps := by
    rw [hraft]
    exact .refl _
  healthy h := hraft ▸ h
  grown _ := .same hprocessed hbase

theorem Progress.stop (hprogress : Progress n m) (reason : StopReason) :
    Progress n (m.requestStop reason) := by
  obtain ⟨ended, -, heq⟩ := m.requestStop_frame reason
  rw [heq]
  refine ⟨hprogress.keeps, hprogress.healthy, fun h => ?_⟩
  cases hprogress.grown h with
  | same hprocessed hbase => exact .same hprocessed hbase
  | entry e hprocessed hbase hoffset hcommit hentry =>
      exact .entry e hprocessed hbase hoffset hcommit hentry
  | fresh hprocessed => exact .fresh hprocessed

theorem afterRaftActivity_processed (turn : Turn) (n : Runtime D) :
    (n.afterRaftActivity turn).1.processed = n.processed ∧
      (n.afterRaftActivity turn).1.baseIndex = n.baseIndex ∧
      (n.afterRaftActivity turn).1.raft.indices = n.raft.indices := by
  cases hstorage : n.raft.storageFailed with
  | true =>
      obtain ⟨ended, -, heq⟩ := afterRaftActivity_failed turn hstorage
      rw [heq]
      exact ⟨rfl, rfl, rfl⟩
  | false =>
      obtain ⟨activity, heq⟩ := afterRaftActivity_healthy turn hstorage
      rw [heq]
      exact ⟨rfl, rfl, (pollReadIndexes_raft n).1⟩

theorem cancelRaftRead_raft (n : Runtime D) (requestId : Nat) :
    (n.cancelRaftRead requestId).raft.indices = n.raft.indices ∧
      (n.cancelRaftRead requestId).raft.storageFailed = n.raft.storageFailed := by
  obtain ⟨_, _, ⟨_, _, _, _, rfl⟩, heq⟩ := n.cancelRaftRead_frame requestId
  rw [heq]
  exact ⟨rfl, rfl⟩

variable [Blob D] {codec : StoreCodec D}

theorem Progress.call (turn : Turn) (verdict : Bool) (input : Input D)
    (hmirrors : n.raft.Mirrors) (hhealthy : n.raft.storageFailed = false) (hwire : input.Wire)
    (hraft : m.raft = (n.raft.arm (turn.env verdict)).step input)
    (hprocessed : m.processed = n.processed ∧ m.baseIndex = n.baseIndex ∨ m.processed = []) :
    Progress n (m.afterRaftActivity turn).1 := by
  obtain ⟨hsame, hbase, hindices⟩ := afterRaftActivity_processed turn m
  refine ⟨?_, fun _ => hhealthy, fun _ => ?_⟩
  · rw [hindices, hraft]
    exact (call_keeps (turn.env verdict) hmirrors hwire).1
  · rcases hprocessed with ⟨hold, hold'⟩ | hnil
    · exact .same (hsame.trans hold) (hbase.trans hold')
    · exact .fresh (hsame.trans hnil)

theorem runRaftTask_progress (turn : Turn) {task : RaftTask D} {rest : List (RaftTask D)}
    (hsound : Sound codec n) (hsettled : ReadsSettled n) (hqueue : n.raftTasks = task :: rest) :
    Progress n ({ n with raftTasks := rest }.runRaftTask turn task).1 := by
  have hmirrors := hsound.posted.mirrors
  have hhealthy : ¬ (n.stopping = true) → n.raft.storageFailed = false := fun h =>
    hsettled.healthy (by simpa using h)
  cases task with
  | message msg =>
      obtain ⟨hwire, -⟩ := hsound.posted.queued msg (by simp [hqueue])
      rw [runRaftTask]
      split
      · exact .of_raft rfl rfl rfl
      next hrunning =>
        unfold handleRaftMessage
        split
        · exact .of_raft rfl rfl rfl
        · split
          · exact .of_raft rfl rfl rfl
          · exact .call turn false (.message msg) hmirrors (hhealthy hrunning) hwire rfl
              (.inl ⟨rfl, rfl⟩)
  | propose requestId bytes =>
      rw [runRaftTask]
      split
      · exact .of_raft rfl rfl rfl
      next hrunning =>
        unfold proposeTask
        dsimp only
        split <;> exact .call turn false (.propose bytes) hmirrors (hhealthy hrunning) trivial rfl
          (.inl ⟨rfl, rfl⟩)
  | read requestId =>
      rw [runRaftTask]
      split
      · exact .of_raft rfl rfl rfl
      next hrunning =>
        unfold readTask
        dsimp only
        split <;> exact .call turn false .readIndex hmirrors (hhealthy hrunning) trivial rfl
          (.inl ⟨rfl, rfl⟩)
  | acknowledge index =>
      rw [runRaftTask]
      split
      · exact .of_raft rfl rfl rfl
      next hrunning =>
        unfold acknowledgeTask
        split
        · exact .of_raft rfl rfl rfl
        · split
          · apply Progress.stop
            exact .of_raft rfl rfl rfl
          · dsimp only
            split
            · apply Progress.stop
              refine ⟨?_, fun _ => hhealthy hrunning, fun _ => .same rfl rfl⟩
              exact (@call_keeps D _ n.raft (.advance index) (turn.env false) hmirrors trivial).1
            · exact .call turn false (.advance index) hmirrors (hhealthy hrunning) trivial rfl
                (.inl ⟨rfl, rfl⟩)
  | cancelRead requestId =>
      have hbeside := Beside.of_cancelRaftRead { n with raftTasks := rest } requestId
      rw [runRaftTask]
      obtain ⟨hindices, hstorage⟩ := cancelRaftRead_raft { n with raftTasks := rest } requestId
      refine ⟨?_, fun h => hstorage ▸ h, fun _ => .same hbeside.processed hbeside.baseIndex⟩
      rw [hindices]
      exact .refl _
  | takeSnapshot index state =>
      rw [runRaftTask]
      dsimp only
      split
      · exact .of_raft rfl rfl rfl
      next hrunning =>
        exact .call turn false (.takeSnapshot index state) hmirrors (hhealthy hrunning) trivial rfl
          (.inl ⟨rfl, rfl⟩)
  | stop => exact .of_raft rfl rfl rfl

theorem applyCommittedEntry_processed (n : Runtime D) (e : Entry) :
    ((n.applyCommittedEntry codec e).processed = n.processed ∨
        (n.applyCommittedEntry codec e).processed = n.processed ++ [e]) ∧
      (n.applyCommittedEntry codec e).baseIndex = n.baseIndex := by
  have hstop : ∀ reason, (n.requestStop reason).processed = n.processed ∧
      (n.requestStop reason).baseIndex = n.baseIndex := by
    intro reason
    obtain ⟨ended, -, heq⟩ := n.requestStop_frame reason
    rw [heq]
    exact ⟨rfl, rfl⟩
  unfold applyCommittedEntry
  split
  · exact ⟨.inl rfl, rfl⟩
  split
  · exact ⟨.inl rfl, rfl⟩
  split
  · exact ⟨.inl (hstop _).1, (hstop _).2⟩
  split
  · split
    · exact ⟨.inl (hstop _).1, (hstop _).2⟩
    next store result _ =>
      dsimp only
      split
      · have hbeside := Beside.of_answerWrite { n with store := store } result.requestId
          (if result.type = .set then .ok else .affected result.affected)
        refine ⟨.inr ?_, hbeside.baseIndex⟩
        exact congrArg (· ++ [e]) hbeside.processed
      · exact ⟨.inr rfl, rfl⟩
  · exact ⟨.inr rfl, rfl⟩

theorem runStoreTask_progress {task : StoreTask D} {rest : List (StoreTask D)}
    (hsound : Sound codec n) (hqueue : n.storeTasks = task :: rest) :
    Progress n ({ n with storeTasks := rest }.runStoreTask codec task) := by
  have hordered := hsound.posted.mirrors.sane.ordered
  have hside : StoreSide { n with storeTasks := rest } (runStoreTask codec _ task) :=
    runStoreTask_storeSide { n with storeTasks := rest } task
  refine ⟨?_, fun h => hside.raft ▸ h, fun h => ?_⟩
  · rw [hside.raft]
    exact .refl _
  cases task with
  | apply e =>
      obtain ⟨hprocessed, hbase⟩ :=
        @applyCommittedEntry_processed D _ codec { n with storeTasks := rest } e
      rcases hprocessed with hsame | hentry
      · exact .same hsame hbase
      · obtain ⟨-, hlog, -, -, hcommit, -, -, -, hreached⟩ :=
          (hsound.handoff (hside.raft ▸ h)).handedEntry hordered hqueue
        rw [← hreached] at hlog hcommit
        exact .entry e hentry hbase (hreached ▸ hordered.offset_le) hcommit hlog
  | restore index state =>
      rw [runStoreTask]
      split <;> exact .same rfl rfl
  | rejectWrite requestId error =>
      have hbeside := Beside.of_answerWrite { n with storeTasks := rest } requestId (.error error)
      exact .same hbeside.processed hbeside.baseIndex
  | rejectRead requestId error =>
      have hbeside := Beside.of_answerRead { n with storeTasks := rest } requestId fun _ =>
        .error error
      exact .same hbeside.processed hbeside.baseIndex
  | completeRead requestId =>
      have hbeside := Beside.of_answerRead { n with storeTasks := rest } requestId fun pending =>
        .value (n.store.get pending.key)
      exact .same hbeside.processed hbeside.baseIndex
  | capture => exact .same rfl rfl
  | stop => exact .same rfl rfl

theorem Happens.progress {event : Event D} {result : Runtime D × List (Message D)}
    (hsound : Sound codec n) (hsettled : ReadsSettled n)
    (hhappens : Happens codec n event result) : Progress n result.1 := by
  have hmirrors := hsound.posted.mirrors
  have hresume : ∀ (m : Runtime D) (turn : Turn) (msg : Message D) (verdict : Bool),
      n.waiting = some (turn, msg) → m.raft = n.raft → m.processed = n.processed →
      m.baseIndex = n.baseIndex → Progress n (m.resume turn msg verdict).1 := by
    intro m turn msg verdict hwaiting hraft hprocessed hbase
    obtain ⟨⟨hwire, -⟩, -⟩ := hsound.posted.asked turn msg hwaiting
    have hhealthy := hsettled.busy (by simp [hwaiting])
    unfold resume
    cases verdict with
    | true =>
        refine .call turn true (.message msg) hmirrors hhealthy hwire ?_ (.inr rfl)
        rw [← hraft]
        rfl
    | false =>
        refine .call turn false (.message msg) hmirrors hhealthy hwire ?_ (.inl ⟨hprocessed, hbase⟩)
        rw [← hraft]
        rfl
  cases hhappens with
  | receive msg => exact .of_raft rfl rfl rfl
  | tick turn hidle =>
      unfold Runtime.tick
      split
      · exact .of_raft rfl rfl rfl
      next hrunning =>
        exact .call turn false .tick hmirrors (hsettled.healthy (by simpa using hrunning)) trivial
          rfl
          (.inl ⟨rfl, rfl⟩)
  | raft turn task rest hidle hqueue => exact runRaftTask_progress turn hsound hsettled hqueue
  | store task rest hqueue => exact runStoreTask_progress hsound hqueue
  | restored turn msg verdict hwaiting => exact hresume n turn msg verdict hwaiting rfl rfl rfl
  | timeout turn msg hwaiting =>
      obtain ⟨ended, -, heq⟩ := n.requestStop_frame .restoreTimedOut
      refine hresume _ turn msg false hwaiting ?_ ?_ ?_ <;> rw [heq]
  | write type strs =>
      dsimp only
      rw [beginWrite_frame]
      exact .of_raft rfl rfl rfl
  | read key =>
      dsimp only
      rw [beginRead_frame]
      exact .of_raft rfl rfl rfl
  | expire writes reads hrunning =>
      have hbeside := Beside.of_expireClientRequests n writes reads
      exact .of_raft (expireClientRequests_storeSide n writes reads).raft hbeside.processed
        hbeside.baseIndex
  | signal =>
      obtain ⟨ended, -, heq⟩ := n.stopOnce_frame
      dsimp only
      rw [heq]
      exact .of_raft rfl rfl rfl

/-! ## Committed entries -/

/-- The second state comes after the first, without a restart in between. -/
def Later (codec : StoreCodec D) : Runtime D → Runtime D → Prop :=
  Relation.ReflTransGen fun n next =>
    ∃ event sent, n.InRange event ∧ n.step codec event = some (next, sent)

/-- Since it has started, the node has held this entry at a committed index. -/
def CommittedAt (codec : StoreCodec D) (config : Config) (n : Runtime D) (i : Nat) (e : Entry) :
    Prop :=
  ∃ m, Reach codec config InRange m ∧ Later codec m n ∧ m.raft.logOffset < i ∧
    i ≤ m.raft.commitIndex ∧ m.raft.indices.entryAt? i = some e

theorem Reach.later {config : Config} (hreach : Reach codec config InRange n)
    (hlater : Later codec n m) : Reach codec config InRange m := by
  induction hlater with
  | refl => exact hreach
  | tail _ hstep ih =>
      obtain ⟨event, sent, hok, hstep⟩ := hstep
      exact .step _ event _ sent ih hok hstep

theorem Reach.progress {config : Config} {next : Runtime D} {event : Event D}
    {sent : List (Message D)} (hreach : Reach codec config InRange n)
    (hstep : n.step codec event = some (next, sent)) : Progress n next :=
  (step_happens hstep).progress hreach.sound hreach.settled

/-- Whatever is processed was committed at that time. -/
theorem Reach.processed_committed {config : Config} (hreach : Reach codec config InRange n)
    (hhealthy : n.raft.storageFailed = false) :
    ∀ k e, n.processed[k]? = some e → CommittedAt codec config n (n.baseIndex + k + 1) e := by
  induction hreach with
  | start draws requestId n hnew =>
      unfold new at hnew
      obtain ⟨_, -, rfl⟩ := Option.map_eq_some_iff.mp hnew
      exact nofun
  | crash n k draws requestId next _ hnew =>
      unfold new at hnew
      obtain ⟨_, -, rfl⟩ := Option.map_eq_some_iff.mp hnew
      exact nofun
  | step n event next sent hreach hok hstep ih =>
      have hprogress := hreach.progress hstep
      have hlater : Later codec n next := .single ⟨event, sent, hok, hstep⟩
      have hold : ∀ k e, n.processed[k]? = some e →
          CommittedAt codec config next (n.baseIndex + k + 1) e := by
        intro k e hk
        obtain ⟨m, hm, hmn, hrest⟩ := ih (hprogress.healthy hhealthy) k e hk
        exact ⟨m, hm, hmn.trans hlater, hrest⟩
      intro k e hk
      cases hprogress.grown hhealthy with
      | same hprocessed hbase =>
          rw [hprocessed] at hk
          rw [hbase]
          exact hold k e hk
      | entry x hprocessed hbase hoffset hcommit hentry =>
          rw [hprocessed, List.getElem?_append] at hk
          rw [hbase]
          split at hk
          · exact hold k e hk
          · rw [List.getElem?_singleton] at hk
            split at hk
            next hlast =>
              obtain rfl : k = n.processed.length := by omega
              cases hk
              exact ⟨n, hreach, hlater, by omega, by omega, hentry⟩
            · cases hk
      | fresh hprocessed =>
          rw [hprocessed] at hk
          cases hk

/-- Nothing else could have been processed there: what is committed does not change. -/
theorem Reach.committed_processed {config : Config} (hreach : Reach codec config InRange m)
    (hlater : Later codec m n) (hhealthy : n.raft.storageFailed = false) :
    m.raft.indices.Keeps n.raft.indices ∧ ∀ k e, m.raft.logOffset < n.baseIndex + k + 1 →
      n.baseIndex + k + 1 ≤ m.raft.commitIndex → k < n.processed.length →
      m.raft.indices.entryAt? (n.baseIndex + k + 1) = some e → n.processed[k]? = some e := by
  induction hlater with
  | refl =>
      refine ⟨.refl _, fun k e hoffset hcommit hlength hentry => ?_⟩
      have hhandoff := hreach.sound.handoff hhealthy
      have hget := List.getElem?_eq_getElem hlength
      have hindex := hhandoff.indexed k _ hget
      have hretained := hhandoff.retained _ (List.getElem_mem hlength) (hindex ▸ hoffset)
      rw [hindex, hentry] at hretained
      rw [hget, hretained]
  | @tail mid next hlater hstep ih =>
      obtain ⟨event, sent, hok, hstep⟩ := hstep
      have hprogress := (hreach.later hlater).progress hstep
      obtain ⟨hkeeps, hprocessed⟩ := ih (hprogress.healthy hhealthy)
      refine ⟨hkeeps.trans hprogress.keeps, fun k e hoffset hcommit hlength hentry => ?_⟩
      cases hprogress.grown hhealthy with
      | same hsame hbase =>
          rw [hbase] at hoffset hcommit hentry
          rw [hsame] at hlength ⊢
          exact hprocessed k e hoffset hcommit hlength hentry
      | entry x hsame hbase hmid hbelow hx =>
          rw [hbase] at hoffset hcommit hentry
          rw [hsame, List.length_append, List.length_singleton] at hlength
          rw [hsame, List.getElem?_append]
          split
          next hk => exact hprocessed k e hoffset hcommit hk hentry
          next hk =>
            obtain rfl : k = mid.processed.length := by omega
            have hkept := hkeeps.entries _ (Nat.lt_succ_of_le hmid) hcommit
            rw [hx, hentry] at hkept
            simpa using hkept
      | fresh hnil =>
          rw [hnil] at hlength
          cases hlength

/-- The single-flight hand-off. Between tasks, with healthy storage and unless a restore has
timed out, the store has processed exactly the committed entries after the index it started
from, each once and in order; an entry on its way is the one after `last_applied_`, and
with none on its way both sides agree; and the checks of the hand-off never fail. -/
theorem apply_single_flight {config : Config} (hreach : Reach codec config InRange n)
    (hidle : n.waiting = none) (hhealthy : n.raft.storageFailed = false)
    (htime : .restoreTimedOut ∉ n.stops) :
    n.storeAppliedIndex = n.baseIndex + n.processed.length ∧
      n.storeAppliedIndex ≤ n.raft.commitIndex ∧
      (∀ i e, n.baseIndex < i → i ≤ n.storeAppliedIndex →
        (n.processed[i - n.baseIndex - 1]? = some e ↔ CommittedAt codec config n i e)) ∧
      KVStore.processAll codec n.baseStore n.processed = some n.store ∧
      (∀ k, n.applyInFlight = some k → n.raft.lastApplied + 1 = k ∧
        (n.storeAppliedIndex + 1 = k ∨ n.storeAppliedIndex = k)) ∧
      (n.applyInFlight = none → n.storeAppliedIndex = n.raft.lastApplied) ∧
      ∀ reason ∈ n.stops, reason ≠ .applyGap ∧ reason ≠ .acknowledgmentOutOfOrder ∧
        reason ≠ .acknowledgmentRejected := by
  have hsound := hreach.sound
  have hhandoff := hsound.handoff hhealthy
  have hwaiting : n.exchange.waiting = none := by simp [exchange, hidle]
  obtain ⟨happlied, hflight, hnone⟩ := hhandoff.phase.settled hwaiting htime
  have hcommit := (hhandoff.phase.reached_le hsound.posted.mirrors.sane.ordered).2
  have hreached : n.storeAppliedIndex = n.baseIndex + n.processed.length := happlied
  refine ⟨hreached, hreached.trans_le hcommit, fun i e hbase hle => ⟨fun hi => ?_, ?_⟩,
    hhandoff.store hreached, hflight, hnone, fun reason hreason => ?_⟩
  · have hat := hreach.processed_committed hhealthy _ e hi
    rwa [show n.baseIndex + (i - n.baseIndex - 1) + 1 = i by omega] at hat
  · rintro ⟨m, hm, hlater, hoffset, hle', hentry⟩
    have hi : n.baseIndex + (i - n.baseIndex - 1) + 1 = i := by omega
    rw [← hi] at hoffset hle' hentry
    exact (hm.committed_processed hlater hhealthy).2 _ e hoffset hle' (by omega) hentry
  · have horder := hhandoff.order reason hreason
    refine ⟨?_, ?_, ?_⟩ <;> rintro rfl <;> cases horder

/-- Node 1 leads, a write of a client is committed with the help of node 2, and the store has
processed it. -/
def writeOne : List (Event Bytes) :=
  electOne ++ [.write .set [[107], [118]], .raft {},
    .receive { fromTwo .appendEntriesResponse 1 with success := true, matchIndex := 1 }, .raft {},
    .store]

theorem apply_single_flight_writeOne :
    ∃ n : Runtime Bytes, Reach msgpackStoreCodec nodeOne InRange n ∧ n.applyInFlight = some 1 ∧
      n.processed.length = 1 ∧ n.storeAppliedIndex = 1 ∧ n.raft.lastApplied + 1 = 1 := by
  have hplay : ((startOne.bind fun n => n.play msgpackStoreCodec InRange writeOne).map fun n =>
      (n.applyInFlight, n.waiting.isSome, n.raft.storageFailed, n.stops, n.baseIndex,
        n.processed.length)) = some (some 1, false, false, [], 0, 1) := by
    decide +kernel
  obtain ⟨n, hn, heq⟩ := Option.map_eq_some_iff.mp hplay
  simp only [Prod.mk.injEq] at heq
  obtain ⟨hflight, hidle, hhealthy, hstops, hbase, hlength⟩ := heq
  have hreach := Reach.of_startOne hn
  obtain ⟨happlied, -, -, -, hinFlight, -⟩ :=
    apply_single_flight hreach (by simpa using hidle) hhealthy (by simp [hstops])
  rw [hbase, hlength] at happlied
  exact ⟨n, hreach, hflight, hlength, happlied, (hinFlight 1 hflight).1⟩

/-- Events whose messages can come off the wire. -/
def OnWire (_ : Runtime D) : Event D → Prop
  | .receive msg => msg.Wire
  | _ => True

instance decidableOnWire (n : Runtime D) (event : Event D) : Decidable (n.OnWire event) :=
  match event with
  | .receive msg => inferInstanceAs (Decidable msg.Wire)
  | .tick _ | .raft _ | .store | .restored | .timeout | .write _ _ | .read _ | .expire _ _ |
    .signal => .isTrue trivial

/-- Node 1 takes a snapshot of the last index but one and the committed entry after it, which
goes to the store. It is elected, its own write gets index zero, and node 2 confirms it. -/
def wrappedWrite : List (Event Bytes) :=
  [.receive { fromTwo .installSnapshot 1 with
      snapshotIndex := 2 ^ 64 - 2
      snapshotTerm := 1
      snapshotData := msgpackStoreCodec.serialize ∅ }, .raft {}, .store, .restored,
    .receive { fromTwo .appendEntries 1 with
      prevLogIndex := 2 ^ 64 - 2
      prevLogTerm := 1
      entries := [{ term := 1, index := 2 ^ 64 - 1 }]
      leaderCommit := 2 ^ 64 - 1 }, .raft {},
    .tick {}, .receive { fromTwo .preVoteResponse 1 with preVoteTerm := 2, voteGranted := true },
    .raft {}, .receive { fromTwo .requestVoteResponse 2 with voteGranted := true }, .raft {},
    .write .set [[107], [118]], .raft {},
    .receive { fromTwo .appendEntriesResponse 2 with success := true }, .raft {},
    .store, .raft {}]

/-- The commit index has gone back to zero when the store reports the entry, so `advance`
refuses it and the node stops. -/
theorem acknowledgment_rejected_past_range :
    ∃ n : Runtime Bytes, Reach msgpackStoreCodec nodeOne OnWire n ∧ n.waiting = none ∧
      n.raft.storageFailed = false ∧ n.stops = [.acknowledgmentRejected] ∧
      n.raft.commitIndex = 0 ∧ n.storeAppliedIndex = 2 ^ 64 - 1 := by
  have hplay : ((startOne.bind fun n => n.play msgpackStoreCodec OnWire wrappedWrite).map fun n =>
      (n.waiting.isSome, n.raft.storageFailed, n.stops, n.raft.commitIndex, n.storeAppliedIndex)) =
        some (false, false, [.acknowledgmentRejected], 0, 2 ^ 64 - 1) := by
    decide +kernel
  obtain ⟨n, hn, heq⟩ := Option.map_eq_some_iff.mp hplay
  simp only [Prod.mk.injEq] at heq
  obtain ⟨hidle, hhealthy, hstops, hcommit, happlied⟩ := heq
  exact ⟨n, .of_startOne hn, by simpa using hidle, hhealthy, hstops, hcommit, happlied⟩

end RaftKv.Runtime
