import RaftKv.Node.Indices
import RaftKv.Raft.Applied
import RaftKv.Runtime.Exchange
import RaftKv.Runtime.Read

/-! # The hand-off on the Raft loop

Every task of the Raft loop makes at most one call of the Raft object and then looks for
the next committed entry. None of them disturbs the exchange with the store: the only
call that applies anything is the one the acknowledgment of the store asks for.
-/

namespace RaftKv.Runtime

variable {D : Type} {n m : Runtime D}

/-! ## The Raft loop -/

theorem pollReadIndexes_raft (n : Runtime D) :
    n.pollReadIndexes.raft.indices = n.raft.indices ∧
      n.pollReadIndexes.raft.storageFailed = n.raft.storageFailed := by
  obtain ⟨_, _, _, _, heq⟩ := sameButRound_pollReadIndexes n
  rw [heq]
  exact ⟨rfl, rfl⟩

/-- The entry that is dispatched is the one after the last applied. -/
theorem nextEntryToApply_ordered {r : Raft D} {e : Entry} (hordered : r.indices.Ordered)
    (hnext : r.nextEntryToApply = some e) :
    r.lastApplied < r.commitIndex ∧ e.index = r.lastApplied + 1 ∧
      r.indices.entryAt? (r.lastApplied + 1) = some e := by
  unfold Raft.nextEntryToApply at hnext
  split at hnext
  · cases hnext
  next hbelow =>
    have hcommit := hordered.commit_le
    have hbound := hordered.last_lt
    have hoffset : r.logOffset ≤ r.lastApplied := hordered.offset_le
    simp only [not_le] at hbelow
    simp only [Indices.last, Raft.indices] at hcommit hbound
    have hlength : r.lastApplied - r.logOffset < r.log.length := by omega
    rw [wrap64_of_lt (by omega), Raft.logEntry, Raft.logPosition_of_lt (by omega) (by omega),
      Nat.sub_right_comm, Nat.add_sub_cancel, List.getD_eq_getElem?_getD,
      List.getElem?_eq_getElem hlength, Option.getD_some] at hnext
    have hget : r.log[r.lastApplied - r.logOffset]? = some e := by
      rw [List.getElem?_eq_getElem hlength]
      exact hnext
    refine ⟨hbelow, ?_, ?_⟩
    · have hindex := hordered.indexed _ e hget
      simp only [Raft.indices] at hindex
      omega
    · simp only [Indices.entryAt?, Raft.indices]
      rw [Nat.sub_right_comm, Nat.add_sub_cancel]
      exact hget

section

variable [Blob D] {codec : StoreCodec D}

theorem Handoff.dispatch (hhandoff : Handoff codec n) (hordered : n.raft.indices.Ordered)
    (hidle : n.waiting = none) : Handoff codec n.dispatchNextCommittedEntry := by
  rcases n.dispatchNextCommittedEntry_cases with heq | ⟨e, hnext, hflight, hrunning, heq⟩
  · rw [heq]
    exact hhandoff
  obtain ⟨hcommit, hindex, hentry⟩ := nextEntryToApply_ordered hordered hnext
  rw [heq]
  refine ⟨?_, hhandoff.indexed, hhandoff.retained, hhandoff.store, hhandoff.order⟩
  have hphase := hhandoff.phase
  simp only [Runtime.exchange, hflight, hidle, hrunning, Option.map_none] at hphase
  simp only [Runtime.exchange, hidle, Option.map_none, List.filter_append, hindex]
  generalize n.storeTasks.filter handsOver = handed at *
  generalize n.raftTasks.filterMap acknowledges = acknowledged at *
  generalize n.storeAppliedIndex = applied at *
  generalize n.baseIndex + n.processed.length = reached at *
  cases hphase with
  | idle => exact .sent _ e hcommit hentry
  | abandoned _ _ _ _ _ hstopping => cases hstopping

theorem Handoff.activity (turn : Turn) (hhandoff : Handoff codec n)
    (hordered : n.raft.indices.Ordered) (hidle : n.waiting = none)
    (hhealthy : n.raft.storageFailed = false) : Handoff codec (n.afterRaftActivity turn).1 := by
  have hdispatch := hhandoff.dispatch hordered hidle
  have hraft : n.dispatchNextCommittedEntry.raft = n.raft := by
    rcases n.dispatchNextCommittedEntry_cases with heq | ⟨e, -, -, -, heq⟩ <;> rw [heq]
  obtain ⟨⟨⟨ended, stopping, stops, hended, hstops⟩, pending, answers, hanswers⟩, heq⟩ :=
    afterRaftActivity_healthy turn hhealthy
  have hquiet : answers.filter handsOver = [] := by
    rw [List.filter_eq_nil_iff]
    intro task htask
    have := hanswers task htask
    cases task <;> simp_all [Quiet, handsOver]
  have hnone : ended.filterMap acknowledges = [] := by
    rw [List.filterMap_eq_nil_iff]
    intro task htask
    rw [hended task htask]
    rfl
  have hindices : (n.afterRaftActivity turn).1.raft.indices =
      n.dispatchNextCommittedEntry.raft.indices := by
    rw [heq, hraft]
    exact (pollReadIndexes_raft n).1
  have hbeside : Beside n.dispatchNextCommittedEntry (n.afterRaftActivity turn).1 := by
    rw [heq]
    rcases n.dispatchNextCommittedEntry_cases with hsame | ⟨e, -, -, -, hsame⟩ <;> rw [hsame]
    all_goals
      refine ⟨?_, rfl, rfl, rfl, rfl, ?_, ?_, ?_⟩
      · simp only [Runtime.exchange, List.filter_append, List.filterMap_append, hquiet, hnone,
          List.append_nil]
      · rcases hstops with ⟨rfl, -⟩ | ⟨rfl, -⟩
        · exact id
        · exact fun _ => rfl
      · rcases hstops with ⟨-, rfl⟩ | ⟨-, _, -, rfl⟩
        · exact List.Subset.refl _
        · exact List.subset_append_left _ _
      · intro reason (hreason : reason ∈ stops)
        rcases hstops with ⟨-, hold⟩ | ⟨-, cause, hcause, hadded⟩
        · exact .inl (hold ▸ hreason)
        · rw [hadded] at hreason
          rcases List.mem_append.mp hreason with hold | hnew
          · exact .inl hold
          · rw [List.mem_singleton.mp hnew]
            rcases hcause with rfl | rfl <;> exact .inr rfl
  have hfirst : n.dispatchNextCommittedEntry.raft.indices.Ordered := hraft ▸ hordered
  refine hdispatch.beside hbeside (hindices ▸ .refl _) hfirst (hindices ▸ hfirst) ?_
  exact congrArg Indices.applied hindices

end

/-! ## Calls of the Raft object -/

theorem afterRaftActivity_frame (turn : Turn) (n : Runtime D) :
    (n.afterRaftActivity turn).1.waiting = n.waiting ∧
      (n.afterRaftActivity turn).1.raft.storageFailed = n.raft.storageFailed ∧
      ∀ task ∈ (n.afterRaftActivity turn).1.raftTasks, task ∈ n.raftTasks ∨ task = .stop := by
  have hqueue : ∀ {ended : List (RaftTask D)}, (∀ task ∈ ended, task = RaftTask.stop) →
      ∀ task ∈ n.raftTasks ++ ended, task ∈ n.raftTasks ∨ task = .stop := fun hended task htask =>
    (List.mem_append.mp htask).imp_right (hended task)
  cases hstorage : n.raft.storageFailed with
  | true =>
      obtain ⟨ended, hended, heq⟩ := afterRaftActivity_failed turn hstorage
      rw [heq]
      exact ⟨rfl, hstorage, hqueue hended⟩
  | false =>
      obtain ⟨activity, heq⟩ := afterRaftActivity_healthy turn hstorage
      rw [heq]
      exact ⟨rfl, (pollReadIndexes_raft n).2.trans hstorage, hqueue activity.stop⟩

variable [Blob D] {codec : StoreCodec D}

/-- What the loops rely on in the messages they are given: everything is in range, and the
loop waits in the handler of a message only if that message may be installed. -/
structure Posted (n : Runtime D) : Prop where
  mirrors : n.raft.Mirrors
  queued : ∀ msg, RaftTask.message msg ∈ n.raftTasks → msg.Wire ∧ msg.InRange
  asked : ∀ turn msg, n.waiting = some (turn, msg) →
    (msg.Wire ∧ msg.InRange) ∧ n.asksRestore turn msg = true

/-- The invariant of a run in range. -/
structure Sound (codec : StoreCodec D) (n : Runtime D) : Prop where
  posted : Posted n
  handoff : n.raft.storageFailed = false → Handoff codec n

theorem call_keeps {r : Raft D} {input : Input D} (env : Env) (hmirrors : r.Mirrors)
    (hwire : input.Wire) :
    r.indices.Keeps ((r.arm env).step input).indices ∧
      ((r.arm env).step input).indices.Ordered := by
  have hordered : (r.arm env).indices.Ordered := hmirrors.sane.ordered
  have hroom : (r.arm env).indices.last + 1 < 2 ^ 64 := hmirrors.sane.valid.bound
  have hchanges := Raft.step_changes le_rfl hordered hroom hwire (Raft.below_of_wire hroom hwire)
  obtain ⟨hnext, hkeeps, -⟩ := hchanges.spec le_rfl hordered
  exact ⟨hkeeps, hnext⟩

theorem afterRaftActivity_mirrors (turn : Turn) (hmirrors : n.raft.Mirrors) :
    (n.afterRaftActivity turn).1.raft.Mirrors := by
  cases hstorage : n.raft.storageFailed with
  | true =>
      obtain ⟨ended, -, heq⟩ := afterRaftActivity_failed turn hstorage
      rw [heq]
      exact hmirrors
  | false =>
      obtain ⟨activity, heq⟩ := afterRaftActivity_healthy turn hstorage
      have hpoll : n.pollReadIndexes.raft.Mirrors := by
        rcases n.pollReadIndexes_finishes with hsame | ⟨read, hsame⟩ <;> rw [hsame]
        · exact hmirrors
        · exact hmirrors.finishReadIndex read
      rw [heq]
      exact hpoll.readMessages

theorem Posted.activity (turn : Turn) (hmirrors : n.raft.Mirrors)
    (hqueued : ∀ msg, RaftTask.message msg ∈ n.raftTasks → msg.Wire ∧ msg.InRange)
    (hidle : n.waiting = none) : Posted (n.afterRaftActivity turn).1 := by
  obtain ⟨hwaiting, -, htasks⟩ := afterRaftActivity_frame turn n
  refine ⟨afterRaftActivity_mirrors turn hmirrors, fun msg hmsg => ?_, fun turn msg h => ?_⟩
  · exact hqueued msg ((htasks _ hmsg).resolve_right nofun)
  · rw [hwaiting, hidle] at h
    cases h

/-- A call that applies nothing, and the activity after it. -/
theorem Sound.call (turn : Turn) (input : Input D) (hsound : Sound codec n)
    (hhealthy : n.raft.storageFailed = false) (hrange : n.raft.InRange input)
    (hwire : input.Wire) (hadvance : ∀ index, input ≠ .advance index) (hbeside : Beside n m)
    (hraft : m.raft = (n.raft.arm (turn.env false)).step input) (hidle : m.waiting = none)
    (htasks : m.raftTasks = n.raftTasks) : Sound codec (m.afterRaftActivity turn).1 := by
  have hmirrors : m.raft.Mirrors := hraft ▸ hsound.posted.mirrors.call hhealthy hrange
  obtain ⟨hkeeps, hordered⟩ := call_keeps (turn.env false) hsound.posted.mirrors hwire
  rw [← hraft] at hkeeps hordered
  have happlied : m.raft.lastApplied = n.raft.lastApplied := by
    rw [hraft]
    exact Raft.step_lastApplied (r := n.raft.arm (turn.env false)) hadvance
      fun _ _ => by simp [Raft.arm, Turn.env]
  refine ⟨.activity turn hmirrors (htasks ▸ hsound.posted.queued) hidle, fun hstill => ?_⟩
  rw [(afterRaftActivity_frame turn m).2.1] at hstill
  exact ((hsound.handoff hhealthy).beside hbeside hkeeps hsound.posted.mirrors.sane.ordered hordered
    happlied).activity turn hordered hidle hstill

theorem Sound.beside (hsound : Sound codec n) (hbeside : Beside n m) (hraft : m.raft = n.raft)
    (hwaiting : m.waiting = n.waiting)
    (hqueued : ∀ msg, RaftTask.message msg ∈ m.raftTasks → msg.Wire ∧ msg.InRange) :
    Sound codec m where
  posted := by
    refine ⟨hraft ▸ hsound.posted.mirrors, hqueued, fun turn msg h => ?_⟩
    rw [hwaiting] at h
    simp only [asksRestore, hraft]
    exact hsound.posted.asked turn msg h
  handoff h := by
    have hordered := hsound.posted.mirrors.sane.ordered
    refine (hsound.handoff (hraft ▸ h)).beside hbeside ?_ hordered ?_ ?_
    · rw [hraft]
      exact .refl _
    · rw [hraft]
      exact hordered
    · rw [hraft]

/-- Finishing a round moves no index. -/
theorem Sound.cancelRaftRead (hsound : Sound codec n) (hidle : n.waiting = none)
    (requestId : Nat) : Sound codec (n.cancelRaftRead requestId) := by
  have hbeside := Beside.of_cancelRaftRead n requestId
  unfold Runtime.cancelRaftRead at hbeside ⊢
  split at hbeside
  · exact hsound
  next read _ =>
    dsimp only at hbeside ⊢
    split at hbeside
    next hused =>
      rw [if_pos hused]
      exact hsound.beside hbeside rfl rfl hsound.posted.queued
    next hunused =>
      rw [if_neg hunused]
      have hmirrors := hsound.posted.mirrors
      have hindices := Raft.indices_finishReadIndex n.raft read
      have hfailed : (n.raft.finishReadIndex read).storageFailed = n.raft.storageFailed := by
        obtain ⟨_, _, _, _, heq⟩ := sameButRound_finishReadIndex n.raft read
        rw [heq]
      refine ⟨⟨hmirrors.finishReadIndex read, hsound.posted.queued, fun turn msg h => ?_⟩,
        fun h => ?_⟩
      · rw [show n.waiting = some (turn, msg) from h] at hidle
        cases hidle
      · refine (hsound.handoff (hfailed ▸ h)).beside hbeside ?_ hmirrors.sane.ordered ?_ ?_
        · exact hindices ▸ .refl _
        · exact hindices ▸ hmirrors.sane.ordered
        · exact congrArg Indices.applied hindices

/-- A snapshot is only asked for if it is ahead of what is applied. -/
theorem asksRestore_fresh {turn : Turn} {msg : Message D} (hasks : n.asksRestore turn msg = true) :
    n.raft.lastApplied < msg.snapshotIndex := by
  have hsame := Raft.indices_prepareForLeaderRpc (n.raft.arm (turn.env false)) msg
  have happlied := congrArg Indices.applied hsame
  unfold asksRestore at hasks
  simp only [Bool.and_eq_true, Bool.not_eq_true', Bool.or_eq_false_iff, decide_eq_false_iff_not,
    not_le] at hasks
  exact lt_of_eq_of_lt happlied.symm hasks.2.2

theorem Sound.handleRaftMessage (turn : Turn) (hsound : Sound codec n) (hidle : n.waiting = none)
    (hhealthy : n.raft.storageFailed = false) (hrunning : n.stopping = false) {msg : Message D}
    (hwire : msg.Wire) (hrange : msg.InRange) : Sound codec (n.handleRaftMessage turn msg).1 := by
  unfold Runtime.handleRaftMessage
  split
  · exact hsound
  · split
    next hask =>
      simp only [Bool.and_eq_true, Option.isNone_iff_eq_none] at hask
      obtain ⟨⟨hasks, hflight⟩, -⟩ := hask
      refine ⟨⟨hsound.posted.mirrors, hsound.posted.queued, fun other asked h => ?_⟩, fun _ => ?_⟩
      · obtain ⟨rfl, rfl⟩ := Prod.mk.inj (Option.some.inj h)
        exact ⟨⟨hwire, hrange⟩, hasks⟩
      · have hhandoff := hsound.handoff hhealthy
        refine ⟨?_, hhandoff.indexed, hhandoff.retained, hhandoff.store, hhandoff.order⟩
        -- nothing is on its way, so the snapshot is alone in the queues
        have hphase := hhandoff.phase
        simp only [Runtime.exchange, hflight, hidle, hrunning, Option.map_none] at hphase
        simp only [Runtime.exchange, postStore, hflight, Option.map_some, List.filter_append]
        generalize n.storeTasks.filter handsOver = handed at *
        generalize n.raftTasks.filterMap acknowledges = acknowledged at *
        generalize n.storeAppliedIndex = applied at *
        generalize n.baseIndex + n.processed.length = reached at *
        cases hphase with
        | idle => exact .asked msg (asksRestore_fresh hasks)
        | abandoned _ _ _ _ _ hstopping => cases hstopping
    · exact hsound.call turn (.message msg) hhealthy hrange hwire
        (fun _ h => by cases h)
        (.of_callRaft n turn false (.message msg)) rfl hidle rfl

theorem Sound.proposeTask (turn : Turn) (hsound : Sound codec n) (hidle : n.waiting = none)
    (hhealthy : n.raft.storageFailed = false) (hroom : n.raft.lastLogIndex + 2 < 2 ^ 64)
    (requestId : Nat) (bytes : Bytes) : Sound codec (n.proposeTask turn requestId bytes).1 := by
  unfold Runtime.proposeTask
  dsimp only
  split
  · exact hsound.call turn (.propose bytes) hhealthy hroom trivial nofun
      ⟨rfl, rfl, rfl, rfl, rfl, id, List.Subset.refl _, fun _ => .inl⟩ rfl hidle rfl
  · refine hsound.call turn (.propose bytes) hhealthy hroom trivial nofun
      ⟨?_, rfl, rfl, rfl, rfl, id, List.Subset.refl _, fun _ => .inl⟩ rfl hidle rfl
    simp [Runtime.exchange, postStore, handsOver]

theorem Sound.readTask (turn : Turn) (hsound : Sound codec n) (hidle : n.waiting = none)
    (hhealthy : n.raft.storageFailed = false) (hroom : n.raft.lastLogIndex + 2 < 2 ^ 64)
    (requestId : Nat) : Sound codec (n.readTask turn requestId).1 := by
  unfold Runtime.readTask
  dsimp only
  split
  · refine hsound.call turn .readIndex hhealthy hroom trivial nofun
      ⟨?_, rfl, rfl, rfl, rfl, id, List.Subset.refl _, fun _ => .inl⟩ rfl hidle rfl
    simp [Runtime.exchange, postStore, handsOver]
  · exact hsound.call turn .readIndex hhealthy hroom trivial nofun
      ⟨rfl, rfl, rfl, rfl, rfl, id, List.Subset.refl _, fun _ => .inl⟩ rfl hidle rfl

theorem Sound.acknowledgeTask (turn : Turn) {index : Nat} {rest : List (RaftTask D)}
    (hsound : Sound codec n) (hidle : n.waiting = none)
    (hhealthy : n.raft.storageFailed = false) (hqueue : n.raftTasks = .acknowledge index :: rest) :
    Sound codec ({ n with raftTasks := rest }.acknowledgeTask turn index).1 := by
  have hhandoff := hsound.handoff hhealthy
  have hmirrors := hsound.posted.mirrors
  have hordered := hmirrors.sane.ordered
  have hqueued : ∀ msg, RaftTask.message msg ∈ rest → msg.Wire ∧ msg.InRange := fun msg hmsg =>
    hsound.posted.queued msg (hqueue ▸ List.mem_cons_of_mem _ hmsg)
  obtain ⟨rfl, hflight, hcommit, hhanded, hacknowledged, happlied, hreached⟩ :=
    hhandoff.acknowledged hqueue
  have hbound : n.raft.lastApplied + 1 < 2 ^ 64 :=
    lt_of_le_of_lt (Nat.succ_le_of_lt hcommit) (hordered.commit_le.trans_lt hordered.last_lt)
  have hadvance : (n.raft.arm (turn.env false)).step (.advance (n.raft.lastApplied + 1)) =
      { n.raft.arm (turn.env false) with lastApplied := n.raft.lastApplied + 1 } := by
    rw [Raft.step, Raft.advance, if_neg]
    simp only [Raft.arm, wrap64_of_lt hbound, ne_eq, not_true_eq_false, or_false]
    omega
  have hmoved : ((n.raft.arm (turn.env false)).step
      (.advance (n.raft.lastApplied + 1))).Mirrors := hmirrors.call hhealthy trivial
  obtain ⟨-, hnext⟩ := call_keeps (turn.env false) hmirrors
    (show (Input.advance (D := D) (n.raft.lastApplied + 1)).Wire from trivial)
  unfold Runtime.acknowledgeTask
  rw [if_neg (by simp), if_neg (by simp [hflight, wrap64_of_lt hbound])]
  dsimp only [callRaft]
  rw [hadvance] at hmoved hnext ⊢
  rw [if_neg (by simp)]
  refine ⟨.activity turn hmoved hqueued hidle, fun hstill => ?_⟩
  refine Handoff.activity turn ?_ hnext hidle hhealthy
  refine ⟨?_, hhandoff.indexed, ?_, hhandoff.store, hhandoff.order⟩
  · simp only [Runtime.exchange, hidle, hhanded, hacknowledged, happlied, hreached, Option.map_none]
    exact .idle _
  · exact hhandoff.retained

/-- A node that stops does not take the acknowledgment. -/
theorem Sound.dropAcknowledgment {index : Nat} {rest : List (RaftTask D)} (hsound : Sound codec n)
    (hidle : n.waiting = none) (hstopping : n.stopping = true)
    (hqueue : n.raftTasks = .acknowledge index :: rest) :
    Sound codec { n with raftTasks := rest } := by
  refine ⟨⟨hsound.posted.mirrors, fun msg hmsg => ?_, hsound.posted.asked⟩, fun hhealthy => ?_⟩
  · exact hsound.posted.queued msg (hqueue ▸ List.mem_cons_of_mem _ hmsg)
  · have hhandoff := hsound.handoff hhealthy
    obtain ⟨-, hflight, hcommit, hhanded, hacknowledged, happlied, hreached⟩ :=
      hhandoff.acknowledged hqueue
    refine ⟨?_, hhandoff.indexed, hhandoff.retained, hhandoff.store, hhandoff.order⟩
    simp only [Runtime.exchange, hidle, hflight, hhanded, hacknowledged, happlied, hreached,
      Option.map_none]
    exact .dropped _ _ hcommit (.inr rfl) hstopping

/-- A task that is not an acknowledgment is taken from the queue. -/
theorem Sound.dequeue {task : RaftTask D} {rest : List (RaftTask D)} (hsound : Sound codec n)
    (hqueue : n.raftTasks = task :: rest) (hother : acknowledges task = none) :
    Sound codec { n with raftTasks := rest } := by
  refine hsound.beside ⟨?_, rfl, rfl, rfl, rfl, id, List.Subset.refl _, fun _ => .inl⟩ rfl rfl
    fun msg hmsg => hsound.posted.queued msg (hqueue ▸ List.mem_cons_of_mem _ hmsg)
  simp only [Runtime.exchange, hqueue, List.filterMap_cons, hother]

theorem Sound.runRaftTask (turn : Turn) {task : RaftTask D} {rest : List (RaftTask D)}
    (hsound : Sound codec n) (hsettled : ReadsSettled n) (hidle : n.waiting = none)
    (hqueue : n.raftTasks = task :: rest) (hroom : n.raft.lastLogIndex + 2 < 2 ^ 64) :
    Sound codec ({ n with raftTasks := rest }.runRaftTask turn task).1 := by
  have hhealthy : ¬ (n.stopping = true) → n.raft.storageFailed = false := fun h =>
    hsettled.healthy (by simpa using h)
  cases task with
  | message msg =>
      have hrest := hsound.dequeue hqueue rfl
      obtain ⟨hwire, hrange⟩ := hsound.posted.queued msg (by simp [hqueue])
      rw [Runtime.runRaftTask]
      split
      · exact hrest
      next hrunning =>
        exact hrest.handleRaftMessage turn hidle (hhealthy hrunning) (by simpa using hrunning) hwire
          hrange
  | propose requestId bytes =>
      have hrest := hsound.dequeue hqueue rfl
      rw [Runtime.runRaftTask]
      split
      · exact hrest
      next hrunning =>
        exact hrest.proposeTask turn hidle (hhealthy hrunning) hroom requestId bytes
  | read requestId =>
      have hrest := hsound.dequeue hqueue rfl
      rw [Runtime.runRaftTask]
      split
      · exact hrest
      next hrunning => exact hrest.readTask turn hidle (hhealthy hrunning) hroom requestId
  | acknowledge index =>
      rw [Runtime.runRaftTask]
      split
      next hstopping => exact hsound.dropAcknowledgment hidle hstopping hqueue
      next hrunning => exact hsound.acknowledgeTask turn hidle (hhealthy hrunning) hqueue
  | cancelRead requestId => exact (hsound.dequeue hqueue rfl).cancelRaftRead hidle requestId
  | takeSnapshot index state =>
      have hrest := hsound.dequeue hqueue rfl
      rw [Runtime.runRaftTask]
      dsimp only
      split
      · exact hrest.beside ⟨rfl, rfl, rfl, rfl, rfl, id, List.Subset.refl _, fun _ => .inl⟩ rfl rfl
          hrest.posted.queued
      next hrunning =>
        exact hrest.call turn (.takeSnapshot index state) (hhealthy hrunning) trivial trivial
          (fun _ h => by cases h) ⟨rfl, rfl, rfl, rfl, rfl, id, List.Subset.refl _, fun _ => .inl⟩
          rfl hidle rfl
  | stop =>
      have hrest := hsound.dequeue hqueue rfl
      refine hrest.beside ⟨?_, rfl, rfl, rfl, rfl, id, List.Subset.refl _, fun _ => .inl⟩ rfl rfl
        hrest.posted.queued
      simp [Runtime.exchange, Runtime.runRaftTask, postStore, handsOver]

end RaftKv.Runtime
