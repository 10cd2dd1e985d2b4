import RaftKv.Raft.Round
import RaftKv.Runtime.Run

/-! # Read rounds and the reads that wait for them

The Raft object knows whether a round is open, and the runtime knows which reads wait for
one. After every task of the Raft loop the two agree: a round is open exactly when
somebody waits for it, everybody waits for that round, and only a leader has one.
-/

namespace RaftKv.Runtime

variable {D : Type} {r next : Raft D} {reads : Table ReadIndexToken}

/-- The waiting reads fit the open round. -/
structure ReadsMatch (r : Raft D) (reads : Table ReadIndexToken) : Prop where
  pending_iff : r.readIndexPending = true ↔ reads.entries ≠ []
  leader : r.readIndexPending = true → r.state = .leader
  token : ∀ read ∈ reads.values, read = r.round

/-- What a call of the Raft object leaves for `poll_read_indexes`: the reads fit, or the
node has stepped down and its round is closed. -/
def Pollable (r : Raft D) (reads : Table ReadIndexToken) : Prop :=
  ReadsMatch r reads ∨ r.state ≠ .leader ∧ r.readIndexPending = false

theorem ReadsMatch.of_closed (hclosed : r.readIndexPending = false) :
    ReadsMatch r Table.empty where
  pending_iff := by simp [hclosed, Table.empty]
  leader h := by simp [hclosed] at h
  token read hread := by simp [Table.values, Table.empty] at hread

theorem ReadsMatch.entries_nil (hmatch : ReadsMatch r reads)
    (hclosed : r.readIndexPending = false) :
    reads.entries = [] := by
  by_contra hne
  simp [hmatch.pending_iff.mpr hne] at hclosed

theorem ReadsMatch.nothing (hmatch : ReadsMatch r reads) (hclosed : r.readIndexPending = false)
    (hnext : next.readIndexPending = false) : ReadsMatch next reads where
  pending_iff := by simp [hnext, hmatch.entries_nil hclosed]
  leader h := by simp [hnext] at h
  token read hread := by simp [Table.values, hmatch.entries_nil hclosed] at hread

/-- Every call but `read_index` keeps the open round with its leader, or ends both. -/
theorem ReadsMatch.step [Blob D] {input : Input D} (hmatch : ReadsMatch r reads)
    (hread : input ≠ .readIndex) (hfinish : ∀ read, input ≠ .finishRead read) :
    Pollable (r.step input) reads := by
  have hkeeps : r.KeepsRound (r.step input) := Raft.step_keepsRound hread
  have hrole := Raft.step_role r input
  generalize r.step input = next at *
  -- a node that does not lead has no round to lose
  have hother : r.state ≠ .leader → next.readIndexPending = r.readIndexPending →
      Pollable next reads := by
    intro hstate hsame
    have hclosed : r.readIndexPending = false :=
      Bool.eq_false_of_not_eq_true fun h => hstate (hmatch.leader h)
    exact .inl (hmatch.nothing hclosed (hsame.trans hclosed))
  -- a leader that goes on leading keeps the round unless it finishes it
  have hsame : next.state = r.state → next.readIndexPending = r.readIndexPending →
      Pollable next reads := by
    intro hstate hpending
    rcases hkeeps with ⟨-, hround⟩ | hclosed
    · refine .inl ⟨?_, ?_, ?_⟩
      · rw [hpending]
        exact hmatch.pending_iff
      · rw [hpending, hstate]
        exact hmatch.leader
      · rw [hround]
        exact hmatch.token
    · exact .inl (hmatch.nothing (hpending ▸ hclosed) hclosed)
  generalize hnext : next.role = role at hrole
  have hstate : next.state = role.state := congrArg Role.state hnext
  have hpending : next.readIndexPending = role.readIndexPending :=
    congrArg Role.readIndexPending hnext
  cases hrole with
  | same => exact hsame hstate hpending
  | follow => exact .inr ⟨by simp [hstate], hpending⟩
  | canvass _ hnot => exact hother hnot hpending
  | preVote _ _ hcounts => exact hother (by simp [hcounts.state]) hpending
  | stand _ _ hcounts => exact hother (by simp [hcounts.state]) hpending
  | crown _ _ hcandidate => exact hother (by simp [hcandidate]) hpending
  | ack => exact hsame hstate hpending
  | start hinput => exact absurd hinput hread
  | give hinput => exact absurd hinput hread
  | finish read hinput => exact absurd hinput (hfinish read)

/-- A read that gets a token waits for the open round. -/
theorem ReadsMatch.readIndex [Blob D] {read : ReadIndexToken} (hmatch : ReadsMatch r reads)
    (hread : r.readIndex.2 = some read) (requestId : Nat) :
    ReadsMatch r.readIndex.1 (reads.insert requestId read) := by
  obtain ⟨hleader, hopen, hround, hjoin⟩ := Raft.readIndex_some hread
  refine ⟨by simp [hopen, Table.insert], fun _ => hleader, fun token htoken => ?_⟩
  rw [hround]
  simp only [Table.values, Table.insert, Table.erase, List.map_cons, List.mem_cons] at htoken
  rcases htoken with rfl | hother
  · rfl
  · obtain ⟨entry, hentry, rfl⟩ := List.mem_map.mp hother
    have hmem : entry ∈ reads.entries := (List.mem_filter.mp hentry).1
    -- somebody waits already, so the round was open and has been joined
    have hpending := hmatch.pending_iff.mpr (List.ne_nil_of_mem hmem)
    exact (hmatch.token entry.2 (List.mem_map_of_mem hmem)).trans (hjoin hpending)

/-- Closing the round that everybody waits for. -/
theorem finishReadIndex_closes {read : ReadIndexToken} (hround : r.round = read) :
    (r.finishReadIndex read).readIndexPending = false := by
  subst hround
  simp [Raft.finishReadIndex, Raft.round]

/-- `poll_read_indexes` settles what the call has left. -/
theorem pollReadIndexes_reads {n : Runtime D} (hpoll : Pollable n.raft n.raftReadIndexes) :
    ReadsMatch n.pollReadIndexes.raft n.pollReadIndexes.raftReadIndexes := by
  unfold pollReadIndexes
  split
  next hempty =>
    rcases hpoll with hmatch | ⟨-, hclosed⟩
    · exact hmatch
    · refine ⟨by simpa [hclosed] using hempty, fun h => by simp [hclosed] at h,
        fun read hread => ?_⟩
      rw [List.isEmpty_iff] at hempty
      simp [Table.values, hempty] at hread
  next hwaiting =>
    split
    next hstate =>
      have hclosed : n.raft.readIndexPending = false := by
        rcases hpoll with hmatch | ⟨-, hclosed⟩
        · exact Bool.eq_false_of_not_eq_true fun h => hstate (hmatch.leader h)
        · exact hclosed
      exact .of_closed hclosed
    next hleader =>
      have hmatch : ReadsMatch n.raft n.raftReadIndexes :=
        hpoll.resolve_right fun h => hleader h.1
      split
      · exact hmatch
      next ready hready =>
        have hround : ready = n.raft.round := hmatch.token ready (List.mem_of_find?_eq_some hready)
        -- everybody waits for the round that is ready, so nobody is left
        have hnobody : n.raftReadIndexes.filter (· ≠ ready) = Table.empty := by
          simp only [Table.filter, Table.empty, Table.mk.injEq, List.filter_eq_nil_iff]
          intro entry hentry
          have := hmatch.token entry.2 (List.mem_map_of_mem hentry)
          simp [this, hround]
        dsimp only
        rw [hnobody]
        exact .of_closed (finishReadIndex_closes hround.symm)

theorem cancelRaftRead_reads {n : Runtime D} (requestId : Nat)
    (hmatch : ReadsMatch n.raft n.raftReadIndexes) :
    ReadsMatch (n.cancelRaftRead requestId).raft (n.cancelRaftRead requestId).raftReadIndexes := by
  unfold cancelRaftRead
  split
  · exact hmatch
  next read hread =>
    have hsub : ∀ entry ∈ (n.raftReadIndexes.erase requestId).entries,
        entry ∈ n.raftReadIndexes.entries := fun entry hentry => (List.mem_filter.mp hentry).1
    have hmem : (requestId, read) ∈ n.raftReadIndexes.entries :=
      (n.raftReadIndexes.mem_entries_iff requestId read).mpr hread
    have hround : read = n.raft.round := hmatch.token read (List.mem_map_of_mem hmem)
    have htokens : ∀ token ∈ (n.raftReadIndexes.erase requestId).values, token = n.raft.round := by
      intro token htoken
      obtain ⟨entry, hentry, rfl⟩ := List.mem_map.mp htoken
      exact hmatch.token entry.2 (List.mem_map_of_mem (hsub entry hentry))
    have hopen : n.raft.readIndexPending = true :=
      hmatch.pending_iff.mpr (List.ne_nil_of_mem hmem)
    dsimp only
    split
    next hused =>
      obtain ⟨token, htoken, -⟩ := List.any_eq_true.mp hused
      obtain ⟨entry, hentry, -⟩ := List.mem_map.mp htoken
      exact ⟨⟨fun _ => List.ne_nil_of_mem hentry, fun _ => hopen⟩, hmatch.leader, htokens⟩
    next hunused =>
      -- whoever were left would wait for the same round
      have hnobody : n.raftReadIndexes.erase requestId = Table.empty := by
        have hnil : (n.raftReadIndexes.erase requestId).entries = [] := by
          rw [List.eq_nil_iff_forall_not_mem]
          intro entry hentry
          have hvalue : entry.2 ∈ (n.raftReadIndexes.erase requestId).values :=
            List.mem_map_of_mem hentry
          exact hunused (List.any_eq_true.mpr
            ⟨entry.2, hvalue, by simp [htokens entry.2 hvalue, hround]⟩)
        generalize n.raftReadIndexes.erase requestId = left at hnil
        cases left
        simpa [Table.empty] using hnil
      rw [hnobody]
      exact .of_closed (finishReadIndex_closes hround.symm)

/-! ## Tasks and runs -/

/-- Storage that has failed has stopped the node, and a node with working storage has its
reads in order. -/
structure ReadsSettled (n : Runtime D) : Prop where
  stopped : n.raft.storageFailed = true → n.stopping = true
  busy : n.waiting ≠ none → n.raft.storageFailed = false
  settled : n.raft.storageFailed = false → ReadsMatch n.raft n.raftReadIndexes

variable {n m : Runtime D}

theorem ReadsSettled.storeSide (hsettled : ReadsSettled n) (hside : StoreSide n m) :
    ReadsSettled m where
  stopped h := hside.stopping (hsettled.stopped (hside.raft ▸ h))
  busy h := by
    rw [hside.raft]
    exact hsettled.busy (hside.waiting ▸ h)
  settled h := by
    rw [hside.raft, hside.reads]
    exact hsettled.settled (hside.raft ▸ h)

/-- After a call, `after_raft_activity` settles the reads or stops the node. -/
theorem afterRaftActivity_settled (turn : Turn) (hwaiting : n.waiting = none)
    (hpoll : n.raft.storageFailed = false → Pollable n.raft n.raftReadIndexes) :
    ReadsSettled (n.afterRaftActivity turn).1 := by
  cases hstorage : n.raft.storageFailed with
  | true =>
      obtain ⟨ended, -, heq⟩ := afterRaftActivity_failed turn hstorage
      rw [heq]
      exact ⟨fun _ => rfl, fun h => absurd hwaiting h, fun h => by simp [hstorage] at h⟩
  | false =>
      obtain ⟨activity, heq⟩ := afterRaftActivity_healthy turn hstorage
      have hmatch := pollReadIndexes_reads (hpoll hstorage)
      have hhealthy : n.pollReadIndexes.raft.storageFailed = false := by
        obtain ⟨_, _, _, _, hpolled⟩ := sameButRound_pollReadIndexes n
        rw [hpolled]
        exact hstorage
      rw [heq]
      refine ⟨fun h => ?_, fun h => absurd hwaiting h, fun _ => ?_⟩
      · exact absurd (hhealthy.symm.trans h) (by simp)
      · exact ⟨hmatch.pending_iff, hmatch.leader, hmatch.token⟩

theorem ReadsSettled.healthy (hsettled : ReadsSettled n) (hrunning : n.stopping = false) :
    n.raft.storageFailed = false :=
  Bool.eq_false_of_not_eq_true fun h => by simp [hsettled.stopped h] at hrunning

/-- Members that the reads do not depend on. -/
theorem ReadsSettled.of_eq (hsettled : ReadsSettled n) (hraft : m.raft = n.raft)
    (hreads : m.raftReadIndexes = n.raftReadIndexes)
    (hwaiting : m.waiting ≠ none → n.raft.storageFailed = false)
    (hstopping : n.stopping = true → m.stopping = true) : ReadsSettled m where
  stopped h := hstopping (hsettled.stopped (hraft ▸ h))
  busy h := by
    rw [hraft]
    exact hwaiting h
  settled h := by
    rw [hraft, hreads]
    exact hsettled.settled (hraft ▸ h)

theorem cancelRaftRead_settled (hsettled : ReadsSettled n) (requestId : Nat) :
    ReadsSettled (n.cancelRaftRead requestId) := by
  have hframe : (n.cancelRaftRead requestId).raft.storageFailed = n.raft.storageFailed ∧
      (n.cancelRaftRead requestId).stopping = n.stopping ∧
      (n.cancelRaftRead requestId).waiting = n.waiting := by
    obtain ⟨_, _, ⟨_, _, _, _, rfl⟩, heq⟩ := n.cancelRaftRead_frame requestId
    rw [heq]
    exact ⟨rfl, rfl, rfl⟩
  obtain ⟨hstorage, hstopping, hwaiting⟩ := hframe
  refine ⟨fun h => ?_, fun h => ?_, fun h => ?_⟩
  · rw [hstopping]
    exact hsettled.stopped (hstorage ▸ h)
  · rw [hstorage]
    exact hsettled.busy (hwaiting ▸ h)
  · exact cancelRaftRead_reads requestId (hsettled.settled (hstorage ▸ h))

variable [Blob D]

theorem callRaft_settled (turn : Turn) (verdict : Bool) (input : Input D)
    (hsettled : ReadsSettled n) (hhealthy : n.raft.storageFailed = false)
    (hraft : m.raft = (n.raft.arm (turn.env verdict)).step input)
    (hreads : m.raftReadIndexes = n.raftReadIndexes) (hwaiting : m.waiting = none)
    (hread : input ≠ .readIndex) (hfinish : ∀ read, input ≠ .finishRead read) :
    ReadsSettled (m.afterRaftActivity turn).1 := by
  refine afterRaftActivity_settled turn hwaiting fun _ => ?_
  have hmatch := hsettled.settled hhealthy
  have harmed : ReadsMatch (n.raft.arm (turn.env verdict)) n.raftReadIndexes :=
    ⟨hmatch.pending_iff, hmatch.leader, hmatch.token⟩
  rw [hraft, hreads]
  exact harmed.step hread hfinish

theorem readTask_settled (turn : Turn) (hsettled : ReadsSettled n) (hwaiting : n.waiting = none)
    (hrunning : n.stopping = false) (requestId : Nat) :
    ReadsSettled (n.readTask turn requestId).1 := by
  have hmatch := hsettled.settled (hsettled.healthy hrunning)
  have harmed : ReadsMatch (n.raft.arm (turn.env false)) n.raftReadIndexes :=
    ⟨hmatch.pending_iff, hmatch.leader, hmatch.token⟩
  unfold readTask
  generalize n.raft.arm (turn.env false) = armed at *
  dsimp only
  split
  next hread =>
    refine afterRaftActivity_settled turn hwaiting fun hhealthy => .inl ?_
    have hsame : armed.readIndex.1 = armed := Raft.readIndex_none hread hhealthy
    rw [show (postStore { n with raft := armed.readIndex.1 } _).raft = armed.readIndex.1 from rfl,
      hsame]
    exact harmed
  next read hread =>
    refine afterRaftActivity_settled turn hwaiting fun _ => .inl ?_
    exact harmed.readIndex hread requestId

theorem acknowledgeTask_settled (turn : Turn) (hsettled : ReadsSettled n)
    (hwaiting : n.waiting = none) (hrunning : n.stopping = false) (index : Nat) :
    ReadsSettled (n.acknowledgeTask turn index).1 := by
  have hhealthy := hsettled.healthy hrunning
  unfold acknowledgeTask
  split
  · exact hsettled
  · split
    · exact hsettled.storeSide (requestStop_storeSide n _)
    · dsimp only
      split
      next hrejected =>
        have hadvance : ReadsSettled (n.callRaft turn false (.advance index)) := by
          have hmatch := hsettled.settled hhealthy
          unfold callRaft
          simp only [Raft.step, Raft.advance]
          split <;> exact ⟨hsettled.stopped, hsettled.busy,
            fun _ => ⟨hmatch.pending_iff, hmatch.leader, hmatch.token⟩⟩
        exact hadvance.storeSide (requestStop_storeSide _ _)
      · exact callRaft_settled turn false (.advance index) hsettled hhealthy rfl rfl hwaiting
          (by simp) (by simp)

theorem handleRaftMessage_settled (turn : Turn) (hsettled : ReadsSettled n)
    (hwaiting : n.waiting = none) (hrunning : n.stopping = false) (msg : Message D) :
    ReadsSettled (n.handleRaftMessage turn msg).1 := by
  have hhealthy := hsettled.healthy hrunning
  unfold handleRaftMessage
  split
  · exact hsettled
  · split
    · exact hsettled.of_eq rfl rfl (fun _ => hhealthy) id
    · exact callRaft_settled turn false (.message msg) hsettled hhealthy rfl rfl hwaiting (by simp)
        (by simp)

theorem runRaftTask_settled (turn : Turn) (hsettled : ReadsSettled n) (hwaiting : n.waiting = none)
    (task : RaftTask D) : ReadsSettled (n.runRaftTask turn task).1 := by
  cases task with
  | message msg =>
      rw [runRaftTask]
      split
      · exact hsettled
      next hrunning =>
        exact handleRaftMessage_settled turn hsettled hwaiting (by simpa using hrunning) msg
  | propose requestId bytes =>
      rw [runRaftTask]
      split
      · exact hsettled
      next hrunning =>
        have hhealthy := hsettled.healthy (by simpa using hrunning)
        unfold proposeTask
        dsimp only
        split <;> exact callRaft_settled turn false (.propose bytes) hsettled hhealthy rfl rfl
          hwaiting (by simp) (by simp)
  | read requestId =>
      rw [runRaftTask]
      split
      · exact hsettled
      next hrunning => exact readTask_settled turn hsettled hwaiting (by simpa using hrunning) _
  | acknowledge index =>
      rw [runRaftTask]
      split
      · exact hsettled
      next hrunning =>
        exact acknowledgeTask_settled turn hsettled hwaiting (by simpa using hrunning) _
  | cancelRead requestId => exact cancelRaftRead_settled hsettled requestId
  | takeSnapshot index state =>
      rw [runRaftTask]
      dsimp only
      split
      · exact hsettled.of_eq rfl rfl (fun h => absurd hwaiting h) id
      next hrunning =>
        exact callRaft_settled turn false (.takeSnapshot index state) hsettled
          (hsettled.healthy (by simpa using hrunning)) rfl rfl hwaiting (by simp) (by simp)
  | stop => exact hsettled.of_eq rfl rfl hsettled.busy id

theorem resume_settled (turn : Turn) (msg : Message D) (verdict : Bool)
    (hsettled : ReadsSettled n) (hwaiting : n.waiting = some (turn, msg)) :
    ReadsSettled (n.resume turn msg verdict).1 := by
  have hhealthy : n.raft.storageFailed = false := hsettled.busy (by simp [hwaiting])
  unfold resume
  dsimp only
  split <;> exact callRaft_settled turn verdict (.message msg) hsettled hhealthy rfl rfl rfl
    (by simp) (by simp)

variable {codec : StoreCodec D}

theorem Happens.settled {event : Event D} {result : Runtime D × List (Message D)}
    (hsettled : ReadsSettled n) (hhappens : Happens codec n event result) :
    ReadsSettled result.1 := by
  cases hhappens with
  | receive msg => exact hsettled.storeSide (postRaft_storeSide n _)
  | tick turn hidle =>
      unfold Runtime.tick
      split
      · exact hsettled
      next hrunning =>
        exact callRaft_settled turn false .tick hsettled
          (hsettled.healthy (by simpa using hrunning)) rfl rfl hidle (by simp) (by simp)
  | raft turn task rest hidle =>
      have hrest : ReadsSettled { n with raftTasks := rest } :=
        hsettled.of_eq rfl rfl hsettled.busy id
      exact runRaftTask_settled turn hrest hidle task
  | store task rest =>
      have hrest : ReadsSettled { n with storeTasks := rest } :=
        hsettled.of_eq rfl rfl hsettled.busy id
      exact hrest.storeSide (runStoreTask_storeSide _ task)
  | restored turn msg verdict hwaiting => exact resume_settled turn msg verdict hsettled hwaiting
  | timeout turn msg hwaiting =>
      have hside := requestStop_storeSide n .restoreTimedOut
      exact resume_settled turn msg false (hsettled.storeSide hside) (hside.waiting.trans hwaiting)
  | write type strs => exact hsettled.storeSide (beginWrite_storeSide n type strs)
  | read key => exact hsettled.storeSide (beginRead_storeSide n key)
  | expire writes reads => exact hsettled.storeSide (expireClientRequests_storeSide n writes reads)
  | signal => exact hsettled.storeSide (stopOnce_storeSide n)

/-- A node starts without a round and without reads. -/
theorem new_settled {config : Config} {draws : List Nat} {requestId : Nat} {file : List (Record D)}
    (hnew : new codec config draws requestId file = some n) : ReadsSettled n := by
  obtain ⟨hboot, hidle, hreads⟩ := new_boot hnew
  have hbooted := boot_booted hboot
  refine ⟨fun h => by simp [hbooted.healthy] at h, fun h => absurd hidle h, fun _ => ?_⟩
  rw [hreads]
  exact .of_closed hbooted.noRead

theorem Reach.settled {config : Config} {Ok : Runtime D → Event D → Prop}
    (hreach : Reach codec config Ok n) : ReadsSettled n := by
  induction hreach with
  | start draws requestId n hnew => exact new_settled hnew
  | step n event next sent _ _ hstep ih => exact (step_happens hstep).settled ih
  | crash n k draws requestId next _ hnew => exact new_settled hnew

/-- No read round is orphaned and none is left open: after every task, while storage works,
a round is open exactly when a read waits, only a leader has one, and every waiting read
holds its token. -/
theorem read_rounds_attended {config : Config} (hreach : Reach codec config AnyEvent n)
    (hhealthy : n.raft.storageFailed = false) :
    (n.raft.readIndexPending = true ↔ n.raftReadIndexes.entries ≠ []) ∧
      (n.raft.readIndexPending = true → n.raft.state = .leader) ∧
      ∀ requestId read, n.raftReadIndexes.get? requestId = some read →
        read = ⟨n.raft.pendingReadContext, n.raft.pendingReadIndex⟩ := by
  have hmatch := hreach.settled.settled hhealthy
  refine ⟨hmatch.pending_iff, hmatch.leader, fun requestId read hread => ?_⟩
  have hmem := (n.raftReadIndexes.mem_entries_iff requestId read).mpr hread
  exact hmatch.token read (List.mem_map_of_mem hmem)

/-- Node 1 leads, and two reads share a round of its own entry. -/
def readTwice : List (Event Bytes) := electOne ++ [.read [107], .read [118], .raft {}, .raft {}]

theorem read_rounds_attended_readTwice :
    ∃ n : Runtime Bytes, Reach msgpackStoreCodec nodeOne AnyEvent n ∧
      n.raft.storageFailed = false ∧ n.raftReadIndexes.entries = [(2, ⟨1, 1⟩), (1, ⟨1, 1⟩)] ∧
      n.raft.readIndexPending = true ∧ n.raft.state = .leader := by
  have hplay : ((startOne.bind fun n => n.play msgpackStoreCodec AnyEvent readTwice).map fun n =>
      (n.raft.storageFailed, n.raftReadIndexes.entries)) =
      some (false, [(2, ⟨1, 1⟩), (1, ⟨1, 1⟩)]) := by
    decide +kernel
  obtain ⟨n, hn, heq⟩ := Option.map_eq_some_iff.mp hplay
  obtain ⟨hhealthy, hentries⟩ := Prod.mk.inj heq
  have hreach := Reach.of_startOne hn
  obtain ⟨hpending, hleader, -⟩ := read_rounds_attended hreach hhealthy
  have hopen : n.raft.readIndexPending = true := hpending.mpr (by simp [hentries])
  exact ⟨n, hreach, hhealthy, hentries, hopen, hleader hopen⟩

end RaftKv.Runtime
