import RaftKv.Runtime.Refusal

/-! # What the reply to a write means

A write is answered at most once. A success is given when the store of the node itself has
just processed the committed entry with this very command, and the command is nowhere else
in its log. A write that was turned down because the node did not lead is in no log at all,
and never will be.
-/

namespace RaftKv

namespace Fleet

open RaftKv.Runtime

variable {D : Type} [Blob D] {codec : StoreCodec D} {setup : Setup} {f : Fleet D}
  {created : List Entry} {i : Nat}

/-- An entry that the store takes as the given command. -/
def CarriesCommand (codec : StoreCodec D) (command : Command) (e : Entry) : Prop :=
  KVStore.Carries e ∧ codec.unpackCommand e.data = some command

theorem Traced.of_carries (htraced : Traced codec setup created f) {command : Command} {e : Entry}
    (hknown : Known created e) (hcarries : CarriesCommand codec command e) :
    e ∈ created ∧ e.data = codec.packCommand command ∧
      ∃ i ∈ setup.members, Request.write command ∈ f.asked i := by
  have hmem : e ∈ created := hknown.resolve_left hcarries.1.2
  obtain ⟨i, hi, asked, hasked, hdata⟩ := htraced.origin e hmem
  have hunpack := hcarries.2
  rw [hdata, codec.unpack_pack] at hunpack
  obtain rfl := Option.some.inj hunpack
  exact ⟨hmem, hdata, i, hi, hasked⟩

/-- No two entries carry the same command. -/
theorem Traced.carries_eq (htraced : Traced codec setup created f) {command : Command} {a b : Entry}
    (ha : Known created a) (hb : Known created b) (hcarries : CarriesCommand codec command a)
    (hcarries' : CarriesCommand codec command b) : a = b := by
  obtain ⟨hmem, hdata, -⟩ := htraced.of_carries ha hcarries
  obtain ⟨hmem', hdata', -⟩ := htraced.of_carries hb hcarries'
  exact List.inj_on_of_nodup_map htraced.unique hmem hmem' (hdata.trans hdata'.symm)

/-- A success is the answer to the command that has just been processed. -/
theorem Accounted.success {n : Runtime D} {sent : List (Message D)} {event : Runtime.Event D}
    {callback : Nat} {answer : Reply} {command : Command}
    (haccounted : Accounted codec setup created f) (hi : i ∈ setup.members)
    (hid : (f.node i).config.id = i) (hsettled : ReadsSettled (f.node i))
    (hsound : Sound codec (f.node i)) (hhappens : Happens codec (f.node i) event (n, sent))
    (hrequest : n.requests[callback]? = some (.write command))
    (hreply : (callback, answer) ∈ n.replies) (hnew : (callback, answer) ∉ (f.node i).replies)
    (hsuccess : Success answer) :
    ∃ entry, CarriesCommand codec command entry ∧
      n.processed = (f.node i).processed ++ [entry] ∧ n.storeAppliedIndex = entry.index ∧
      n.raft.logOffset < entry.index ∧ entry.index ≤ n.raft.commitIndex ∧
      n.raft.log[entry.index - n.raft.logOffset - 1]? = some entry ∧
      ∀ k other, n.raft.log[k]? = some other → CarriesCommand codec command other →
        n.raft.logOffset + k + 1 = entry.index := by
  obtain ⟨htraced, -, hanswering⟩ := haccounted
  cases (hhappens.answers hsettled hreply).resolve_left hnew with
  | refused => exact hsuccess.elim
  | givenUp => exact hsuccess.elim
  | read requestId pending _ hpending =>
      have hget := ((hanswering i hi).read requestId pending hpending).1
      rw [(hhappens.requested hsettled).keeps hget] at hrequest
      cases hrequest
  | applied entry rest found _ _ hevent hqueue hrunning hcarries hunpack horigin hpending
      hprocessed happlied =>
      subst hevent
      obtain ⟨⟨pending, hget, hnumber⟩, -⟩ := (hanswering i hi).write _ callback hpending
      obtain rfl : pending = command := by
        rw [(hhappens.requested hsettled).keeps hget] at hrequest
        exact Request.write.inj (Option.some.inj hrequest)
      have hheld := (htraced.held i hi).handed entry (by simp [hqueue])
      obtain ⟨-, -, j, hj, hasked⟩ := htraced.of_carries hheld ⟨hcarries, hunpack⟩
      obtain rfl : j = i := (htraced.named j hj found hasked).symm.trans (horigin.trans hid)
      -- the command that was applied has the number of the one that waits
      obtain rfl := htraced.numbered j hj found pending hasked
        (List.mem_append_right _ (List.mem_of_getElem? hget)) hnumber.symm
      have hraft : n.raft = (f.node j).raft := by
        cases hhappens with
        | store task rest' hqueue' =>
            exact (runStoreTask_storeSide { f.node j with storeTasks := rest' } task).raft
      have hordered := hsound.posted.mirrors.sane.ordered
      obtain ⟨hindex, hentry, -, -, hcommit, -⟩ :=
        (hsound.handoff (hsettled.healthy hrunning)).handedEntry hordered hqueue
      have hoffset : (f.node j).raft.logOffset ≤ (f.node j).raft.lastApplied := hordered.offset_le
      rw [hraft]
      refine ⟨entry, ⟨hcarries, hunpack⟩, hprocessed, happlied, by omega, by omega, ?_, ?_⟩
      · rw [hindex]
        exact hentry
      · intro k other hother hcarries'
        have hknown := (htraced.held j hj).raft.log other (List.mem_of_getElem? hother)
        obtain rfl := htraced.carries_eq hknown hheld hcarries' ⟨hcarries, hunpack⟩
        exact (hordered.indexed k other hother).symm

variable [DecidableEq D]

/-- What a reply to a write means, in every state of every run: no callback is invoked twice;
a success is given by the step in which the node's own store has processed the entry with
this command, which is committed and the only one of the node's log to carry it; and a
command that was answered with NOT_LEADER is in no log and in no store, now and later. -/
theorem write_reply_meaning (hreach : Reach codec setup Regular f) :
    (∀ i ∈ setup.members, ((f.node i).replies.map Prod.fst).Nodup) ∧
    (∀ action next, f.Regular action → f.step codec setup action = some next →
      ∀ i ∈ setup.members, ∀ callback answer command,
        (next.node i).requests[callback]? = some (.write command) →
        (callback, answer) ∈ (next.node i).replies → (callback, answer) ∉ (f.node i).replies →
        Success answer →
        ∃ entry, CarriesCommand codec command entry ∧
          (next.node i).processed = (f.node i).processed ++ [entry] ∧
          (next.node i).storeAppliedIndex = entry.index ∧
          (next.node i).raft.logOffset < entry.index ∧
          entry.index ≤ (next.node i).raft.commitIndex ∧
          (next.node i).raft.log[entry.index - (next.node i).raft.logOffset - 1]? = some entry ∧
          ∀ k other, (next.node i).raft.log[k]? = some other → CarriesCommand codec command other →
            (next.node i).raft.logOffset + k + 1 = entry.index) ∧
    ∀ i ∈ setup.members, ∀ callback leader command,
      (f.node i).requests[callback]? = some (.write command) →
      (callback, Reply.error (.notLeader leader)) ∈ (f.node i).replies →
      ∀ later, Steps codec setup Regular f later → ∀ j ∈ setup.members,
        ∀ e ∈ (later.node j).raft.log ++ (later.node j).processed,
          ¬ CarriesCommand codec command e := by
  obtain ⟨created, haccounted⟩ := hreach.accounted
  have hnode := fun {i} (hi : i ∈ setup.members) => hreach.node (fun _ _ h => h.1) hi
  refine ⟨fun i hi => (haccounted.answering i hi).once, ?_, ?_⟩
  · intro action next hok hstep i hi callback answer command hrequest hreply hnew hsuccess
    cases action with
    | event node event =>
        obtain ⟨-, -, n, sent, hevent, rfl⟩ := step_event hstep
        by_cases hin : i = node
        · subst hin
          have hid : (f.node i).config.id = i := by
            rw [(hnode hi).config_eq]
            rfl
          rw [after_self] at hrequest hreply ⊢
          exact haccounted.success hi hid (hnode hi).settled (hnode hi).sound (step_happens hevent)
            hrequest hreply hnew hsuccess
        · rw [after_of_ne hin] at hreply
          exact absurd hreply hnew
    | restart node draws requestId =>
        obtain ⟨-, n, hstarted, rfl⟩ := step_restart hstep
        by_cases hin : i = node
        · subst hin
          rw [restarted_self] at hreply
          simp [(new_started hstarted).1.replies] at hreply
        · rw [restarted_of_ne hin] at hreply
          exact absurd hreply hnew
  · intro i hi callback leader command hrequest hreply later hsteps j hj e he hcarries
    have hdead := haccounted.refused.replies i hi callback leader command hreply hrequest
    obtain ⟨more, hmore, hlater⟩ := haccounted.steps hreach hsteps
    have hheld := hmore.traced.held j hj
    have hknown : Known more e := by
      rcases List.mem_append.mp he with hlog | hprocessed
      · exact hheld.raft.log e hlog
      · exact hheld.processed e hprocessed
    obtain ⟨hmem, hdata, -⟩ := hmore.traced.of_carries hknown hcarries
    exact (hlater command hdead).created (hdata ▸ List.mem_map_of_mem hmem)

/-- Node 1 leads and commits a write of its client with the help of node 2, which turns down
a write of its own. -/
def writesTwice : List (Fleet Bytes → FleetAction Bytes) :=
  electsOne ++ [fun _ => .event 1 (.write .set [[107], [118]]), fun _ => .event 1 (.raft {})] ++
    deliver 2 8 ++ deliver 1 10 ++
    [fun _ => .event 2 (.write .set [[107], [119]]), fun _ => .event 2 (.raft {}),
      fun _ => .event 2 .store]

theorem write_reply_meaning_writesTwice :
    ∃ f next, Reach msgpackStoreCodec (trio 0) Regular f ∧
      f.step msgpackStoreCodec (trio 0) (.event 1 .store) = some next ∧
      (f.node 1).replies = [] ∧ (next.node 1).replies = [(0, .ok)] ∧
      (∃ entry, CarriesCommand msgpackStoreCodec ⟨.set, [[107], [118]], 1, 1⟩ entry ∧
        (next.node 1).processed = (f.node 1).processed ++ [entry] ∧
        entry.index ≤ (next.node 1).raft.commitIndex) ∧
      (f.node 2).replies = [(0, .error (.notLeader 1))] ∧
      ∀ later, Steps msgpackStoreCodec (trio 0) Regular f later → ∀ j ∈ (trio 0).members,
        ∀ e ∈ (later.node j).raft.log ++ (later.node j).processed,
          ¬ CarriesCommand msgpackStoreCodec ⟨.set, [[107], [119]], 2, 1⟩ e := by
  have hplay : (((fresh msgpackStoreCodec rfl).play msgpackStoreCodec (trio 0) Regular
      writesTwice).bind fun f =>
      (f.step msgpackStoreCodec (trio 0) (.event 1 .store)).map fun next =>
        decide (f.Regular (.event 1 .store) ∧ (f.node 1).replies = [] ∧
          (f.node 2).replies = [(0, .error (.notLeader 1))] ∧
          (f.node 2).requests = [.write ⟨.set, [[107], [119]], 2, 1⟩] ∧
          (next.node 1).replies = [(0, .ok)] ∧
          (next.node 1).requests = [.write ⟨.set, [[107], [118]], 1, 1⟩])) = some true := by
    decide +kernel
  obtain ⟨f, hf, hbind⟩ := Option.bind_eq_some_iff.mp hplay
  obtain ⟨next, hstep, heq⟩ := Option.map_eq_some_iff.mp hbind
  obtain ⟨hregular, hbefore, hrefused, hasked, hanswered, hrequests⟩ := of_decide_eq_true heq
  have hreach : Reach msgpackStoreCodec (trio 0) Regular f :=
    ⟨fresh msgpackStoreCodec rfl, fresh_initial msgpackStoreCodec rfl, .of_play hf⟩
  obtain ⟨-, hsuccess, hdead⟩ := write_reply_meaning hreach
  obtain ⟨entry, hcarries, hprocessed, -, -, hcommit, -⟩ := hsuccess _ next hregular hstep 1
    (by decide) 0 .ok ⟨.set, [[107], [118]], 1, 1⟩ (by rw [hrequests]; rfl)
    (by simp [hanswered]) (by simp [hbefore]) trivial
  exact ⟨f, next, hreach, hstep, hbefore, hanswered, ⟨entry, hcarries, hprocessed, hcommit⟩,
    hrefused, hdead 2 (by decide) 0 1 _ (by rw [hasked]; rfl) (by simp [hrefused])⟩

end Fleet

/-! ## Numbers that come round

A write is known by its number. When the counter of a process has gone through all numbers, a
write gets the number of one that the process may still have to apply.
-/

namespace Runtime

variable {D : Type}

/-- The same node with the clients of `m`, and behind the tasks that `m` has queued. -/
def among (n m : Runtime D) : Runtime D :=
  { n with
    raftTasks := m.raftTasks ++ n.raftTasks
    pendingWrites := m.pendingWrites
    pendingReads := m.pendingReads
    nextRequestId := m.nextRequestId
    requests := m.requests
    replies := m.replies }

theorem requestStop_among (n m : Runtime D) (reason : StopReason) :
    (n.among m).requestStop reason = (n.requestStop reason).among m := by
  unfold requestStop stopOnce
  cases hstopping : n.stopping <;> simp [among, postRaft, hstopping]

theorem dispatchNextCommittedEntry_among (n m : Runtime D) :
    (n.among m).dispatchNextCommittedEntry = n.dispatchNextCommittedEntry.among m := by
  have hraft : (n.among m).raft = n.raft := rfl
  unfold dispatchNextCommittedEntry
  rw [hraft]
  change (if n.applyInFlight.isSome || n.stopping then _ else _) = _
  split
  · rfl
  · cases n.raft.nextEntryToApply <;> rfl

theorem pollReadIndexes_among (n m : Runtime D) :
    (n.among m).pollReadIndexes = n.pollReadIndexes.among m := by
  have hraft : (n.among m).raft = n.raft := rfl
  have hreads : (n.among m).raftReadIndexes = n.raftReadIndexes := rfl
  unfold pollReadIndexes
  rw [hraft, hreads]
  split
  · rfl
  · split
    · rfl
    · cases n.raftReadIndexes.values.find? n.raft.readIndexReady <;> rfl

theorem maybeCaptureSnapshot_among (n m : Runtime D) :
    (n.among m).maybeCaptureSnapshot = n.maybeCaptureSnapshot.among m := by
  unfold maybeCaptureSnapshot
  change (if n.snapshotCapturePending || !n.raft.shouldSnapshot then _ else _) = _
  split <;> rfl

theorem flushRaftMessages_among (turn : Turn) (n m : Runtime D) :
    ((n.among m).flushRaftMessages turn).1 = (n.flushRaftMessages turn).1.among m := by
  have hraft : (n.among m).raft = n.raft := rfl
  have hconfig : (n.among m).config = n.config := rfl
  unfold flushRaftMessages
  rw [hraft, hconfig]
  dsimp only
  cases (sendAll (n.config.peers.filter (· ≠ n.config.id)) turn.sends n.raft.readMessages.2).2 with
  | none => rfl
  | some reason => exact requestStop_among { n with raft := n.raft.readMessages.1 } m reason

theorem afterRaftActivity_among (turn : Turn) (n m : Runtime D) :
    ((n.among m).afterRaftActivity turn).1 = (n.afterRaftActivity turn).1.among m := by
  have hfailed : (n.among m).raft.storageFailed = n.raft.storageFailed := rfl
  unfold afterRaftActivity
  rw [hfailed]
  split
  · exact requestStop_among n m _
  · rw [dispatchNextCommittedEntry_among, pollReadIndexes_among, maybeCaptureSnapshot_among,
      flushRaftMessages_among]

/-- A handler of the Raft loop does not look at the clients. -/
theorem handleRaftMessage_among [Blob D] (turn : Turn) (n m : Runtime D) (msg : Message D) :
    ((n.among m).handleRaftMessage turn msg).1 = (n.handleRaftMessage turn msg).1.among m := by
  have hcall : (n.among m).callRaft turn false (.message msg) =
      (n.callRaft turn false (.message msg)).among m := rfl
  unfold handleRaftMessage
  split
  · rfl
  · rw [hcall]
    change Prod.fst (if n.asksRestore turn msg && n.applyInFlight.isNone && !n.stopping then _
      else _) = _
    split
    · rfl
    · exact afterRaftActivity_among turn _ m

/-- The entry of a write that waits is processed, and its callback invoked. -/
theorem applyCommittedEntry_completes [Blob D] {codec : StoreCodec D} {n : Runtime D}
    {entry : Entry} {applied : KVStore × ApplyResult} {callback : Nat}
    (hrunning : n.stopping = false) (habove : n.storeAppliedIndex < entry.index)
    (hnext : entry.index = wrap64 (n.storeAppliedIndex + 1)) (hcarries : KVStore.Carries entry)
    (happly : n.store.apply codec entry = some applied)
    (horigin : applied.2.originNode = n.config.id) (hset : applied.2.type = .set)
    (hpending : n.pendingWrites.get? applied.2.requestId = some callback) :
    (n.applyCommittedEntry codec entry).replies = n.replies ++ [(callback, .ok)] ∧
      (n.applyCommittedEntry codec entry).requests = n.requests ∧
      (n.applyCommittedEntry codec entry).raft = n.raft ∧
      (n.applyCommittedEntry codec entry).processed = n.processed ++ [entry] := by
  rw [applyCommittedEntry, if_neg (by simp [hrunning]), if_neg (by omega), if_neg (by simp [hnext]),
    if_pos hcarries, happly]
  simp only [horigin, if_true, completeWrite, answerWrite, hpending, hset]
  exact ⟨rfl, rfl, rfl, rfl⟩

end Runtime

namespace Fleet

open RaftKv.Runtime

section

variable {D : Type} [Blob D] [DecidableEq D] {codec : StoreCodec D} {setup : Setup} {f : Fleet D}
  {i : Nat}

/-- Reads that the Raft loop has not got to. -/
theorem Steps.reads {Ok : Fleet D → FleetAction D → Prop} {first : Nat} {key : Bytes}
    (hi : i ∈ setup.members) (hok : ∀ f, Ok f (.event i (.read key)))
    (hnumbered : Numbered first (f.node i)) (count : Nat) :
    ∃ next, Steps codec setup Ok f next ∧ Numbered first (next.node i) ∧
      (next.node i).requests.length = (f.node i).requests.length + count ∧
      ∃ tasks reads id asked, next.node i = { f.node i with
        raftTasks := (f.node i).raftTasks ++ tasks
        pendingReads := reads
        nextRequestId := id
        requests := asked } := by
  induction count with
  | zero => exact ⟨f, .refl, hnumbered, rfl, [], _, _, _, by rw [List.append_nil]⟩
  | succ count ih =>
      obtain ⟨next, hsteps, hnumbered', hlength, tasks, reads, id, asked, hnode⟩ := ih
      refine ⟨next.after i ((next.node i).beginRead key) [],
        hsteps.tail ⟨.event i (.read key), hok next, step_of_event hi rfl rfl⟩, ?_⟩
      rw [after_self]
      refine ⟨?_, ?_, tasks ++ [.read (next.node i).allocateRequestId.2],
        ((next.node i).beginRead key).pendingReads, ((next.node i).beginRead key).nextRequestId,
        ((next.node i).beginRead key).requests, ?_⟩ <;> rw [beginRead_frame]
      · exact hnumbered'.request rfl rfl rfl
      · simp only [List.length_append, hlength, List.length_singleton, Nat.add_assoc]
      · rw [hnode]
        simp only [List.append_assoc]

/-- No process ends, and log indices stay in range. -/
def Uninterrupted (f : Fleet D) : FleetAction D → Prop
  | .event node event => (f.node node).InRange event
  | .restart _ _ _ => False

instance decidableUninterrupted (f : Fleet D) (action : FleetAction D) :
    Decidable (f.Uninterrupted action) :=
  match action with
  | .event _ _ => inferInstanceAs (Decidable (Runtime.InRange _ _))
  | .restart _ _ _ => .isFalse id

end

/-- Node 1 leads and has sent out a write. Its client has waited for too long, and the
acknowledgement of node 2 is in the queue of the Raft loop. -/
def givesUp : List (Fleet Bytes → FleetAction Bytes) :=
  electsOne ++ [fun _ => .event 1 (.write .set [[107], [118]]), fun _ => .event 1 (.raft {})] ++
    deliver 2 8 ++ (deliver 1 10).take 1 ++ [fun _ => .event 1 (.expire [1] [])]

/-- The first write, its entry, and the second one. -/
def firstWrite : Command := ⟨.set, [[107], [118]], 1, 1⟩

def firstEntry : Entry :=
  { term := 1, index := 1, data := msgpackStoreCodec.packCommand firstWrite }

def secondWrite : Command := ⟨.set, [[107], [119]], 1, 1⟩

/-- Node 1, its queue taken away, after it has handled the acknowledgement. -/
def acknowledged (f : Fleet Bytes) (ack : Message Bytes) : Runtime Bytes :=
  ({ f.node 1 with raftTasks := [] }.handleRaftMessage {} ack).1

/-- What node 1 is like while the acknowledgement waits, and what it will make of it. -/
@[mk_iff]
structure Delayed (f : Fleet Bytes) (ack : Message Bytes) : Prop where
  tasks : (f.node 1).raftTasks = [.message ack]
  waiting : (f.node 1).waiting.isNone
  stopping : (f.node 1).stopping = false
  number : (f.node 1).nextRequestId = 2
  id : (f.node 1).config.id = 1
  requests : (f.node 1).requests = [.write firstWrite]
  forgotten : (f.node 1).pendingWrites.get? 1 = none
  replies : (f.node 1).replies = [(0, .error .outcomeUnknown)]
  room : (f.node 1).raft.lastLogIndex + 2 < 2 ^ 64
  handed : (acknowledged f ack).storeTasks = [.apply firstEntry]
  running : (acknowledged f ack).stopping = false
  store : (acknowledged f ack).store = ∅
  applied : (acknowledged f ack).storeAppliedIndex = 0
  sameId : (acknowledged f ack).config.id = 1
  log : (acknowledged f ack).raft.log = [firstEntry]
  processed : (acknowledged f ack).processed = []

instance decidableDelayed (f : Fleet Bytes) (ack : Message Bytes) : Decidable (Delayed f ack) :=
  decidable_of_iff' _ (delayed_iff f ack)

theorem delayed : ∃ f ack, Reach msgpackStoreCodec (trio 0) Uninterrupted f ∧ Delayed f ack := by
  have hplay : (((fresh msgpackStoreCodec rfl).play msgpackStoreCodec (trio 0) Uninterrupted
      givesUp).bind fun f => f.net[10]?.map fun ack => decide (Delayed f ack)) = some true := by
    decide +kernel
  obtain ⟨f, hf, hbind⟩ := Option.bind_eq_some_iff.mp hplay
  obtain ⟨ack, -, heq⟩ := Option.map_eq_some_iff.mp hbind
  exact ⟨f, ack, ⟨_, fresh_initial msgpackStoreCodec rfl, .of_play hf⟩, of_decide_eq_true heq⟩

theorem Delayed.numbered {f : Fleet Bytes} {ack : Message Bytes} (hdelayed : Delayed f ack) :
    Numbered 1 (f.node 1) where
  given k request hget := by
    rw [hdelayed.requests] at hget
    match k with
    | 0 =>
        obtain rfl := Option.some.inj hget
        rfl
    | k + 1 => cases hget
  next := by
    rw [hdelayed.requests, allocateRequestId, if_neg (by rw [hdelayed.number]; decide)]
    exact hdelayed.number

/-- A node of which the clients have asked something since: the number has come round, and the
second write has got the callback. -/
structure Reused (f next : Fleet Bytes) (callback : Nat) : Prop where
  tasks : ∃ rest, (next.node 1).raftTasks = (f.node 1).raftTasks ++ rest
  same : next.node 1 = { f.node 1 with raftTasks := [] }.among (next.node 1)
  pending : (next.node 1).pendingWrites.get? 1 = some callback
  asked : (next.node 1).requests[callback]? = some (.write secondWrite)
  replies : (next.node 1).replies = (f.node 1).replies

theorem Delayed.reused {f : Fleet Bytes} {ack : Message Bytes} (hdelayed : Delayed f ack) :
    ∃ next callback, Steps msgpackStoreCodec (trio 0) Uninterrupted f next ∧
      Reused f next callback := by
  obtain ⟨next, hsteps, hnumbered, hlength, tasks, reads, id, asked, hnode⟩ :=
    @Steps.reads Bytes _ _ msgpackStoreCodec (trio 0) f 1 Uninterrupted 1 [] (by decide)
      (fun _ => trivial) hdelayed.numbered (2 ^ 64 - 2)
  have hone : (next.node 1).allocateRequestId.2 = 1 := by
    rw [hnumbered.next, hlength, hdelayed.requests]
    decide
  have hid : (next.node 1).config.id = 1 := by
    rw [hnode]
    exact hdelayed.id
  have hfree : (next.node 1).pendingWrites.get? 1 = none := by
    rw [hnode]
    exact hdelayed.forgotten
  refine ⟨next.after 1 ((next.node 1).beginWrite msgpackStoreCodec .set [[107], [119]]) [],
    (next.node 1).requests.length,
    hsteps.tail ⟨.event 1 (.write .set [[107], [119]]), trivial, step_of_event (by decide) rfl rfl⟩,
    ?_⟩
  constructor <;> rw [after_self, beginWrite_frame]
  · exact ⟨tasks ++ [.propose (next.node 1).allocateRequestId.2 _],
      by rw [hnode, List.append_assoc]⟩
  · rw [hnode]
    simp only [among, List.append_nil]
  · simp only [hone, emplace, hfree]
    rw [if_neg (by simp), Table.get?_insert, if_pos rfl]
  · simp only [hone, hid, List.getElem?_concat_length, secondWrite]
  · simp only [hnode]

/-- What node 1 makes of the acknowledgement, whatever its clients have asked for. -/
theorem Reused.handles {f next : Fleet Bytes} {ack : Message Bytes} {callback : Nat}
    {rest : List (RaftTask Bytes)} (hdelayed : Delayed f ack) (hreused : Reused f next callback)
    (htasks : (next.node 1).raftTasks = .message ack :: rest) :
    ∃ sent, (next.node 1).step msgpackStoreCodec (.raft {}) =
      some ((acknowledged f ack).among { next.node 1 with raftTasks := rest }, sent) := by
  have hwaiting : (next.node 1).waiting = none := by
    rw [hreused.same]
    exact Option.isNone_iff_eq_none.mp hdelayed.waiting
  have hstopping : (next.node 1).stopping = false := by
    rw [hreused.same]
    exact hdelayed.stopping
  have hdequeued : { next.node 1 with raftTasks := rest } =
      { f.node 1 with raftTasks := [] }.among { next.node 1 with raftTasks := rest } := by
    conv_lhs => rw [hreused.same]
    simp only [among, List.append_nil]
  refine ⟨({ next.node 1 with raftTasks := rest }.handleRaftMessage {} ack).2, ?_⟩
  rw [acknowledged, ← handleRaftMessage_among, ← hdequeued]
  simp [Runtime.step, hwaiting, htasks, runRaftTask, hstopping]

theorem firstEntry_applies : ∃ applied,
    KVStore.apply msgpackStoreCodec ∅ firstEntry = some applied ∧ applied.2.originNode = 1 ∧
      applied.2.type = .set ∧ applied.2.requestId = 1 := by
  have hresult : (KVStore.apply msgpackStoreCodec ∅ firstEntry).map (fun applied =>
      (applied.2.originNode, applied.2.type, applied.2.requestId)) = some (1, .set, 1) := by
    decide +kernel
  obtain ⟨applied, happly, heq⟩ := Option.map_eq_some_iff.mp hresult
  simp only [Prod.mk.injEq] at heq
  exact ⟨applied, happly, heq⟩

/-- The entry completes whichever write has its number. -/
theorem Delayed.completes {f : Fleet Bytes} {ack : Message Bytes} {m : Runtime Bytes}
    {callback : Nat} (hdelayed : Delayed f ack)
    (hpending : m.pendingWrites.get? 1 = some callback) :
    ∃ n, ((acknowledged f ack).among m).step msgpackStoreCodec .store = some (n, []) ∧
      n.replies = m.replies ++ [(callback, .ok)] ∧ n.requests = m.requests ∧
      n.raft.log = [firstEntry] ∧ n.processed = [firstEntry] := by
  obtain ⟨applied, happly, horigin, hset, hid⟩ := firstEntry_applies
  have hhanded : ((acknowledged f ack).among m).storeTasks = [.apply firstEntry] := hdelayed.handed
  have happlied : ((acknowledged f ack).among m).storeAppliedIndex = 0 := hdelayed.applied
  have hstore : ((acknowledged f ack).among m).store = ∅ := hdelayed.store
  have hsame : ((acknowledged f ack).among m).config.id = 1 := hdelayed.sameId
  obtain ⟨hanswered, hrequests, hraft, hprocessed⟩ := @applyCommittedEntry_completes Bytes _
    msgpackStoreCodec { (acknowledged f ack).among m with storeTasks := [] } firstEntry applied
    callback hdelayed.running (by simp [happlied, firstEntry])
    (by simp [happlied, firstEntry, wrap64]) (by decide +kernel)
    (by simpa only [hstore] using happly) (by simp only [hsame, horigin]) hset
    (by rw [hid]; exact hpending)
  refine ⟨_, ?_, hanswered, hrequests, ?_, ?_⟩
  · simp only [Runtime.step, hhanded]
    rfl
  · rw [hraft]
    exact hdelayed.log
  · rw [hprocessed]
    exact congrArg (· ++ [firstEntry]) hdelayed.processed

/-- After 2^64 - 1 requests a number is given again. The client of the second write is told
that it has succeeded when the entry of the first one is applied; its own is in no log. -/
theorem unapplied_write_succeeds :
    ∃ f next, Reach msgpackStoreCodec (trio 0) Uninterrupted f ∧
      f.step msgpackStoreCodec (trio 0) (.event 1 .store) = some next ∧
      ∃ callback command, (next.node 1).requests[callback]? = some (.write command) ∧
        (callback, Reply.ok) ∈ (next.node 1).replies ∧
        (callback, Reply.ok) ∉ (f.node 1).replies ∧
        ∀ e ∈ (next.node 1).raft.log ++ (next.node 1).processed,
          ¬ CarriesCommand msgpackStoreCodec command e := by
  obtain ⟨f, ack, hreach, hdelayed⟩ := delayed
  obtain ⟨asked, callback, hsteps, hreused⟩ := hdelayed.reused
  obtain ⟨rest, htasks⟩ := hreused.tasks
  rw [hdelayed.tasks] at htasks
  obtain ⟨sent, hraft⟩ := hreused.handles hdelayed htasks
  obtain ⟨n, hstore, hreplies, hrequests, hlog, hprocessed⟩ :=
    @Delayed.completes f ack { asked.node 1 with raftTasks := rest } callback hdelayed
      hreused.pending
  have hroom : asked.Uninterrupted (.event 1 (.raft {})) := by
    change (asked.node 1).raft.lastLogIndex + 2 < 2 ^ 64
    rw [hreused.same]
    exact hdelayed.room
  have hother : ¬ CarriesCommand msgpackStoreCodec secondWrite firstEntry := by
    rintro ⟨-, hunpack⟩
    rw [firstEntry, msgpackStoreCodec.unpack_pack] at hunpack
    cases hunpack
  refine ⟨_, _, hreach.steps (hsteps.tail ⟨_, hroom, step_of_event (by decide) rfl hraft⟩),
    step_of_event (by decide) rfl (by rw [after_self]; exact hstore), callback, secondWrite,
    ?_, ?_, ?_, ?_⟩
  · rw [after_self, hrequests]
    exact hreused.asked
  · simp [after_self, hreplies]
  · simp [after_self, among, hreused.replies, hdelayed.replies]
  · rw [after_self, hlog, hprocessed]
    simpa using hother

end Fleet

end RaftKv
