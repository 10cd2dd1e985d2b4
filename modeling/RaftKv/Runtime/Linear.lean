import RaftKv.Runtime.Served
import RaftKv.Store.Captured

/-! # What a read sees of the writes before it

A write is answered once it is applied, so it has been decided by then, and a round of
reads that is opened later waits for an index that covers the decision. The store that
answers the read has applied the log up to that index. All of this breaks down for a read
that joins a round opened before the write was answered.
-/

namespace RaftKv

instance (codec : StoreCodec Capture) (command : Command) (e : Entry) :
    Decidable (Fleet.CarriesCommand codec command e) :=
  inferInstanceAs (Decidable (_ ∧ _))

namespace Fleet

open TermLog

variable {codec : StoreCodec Capture} {setup : Setup} {f g next : Fleet Capture} {c c' : Cluster}
  {past later : List RaftKv.Event} {a a' : Sys Nat Entry} {ledger : List Decision} {i n : Nat}
  {action : FleetAction Capture}

/-- A round that is confirmed after a state without an open round covers all that had been
decided in that state. -/
theorem Confirmed.covers {idle : Cluster} {d : Decision} {applied : Nat}
    (hno : ∀ i ∈ setup.members, setup.snapshotThreshold i = 0)
    (htrace : Trace setup Counted past idle) (hledgered : idle.Ledgered setup a ledger)
    (hn : n ∈ setup.members) (hnone : (idle.node n).readIndexPending = false)
    (hpath : Path setup Counted idle later c) (hconfirmed : Confirmed setup c n applied)
    (hd : d ∈ ledger) : d.index ≤ applied := by
  obtain ⟨more, mid, read, hmore, hsome, hready, rfl⟩ := hconfirmed
  have hwhole := hpath.trans hmore
  obtain ⟨event, hevent, hfirst⟩ := Path.first hwhole (by simp [hsome])
  exact ready_covers hno htrace hwhole hledgered hn ⟨event, hevent, by rw [hfirst]; exact hnone⟩
    hready hd

/-- If the read is on its way to the store, the store has applied these decisions. -/
def Covered (n id : Nat) (ledger : List Decision) (f : Fleet Capture) : Prop :=
  id ∈ (f.node n).completing → ∀ d ∈ ledger, d.index ≤ (f.node n).storeAppliedIndex

/-- From a state without an open round on, every read that goes to the store is covered. -/
theorem Served.covered {idle : Cluster} {before : List RaftKv.Event} {a₀ : Sys Nat Entry}
    {decided : List Decision} {id : Nat}
    (hno : ∀ i ∈ setup.members, setup.snapshotThreshold i = 0)
    (htrace : Trace setup Counted before idle) (hledgered : idle.Ledgered setup a₀ decided)
    (hn : n ∈ setup.members) (hnone : (idle.node n).readIndexPending = false)
    (hserved : Served codec setup f past c a ledger) (hpath : Path setup Counted idle later c)
    (hreach : Reach codec setup (Bounded codec) f) (hcovered : Covered n id decided f)
    (hsteps : Steps codec setup (Bounded codec) f g) :
    Covered n id decided g ∧ ∃ past' c' a' more, Grows a a' ∧
      Served codec setup g past' c' a' (more ++ ledger) := by
  suffices hrun : Covered n id decided g ∧ ∃ later' c' past' a' more,
      Path setup Counted idle later' c' ∧ Grows a a' ∧
        Served codec setup g past' c' a' (more ++ ledger) by
    obtain ⟨hfinal, _, c', past', a', more, -, hgrow, hlast⟩ := hrun
    exact ⟨hfinal, past', c', a', more, hgrow, hlast⟩
  induction hsteps with
  | refl => exact ⟨hcovered, later, c, past, a, [], hpath, .refl a, hserved⟩
  | tail hsteps hnext ih =>
      obtain ⟨hsofar, later', c', past', a', more, hpath', hgrow, hmid⟩ := ih
      obtain ⟨action, hok, hstep⟩ := hnext
      obtain ⟨later'', c'', a'', more', hpath'', hgrow', hlast, hcompletes⟩ :=
        hmid.step hno (hreach.steps hsteps) hok hstep
      refine ⟨fun hid d hd => ?_, later'' ++ later', c'', _, a'', more' ++ more,
        hpath'.trans hpath'', hgrow.trans hgrow', by rw [List.append_assoc]; exact hlast⟩
      rcases hcompletes n id hid with ⟨hold, hle⟩ | ⟨applied, hle, hconfirmed⟩
      · exact (hsofar hold d hd).trans hle
      · exact (Confirmed.covers hno htrace hledgered hn hnone hpath' hconfirmed hd).trans hle

/-- The answer of a read comes from the store, by the task that completes it. -/
theorem Accounted.value {created : List Entry} {m : Runtime Capture}
    {sent : List (Message Capture)} {event : Runtime.Event Capture} {id callback : Nat}
    {key : Bytes} {found : Option Bytes} (haccounted : Accounted codec setup created f)
    (hn : n ∈ setup.members) (hsettled : (f.node n).ReadsSettled)
    (hhappens : Runtime.Happens codec (f.node n) event (m, sent))
    (hrequest : m.requests[callback]? = some (.read id key))
    (hreply : (callback, Reply.value found) ∈ m.replies)
    (hnew : (callback, Reply.value found) ∉ (f.node n).replies) :
    id ∈ (f.node n).completing ∧ found = (f.node n).store.get key := by
  have hanswers := (hhappens.answers hsettled hreply).resolve_left hnew
  generalize hgiven : Reply.value found = given at hanswers
  cases hanswers with
  | applied _ _ _ _ _ _ _ _ _ _ _ _ _ _ hanswer =>
      subst hgiven
      exact hanswer.elim
  | refused => cases hgiven
  | givenUp => cases hgiven
  | read requestId pending _ hpending hanswer =>
      rcases hanswer with ⟨error, rfl⟩ | ⟨rest, -, hqueue, rfl⟩
      · cases hgiven
      · have hasked := ((haccounted.answering n hn).read requestId pending hpending).1
        have hkept := (hhappens.requested hsettled).keeps hasked
        obtain ⟨rfl, rfl⟩ := Request.read.inj (Option.some.inj (hkept.symm.trans hrequest))
        refine ⟨?_, Reply.value.inj hgiven⟩
        simp [Runtime.completing, hqueue, Runtime.completion?]

theorem Reach.value {id callback : Nat} {key : Bytes} {found : Option Bytes}
    (hreach : Reach codec setup Regular g) (hn : n ∈ setup.members)
    (hstep : g.step codec setup action = some next)
    (hrequest : (next.node n).requests[callback]? = some (.read id key))
    (hreply : (callback, Reply.value found) ∈ (next.node n).replies)
    (hnew : (callback, Reply.value found) ∉ (g.node n).replies) :
    id ∈ (g.node n).completing ∧ found = (g.node n).store.get key := by
  cases action with
  | event i event =>
      obtain ⟨-, -, m, sent, hevent, rfl⟩ := step_event hstep
      by_cases hni : n = i
      · subst hni
        rw [after_self] at hrequest hreply
        obtain ⟨created, haccounted⟩ := hreach.accounted
        exact haccounted.value hn (hreach.settled (fun _ _ h => h.1) hn)
          (Runtime.step_happens hevent) hrequest hreply hnew
      · rw [after_of_ne hni] at hreply
        exact absurd hreply hnew
  | restart i draws requestId =>
      obtain ⟨-, m, hnew', rfl⟩ := step_restart hstep
      by_cases hni : n = i
      · subst hni
        rw [restarted_self, (Runtime.new_started hnew').1.replies] at hreply
        cases hreply
      · rw [restarted_of_ne hni] at hreply
        exact absurd hreply hnew

/-- The applied part of a log has every decision that the store has reached. -/
theorem Served.holds {d : Decision} {e : Entry} (hserved : Served codec setup f past c a ledger)
    (hn : n ∈ setup.members) (hd : d ∈ ledger) (he : e ∈ d.entries a)
    (hle : d.index ≤ (f.node n).storeAppliedIndex) :
    e ∈ (f.node n).raft.log.take (f.node n).storeAppliedIndex := by
  have hindices := (hserved.followed.shadowed.node n hn).indices
  have hlog : (f.node n).raft.log = (c.node n).log := congrArg Indices.log hindices
  have hcommit : (f.node n).raft.commitIndex = (c.node n).commitIndex :=
    congrArg Indices.commit hindices
  have hledgered := hserved.followed.ledgered
  have hpre := hledgered.entries_isPrefix hn hd
    (hcommit ▸ hle.trans (hserved.replayed n hn).committed)
  rw [← hlog] at hpre
  refine List.IsPrefix.subset (List.prefix_take_iff.mpr ⟨hpre, ?_⟩) he
  rw [(hledgered.valid d hd).length_entries]
  exact hle

/-- A write that was answered with success is part of every store state that answers a later
read, if since the answer the reader's node has had no read round open for a moment. -/
theorem get_reads_answered_writes {codec : StoreCodec Capture} {setup : Setup}
    (hno : ∀ i ∈ setup.members, setup.snapshotThreshold i = 0) {f idle asks g next : Fleet Capture}
    (hreach : Reach codec setup (Bounded codec) f) {w n q p id : Nat} (hw : w ∈ setup.members)
    (hn : n ∈ setup.members) {command : Command} {answer : Reply}
    (hwrite : (f.node w).requests[q]? = some (.write command))
    (hanswered : (q, answer) ∈ (f.node w).replies) (hsuccess : Runtime.Success answer)
    (hidle : Steps codec setup (Bounded codec) f idle)
    (hhealthy : (idle.node n).raft.storageFailed = false)
    (hnone : (idle.node n).raft.readIndexPending = false)
    (hasks : Steps codec setup (Bounded codec) idle asks)
    (hcall : (asks.node n).raftTasks.head? = some (.read id))
    (hlater : Steps codec setup (Bounded codec) asks g) {action : FleetAction Capture}
    (hstep : g.step codec setup action = some next) {key : Bytes} {found : Option Bytes}
    (hread : (next.node n).requests[p]? = some (.read id key))
    (hreply : (p, Reply.value found) ∈ (next.node n).replies)
    (hnew : (p, Reply.value found) ∉ (g.node n).replies) :
    found = (g.node n).store.get key ∧
      (g.node n).storeAppliedIndex ≤ (g.node n).raft.commitIndex ∧
      KVStore.processAll codec ∅ ((g.node n).raft.log.take (g.node n).storeAppliedIndex) =
        some (g.node n).store ∧
      ∃ e ∈ (g.node n).raft.log.take (g.node n).storeAppliedIndex,
        CarriesCommand codec command e := by
  obtain ⟨past, c, a, ledger, hserved⟩ := hreach.served hno
  obtain ⟨d, hd, e, he, hcarries⟩ :=
    hserved.answered w hw q answer command hwrite hanswered hsuccess
  obtain ⟨later, c₁, a₁, more, -, hgrow, hstart⟩ := hserved.steps hno hreach hidle
  have hreach₁ := hreach.steps hidle
  have hclosed : (c₁.node n).readIndexPending = false := by
    have hsame := congrArg Raft.readIndexPending
      ((hstart.followed.shadowed.node n hn).same hhealthy)
    exact hsame.symm.trans hnone
  obtain ⟨later₂, c₂, a₂, more₂, hpath, hgrow₂, hasking⟩ := hstart.steps hno hreach₁ hasks
  -- the read is still in the queue of the Raft loop, so it is nowhere else
  have hnowhere : id ∉ (asks.node n).completing := by
    obtain ⟨rest, hqueue⟩ := List.head?_eq_some_iff.mp hcall
    have honce := (hasking.placed n hn).once
    simp only [Runtime.places, Runtime.queued, hqueue, List.filterMap_cons, Runtime.read?,
      List.cons_append, List.nodup_cons, List.mem_append, not_or] at honce
    exact honce.1.2
  obtain ⟨hcovered, past₃, c₃, a₃, more₃, hgrow₃, hserving⟩ := hasking.covered hno
    hstart.followed.trace hstart.followed.ledgered hn hclosed hpath (hreach₁.steps hasks)
    (fun hid => absurd hid hnowhere) hlater
  have hreached := (hreach₁.steps hasks).steps hlater
  obtain ⟨hid, hfound⟩ := hreached.regular.value hn hstep hread hreply hnew
  have hreplayed := hserving.replayed n hn
  refine ⟨hfound, hreplayed.committed, hreplayed.store, e, ?_, hcarries⟩
  have hd₁ : d ∈ more ++ ledger := List.mem_append_right _ hd
  refine hserving.holds hn (List.mem_append_right _ (List.mem_append_right _ hd₁)) ?_
    (hcovered hid d hd₁)
  rwa [(hserved.followed.ledgered.valid d hd).entries_grow ((hgrow.trans hgrow₂).trans hgrow₃)]

/-! ## Particular runs -/

/-- Node 1 leads term 1 with the vote of node 2, and sets a key for its client. -/
def setsOnce : List (Fleet Capture → FleetAction Capture) :=
  electsOne ++ [fun _ => .event 1 (.write .set [[107], [118]]), fun _ => .event 1 (.raft {})] ++
    deliver 2 8 ++ deliver 1 10 ++ [fun _ => .event 1 .store, fun _ => .event 1 (.raft {})]

/-- Node 2 confirms the round of reads that node 1 opens. -/
def confirms : List (Fleet Capture → FleetAction Capture) :=
  [fun _ => .event 1 (.raft {})] ++ deliver 2 11 ++ deliver 1 13

theorem get_reads_answered_writes_setsOnce :
    ∃ f asks g next, Reach captureStoreCodec (trio 0) (Bounded captureStoreCodec) f ∧
      (f.node 1).replies = [(0, .ok)] ∧
      Steps captureStoreCodec (trio 0) (Bounded captureStoreCodec) f asks ∧
      Steps captureStoreCodec (trio 0) (Bounded captureStoreCodec) asks g ∧
      g.step captureStoreCodec (trio 0) (.event 1 .store) = some next ∧
      (next.node 1).replies = [(0, .ok), (1, .value (some [118]))] ∧
      ∃ e ∈ (g.node 1).raft.log.take (g.node 1).storeAppliedIndex,
        CarriesCommand captureStoreCodec ⟨.set, [[107], [118]], 1, 1⟩ e := by
  have hplay : (((fresh captureStoreCodec rfl).play captureStoreCodec (trio 0)
      (Bounded captureStoreCodec) setsOnce).bind fun f =>
      (f.play captureStoreCodec (trio 0) (Bounded captureStoreCodec)
      [fun _ => .event 1 (.read [107])]).bind fun asks =>
      (asks.play captureStoreCodec (trio 0) (Bounded captureStoreCodec) confirms).bind fun g =>
      (g.step captureStoreCodec (trio 0) (.event 1 .store)).map fun next =>
        decide ((f.node 1).requests = [.write ⟨.set, [[107], [118]], 1, 1⟩] ∧
          (f.node 1).replies = [(0, .ok)] ∧ (f.node 1).raft.storageFailed = false ∧
          (f.node 1).raft.readIndexPending = false ∧
          (asks.node 1).raftTasks.head? = some (.read 2) ∧ (g.node 1).replies = [(0, .ok)] ∧
          (next.node 1).requests[1]? = some (.read 2 [107]) ∧
          (next.node 1).replies = [(0, .ok), (1, .value (some [118]))])) = some true := by
    decide +kernel
  obtain ⟨f, hf, hbind⟩ := Option.bind_eq_some_iff.mp hplay
  obtain ⟨asks, hasks, hbind⟩ := Option.bind_eq_some_iff.mp hbind
  obtain ⟨g, hg, hbind⟩ := Option.bind_eq_some_iff.mp hbind
  obtain ⟨next, hstep, heq⟩ := Option.map_eq_some_iff.mp hbind
  obtain ⟨hwrite, hanswered, hhealthy, hnone, hcall, hbefore, hread, hreplies⟩ :=
    of_decide_eq_true heq
  have hreach : Reach captureStoreCodec (trio 0) (Bounded captureStoreCodec) f :=
    ⟨fresh captureStoreCodec rfl, fresh_initial captureStoreCodec rfl, .of_play hf⟩
  have hfirst : (f.node 1).requests[0]? = some (.write ⟨.set, [[107], [118]], 1, 1⟩) := by
    rw [hwrite]
    rfl
  have hok : (0, Reply.ok) ∈ (f.node 1).replies := by simp [hanswered]
  have hreply : (1, Reply.value (some [118])) ∈ (next.node 1).replies := by simp [hreplies]
  have hreads := get_reads_answered_writes (fun _ _ => rfl) hreach (by decide) (by decide) hfirst
    hok trivial .refl hhealthy hnone (.of_play hasks) hcall (.of_play hg) hstep hread hreply
    (by simp [hbefore])
  exact ⟨f, asks, g, next, hreach, hanswered, .of_play hasks, .of_play hg, hstep, hreplies,
    hreads.2.2.2⟩

/-- A read opens a round at node 1, and node 3 confirms it with a message that is slow. Node 2
then leads term 2 with the vote of node 3, and sets the key for its client. -/
def setsTwice : List (Fleet Capture → FleetAction Capture) :=
  setsOnce ++ [fun _ => .event 1 (.read [107]), fun _ => .event 1 (.raft {})] ++ deliver 3 12 ++
    [fun _ => .event 2 (.tick {}), fun _ => .event 3 (.tick {})] ++
    deliver 3 15 ++ deliver 2 18 ++ deliver 3 20 ++ deliver 2 21 ++
    [fun _ => .event 2 (.write .set [[107], [119]]), fun _ => .event 2 (.raft {})] ++
    deliver 3 25 ++ deliver 2 26 ++
    [fun _ => .event 2 .store, fun _ => .event 2 (.raft {}), fun _ => .event 2 .store]

/-- A second read joins the round, and the slow message arrives: the read is answered from a
store without the second write, which had been answered before the read was asked. -/
theorem joined_read_misses_answered_write :
    ∃ f asks g next, Reach captureStoreCodec (trio 0) (Bounded captureStoreCodec) f ∧
      (f.node 2).requests = [.write ⟨.set, [[107], [119]], 2, 1⟩] ∧
      (f.node 2).replies = [(0, .ok)] ∧ (f.node 1).requests.length = 2 ∧
      Steps captureStoreCodec (trio 0) (Bounded captureStoreCodec) f asks ∧
      (asks.node 1).raftTasks.head? = some (.read 3) ∧
      Steps captureStoreCodec (trio 0) (Bounded captureStoreCodec) asks g ∧
      g.step captureStoreCodec (trio 0) (.event 1 .store) = some next ∧
      (next.node 1).requests[2]? = some (.read 3 [107]) ∧
      (2, .value (some [118])) ∈ (next.node 1).replies ∧
      (2, .value (some [118])) ∉ (g.node 1).replies ∧
      ∀ e ∈ (g.node 1).raft.log,
        ¬ CarriesCommand captureStoreCodec ⟨.set, [[107], [119]], 2, 1⟩ e := by
  have hplay : (((fresh captureStoreCodec rfl).play captureStoreCodec (trio 0)
      (Bounded captureStoreCodec) setsTwice).bind fun f =>
      (f.play captureStoreCodec (trio 0) (Bounded captureStoreCodec)
      [fun _ => .event 1 (.read [107])]).bind fun asks =>
      (asks.play captureStoreCodec (trio 0) (Bounded captureStoreCodec)
        ([fun _ => .event 1 (.raft {})] ++ deliver 1 13)).bind fun g =>
      (g.step captureStoreCodec (trio 0) (.event 1 .store)).map fun next =>
        decide ((f.node 2).requests = [.write ⟨.set, [[107], [119]], 2, 1⟩] ∧
          (f.node 2).replies = [(0, .ok)] ∧ (f.node 1).requests.length = 2 ∧
          (asks.node 1).raftTasks.head? = some (.read 3) ∧
          (next.node 1).requests[2]? = some (.read 3 [107]) ∧
          (2, .value (some [118])) ∈ (next.node 1).replies ∧
          (2, .value (some [118])) ∉ (g.node 1).replies ∧
          ∀ e ∈ (g.node 1).raft.log,
            ¬ CarriesCommand captureStoreCodec ⟨.set, [[107], [119]], 2, 1⟩ e)) = some true := by
    decide +kernel
  obtain ⟨f, hf, hbind⟩ := Option.bind_eq_some_iff.mp hplay
  obtain ⟨asks, hasks, hbind⟩ := Option.bind_eq_some_iff.mp hbind
  obtain ⟨g, hg, hbind⟩ := Option.bind_eq_some_iff.mp hbind
  obtain ⟨next, hstep, heq⟩ := Option.map_eq_some_iff.mp hbind
  obtain ⟨hwrite, hanswered, hearlier, hcall, hread, hreply, hnew, hmissing⟩ :=
    of_decide_eq_true heq
  exact ⟨f, asks, g, next, ⟨fresh captureStoreCodec rfl, fresh_initial captureStoreCodec rfl,
    .of_play hf⟩, hwrite, hanswered, hearlier,
    .of_play hasks, hcall, .of_play hg, hstep, hread, hreply, hnew, hmissing⟩

end Fleet

end RaftKv
