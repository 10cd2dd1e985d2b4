import RaftKv.Runtime.Followed
import RaftKv.Runtime.Replayed

/-! # The processes serve what the cluster has decided

What holds in every state of the system, with the run of the cluster that it follows: each
store is the applied part of the node's log, each read is in one place, and a write that was
answered with success has been decided.
-/

namespace RaftKv.Fleet

open TermLog

variable {codec : StoreCodec Capture} {setup : Setup} {f g next : Fleet Capture} {c c' : Cluster}
  {past later : List RaftKv.Event} {a a' : Sys Nat Entry} {ledger : List Decision} {i n : Nat}
  {action : FleetAction Capture}

/-! ## Decided commands -/

/-- An entry with this command has been decided. -/
def Settled (codec : StoreCodec Capture) (a : Sys Nat Entry) (ledger : List Decision)
    (command : Command) : Prop :=
  ∃ d ∈ ledger, ∃ e ∈ d.entries a, CarriesCommand codec command e

theorem Settled.grow {command : Command} (hvalid : ∀ d ∈ ledger, d.Valid setup a)
    (hgrow : Grows a a') (more : List Decision) (hsettled : Settled codec a ledger command) :
    Settled codec a' (more ++ ledger) command := by
  obtain ⟨d, hd, e, he, hcarries⟩ := hsettled
  refine ⟨d, List.mem_append_right _ hd, e, ?_, hcarries⟩
  rwa [(hvalid d hd).entries_grow hgrow]

/-- Successful answers to writes are about decided commands. -/
def AnswersSettled (codec : StoreCodec Capture) (a : Sys Nat Entry) (ledger : List Decision)
    (n : Runtime Capture) : Prop :=
  ∀ callback answer command, n.requests[callback]? = some (.write command) →
    (callback, answer) ∈ n.replies → Runtime.Success answer → Settled codec a ledger command

/-! ## The system with its cluster -/

structure Served (codec : StoreCodec Capture) (setup : Setup) (f : Fleet Capture)
    (past : List RaftKv.Event) (c : Cluster) (a : Sys Nat Entry) (ledger : List Decision) :
    Prop where
  followed : Followed setup f past c a ledger
  replayed : ∀ i ∈ setup.members, (f.node i).Replayed codec
  placed : ∀ i ∈ setup.members, (f.node i).ReadsPlaced
  answered : ∀ i ∈ setup.members, AnswersSettled codec a ledger (f.node i)

theorem Started.placed {m : Runtime Capture} (hstarted : Runtime.Started m)
    (hreads : m.raftReadIndexes = Table.empty) : m.ReadsPlaced := by
  have hnothing : m.places = [] := by
    simp [Runtime.places, Runtime.queued, Runtime.completing, hstarted.raftTasks,
      hstarted.storeTasks, hreads, Table.keys, Table.empty]
  exact ⟨by simp [hnothing], by simp [hnothing]⟩

theorem Initial.served (hno : ∀ i ∈ setup.members, setup.snapshotThreshold i = 0)
    (hinitial : f.Initial codec setup) :
    Served codec setup f [] ⟨fun i => (f.node i).raft, []⟩ Sys.start [] where
  followed := hinitial.followed hno
  replayed i hi := by
    obtain ⟨draws, requestId, hnew⟩ := hinitial.2.2 i hi
    have hnothing : (Durable.start : Durable Capture).Accepts [] := trivial
    exact Runtime.new_replayed hnothing (by simp) hnew
  placed i hi := by
    obtain ⟨draws, requestId, hnew⟩ := hinitial.2.2 i hi
    exact Started.placed (Runtime.new_started hnew).1 (Runtime.new_boot hnew).2.2
  answered i hi callback answer command _ hreply := by
    obtain ⟨draws, requestId, hnew⟩ := hinitial.2.2 i hi
    rw [(Runtime.new_started hnew).1.replies] at hreply
    cases hreply

theorem Reach.regular (hreach : Reach codec setup (Bounded codec) f) :
    Reach codec setup Regular f := by
  obtain ⟨first, hinitial, hsteps⟩ := hreach
  refine ⟨first, hinitial, Relation.ReflTransGen.mono ?_ _ _ hsteps⟩
  exact fun _ _ ⟨action, hok, hstep⟩ => ⟨action, hok.1, hstep⟩

/-- The reads of a node that are on their way to its store after a step: those that were so
before, and those of a round that has just been confirmed. -/
def Completes (setup : Setup) (c : Cluster) (i : Nat) (n next : Runtime Capture) : Prop :=
  ∀ id ∈ next.completing,
    id ∈ n.completing ∧ n.storeAppliedIndex ≤ next.storeAppliedIndex ∨
      ∃ applied ≤ next.storeAppliedIndex, Confirmed setup c i applied

theorem Followed.start (hfollowed : Followed setup f past c a ledger) (hi : i ∈ setup.members) :
    (f.node i).raft.logOffset = 0 := by
  have hoffset := congrArg Indices.offset (hfollowed.shadowed.node i hi).indices
  exact hoffset.trans (hfollowed.ledgered.whole.node i hi).memory

/-- A write that is answered with success by this event has been decided. -/
theorem Followed.answersSettled {created : List Entry} {m : Runtime Capture}
    {sent : List (Message Capture)} {event : Runtime.Event Capture} {more : List Decision}
    (hold : AnswersSettled codec a' (more ++ ledger) (f.node i))
    (hfollowed : Followed setup (f.after i m sent) past c' a' (more ++ ledger))
    (haccounted : Accounted codec setup created f) (hi : i ∈ setup.members)
    (hid : (f.node i).config.id = i) (hsettled : (f.node i).ReadsSettled)
    (hsound : (f.node i).Sound codec)
    (hhappens : Runtime.Happens codec (f.node i) event (m, sent)) :
    AnswersSettled codec a' (more ++ ledger) m := by
  intro callback answer command hrequest hreply hsuccess
  by_cases hbefore : (callback, answer) ∈ (f.node i).replies
  · have hmade := (haccounted.answering i hi).made callback
      (List.mem_map.mpr ⟨(callback, answer), hbefore, rfl⟩)
    have hsame := (hhappens.requested hsettled).keeps (List.getElem?_eq_getElem hmade)
    refine hold callback answer command ?_ hbefore hsuccess
    rw [List.getElem?_eq_getElem hmade, ← hsame]
    exact hrequest
  · obtain ⟨entry, hcarries, -, -, hpos, hcommit, hat, -⟩ := haccounted.success hi hid hsettled
      hsound hhappens hrequest hreply hbefore hsuccess
    have hstart := hfollowed.start hi
    have hindices := (hfollowed.shadowed.node i hi).indices
    rw [after_self] at hstart hindices
    rw [hstart] at hpos hat
    have hmem : entry ∈ m.raft.log.take m.raft.commitIndex :=
      List.mem_of_getElem? (i := entry.index - 0 - 1) (by
        rw [List.getElem?_take_of_lt (by omega)]
        exact hat)
    rw [show m.raft.log = (c'.node i).log from congrArg Indices.log hindices,
      show m.raft.commitIndex = (c'.node i).commitIndex from
        congrArg Indices.commit hindices] at hmem
    obtain ⟨d, hd, he⟩ := hfollowed.ledgered.exists_decision hi hmem
    exact ⟨d, hd, entry, he, hcarries⟩

theorem Served.event {m : Runtime Capture} {sent : List (Message Capture)}
    {event : Runtime.Event Capture} (hno : ∀ i ∈ setup.members, setup.snapshotThreshold i = 0)
    (hserved : Served codec setup f past c a ledger)
    (hreach : Reach codec setup (Bounded codec) f) (hok : f.Bounded codec (.event i event))
    (hi : i ∈ setup.members) (hmay : f.mayHappen i event = true)
    (hstep : (f.node i).step codec event = some (m, sent)) :
    ∃ later c' a' more, Path setup Counted c later c' ∧ Grows a a' ∧
      Served codec setup (f.after i m sent) (later ++ past) c' a' (more ++ ledger) ∧
      Completes setup c i (f.node i) m := by
  have hnode := hreach.regular.node (fun _ _ h => h.1) hi
  have hsettled := hnode.settled
  have hsound := hnode.sound
  have hnext : m.Sound codec := (hnode.step _ event m sent hok.1.1 hstep).sound
  have hhappens := Runtime.step_happens hstep
  have hplain := hserved.followed.shadowed.plain i hi
  have htypes := hserved.followed.types hi
  obtain ⟨created, haccounted⟩ := hreach.regular.accounted
  obtain ⟨first, hnumbered⟩ := hreach.regular.numbered (fun _ _ h => h.1) hi
  obtain ⟨later, c', a', more, hpath, hgrow, hfollowed, hmoved⟩ :=
    hserved.followed.event hno hi hsettled hok hmay hstep
  have hstart : m.raft.logOffset = 0 := by
    have h := hfollowed.start hi
    rwa [after_self] at h
  obtain ⟨hreplayed, hextends⟩ :=
    (hserved.replayed i hi).happens hsound hsettled hplain htypes hhappens hstart
  have hanswers : ∀ j ∈ setup.members, AnswersSettled codec a' (more ++ ledger) (f.node j) :=
    fun j hj callback answer command hrequest hreply hsuccess =>
      (hserved.answered j hj callback answer command hrequest hreply hsuccess).grow
        hserved.followed.ledgered.valid hgrow more
  refine ⟨later, c', a', more, hpath, hgrow, ⟨hfollowed, ?_, ?_, ?_⟩, fun id hid => ?_⟩
  · intro j hj
    by_cases hji : j = i
    · subst hji
      rw [after_self]
      exact hreplayed
    · rw [after_of_ne hji]
      exact hserved.replayed j hj
  · intro j hj
    by_cases hji : j = i
    · subst hji
      rw [after_self]
      refine (hserved.placed j hj).happens hsettled hplain hnumbered htypes ?_ hhappens
      rintro key rfl
      exact hok.2.2
    · rw [after_of_ne hji]
      exact hserved.placed j hj
  · intro j hj
    by_cases hji : j = i
    · subst hji
      rw [after_self]
      exact hfollowed.answersSettled (hanswers j hj) haccounted hj
        (congrArg Config.id hnode.config_eq) hsettled hsound hhappens
    · rw [after_of_ne hji]
      exact hanswers j hj
  · rcases hmoved.completing id hid with hold | ⟨-, hhealthy, hconfirmed⟩
    · exact .inl ⟨hold, hextends.le⟩
    · have hphase := (hnext.handoff hhealthy).phase
      exact .inr ⟨m.raft.lastApplied, (hphase.reached_le hnext.posted.mirrors.sane.ordered).1.trans
        hphase.reached_le_applied, hconfirmed⟩

theorem Served.restart {m : Runtime Capture} {draws : List Nat} {requestId : Nat}
    (hno : ∀ i ∈ setup.members, setup.snapshotThreshold i = 0)
    (hserved : Served codec setup f past c a ledger) (hi : i ∈ setup.members)
    (hnew : Runtime.new codec (setup.config i) draws requestId (f.node i).raft.synced = some m) :
    ∃ later c' a' more, Path setup Counted c later c' ∧ Grows a a' ∧
      Served codec setup (f.restarted i m) (later ++ past) c' a' (more ++ ledger) := by
  obtain ⟨later, c', a', more, hpath, hgrow, hfollowed⟩ := hserved.followed.restart hno hi hnew
  obtain ⟨hstarted, -, -⟩ := Runtime.new_started hnew
  have hsynced := (hserved.followed.shadowed.node i hi).synced
  have haccepts : (Durable.start : Durable Capture).Accepts (f.node i).raft.synced := by
    rw [hsynced]
    exact (hserved.followed.ledgered.refines.node i hi).mirrors.synced_accepts
  refine ⟨later, c', a', more, hpath, hgrow, hfollowed, ?_, ?_, ?_⟩
  · intro j hj
    by_cases hji : j = i
    · subst hji
      rw [restarted_self]
      refine Runtime.new_replayed haccepts ?_ hnew
      rw [hsynced]
      exact hserved.followed.files j hj
    · rw [restarted_of_ne hji]
      exact hserved.replayed j hj
  · intro j hj
    by_cases hji : j = i
    · subst hji
      rw [restarted_self]
      exact Started.placed hstarted (Runtime.new_boot hnew).2.2
    · rw [restarted_of_ne hji]
      exact hserved.placed j hj
  · intro j hj callback answer command hrequest hreply hsuccess
    by_cases hji : j = i
    · subst hji
      rw [restarted_self, hstarted.replies] at hreply
      cases hreply
    · rw [restarted_of_ne hji] at hrequest hreply
      exact (hserved.answered j hj callback answer command hrequest hreply hsuccess).grow
        hserved.followed.ledgered.valid hgrow more

theorem Served.step (hno : ∀ i ∈ setup.members, setup.snapshotThreshold i = 0)
    (hserved : Served codec setup f past c a ledger)
    (hreach : Reach codec setup (Bounded codec) f) (hok : f.Bounded codec action)
    (hstep : f.step codec setup action = some next) :
    ∃ later c' a' more, Path setup Counted c later c' ∧ Grows a a' ∧
      Served codec setup next (later ++ past) c' a' (more ++ ledger) ∧
      ∀ n, Completes setup c n (f.node n) (next.node n) := by
  have hsame : ∀ n : Nat, Completes setup c n (f.node n) (f.node n) :=
    fun n id hid => .inl ⟨hid, le_rfl⟩
  cases action with
  | event i event =>
      obtain ⟨hi, hmay, m, sent, hevent, rfl⟩ := step_event hstep
      obtain ⟨later, c', a', more, hpath, hgrow, hnext, hcompletes⟩ :=
        hserved.event hno hreach hok hi hmay hevent
      refine ⟨later, c', a', more, hpath, hgrow, hnext, fun n => ?_⟩
      by_cases hni : n = i
      · subst hni
        rw [after_self]
        exact hcompletes
      · rw [after_of_ne hni]
        exact hsame n
  | restart i draws requestId =>
      obtain ⟨hi, m, hnew, rfl⟩ := step_restart hstep
      obtain ⟨later, c', a', more, hpath, hgrow, hnext⟩ := hserved.restart hno hi hnew
      refine ⟨later, c', a', more, hpath, hgrow, hnext, fun n => ?_⟩
      by_cases hni : n = i
      · subst hni
        rw [restarted_self]
        intro id hid
        simp [Runtime.completing, (Runtime.new_started hnew).1.storeTasks] at hid
      · rw [restarted_of_ne hni]
        exact hsame n

theorem Reach.served (hno : ∀ i ∈ setup.members, setup.snapshotThreshold i = 0)
    (hreach : Reach codec setup (Bounded codec) f) :
    ∃ past c a ledger, Served codec setup f past c a ledger := by
  refine hreach.induction (motive := fun f => ∃ past c a ledger,
    Served codec setup f past c a ledger) ?_ ?_
  · intro f hinitial
    exact ⟨_, _, _, _, hinitial.served hno⟩
  · rintro f next action hreach ⟨past, c, a, ledger, hserved⟩ hok hstep
    obtain ⟨later, c', a', more, -, -, hnext, -⟩ := hserved.step hno hreach hok hstep
    exact ⟨_, _, _, _, hnext⟩

theorem Served.steps (hno : ∀ i ∈ setup.members, setup.snapshotThreshold i = 0)
    (hserved : Served codec setup f past c a ledger)
    (hreach : Reach codec setup (Bounded codec) f)
    (hsteps : Steps codec setup (Bounded codec) f g) :
    ∃ later c' a' more, Path setup Counted c later c' ∧ Grows a a' ∧
      Served codec setup g (later ++ past) c' a' (more ++ ledger) := by
  induction hsteps with
  | refl => exact ⟨[], c, a, [], .nil, .refl a, hserved⟩
  | tail hsteps hnext ih =>
      obtain ⟨later, c', a', more, hpath, hgrow, hmid⟩ := ih
      obtain ⟨action, hok, hstep⟩ := hnext
      obtain ⟨later', c'', a'', more', hpath', hgrow', hlast, -⟩ :=
        hmid.step hno (hreach.steps hsteps) hok hstep
      refine ⟨later' ++ later, c'', a'', more' ++ more, hpath.trans hpath', hgrow.trans hgrow', ?_⟩
      rw [List.append_assoc, List.append_assoc]
      exact hlast

end RaftKv.Fleet
