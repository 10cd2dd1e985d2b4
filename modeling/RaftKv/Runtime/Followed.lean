import RaftKv.Runtime.Shadow
import RaftKv.Runtime.WriteReply

/-! # A run of the cluster for every run of the system

While no snapshots are taken, each run of the three processes is followed by a run of the
cluster of their Raft objects, so what is known about the cluster holds for the processes:
which entries were decided, and what a confirmed read covers.
-/

namespace RaftKv.Fleet

open TermLog

section Bounds

variable {D : Type} [Blob D]

/-- Logs stay within what a vector can hold. -/
def Fits (codec : StoreCodec D) (f : Fleet D) : FleetAction D → Prop
  | .event node event =>
      ∀ result ∈ (f.node node).step codec event, result.1.raft.log.length < maxLogSize
  | .restart _ _ _ => True

instance (codec : StoreCodec D) (f : Fleet D) (action : FleetAction D) :
    Decidable (f.Fits codec action) :=
  match action with
  | .event node event => inferInstanceAs (Decidable
      (∀ result ∈ (f.node node).step codec event, result.1.raft.log.length < maxLogSize))
  | .restart _ _ _ => .isTrue trivial

/-- Neither the numbers of reads nor those of their rounds come round to the first again. -/
def ReadsCounted (f : Fleet D) : FleetAction D → Prop
  | .event node (.read _) => (f.node node).requests.length + 1 < 2 ^ 64
  | .event node (.raft _) =>
      match (f.node node).raftTasks with
      | .read _ :: _ => (f.node node).raft.nextReadContext + 1 < 2 ^ 64
      | _ => True
  | _ => True

instance (f : Fleet D) (action : FleetAction D) : Decidable (f.ReadsCounted action) :=
  match action with
  | .event node (.read _) =>
      inferInstanceAs (Decidable ((f.node node).requests.length + 1 < 2 ^ 64))
  | .event node (.raft _) =>
      match htasks : (f.node node).raftTasks with
      | .read _ :: _ => decidable_of_iff ((f.node node).raft.nextReadContext + 1 < 2 ^ 64)
          (by simp only [ReadsCounted, htasks])
      | [] | .message _ :: _ | .propose _ _ :: _ | .acknowledge _ :: _ | .cancelRead _ :: _
      | .takeSnapshot _ _ :: _ | .stop :: _ => .isTrue (by simp only [ReadsCounted, htasks])
  | .event _ (.receive _) | .event _ (.tick _) | .event _ .store | .event _ .restored
  | .event _ .timeout | .event _ (.write _ _) | .event _ (.expire _ _) | .event _ .signal
  | .restart _ _ _ => .isTrue trivial

/-- Everything the code counts stays below what its integers hold. -/
def Bounded (codec : StoreCodec D) (f : Fleet D) (action : FleetAction D) : Prop :=
  f.Regular action ∧ f.Fits codec action ∧ f.ReadsCounted action

instance (codec : StoreCodec D) (f : Fleet D) (action : FleetAction D) :
    Decidable (f.Bounded codec action) :=
  inferInstanceAs (Decidable (_ ∧ _))

end Bounds

variable {codec : StoreCodec Capture} {setup : Setup} {f next : Fleet Capture} {c : Cluster}
  {past later : List RaftKv.Event} {a : Sys Nat Entry} {ledger : List Decision} {i : Nat}

/-- The cluster has the Raft objects of the processes, and every message of theirs. -/
structure Shadowed (setup : Setup) (f : Fleet Capture) (c : Cluster) : Prop where
  node : ∀ i ∈ setup.members, (f.node i).raft.Shadows (c.node i)
  net : ∀ msg ∈ f.net, msg ∈ c.net
  queued : ∀ i ∈ setup.members, ∀ msg, RaftTask.message msg ∈ (f.node i).raftTasks →
    msg ∈ c.net ∧ msg.receiver = i
  plain : ∀ i ∈ setup.members, (f.node i).Plain

/-- A run of the cluster that goes with the run of the system, and what was decided in it. -/
structure Followed (setup : Setup) (f : Fleet Capture) (past : List RaftKv.Event) (c : Cluster)
    (a : Sys Nat Entry) (ledger : List Decision) : Prop where
  shadowed : Shadowed setup f c
  trace : Trace setup Counted past c
  ledgered : c.Ledgered setup a ledger
  files : ∀ i ∈ setup.members, (c.node i).PlainFile

theorem Followed.silent (hfollowed : Followed setup f past c a ledger) (hi : i ∈ setup.members)
    (hhealthy : (f.node i).raft.storageFailed = false) : (f.node i).raft.msgs = [] := by
  have hnode := hfollowed.shadowed.node i hi
  have hsame : (f.node i).raft.msgs = (c.node i).msgs := by
    have h := congrArg Raft.msgs (hnode.same hhealthy)
    exact h
  rw [hsame]
  exact (hfollowed.trace.elections.elector i hi).silent (hnode.failed ▸ hhealthy)

theorem Followed.types (hfollowed : Followed setup f past c a ledger) (hi : i ∈ setup.members) :
    ∀ msg, RaftTask.message msg ∈ (f.node i).raftTasks → msg.type ≠ .installSnapshot :=
  fun msg hmsg => hfollowed.ledgered.whole.net msg (hfollowed.shadowed.queued i hi msg hmsg).1

theorem Initial.followed (hno : ∀ i ∈ setup.members, setup.snapshotThreshold i = 0)
    (hinitial : f.Initial codec setup) :
    Followed setup f [] ⟨fun i => (f.node i).raft, []⟩ Sys.start [] := by
  have hstart : Cluster.Initial setup ⟨fun i => (f.node i).raft, []⟩ := by
    refine ⟨rfl, fun i hi => ?_⟩
    obtain ⟨draws, requestId, hnew⟩ := hinitial.2.2 i hi
    exact ⟨draws, (Runtime.new_boot hnew).1⟩
  refine ⟨⟨fun i _ => .refl _, by simp [hinitial.1], fun i hi msg hmsg => ?_, fun i hi => ?_⟩,
    .start _ hstart, hstart.ledgered hno, hstart.plainFile⟩
  · obtain ⟨draws, requestId, hnew⟩ := hinitial.2.2 i hi
    rw [(Runtime.new_started hnew).1.raftTasks] at hmsg
    cases hmsg
  · obtain ⟨draws, requestId, hnew⟩ := hinitial.2.2 i hi
    exact Runtime.new_plain (hno i hi) hnew

theorem Followed.event {n : Runtime Capture} {sent : List (Message Capture)}
    {event : Runtime.Event Capture} (hno : ∀ i ∈ setup.members, setup.snapshotThreshold i = 0)
    (hfollowed : Followed setup f past c a ledger) (hi : i ∈ setup.members)
    (hsettled : (f.node i).ReadsSettled) (hok : f.Bounded codec (.event i event))
    (hmay : f.mayHappen i event = true)
    (hstep : (f.node i).step codec event = some (n, sent)) :
    ∃ later c' a' more, Path setup Counted c later c' ∧ Grows a a' ∧
      Followed setup (f.after i n sent) (later ++ past) c' a' (more ++ ledger) ∧
      ReadsMoved setup c i (f.node i) event n later := by
  have hhappens := Runtime.step_happens hstep
  have hplain := hfollowed.shadowed.plain i hi
  have htypes := hfollowed.types hi
  have hqueue := hfollowed.shadowed.queued i hi
  obtain ⟨later, c', htracks, hmoved⟩ : ∃ later c', Tracks setup c i n.raft sent later c' ∧
      ReadsMoved setup c i (f.node i) event n later := by
    by_cases hloop : Runtime.OnRaftLoop event
    · refine (hhappens.turned hsettled hplain.idle htypes hloop).effect.tracks hi
        (hfollowed.shadowed.node i hi) (hfollowed.silent hi) hplain hqueue ?_ (hok.2.1 _ hstep)
      rintro id ⟨turn, rest, rfl, htasks⟩
      have hcounted := hok.2.2
      simp only [ReadsCounted, htasks] at hcounted
      exact hcounted
    · have hoff := hhappens.offLoop hloop
      obtain rfl : sent = [] := hoff.sent
      have hraft : n.raft = (f.node i).raft := hoff.side.raft
      rw [hraft]
      exact ⟨[], c, .nothing (hfollowed.shadowed.node i hi),
        fun id hid => .inl (hoff.side.reads ▸ hid),
        fun id hid => .inl ((hoff.stores.filterMap _).subset hid)⟩
  obtain ⟨a', more, hgrow, hledgered⟩ := htracks.path.ledgered hno hfollowed.ledgered
  refine ⟨later, c', a', more, htracks.path, hgrow, ⟨⟨?_, ?_, ?_, ?_⟩,
    hfollowed.trace.extend htracks.path, hledgered,
    htracks.path.plainFile hno hfollowed.ledgered hfollowed.files⟩, hmoved⟩
  · intro j hj
    by_cases hji : j = i
    · subst hji
      rw [after_self]
      exact htracks.node
    · rw [after_of_ne hji, htracks.others j hji]
      exact hfollowed.shadowed.node j hj
  · intro msg hmsg
    rcases List.mem_append.mp hmsg with hold | hnew
    · exact htracks.net msg (hfollowed.shadowed.net msg hold)
    · exact htracks.sent msg hnew
  · intro j hj msg hmsg
    by_cases hji : j = i
    · subst hji
      rw [after_self] at hmsg
      obtain ⟨added, hown, htasks⟩ := hhappens.queue hsettled hplain.posted
      rw [htasks] at hmsg
      rcases List.mem_append.mp hmsg with hmsg | hadded
      · rcases List.mem_append.mp hmsg with hleft | harrives
        · have hold : RaftTask.message msg ∈ (f.node j).raftTasks := by
            cases event with
            | raft turn => exact List.mem_of_mem_tail hleft
            | _ => exact hleft
          exact ⟨htracks.net msg (hqueue msg hold).1, (hqueue msg hold).2⟩
        · cases event with
          | receive other =>
              obtain rfl : msg = other := by simpa [Runtime.arrivals] using harrives
              simp only [mayHappen, Bool.and_eq_true, decide_eq_true_eq, beq_iff_eq] at hmay
              exact ⟨htracks.net msg (hfollowed.shadowed.net msg hmay.1), hmay.2⟩
          | _ => simp [Runtime.arrivals] at harrives
      · exact (hown _ hadded).elim
    · rw [after_of_ne hji] at hmsg
      obtain ⟨hold, hreceiver⟩ := hfollowed.shadowed.queued j hj msg hmsg
      exact ⟨htracks.net msg hold, hreceiver⟩
  · intro j hj
    by_cases hji : j = i
    · subst hji
      rw [after_self]
      exact hhappens.plain hsettled hplain htypes
    · rw [after_of_ne hji]
      exact hfollowed.shadowed.plain j hj

theorem Followed.restart {n : Runtime Capture} {draws : List Nat} {requestId : Nat}
    (hno : ∀ i ∈ setup.members, setup.snapshotThreshold i = 0)
    (hfollowed : Followed setup f past c a ledger) (hi : i ∈ setup.members)
    (hnew : Runtime.new codec (setup.config i) draws requestId (f.node i).raft.synced = some n) :
    ∃ later c' a' more, Path setup Counted c later c' ∧ Grows a a' ∧
      Followed setup (f.restarted i n) (later ++ past) c' a' (more ++ ledger) := by
  obtain ⟨hboot, -, -⟩ := Runtime.new_boot hnew
  obtain ⟨hstarted, -, -⟩ := Runtime.new_started hnew
  rw [(hfollowed.shadowed.node i hi).synced] at hboot
  have hstep : c.step setup (.restart i draws) = some (c.setNode i n.raft) := by
    simp only [Cluster.step]
    rw [if_pos hi, hboot]
    rfl
  have hpath : Path setup Counted c [(c, .restart i draws)] (c.setNode i n.raft) :=
    .cons c _ [] _ .nil trivial hstep
  obtain ⟨a', more, hgrow, hledgered⟩ := hpath.ledgered hno hfollowed.ledgered
  refine ⟨_, _, a', more, hpath, hgrow, ⟨⟨?_, hfollowed.shadowed.net, ?_, ?_⟩,
    hfollowed.trace.extend hpath, hledgered,
    hpath.plainFile hno hfollowed.ledgered hfollowed.files⟩⟩
  · intro j hj
    by_cases hji : j = i
    · subst hji
      rw [restarted_self, Cluster.setNode_node_self]
      exact .refl _
    · rw [restarted_of_ne hji, Cluster.setNode_node_of_ne _ _ hji]
      exact hfollowed.shadowed.node j hj
  · intro j hj msg hmsg
    by_cases hji : j = i
    · subst hji
      rw [restarted_self, hstarted.raftTasks] at hmsg
      cases hmsg
    · rw [restarted_of_ne hji] at hmsg
      exact hfollowed.shadowed.queued j hj msg hmsg
  · intro j hj
    by_cases hji : j = i
    · subst hji
      rw [restarted_self]
      exact Runtime.new_plain (hno j hj) hnew
    · rw [restarted_of_ne hji]
      exact hfollowed.shadowed.plain j hj

end RaftKv.Fleet
