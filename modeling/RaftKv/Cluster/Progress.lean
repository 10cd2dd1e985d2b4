import Mathlib.Data.List.Chain
import RaftKv.Cluster.State
import RaftKv.Raft.Progress

/-! # Progress over a leadership

While a node leads, what it knows about its followers only grows, as long as the answers it counts
arrive in an order that never reports less than is known. Answers of one term that overtake each
other break this: a late success is taken at face value.
-/

namespace RaftKv

variable {setup : Setup} {c next : Cluster}

/-- The condition on a call, in the state it is made in. -/
def Cluster.Steady (c : Cluster) : Action → Prop
  | .call node _ input => (c.node node).Steady input
  | .restart _ _ => True

instance (c : Cluster) (action : Action) : Decidable (c.Steady action) := by
  cases action <;> (unfold Cluster.Steady; infer_instance)

theorem Raft.act_steady {D : Type} [Blob D] {r : Raft D} {input : Input D} (env : Env)
    (hsteady : r.Steady input) (habove : r.NextAbove) :
    (r.act env input).1.NextAbove ∧ (r.state = .leader → ∀ peer,
      (r.progressOf peer).matchIndex ≤ ((r.act env input).1.progressOf peer).matchIndex) := by
  unfold act
  split
  · exact ⟨habove, fun _ _ => le_rfl⟩
  next hhealthy =>
    have hchange : ProgressChange (r.arm env) input ((r.arm env).step input) :=
      step_progress (by simpa [arm] using hhealthy) input
    have harmed : (r.arm env).Steady input := by
      cases input with
      | message msg =>
          have hcounts : (r.arm env).Counts msg → r.Counts msg := fun h =>
            ⟨h.addressed, h.term, h.state⟩
          exact ⟨hsteady.1, fun htype h => hsteady.2.1 htype (hcounts h),
            fun htype h => hsteady.2.2 htype (hcounts h)⟩
      | _ => trivial
    split <;> exact hchange.steady harmed habove

theorem Booted.nextAbove {config : Config} {file : List (Record Capture)} {r : Raft Capture}
    (hbooted : Booted config file r) : r.NextAbove := fun peer => by
  rw [Raft.progressOf, hbooted.noProgress]
  exact Nat.one_pos

/-- What the node knows about its followers does not go back from `earlier` to `later`. -/
def Cluster.Advances (n : Nat) (later earlier : Cluster) : Prop :=
  ∀ peer, ((earlier.node n).progressOf peer).matchIndex ≤
    ((later.node n).progressOf peer).matchIndex

instance (n : Nat) :
    Trans (Cluster.Advances n) (Cluster.Advances n) (Cluster.Advances n) where
  trans hbc hab peer := (hab peer).trans (hbc peer)

theorem Cluster.Steady.step {action : Action} (hsteady : c.Steady action)
    (habove : ∀ n ∈ setup.members, (c.node n).NextAbove)
    (hstep : c.step setup action = some next) :
    ∀ n ∈ setup.members, (next.node n).NextAbove ∧ ((c.node n).state = .leader →
      (next.node n).state = .leader → Advances n next c) := by
  cases action with
  | call node env input =>
      obtain ⟨hnode, -, rfl⟩ := Cluster.step_call hstep
      obtain ⟨hnext, hadvances⟩ := Raft.act_steady env hsteady (habove node hnode)
      refine Cluster.forall_setNode (P := fun n r => n ∈ setup.members → r.NextAbove ∧
        ((c.node n).state = .leader → r.state = .leader → ∀ peer,
          ((c.node n).progressOf peer).matchIndex ≤ (r.progressOf peer).matchIndex)) ?_ ?_
      · exact fun _ => ⟨hnext, fun hleader _ => hadvances hleader⟩
      · exact fun n _ hn => ⟨habove n hn, fun _ _ _ => le_rfl⟩
  | restart node draws =>
      obtain ⟨hnode, r, hboot, rfl⟩ := Cluster.step_restart hstep
      have hbooted := boot_booted hboot
      refine Cluster.forall_setNode (P := fun n r => n ∈ setup.members → r.NextAbove ∧
        ((c.node n).state = .leader → r.state = .leader → ∀ peer,
          ((c.node n).progressOf peer).matchIndex ≤ (r.progressOf peer).matchIndex)) ?_ ?_
      · exact fun _ =>
          ⟨hbooted.nextAbove, fun _ hleader => by cases hbooted.state.symm.trans hleader⟩
      · exact fun n _ hn => ⟨habove n hn, fun _ _ _ => le_rfl⟩

theorem Run.nextAbove {states : List Cluster} (hrun : Run setup Cluster.Steady states) :
    ∀ c ∈ states, ∀ n ∈ setup.members, (c.node n).NextAbove := by
  induction hrun with
  | start c hinitial =>
      intro c' hc' n hn
      obtain rfl := List.mem_singleton.mp hc'
      obtain ⟨draws, hboot⟩ := hinitial.2 n hn
      exact (boot_booted hboot).nextAbove
  | step c next past action hrun hok hstep ih =>
      intro c' hc' n hn
      rcases List.mem_cons.mp hc' with rfl | hpast
      · exact (hok.step (ih c List.mem_cons_self) hstep n hn).1
      · exact ih c' hpast n hn

/-- Between two states in a row in which the node leads. -/
theorem Run.advances {states : List Cluster} (hrun : Run setup Cluster.Steady states) {n : Nat}
    (hn : n ∈ setup.members) : states.IsChain (fun later earlier =>
      (earlier.node n).state = .leader → (later.node n).state = .leader →
        Cluster.Advances n later earlier) := by
  induction hrun with
  | start c hinitial => exact .singleton c
  | step c next past action hrun hok hstep ih =>
      refine .cons_cons ?_ ih
      exact (hok.step (hrun.nextAbove c List.mem_cons_self) hstep n hn).2

/-- Over any stretch of a run in which the node leads throughout, `match` of every peer never
decreases and `next` stays above it. -/
theorem progress_monotone {states tenure : List Cluster} {n : Nat}
    (hrun : Run setup Cluster.Steady states) (hn : n ∈ setup.members)
    (htenure : tenure <:+: states) (hleads : ∀ c ∈ tenure, (c.node n).state = .leader) :
    tenure.Pairwise (Cluster.Advances n) ∧ ∀ c ∈ tenure, (c.node n).NextAbove := by
  refine ⟨?_, fun c hc => hrun.nextAbove c (htenure.subset hc) n hn⟩
  obtain ⟨before, after, rfl⟩ := htenure
  have hchain := (hrun.advances hn).left_of_append.right_of_append
  refine List.isChain_iff_pairwise.mp (hchain.imp_of_mem_imp fun later earlier hlater hearlier h =>
    ?_)
  exact h (hleads earlier hearlier) (hleads later hlater)

/-- Node 2 answers a heartbeat of node 1 and then an entry; the second answer arrives. -/
def answers : List (Cluster → Action) :=
  electsOne ++ [Cluster.deliver 6, Cluster.propose 1 [1], Cluster.deliver 9, Cluster.deliver 11]

theorem answers_plays :
    (Cluster.play (trio 0) Cluster.Steady [Cluster.fresh 0] answers).isSome := by
  decide +kernel

def answered : List Cluster :=
  (Cluster.play (trio 0) Cluster.Steady [Cluster.fresh 0] answers).get answers_plays

theorem progress_monotone_answered :
    (answered.take 5).length = 5 ∧ (answered.take 5).Pairwise (Cluster.Advances 1) ∧
      ∀ c ∈ answered.take 5, (c.node 1).NextAbove := by
  have hrun : Run (trio 0) Cluster.Steady answered :=
    Run.play (.start _ (Cluster.fresh_initial 0)) (Option.some_get answers_plays).symm
  refine ⟨by decide +kernel, progress_monotone hrun (by decide) (List.take_prefix 5 _).isInfix ?_⟩
  decide +kernel

/-- The answer to the heartbeat arrives last. -/
def lateAnswer : List (Cluster → Action) := answers ++ [Cluster.deliver 8]

/-- Node 2 leads term 2 and node 3 first lacks the entry before what it is sent; the rejection
arrives, then the answer to the entry, then the rejection again. -/
def lateRejection : List (Cluster → Action) :=
  electsOne ++ [Cluster.propose 1 [1], Cluster.deliver 8, Cluster.tick 2, Cluster.deliver 12,
    Cluster.deliver 13, Cluster.deliver 15, Cluster.deliver 16, Cluster.deliver 18,
    Cluster.deliver 19, Cluster.deliver 21, Cluster.deliver 22, Cluster.deliver 19]

theorem lateAnswer_plays :
    (Cluster.play (trio 0) Anything [Cluster.fresh 0] lateAnswer).isSome := by
  decide +kernel

theorem lateRejection_plays :
    (Cluster.play (trio 0) Anything [Cluster.fresh 0] lateRejection).isSome := by
  decide +kernel

/-- In both runs the last two states, the latest first, are of one leadership: in the first one
`match` goes back from 1 to 0, in the second one `next` comes down to `match`. -/
theorem late_answers_undo_progress :
    (∃ states, Run (trio 0) Anything states ∧
      (∀ c ∈ states.take 2, (c.node 1).state = .leader ∧ (c.node 1).term = 1) ∧
      (states.take 2).map (fun c => (c.node 1).progressOf 2) = [⟨0, 1⟩, ⟨1, 2⟩]) ∧
    ∃ states, Run (trio 0) Anything states ∧
      (∀ c ∈ states.take 2, (c.node 2).state = .leader ∧ (c.node 2).term = 2) ∧
      (states.take 2).map (fun c => (c.node 2).progressOf 3) = [⟨1, 1⟩, ⟨1, 2⟩] := by
  refine ⟨⟨_, Run.play (.start _ (Cluster.fresh_initial 0)) (Option.some_get lateAnswer_plays).symm,
    by decide +kernel, by decide +kernel⟩, ?_⟩
  exact ⟨_, Run.play (.start _ (Cluster.fresh_initial 0))
    (Option.some_get lateRejection_plays).symm,
    by decide +kernel, by decide +kernel⟩

end RaftKv
