import RaftKv.Cluster.State
import RaftKv.Runtime.Applying
import RaftKv.Runtime.Callbacks

/-! # Three processes and their clients

The whole system: three processes with their two loops each, the messages they have handed
to the transport, and the clients' requests at any of them. As in the cluster of Raft
objects a message may be delayed, reordered, repeated or lost, and a process may crash and
start again on its file at any time.
-/

namespace RaftKv

variable {D : Type}

structure Fleet (D : Type) where
  node : Nat → Runtime D
  net : List (Message D)
  /-- The requests that earlier incarnations of each node were given. -/
  past : Nat → List Request

inductive FleetAction (D : Type) where
  | event (node : Nat) (event : Runtime.Event D)
  /-- The process ends and starts again; its first request gets the given number. -/
  | restart (node : Nat) (draws : List Nat) (requestId : UInt64)

namespace Fleet

variable {setup : Setup} {f next : Fleet D}

def setNode (f : Fleet D) (node : Nat) (n : Runtime D) : Fleet D :=
  { f with node := fun i => if i = node then n else f.node i }

@[simp] theorem setNode_node_self (f : Fleet D) (node : Nat) (n : Runtime D) :
    (f.setNode node n).node node = n := by
  simp [setNode]

theorem setNode_node_of_ne (f : Fleet D) {node i : Nat} (n : Runtime D) (hne : i ≠ node) :
    (f.setNode node n).node i = f.node i := by
  simp [setNode, hne]

section

variable [Blob D] [DecidableEq D] {codec : StoreCodec D}

/-- The system after an event at one node. -/
def after (f : Fleet D) (i : Nat) (n : Runtime D) (sent : List (Message D)) : Fleet D :=
  { f.setNode i n with net := f.net ++ sent }

/-- The system after one process has started again. -/
def restarted (f : Fleet D) (i : Nat) (n : Runtime D) : Fleet D :=
  { f.setNode i n with
    past := fun j => if j = i then f.past j ++ (f.node j).requests else f.past j }

end

section Nodes

variable {i j : Nat} {n : Runtime D} {sent : List (Message D)}

theorem after_self : (f.after i n sent).node i = n := setNode_node_self f i n

theorem after_of_ne (hne : j ≠ i) : (f.after i n sent).node j = f.node j :=
  setNode_node_of_ne f n hne

theorem restarted_self : (f.restarted i n).node i = n := setNode_node_self f i n

theorem restarted_of_ne (hne : j ≠ i) : (f.restarted i n).node j = f.node j :=
  setNode_node_of_ne f n hne

end Nodes

variable [Blob D] [DecidableEq D] {codec : StoreCodec D}

/-- A node receives messages that were sent to it. -/
def mayHappen (f : Fleet D) (node : Nat) : Runtime.Event D → Bool
  | .receive msg => msg ∈ f.net && msg.receiver == node
  | _ => true

def step (codec : StoreCodec D) (setup : Setup) (f : Fleet D) : FleetAction D → Option (Fleet D)
  | .event node event =>
      if node ∈ setup.members ∧ f.mayHappen node event then
        ((f.node node).step codec event).map fun (next, sent) => f.after node next sent
      else none
  | .restart node draws requestId =>
      if node ∈ setup.members then
        (Runtime.new codec (setup.config node) draws requestId.toNat
          (f.node node).raft.synced).map (f.restarted node)
      else none

theorem step_event {node : Nat} {event : Runtime.Event D}
    (hstep : f.step codec setup (.event node event) = some next) :
    node ∈ setup.members ∧ f.mayHappen node event = true ∧
      ∃ n sent, (f.node node).step codec event = some (n, sent) ∧
        next = f.after node n sent := by
  simp only [step] at hstep
  split at hstep
  next hmay =>
    obtain ⟨⟨n, sent⟩, hevent, rfl⟩ := Option.map_eq_some_iff.mp hstep
    exact ⟨hmay.1, hmay.2, n, sent, hevent, rfl⟩
  · cases hstep

theorem step_of_event {i : Nat} {event : Runtime.Event D} {n : Runtime D} {sent : List (Message D)}
    (hi : i ∈ setup.members) (hmay : f.mayHappen i event = true)
    (hstep : (f.node i).step codec event = some (n, sent)) :
    f.step codec setup (.event i event) = some (f.after i n sent) := by
  rw [step, if_pos ⟨hi, hmay⟩, hstep]
  rfl

theorem step_restart {node : Nat} {draws : List Nat} {requestId : UInt64}
    (hstep : f.step codec setup (.restart node draws requestId) = some next) :
    node ∈ setup.members ∧ ∃ n, Runtime.new codec (setup.config node) draws requestId.toNat
        (f.node node).raft.synced = some n ∧ next = f.restarted node n := by
  simp only [step] at hstep
  split at hstep
  next hnode =>
    obtain ⟨n, hnew, rfl⟩ := Option.map_eq_some_iff.mp hstep
    exact ⟨hnode, n, hnew, rfl⟩
  · cases hstep

/-- Three processes with empty files, nothing sent and nothing asked. -/
def Initial (codec : StoreCodec D) (setup : Setup) (f : Fleet D) : Prop :=
  f.net = [] ∧ (∀ i, f.past i = []) ∧ ∀ i ∈ setup.members, ∃ draws, ∃ requestId : UInt64,
    Runtime.new codec (setup.config i) draws requestId.toNat [] = some (f.node i)

/-- One action that satisfies `Ok`. -/
def Next (codec : StoreCodec D) (setup : Setup) (Ok : Fleet D → FleetAction D → Prop)
    (f next : Fleet D) : Prop :=
  ∃ action, Ok f action ∧ f.step codec setup action = some next

/-- What a run reaches later on. -/
def Steps (codec : StoreCodec D) (setup : Setup) (Ok : Fleet D → FleetAction D → Prop) :
    Fleet D → Fleet D → Prop :=
  Relation.ReflTransGen (Next codec setup Ok)

/-- The states that runs reach. -/
def Reach (codec : StoreCodec D) (setup : Setup) (Ok : Fleet D → FleetAction D → Prop)
    (f : Fleet D) : Prop :=
  ∃ first, first.Initial codec setup ∧ Steps codec setup Ok first f

theorem Reach.steps {Ok : Fleet D → FleetAction D → Prop} (hreach : Reach codec setup Ok f)
    (hsteps : Steps codec setup Ok f next) : Reach codec setup Ok next := by
  obtain ⟨first, hinitial, hfirst⟩ := hreach
  exact ⟨first, hinitial, hfirst.trans hsteps⟩

/-- Log indices stay below the last 64-bit value. -/
def InRange (f : Fleet D) : FleetAction D → Prop
  | .event node event => (f.node node).InRange event
  | .restart _ _ _ => True

instance (f : Fleet D) (action : FleetAction D) : Decidable (f.InRange action) :=
  match action with
  | .event _ _ => inferInstanceAs (Decidable (Runtime.InRange _ _))
  | .restart _ _ _ => .isTrue trivial

/-- What holds at the start, and what every action keeps, holds in every state. -/
theorem Reach.induction {Ok : Fleet D → FleetAction D → Prop} {motive : Fleet D → Prop}
    (hreach : Reach codec setup Ok f) (hstart : ∀ f : Fleet D, f.Initial codec setup → motive f)
    (hstep : ∀ f next action, Reach codec setup Ok f → motive f → Ok f action →
      f.step codec setup action = some next → motive next) : motive f := by
  obtain ⟨first, hinitial, hsteps⟩ := hreach
  induction hsteps with
  | refl => exact hstart first hinitial
  | tail hfirst hnext ih =>
      obtain ⟨action, hok, haction⟩ := hnext
      exact hstep _ _ action ⟨first, hinitial, hfirst⟩ ih hok haction

/-- Each process does what a process on its own could do. -/
theorem Reach.node {Ok : Fleet D → FleetAction D → Prop} (hreach : Reach codec setup Ok f)
    (hrange : ∀ f action, Ok f action → InRange f action) {i : Nat} (hi : i ∈ setup.members) :
    Runtime.Reach codec (setup.config i) Runtime.InRange (f.node i) := by
  refine hreach.induction (motive := fun f =>
    Runtime.Reach codec (setup.config i) Runtime.InRange (f.node i)) ?_ ?_
  · intro f hinitial
    obtain ⟨draws, requestId, hnew⟩ := hinitial.2.2 i hi
    exact .start draws _ _ hnew
  · intro f next action _ ih hok hstep
    cases action with
    | event node event =>
        obtain ⟨-, -, n, sent, hevent, rfl⟩ := step_event hstep
        by_cases hnode : i = node
        · subst hnode
          rw [after_self]
          exact .step (f.node i) event n sent ih (hrange f _ hok) hevent
        · rwa [after_of_ne hnode]
    | restart node draws requestId =>
        obtain ⟨-, n, hnew, rfl⟩ := step_restart hstep
        by_cases hnode : i = node
        · subst hnode
          rw [List.prefix_iff_eq_take.mp (f.node i).raft.synced_isPrefix_written] at hnew
          rw [restarted_self]
          exact .crash (f.node i) _ draws _ n ih hnew
        · rwa [restarted_of_ne hnode]

/-! ## Particular runs -/

/-- Continue by the given actions, as long as each is possible and `Ok`. -/
def play (codec : StoreCodec D) (setup : Setup) (Ok : Fleet D → FleetAction D → Prop)
    [∀ f action, Decidable (Ok f action)] (f : Fleet D) :
    List (Fleet D → FleetAction D) → Option (Fleet D)
  | [] => some f
  | action :: rest =>
      if Ok f (action f) then
        (f.step codec setup (action f)).bind fun next => play codec setup Ok next rest
      else none

theorem Steps.of_play {Ok : Fleet D → FleetAction D → Prop} [∀ f action, Decidable (Ok f action)]
    {actions : List (Fleet D → FleetAction D)}
    (hplay : f.play codec setup Ok actions = some next) : Steps codec setup Ok f next := by
  induction actions generalizing f with
  | nil =>
      obtain rfl := Option.some.inj hplay
      exact .refl
  | cons action rest ih =>
      rw [play] at hplay
      split at hplay
      next hok =>
        obtain ⟨mid, hstep, hrest⟩ := Option.bind_eq_some_iff.mp hplay
        exact .head ⟨action f, hok, hstep⟩ (ih hrest)
      · cases hplay

end Fleet

/-! ## Three nodes that start -/

section

variable [Blob D] (codec : StoreCodec D)

/-- Each node of the trio starts with an empty file and gives its first request number 1. -/
theorem trio_starts (hempty : Blob.isEmpty (Blob.empty : D) = true) {i : Nat}
    (hi : i ∈ (trio 0).members) : (Runtime.new codec ((trio 0).config i) [] 1 []).isSome := by
  have hstore : Runtime.storeOf codec (replay ([] : List (Record D))).snapshot = some (∅, 0) := by
    change Runtime.storeOf codec SnapshotMeta.none = _
    rw [Runtime.storeOf, SnapshotMeta.isEmpty, SnapshotMeta.none, hempty]
    rfl
  simp only [trio, List.mem_cons, List.not_mem_nil, or_false] at hi
  rcases hi with rfl | rfl | rfl <;>
    · rw [Runtime.new, Runtime.recoverStorage]
      simp only [hstore]
      rfl

namespace Fleet

def fresh (hempty : Blob.isEmpty (Blob.empty : D) = true) : Fleet D where
  node i := if hi : i ∈ (trio 0).members then
      (Runtime.new codec ((trio 0).config i) [] 1 []).get (trio_starts codec hempty hi)
    else (Runtime.new codec ((trio 0).config 1) [] 1 []).get
      (trio_starts codec hempty List.mem_cons_self)
  net := []
  past _ := []

theorem fresh_initial (hempty : Blob.isEmpty (Blob.empty : D) = true) :
    (fresh codec hempty).Initial codec (trio 0) := by
  refine ⟨rfl, fun _ => rfl, fun i hi => ⟨[], 1, ?_⟩⟩
  simp [fresh, hi]

end Fleet

end

namespace Fleet

/-- Delivery of the `k`-th message ever sent, and its handling. -/
def deliver (node k : Nat) : List (Fleet D → FleetAction D) :=
  [fun f => match f.net[k]? with
    | some msg => .event msg.receiver (.receive msg)
    | none => .event 0 .signal,
   fun _ => .event node (.raft {})]

/-- Node 1 hears from node 2 in the pre-vote and in the vote of term 1, and leads. -/
def electsOne : List (Fleet D → FleetAction D) :=
  [fun _ => .event 1 (.tick {})] ++ deliver 2 0 ++ deliver 1 2 ++ deliver 2 3 ++ deliver 1 5

end Fleet

end RaftKv
