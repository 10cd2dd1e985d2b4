import RaftKv.Node.Run

/-! # A cluster of three nodes

Three nodes and the messages they have sent. A message stays available for
delivery for ever, so it may be delayed, reordered, duplicated or lost. A node is
called as `NodeRuntime` calls it, and it may crash and restart from its file at
any time; a crash in the middle of a call is a flush that fails there.
-/

namespace RaftKv

/-- The state carried by a snapshot: the serialised bytes, and beside them the history of
entries they were serialised after. Only statements look at the history. -/
structure Capture where
  entries : List Entry
  bytes : Bytes
  deriving DecidableEq, Repr

instance : Blob Capture where
  empty := ⟨[], []⟩
  isEmpty state := state.bytes.isEmpty

/-- Every entry a node holds, those under its snapshot included. -/
def Raft.history (r : Raft Capture) : List Entry := r.lastSnapshotData.entries ++ r.log

/-- The three node ids and what each node is configured with. -/
structure Setup where
  members : List Nat
  three : members.length = 3
  electionTick : Nat → Nat
  heartbeatTick : Nat → Nat
  snapshotThreshold : Nat → Nat

/-- Two majorities share a node. -/
theorem two_of_three {members : List Nat} (hthree : members.length = 3) {a b x y : Nat}
    (hab : a ≠ b) (hxy : x ≠ y) (ha : a ∈ members) (hb : b ∈ members) (hx : x ∈ members)
    (hy : y ∈ members) : a = x ∨ a = y ∨ b = x ∨ b = y := by
  obtain ⟨p, q, s, rfl⟩ := List.length_eq_three.mp hthree
  simp only [List.mem_cons, List.not_mem_nil, or_false] at ha hb hx hy
  omega

def Setup.config (setup : Setup) (node : Nat) : Config where
  id := node
  peers := setup.members
  electionTick := setup.electionTick node
  heartbeatTick := setup.heartbeatTick node
  snapshotThreshold := setup.snapshotThreshold node

structure Cluster where
  node : Nat → Raft Capture
  net : List (Message Capture)

inductive Action where
  | call (node : Nat) (env : Env) (input : Input Capture)
  | restart (node : Nat) (draws : List Nat)
  deriving DecidableEq

/-- Elements a vector can hold; a call that would go beyond throws and ends the process. -/
def maxLogSize : Nat := 2 ^ 63

namespace Cluster

/-- Which calls a node can get: messages sent to it, and snapshots of what it has applied
when they are enabled. -/
def mayCall (c : Cluster) (node : Nat) : Input Capture → Bool
  | .message msg => msg ∈ c.net && msg.receiver == node
  | .takeSnapshot index state =>
      (c.node node).snapshotThreshold > 0 &&
        state.entries == (c.node node).history.take index
  | _ => true

def setNode (c : Cluster) (node : Nat) (r : Raft Capture) : Cluster :=
  { c with node := fun i => if i = node then r else c.node i }

@[simp] theorem setNode_node_self (c : Cluster) (node : Nat) (r : Raft Capture) :
    (c.setNode node r).node node = r := by
  simp [setNode]

theorem setNode_node_of_ne (c : Cluster) {node i : Nat} (r : Raft Capture) (hne : i ≠ node) :
    (c.setNode node r).node i = c.node i := by
  simp [setNode, hne]

/-- What holds of the new node and of every other one holds of all. -/
theorem forall_setNode {P : Nat → Raft Capture → Prop} {c : Cluster} {node : Nat}
    {r : Raft Capture} (hself : P node r) (hothers : ∀ i, i ≠ node → P i (c.node i)) (i : Nat) :
    P i ((c.setNode node r).node i) := by
  by_cases hi : i = node
  · subst hi
    rw [setNode_node_self]
    exact hself
  · rw [setNode_node_of_ne c r hi]
    exact hothers i hi

def step (setup : Setup) (c : Cluster) : Action → Option Cluster
  | .call node env input =>
      if node ∈ setup.members ∧ c.mayCall node input then
        let (r, sent) := (c.node node).act env input
        if r.log.length < maxLogSize then some { c.setNode node r with net := c.net ++ sent }
        else none
      else none
  | .restart node draws =>
      if node ∈ setup.members then
        (boot (setup.config node) draws (c.node node).synced).map (c.setNode node)
      else none

theorem step_call {setup : Setup} {c next : Cluster} {node : Nat} {env : Env}
    {input : Input Capture} (hstep : c.step setup (.call node env input) = some next) :
    node ∈ setup.members ∧ c.mayCall node input = true ∧
      next = { c.setNode node ((c.node node).act env input).1 with
        net := c.net ++ ((c.node node).act env input).2 } := by
  simp only [step] at hstep
  split at hstep
  next hcall =>
    split at hstep
    · exact ⟨hcall.1, hcall.2, (Option.some.inj hstep).symm⟩
    · cases hstep
  · cases hstep

/-- The log that a call leaves fits into a vector. -/
theorem step_call_fits {setup : Setup} {c next : Cluster} {node : Nat} {env : Env}
    {input : Input Capture} (hstep : c.step setup (.call node env input) = some next) :
    ((c.node node).act env input).1.log.length < maxLogSize := by
  simp only [step] at hstep
  split at hstep
  · split at hstep
    next hlog => exact hlog
    · cases hstep
  · cases hstep

/-- A call that is possible is a step. -/
theorem exists_step_call {setup : Setup} {c : Cluster} {node : Nat} {env : Env}
    {input : Input Capture} (hnode : node ∈ setup.members) (hmay : c.mayCall node input = true)
    (hlog : ((c.node node).act env input).1.log.length < maxLogSize) :
    ∃ next, c.step setup (.call node env input) = some next ∧
      next.node node = ((c.node node).act env input).1 ∧ ∀ msg ∈ c.net, msg ∈ next.net := by
  simp only [step]
  rw [if_pos ⟨hnode, hmay⟩, if_pos hlog]
  exact ⟨_, rfl, c.setNode_node_self node _, fun msg hmsg => List.mem_append_left _ hmsg⟩

theorem step_restart {setup : Setup} {c next : Cluster} {node : Nat} {draws : List Nat}
    (hstep : c.step setup (.restart node draws) = some next) :
    node ∈ setup.members ∧ ∃ r, boot (setup.config node) draws (c.node node).synced = some r ∧
      next = c.setNode node r := by
  simp only [step] at hstep
  split at hstep
  next hnode =>
    obtain ⟨r, hboot, rfl⟩ := Option.map_eq_some_iff.mp hstep
    exact ⟨hnode, r, hboot, rfl⟩
  · cases hstep

/-- Three nodes with empty files, and nothing sent yet. -/
def Initial (setup : Setup) (c : Cluster) : Prop :=
  c.net = [] ∧ ∀ i ∈ setup.members, ∃ draws, boot (setup.config i) draws [] = some (c.node i)

end Cluster

/-- The states of a run, the latest first. Each action satisfies `Ok` in the state it is
taken in. -/
inductive Run (setup : Setup) (Ok : Cluster → Action → Prop) : List Cluster → Prop
  | start (c : Cluster) (hinitial : c.Initial setup) : Run setup Ok [c]
  | step (c next : Cluster) (past : List Cluster) (action : Action)
      (hrun : Run setup Ok (c :: past)) (hok : Ok c action)
      (hstep : c.step setup action = some next) : Run setup Ok (next :: c :: past)

/-- Runs without further conditions. -/
def Anything (_ : Cluster) (_ : Action) : Prop := True

instance (c : Cluster) (action : Action) : Decidable (Anything c action) := .isTrue trivial

/-! ## Particular runs

Runs given by a list of actions, for the statements about particular runs: a
cluster of the nodes 1, 2 and 3 whose timeouts are one tick. -/

/-- The run that takes the given actions, as long as each is possible and `Ok`. -/
def Cluster.play (setup : Setup) (Ok : Cluster → Action → Prop)
    [∀ c action, Decidable (Ok c action)] :
    List Cluster → List (Cluster → Action) → Option (List Cluster)
  | states, [] => some states
  | [], _ :: _ => none
  | c :: past, action :: rest =>
      if Ok c (action c) then
        (c.step setup (action c)).bind fun next => play setup Ok (next :: c :: past) rest
      else none

theorem Run.play {setup : Setup} {Ok : Cluster → Action → Prop}
    [∀ c action, Decidable (Ok c action)] {actions : List (Cluster → Action)}
    {states more : List Cluster} (hrun : Run setup Ok states)
    (hplay : Cluster.play setup Ok states actions = some more) : Run setup Ok more := by
  induction actions generalizing states with
  | nil =>
      cases states <;>
        · obtain rfl := Option.some.inj hplay
          exact hrun
  | cons action rest ih =>
      cases states with
      | nil => cases hplay
      | cons c past =>
          rw [Cluster.play] at hplay
          split at hplay
          next hok =>
            obtain ⟨next, hstep, hrest⟩ := Option.bind_eq_some_iff.mp hplay
            exact ih (.step c next past (action c) hrun hok hstep) hrest
          · cases hplay

/-- Delivery of the `k`-th message ever sent. -/
def Cluster.deliver (k : Nat) (c : Cluster) : Action :=
  match c.net[k]? with
  | some msg => .call msg.receiver .calm (.message msg)
  | none => .call 0 .calm .tick

def Cluster.tick (node : Nat) (_ : Cluster) : Action := .call node .calm .tick

def Cluster.propose (node : Nat) (data : Bytes) (_ : Cluster) : Action :=
  .call node .calm (.propose data)

def Cluster.apply (node index : Nat) (_ : Cluster) : Action := .call node .calm (.advance index)

/-- A snapshot of everything up to `index`. -/
def Cluster.capture (node index : Nat) (c : Cluster) : Action :=
  .call node .calm (.takeSnapshot index ⟨(c.node node).history.take index, [1]⟩)

def trio (threshold : Nat) : Setup where
  members := [1, 2, 3]
  three := rfl
  electionTick _ := 1
  heartbeatTick _ := 1
  snapshotThreshold _ := threshold

theorem trio_boots {threshold i : Nat} (hi : i ∈ (trio threshold).members) :
    (boot ((trio threshold).config i) [] ([] : List (Record Capture))).isSome := by
  have hvalid : ((trio threshold).config i).valid = true := by
    simp only [trio, List.mem_cons, List.not_mem_nil, or_false] at hi
    rcases hi with rfl | rfl | rfl <;> rfl
  have hempty : (replay ([] : List (Record Capture))).durable.Valid := Durable.valid_start
  obtain ⟨r, hboot, -⟩ := boot_of_valid [] hvalid hempty
  rw [hboot]
  rfl

def Cluster.fresh (threshold : Nat) : Cluster where
  node i := if hi : i ∈ (trio threshold).members then
      (boot ((trio threshold).config i) [] []).get (trio_boots hi)
    else (boot ((trio threshold).config 1) [] []).get (trio_boots (by simp [trio]))
  net := []

theorem Cluster.fresh_initial (threshold : Nat) : (fresh threshold).Initial (trio threshold) := by
  refine ⟨rfl, fun i hi => ⟨[], ?_⟩⟩
  simp [fresh, hi]

/-- Node 1 hears from node 2 in the pre-vote and in the vote of term 1, and leads. -/
def electsOne : List (Cluster → Action) :=
  [Cluster.tick 1, Cluster.deliver 0, Cluster.deliver 2, Cluster.deliver 3, Cluster.deliver 5]

end RaftKv
