import RaftKv.Cluster.Election
import RaftKv.Raft.Emit

/-! # Runs with their actions

A run of the cluster together with the actions it took. What a message proves about the
past is a statement about this record: who was called with what, in which state.
-/

namespace RaftKv

/-- A state of the past and the action taken in it. -/
abbrev Event := Cluster × Action

/-- A run: its events, the latest first, and the state it has reached. -/
inductive Trace (setup : Setup) (Ok : Cluster → Action → Prop) : List Event → Cluster → Prop
  | start (c : Cluster) (hinitial : c.Initial setup) : Trace setup Ok [] c
  | step (c next : Cluster) (past : List Event) (action : Action) (htrace : Trace setup Ok past c)
      (hok : Ok c action) (hstep : c.step setup action = some next) :
      Trace setup Ok ((c, action) :: past) next

variable {setup : Setup} {Ok : Cluster → Action → Prop} {c next : Cluster} {past : List Event}

theorem Trace.run (htrace : Trace setup Ok past c) : Run setup Ok (c :: past.map Prod.fst) := by
  induction htrace with
  | start c hinitial => exact .start c hinitial
  | step c next past action _ hok hstep ih => exact .step c next _ action ih hok hstep

theorem Trace.elections (htrace : Trace setup Ok past c) :
    Elections setup (c :: past.map Prod.fst) c := htrace.run.elections

/-- Continue by the given actions, as long as each is possible and `Ok`. -/
def Cluster.record (setup : Setup) (Ok : Cluster → Action → Prop)
    [∀ c action, Decidable (Ok c action)] :
    List Event → Cluster → List (Cluster → Action) → Option (List Event × Cluster)
  | past, c, [] => some (past, c)
  | past, c, action :: rest =>
      if Ok c (action c) then
        (c.step setup (action c)).bind fun next =>
          record setup Ok ((c, action c) :: past) next rest
      else none

theorem Trace.record [∀ c action, Decidable (Ok c action)] {actions : List (Cluster → Action)}
    {result : List Event × Cluster} (htrace : Trace setup Ok past c)
    (hrecord : Cluster.record setup Ok past c actions = some result) :
    Trace setup Ok result.1 result.2 := by
  induction actions generalizing past c with
  | nil =>
      obtain rfl := Option.some.inj hrecord
      exact htrace
  | cons action rest ih =>
      rw [Cluster.record] at hrecord
      split at hrecord
      next hok =>
        obtain ⟨next, hstep, hrest⟩ := Option.bind_eq_some_iff.mp hrecord
        exact ih (.step c next past (action c) htrace hok hstep) hrest
      · cases hrecord

/-! ## One call -/

namespace Raft

variable {D : Type} [Blob D] {r : Raft D} {env : Env} {input : Input D} {msg : Message D}

/-- A call changes the role as the operation does, or not at all. -/
theorem act_role (r : Raft D) (env : Env) (input : Input D) :
    RoleChange (r.arm env) input (r.act env input).1.role := by
  unfold act
  split
  · exact .same
  · split <;> exact step_role (r.arm env) input

/-- What is handed to the transport is what the operation of a healthy node said. -/
theorem act_emits (hmsgs : r.storageFailed = false → r.msgs = [])
    (hmsg : msg ∈ (r.act env input).2) :
    Emits (r.arm env) input (r.act env input).1 msg := by
  unfold act at hmsg ⊢
  split at hmsg
  · simp at hmsg
  next hhealthy =>
    rw [if_neg hhealthy]
    split at hmsg
    · simp at hmsg
    next hrunning =>
      rw [if_neg hrunning]
      have hquiet : (r.arm env).msgs = [] := hmsgs (by simpa using hhealthy)
      have hemits : Emits (r.arm env) input ((r.arm env).step input) msg := step_emits hquiet hmsg
      cases hemits with
      | preVote peer hinput hterm hpending => exact .preVote peer hinput hterm hpending
      | preVoteReply request hinput htype => exact .preVoteReply request hinput htype
      | entries _ htype hsender hterm hstate hcontext =>
          exact .entries _ htype hsender hterm hstate hcontext
      | reply request success index hinput htype hsuccess =>
          exact .reply request success index hinput htype hsuccess
      | snapshot _ htype hterm hstate => exact .snapshot _ htype hterm hstate
      | other _ h1 h2 h3 h4 h5 => exact .other _ h1 h2 h3 h4 h5

end Raft

/-- A message that is delivered was sent before. -/
theorem Cluster.mem_net_of_mayCall {n : Nat} {msg : Message Capture}
    (hmay : c.mayCall n (.message msg) = true) : msg ∈ c.net ∧ msg.receiver = n := by
  simpa [Cluster.mayCall] using hmay

end RaftKv
