import RaftKv.Cluster.Files
import RaftKv.Runtime.Queues

/-! # The cluster inside the system

Three processes that take no snapshots do to their Raft objects what a run of the cluster
does. Every turn of a Raft loop is at most one call there, and a second one when a round
of reads is finished after it. The one thing the cluster does not follow is a process
that has lost its storage: it may still cancel reads, but it never speaks again.
-/

namespace RaftKv

namespace Raft

variable {D : Type} {r s : Raft D} {env : Env} {input : Input D}

@[simp] theorem arm_arm (r : Raft D) (env env' : Env) : (r.arm env).arm env' = r.arm env' := by
  cases hwal : r.wal <;> simp [arm, hwal]

/-- The two agree on the file and on what has been applied; as long as storage works, on
everything but the outside's choices. -/
structure Shadows (r s : Raft D) : Prop where
  synced : r.synced = s.synced
  indices : r.indices = s.indices
  failed : r.storageFailed = s.storageFailed
  same : r.storageFailed = false → r.arm .calm = s.arm .calm

theorem Shadows.refl (r : Raft D) : r.Shadows r := ⟨rfl, rfl, rfl, fun _ => rfl⟩

theorem Shadows.armed (hshadows : r.Shadows s) (hhealthy : r.storageFailed = false) (env : Env) :
    r.arm env = s.arm env := by
  rw [← arm_arm r .calm env, hshadows.same hhealthy, arm_arm]

theorem finishReadIndex_failed (r : Raft D) (read : ReadIndexToken) :
    (r.finishReadIndex read).storageFailed = r.storageFailed := by
  unfold finishReadIndex
  split <;> rfl

theorem finishReadIndex_arm (r : Raft D) (read : ReadIndexToken) (env : Env) :
    (r.arm env).finishReadIndex read = (r.finishReadIndex read).arm env := by
  unfold finishReadIndex
  by_cases hother : read.context ≠ r.pendingReadContext ∨ read.safeIndex ≠ r.pendingReadIndex
  · rw [if_pos hother]
    exact if_pos hother
  · rw [if_neg hother]
    exact if_neg hother

theorem finishReadIndex_readMessages (r : Raft D) (read : ReadIndexToken) :
    (r.finishReadIndex read).readMessages.1 = r.readMessages.1.finishReadIndex read := by
  unfold finishReadIndex
  by_cases hother : read.context ≠ r.pendingReadContext ∨ read.safeIndex ≠ r.pendingReadIndex
  · rw [if_pos hother]
    exact (if_pos hother).symm
  · rw [if_neg hother]
    exact (if_neg hother).symm

theorem Shadows.ready (hshadows : r.Shadows s) (hhealthy : r.storageFailed = false)
    (read : ReadIndexToken) : r.readIndexReady read = s.readIndexReady read := by
  have hsame := congrArg (fun r : Raft D => r.readIndexReady read) (hshadows.same hhealthy)
  exact hsame

/-- A node without storage may finish a round on its own. -/
theorem Shadows.cancel (hshadows : r.Shadows s) (hfailed : r.storageFailed = true)
    (read : ReadIndexToken) : (r.finishReadIndex read).Shadows s := by
  have hkept : (r.finishReadIndex read).synced = r.synced ∧
      (r.finishReadIndex read).indices = r.indices := by
    unfold finishReadIndex
    split <;> exact ⟨rfl, rfl⟩
  refine ⟨hkept.1.trans hshadows.synced, hkept.2.trans hshadows.indices,
    (finishReadIndex_failed r read).trans hshadows.failed, fun h => ?_⟩
  rw [finishReadIndex_failed, hfailed] at h
  cases h

variable [Blob D]

theorem Shadows.of_same (hsame : r.arm .calm = s.arm .calm) : r.Shadows s where
  synced := by rw [← synced_arm r .calm, hsame, synced_arm]
  indices := by rw [← indices_arm r .calm, hsame, indices_arm]
  failed := by
    have hfailed := congrArg storageFailed hsame
    exact hfailed
  same _ := hsame

theorem Shadows.act (hshadows : r.Shadows s) (hhealthy : r.storageFailed = false) (env : Env)
    (input : Input D) :
    s.act env input = if ((r.arm env).step input).storageFailed then ((r.arm env).step input, [])
      else ((r.arm env).step input).readMessages := by
  have hother : ¬ s.storageFailed = true := by simp [← hshadows.failed, hhealthy]
  rw [Raft.act, if_neg hother, hshadows.armed hhealthy]

/-- A round is finished by a call of its own. -/
theorem Shadows.finish (hshadows : r.Shadows s) (hhealthy : r.storageFailed = false)
    (hsilent : r.msgs = []) (read : ReadIndexToken) :
    (r.finishReadIndex read).Shadows (s.act .calm (.finishRead read)).1 := by
  have hstep : (r.arm .calm).step (.finishRead read) = (r.finishReadIndex read).arm .calm :=
    finishReadIndex_arm r read .calm
  have hquiet : (r.finishReadIndex read).readMessages.1 = r.finishReadIndex read := by
    rw [finishReadIndex_readMessages]
    unfold readMessages
    rw [← hsilent]
  refine .of_same ?_
  rw [hshadows.act hhealthy, hstep, if_neg]
  · show (r.finishReadIndex read).arm .calm =
      ((r.finishReadIndex read).readMessages.1.arm .calm).arm .calm
    rw [hquiet, arm_arm]
  · show ¬ (r.finishReadIndex read).storageFailed = true
    simp [finishReadIndex_failed, hhealthy]

end Raft

/-! ## One turn -/

section Turn

variable {setup : Setup} {c c' mid : Cluster} {i : Nat} {r : Raft Capture} {env : Env}
  {input : Input Capture} {n next : Runtime Capture} {event : Runtime.Event Capture}
  {sent : List (Message Capture)} {later more : List Event}

/-- The cluster got to where the node is now, and it has all that the node sent. -/
structure Tracks (setup : Setup) (c : Cluster) (i : Nat) (r : Raft Capture)
    (sent : List (Message Capture)) (later : List Event) (c' : Cluster) : Prop where
  path : Path setup Counted c later c'
  node : r.Shadows (c'.node i)
  others : ∀ j, j ≠ i → c'.node j = c.node j
  net : ∀ msg ∈ c.net, msg ∈ c'.net
  sent : ∀ msg ∈ sent, msg ∈ c'.net

theorem Tracks.nothing (hshadows : r.Shadows (c.node i)) : Tracks setup c i r [] [] c :=
  ⟨.nil, hshadows, fun _ _ => rfl, fun _ h => h, by simp⟩

theorem Tracks.trans {r' : Raft Capture} {sent' : List (Message Capture)}
    (hfirst : Tracks setup c i r sent later mid) (hmore : Tracks setup mid i r' sent' more c') :
    Tracks setup c i r' sent (more ++ later) c' :=
  ⟨hfirst.path.trans hmore.path, hmore.node,
    fun j hj => (hmore.others j hj).trans (hfirst.others j hj),
    fun msg hmsg => hmore.net msg (hfirst.net msg hmsg),
    fun msg hmsg => hmore.net msg (hfirst.sent msg hmsg)⟩

theorem Tracks.call (after : Raft Capture) (sent : List (Message Capture)) (hi : i ∈ setup.members)
    (hmay : c.mayCall i input = true) (hcounted : Counted c (.call i env input))
    (hnode : after.Shadows ((c.node i).act env input).1)
    (hfits : after.log.length < maxLogSize)
    (hsent : ∀ msg ∈ sent, msg ∈ ((c.node i).act env input).2) :
    ∃ c', Tracks setup c i after sent [(c, .call i env input)] c' := by
  have hlog : ((c.node i).act env input).1.log = after.log :=
    (congrArg Indices.log hnode.indices).symm
  refine ⟨{ c.setNode i ((c.node i).act env input).1 with
    net := c.net ++ ((c.node i).act env input).2 }, .cons c _ [] _ .nil hcounted ?_, ?_, ?_, ?_, ?_⟩
  · simp only [Cluster.step]
    rw [if_pos ⟨hi, hmay⟩, if_pos (by rw [hlog]; exact hfits)]
  · exact (c.setNode_node_self i _).symm ▸ hnode
  · exact fun j hj => c.setNode_node_of_ne _ hj
  · exact fun msg hmsg => List.mem_append_left _ hmsg
  · exact fun msg hmsg => List.mem_append_right _ (hsent msg hmsg)

/-- A round was ready on the way, and nothing was applied after that. -/
def Confirmed (setup : Setup) (c : Cluster) (i applied : Nat) : Prop :=
  ∃ later mid read, Path setup Counted c later mid ∧ later ≠ [] ∧
    (mid.node i).readIndexReady read = true ∧ (mid.node i).lastApplied = applied

/-- The event runs the task of this read. -/
def Runtime.Takes (n : Runtime Capture) (event : Runtime.Event Capture) (id : Nat) : Prop :=
  ∃ turn rest, event = .raft turn ∧ n.raftTasks = .read id :: rest

theorem finishReadIndex_kept (r : Raft Capture) (read : ReadIndexToken) :
    (r.finishReadIndex read).log = r.log ∧ (r.finishReadIndex read).lastApplied =
      r.lastApplied := by
  unfold Raft.finishReadIndex
  split <;> exact ⟨rfl, rfl⟩

/-- The activity after a call: the call itself, and the finish of a round. -/
theorem Runtime.Activity.tracks {reads left : Table ReadIndexToken} {completed : List Nat}
    {after : Raft Capture} (hi : i ∈ setup.members) (hshadows : r.Shadows (c.node i))
    (hhealthy : r.storageFailed = false) (hmay : c.mayCall i input = true)
    (hcounted : Counted c (.call i env input)) (hfits : after.log.length < maxLogSize)
    (hactivity : Activity ((r.arm env).step input) reads after left completed sent) :
    ∃ later c', Tracks setup c i after sent later c' ∧ later ≠ [] ∧
      (completed ≠ [] → after.storageFailed = false ∧ Confirmed setup c i after.lastApplied) := by
  have hact := hshadows.act hhealthy env input
  cases hactivity with
  | failed hfailed =>
      rw [if_pos hfailed] at hact
      obtain ⟨c', htracks⟩ := Tracks.call ((r.arm env).step input) [] hi hmay hcounted
        (by rw [hact]; exact .refl _) hfits (by simp)
      exact ⟨_, c', htracks, by simp, fun h => absurd rfl h⟩
  | flushed polled left completed sent hrunning hpolled hsent =>
      rw [if_neg (by simp [hrunning])] at hact
      have hpolledLog : polled.log = ((r.arm env).step input).log := by
        cases hpolled with
        | ready read => exact (finishReadIndex_kept _ read).1
        | _ => rfl
      obtain ⟨mid, htracks⟩ := Tracks.call ((r.arm env).step input).readMessages.1 sent hi hmay
        hcounted (by rw [hact]; exact .refl _) (hpolledLog ▸ hfits) (by rw [hact]; exact hsent)
      cases hpolled with
      | nothing => exact ⟨_, mid, htracks, by simp, fun h => absurd rfl h⟩
      | lost => exact ⟨_, mid, htracks, by simp, fun h => absurd rfl h⟩
      | ready read hready =>
          have hfinish := htracks.node.finish hrunning rfl read
          rw [← Raft.finishReadIndex_readMessages] at hfinish
          have hfree : Counted mid (.call i .calm (.finishRead read)) := trivial
          obtain ⟨c', hthen⟩ := Tracks.call _ [] hi rfl hfree hfinish hfits (by simp)
          refine ⟨_, c', htracks.trans hthen, by simp,
            fun _ => ⟨?_, _, mid, read, htracks.path, by simp,
            ?_, ?_⟩⟩
          · exact (Raft.finishReadIndex_failed _ read).trans hrunning
          · exact (htracks.node.ready hrunning read).symm.trans hready
          · have happlied := congrArg Indices.applied htracks.node.indices
            exact happlied.symm.trans (finishReadIndex_kept ((r.arm env).step input) read).2.symm

theorem Runtime.Asks.mayCall {reads : Table ReadIndexToken} (hasks : Asks n event input reads)
    (hplain : Plain n)
    (hqueue : ∀ msg, RaftTask.message msg ∈ n.raftTasks → msg ∈ c.net ∧ msg.receiver = i) :
    c.mayCall i input = true := by
  cases hasks with
  | tick => rfl
  | read => rfl
  | task turn task rest _ htasks hinput =>
      cases task with
      | message msg =>
          obtain rfl := Option.some.inj hinput
          simpa [Cluster.mayCall] using hqueue msg (by simp [htasks])
      | takeSnapshot index state => exact absurd (by simp [htasks]) (hplain.tasks index state)
      | _ => cases hinput <;> rfl

theorem Runtime.Asks.counted {reads : Table ReadIndexToken} (hasks : Asks n event input reads)
    (hshadows : n.raft.Shadows (c.node i)) (hhealthy : n.raft.storageFailed = false)
    (hcount : ∀ id, n.Takes event id → n.raft.nextReadContext + 1 < 2 ^ 64) :
    Counted c (.call i env input) := by
  have hcontext : n.raft.nextReadContext = (c.node i).nextReadContext := by
    have hsame := congrArg Raft.nextReadContext (hshadows.same hhealthy)
    exact hsame
  have hread : ∀ id, n.Takes event id → Counted c (.call i env .readIndex) := fun id htakes => by
    show (c.node i).nextReadContext + 1 < 2 ^ 64
    rw [← hcontext]
    exact hcount id htakes
  cases hasks with
  | tick => trivial
  | read turn id rest read htasks => exact hread id ⟨turn, rest, rfl, htasks⟩
  | task turn task rest _ htasks hinput =>
      cases task with
      | read id =>
          obtain rfl := Option.some.inj hinput
          exact hread id ⟨turn, rest, rfl, htasks⟩
      | _ => cases hinput <;> trivial

theorem Runtime.Asks.keys {reads : Table ReadIndexToken} (hasks : Asks n event input reads)
    {id : Nat}
    (hid : id ∈ reads.keys) : id ∈ n.raftReadIndexes.keys ∨ n.Takes event id := by
  cases hasks with
  | tick => exact .inl hid
  | task => exact .inl hid
  | read turn requestId rest read htasks =>
      rcases List.mem_cons.mp hid with rfl | hold
      · exact .inr ⟨turn, rest, rfl, htasks⟩
      · exact .inl ((keys_erase_sublist _ _).subset hold)

/-- Where the reads of a node come from in one event: a round is given to the read whose task
is run, and a read goes to the store when its round is confirmed. -/
structure ReadsMoved (setup : Setup) (c : Cluster) (i : Nat) (n : Runtime Capture)
    (event : Runtime.Event Capture) (next : Runtime Capture) (later : List Event) : Prop where
  waiting : ∀ id ∈ next.raftReadIndexes.keys, id ∈ n.raftReadIndexes.keys ∨
    later ≠ [] ∧ n.Takes event id
  completing : ∀ id ∈ next.completing, id ∈ n.completing ∨
    (id ∈ n.raftReadIndexes.keys ∨ n.Takes event id) ∧ next.raft.storageFailed = false ∧
      Confirmed setup c i next.raft.lastApplied

/-- A turn of the Raft loop, as the cluster sees it. -/
theorem Runtime.Effect.tracks (hi : i ∈ setup.members) (hshadows : n.raft.Shadows (c.node i))
    (hsilent : n.raft.storageFailed = false → n.raft.msgs = []) (hplain : Plain n)
    (hqueue : ∀ msg, RaftTask.message msg ∈ n.raftTasks → msg ∈ c.net ∧ msg.receiver = i)
    (hcount : ∀ id, n.Takes event id → n.raft.nextReadContext + 1 < 2 ^ 64)
    (hfits : next.raft.log.length < maxLogSize) (heffect : Effect n event next sent) :
    ∃ later c', Tracks setup c i next.raft sent later c' ∧
      ReadsMoved setup c i n event next later := by
  cases heffect with
  | idle hraft hreads hcompleting hsent =>
      subst hsent
      rw [hraft]
      exact ⟨[], c, .nothing hshadows, fun id hid => .inl (hreads ▸ hid),
        fun id hid => .inl (hcompleting ▸ hid)⟩
  | cancelled requestId read hraft hreads hcompleting hsent =>
      subst hsent
      suffices hpath : ∃ later c', Tracks setup c i next.raft [] later c' by
        obtain ⟨later, c', htracks⟩ := hpath
        refine ⟨later, c', htracks, fun id hid => ?_, fun id hid => .inl (hcompleting ▸ hid)⟩
        rw [hreads] at hid
        exact .inl ((keys_erase_sublist _ _).subset hid)
      rcases hraft with hraft | hraft
      · rw [hraft]
        exact ⟨[], c, .nothing hshadows⟩
      · rw [hraft] at hfits ⊢
        cases hstorage : n.raft.storageFailed with
        | true => exact ⟨[], c, .nothing (hshadows.cancel hstorage read)⟩
        | false =>
            have hfree : Counted c (.call i .calm (.finishRead read)) := trivial
            obtain ⟨c', htracks⟩ := Tracks.call _ [] hi rfl hfree
              (hshadows.finish hstorage (hsilent hstorage) read) hfits (by simp)
            exact ⟨_, c', htracks⟩
  | called env input reads completed hhealthy hasks hactivity hcompleting =>
      obtain ⟨later, c', htracks, hsome, hconfirmed⟩ := hactivity.tracks hi hshadows hhealthy
        (hasks.mayCall hplain hqueue) (hasks.counted hshadows hhealthy hcount) hfits
      have hmem := hactivity.subperm.subset
      refine ⟨later, c', htracks, fun id hid => ?_, fun id hid => ?_⟩
      · exact (hasks.keys (hmem (List.mem_append_left _ hid))).imp_right fun h => ⟨hsome, h⟩
      · rw [hcompleting] at hid
        rcases List.mem_append.mp hid with hold | hnew
        · exact .inl hold
        · exact .inr ⟨hasks.keys (hmem (List.mem_append_right _ hnew)),
            hconfirmed (List.ne_nil_of_mem hnew)⟩
  | stopped env index hhealthy hraft hreads hcompleting hsent =>
      subst hsent
      have hkept : next.raft.storageFailed = false ∧ next.raft.msgs = [] := by
        rw [hraft, Raft.step, Raft.advance]
        split <;> exact ⟨hhealthy, hsilent hhealthy⟩
      have hact := hshadows.act hhealthy env (.advance index)
      rw [← hraft, if_neg (by simp [hkept.1])] at hact
      have hnode : next.raft.Shadows ((c.node i).act env (.advance index)).1 := by
        rw [hact, show next.raft.readMessages.1 = next.raft by
          unfold Raft.readMessages; rw [← hkept.2]]
        exact .refl _
      have hfree : Counted c (.call i env (.advance index)) := trivial
      obtain ⟨c', htracks⟩ := Tracks.call next.raft [] hi rfl hfree hnode hfits (by simp)
      exact ⟨_, c', htracks, fun id hid => .inl (hreads ▸ hid),
        fun id hid => .inl (hcompleting ▸ hid)⟩

end Turn

end RaftKv
