import RaftKv.Cluster.Spoken
import RaftKv.Cluster.Trace

/-! # The cluster refines the abstract protocol

Each move of a node is finitely many steps of that node in the abstract protocol, in
which its file and its role are what they are in the cluster and all messages are
honest. So every run of the cluster goes along with a run of the protocol.
-/

namespace RaftKv

open TermLog

variable {setup : Setup} {a a' : Sys Nat Entry} {i : Nat} {r next : Raft Capture}
  {w : Wal Capture} {msg : Message Capture} {o : Outside Capture}

/-- What a node meets is true in the abstract state. -/
structure Outside.Honest (setup : Setup) (a : Sys Nat Entry) (o : Outside Capture) : Prop where
  message : ∀ msg, o.message msg → msg.Honest setup a
  snapshot : ∀ r index state, o.snapshot r index state → state.entries = r.history.take index
  room : ∀ last, o.room last → last + 2 < 2 ^ 64
  install : ∀ r msg, o.install r msg → r.Replaceable msg

theorem Outside.Honest.inRange (ho : o.Honest setup a) : o.InRange :=
  ⟨fun msg h => (ho.message msg h).inRange, ho.room⟩

/-- What a node of the cluster meets. -/
def honestOutside (setup : Setup) (a : Sys Nat Entry) : Outside Capture where
  message msg := msg.Honest setup a
  snapshot r index state := state.entries = r.history.take index
  room last := last + 2 < 2 ^ 64
  install := Raft.Replaceable

theorem honestOutside_honest : (honestOutside setup a).Honest setup a :=
  ⟨fun _ h => h, fun _ _ _ h => h, fun _ h => h, fun _ _ h => h⟩

namespace Raft

/-- The node is the abstract node `i`. -/
structure Simulated (setup : Setup) (a : Sys Nat Entry) (i : Nat) (r : Raft Capture) : Prop where
  mirrors : r.Mirrors
  id : r.id = i
  peers : r.peers = setup.members
  stores : r.Stores setup a i
  plays : r.Plays setup a i
  honest : r.storageFailed = false → ∀ msg ∈ r.msgs, msg.Honest setup a

/-! ## One move -/

/-- Steps of the abstract node lead to the file and the role of `next`. -/
def Realised (setup : Setup) (a : Sys Nat Entry) (i : Nat) (next : Raft Capture) : Prop :=
  ∃ a', setup.protocol.Steps i a a' ∧ next.Stores setup a' i ∧ next.Plays setup a' i

theorem Plays.of_follower (hstate : next.state = .follower) : next.Plays setup a i :=
  .of_quiet (fun h => by cases hstate.symm.trans h) (fun h => by cases hstate.symm.trans h)

/-- Moves of the memory alone. -/
theorem Running.still (hrun : Running setup a i r w) (hwal : next.wal = r.wal)
    (hdurable : next.durable = r.durable) (hplays : next.Plays setup a i) :
    Realised setup a i next :=
  ⟨a, .refl, hrun.stores.congr hwal hdurable, hplays⟩

theorem Running.note (hrun : Running setup a i r w) (hpeers : r.peers = setup.members)
    (hplays : r.Plays setup a i) (hhonest : msg.Honest setup a)
    (htype : msg.type = .appendEntriesResponse ∨ msg.type = .installSnapshotResponse)
    (haddressed : r.rejects msg = false) (hsuccess : msg.success = true)
    (hterm : msg.term = r.term) (hstate : r.state = .leader) :
    (r.noteMatch msg).Plays setup a i := by
  have hack := hhonest.accepted htype hsuccess
  rw [hterm] at hack
  have hlen : msg.matchIndex ≤ r.history.length := by
    rw [hrun.history_eq (hplays.leader hstate).1]
    exact hack.trans (hrun.inv.ackLength _ _)
  have hbound := hrun.bound
  refine hplays.learn hstate fun _ => ⟨hpeers ▸ sender_mem_peers haddressed,
    hrun.id ▸ sender_ne_id haddressed, hack, ?_, ?_⟩
  · show 1 ≤ wrap64 (msg.matchIndex + 1)
    rw [wrap64_of_lt (by omega)]
    omega
  · show wrap64 (msg.matchIndex + 1) ≤ _
    rw [wrap64_of_lt (by omega)]
    omega

theorem Plays.backOff (hplays : r.Plays setup a i) {peer : Nat} (hpeer : peer ∈ r.others)
    (hstate : r.state = .leader) : (r.backOff peer).Plays setup a i := by
  refine hplays.learn hstate fun hhealthy => ?_
  obtain ⟨pr, hpr⟩ := hplays.known hhealthy hstate peer hpeer
  have htracks := hplays.tracks hhealthy hstate peer pr hpr
  have hprogress : r.progressOf peer = pr := by rw [progressOf, hpr]; rfl
  rw [hprogress]
  refine ⟨htracks.member, htracks.other, htracks.acked, ?_, ?_⟩
  · show 1 ≤ if pr.next > 1 then pr.next - 1 else pr.next
    have hpos := htracks.next_pos
    split <;> omega
  · show (if pr.next > 1 then pr.next - 1 else pr.next) ≤ _
    have hle := htracks.next_le
    split <;> omega

/-- A candidate counts its own vote. -/
theorem Running.own_vote (hrun : Running setup a i r w) (hstate : r.state = .candidate) :
    a.vote i r.term = some i := by
  have hcast : a.vote i r.term = if r.votedFor = 0 then none else some r.votedFor :=
    hrun.located.vote
  rw [hrun.mirrors.inTerm.candidate hstate, hrun.id, if_neg] at hcast
  · exact hcast
  · exact hrun.id ▸ hrun.mirrors.inTerm.id_ne_zero

theorem Running.realise_stand (hrun : Running setup a i r w) (hterm : r.term + 1 < 2 ^ 64) :
    Realised setup a i r.becomeCandidate := by
  obtain ⟨a', hsteps, hstores, hbid⟩ := hrun.stand hterm
  refine ⟨a', hsteps, hstores, .stand (fun h => ?_) rfl rfl⟩
  rw [show r.becomeCandidate.term = r.term + 1 from wrap64_of_lt hterm]
  exact hbid h

theorem Running.realise_canvass (hrun : Running setup a i r w) (hplays : r.Plays setup a i)
    (hmember : i ∈ setup.members) (hstate : r.state = .candidate) :
    Realised setup a i r.campaign := by
  rw [campaign, if_neg (by simp [hrun.healthy])]
  have hvote : a.vote r.id r.term = some i := hrun.id.symm ▸ hrun.own_vote hstate
  have hcounted := hplays.record hstate (hrun.id.symm ▸ hmember) hvote
  exact hrun.still rfl rfl
    (hcounted.of_same (.refl a) (fun _ => hrun.healthy) rfl rfl rfl rfl rfl rfl)

theorem Running.realise_accept (hrun : Running setup a i r w) (hhonest : msg.Honest setup a)
    (htype : msg.type = .appendEntries) (hready : r.Ready msg) (hlog : r.logOk msg = true) :
    Realised setup a i ((r.acceptEntries msg).1.send (r.acceptEntries msg).2) := by
  obtain ⟨a', hsteps, hstores⟩ := hrun.accept hhonest htype hready hlog
  obtain ⟨log, commit, wal, failed, heq⟩ := r.acceptEntries_frame msg
  have hstate : (r.acceptEntries msg).1.state = .follower := by
    rw [heq]
    exact hready.follower
  exact ⟨a', hsteps, hstores.congr rfl rfl, .of_follower hstate⟩

theorem Running.realise_choose (hrun : Running setup a i r w) (hplays : r.Plays setup a i)
    (hmember : i ∈ setup.members) (hpeers : r.peers = setup.members)
    (hstate : r.state = .leader) : Realised setup a i r.chooseCommit := by
  obtain ⟨a', hsteps, hstores⟩ := hrun.choose hmember hpeers (hplays.leader hstate).1
    fun j pr hj => by
      have htracks := hplays.tracks hrun.healthy hstate j pr hj
      exact ⟨htracks.member, htracks.other, htracks.acked⟩
  obtain ⟨commit, wal, failed, heq⟩ := r.chooseCommit_frame
  refine ⟨a', hsteps, hstores, ?_⟩
  rw [heq]
  exact hplays.of_same (hsteps.evolves hrun.inv).grows (fun _ => hrun.healthy) rfl rfl rfl rfl rfl
    rfl

theorem Running.realise_extend (hrun : Running setup a i r w) (hplays : r.Plays setup a i)
    (hstate : r.state = .leader) (hroom : r.lastLogIndex + 2 < 2 ^ 64) (data : Bytes) :
    Realised setup a i (r.appendOwn (r.nextEntry data)).1 := by
  obtain ⟨a', hsteps, hstores, hhistory, htermLog⟩ :=
    hrun.extend (hplays.leader hstate).1 hroom data
  obtain ⟨log, wal, failed, heq⟩ := r.appendOwn_frame (r.nextEntry data)
  refine ⟨a', hsteps, hstores, ?_⟩
  rw [heq] at hhistory htermLog ⊢
  exact hplays.extend (hsteps.evolves hrun.inv).grows hrun.healthy hstate hstate rfl hhistory
    htermLog rfl rfl

theorem Running.realise_compact (hrun : Running setup a i r w) (hplays : r.Plays setup a i)
    {index : Nat} {state : Capture} (hstate : state.entries = r.history.take index) :
    Realised setup a i (r.takeSnapshot index state) := by
  obtain ⟨⟨a', hsteps, hstores⟩, hhistory⟩ := hrun.compact hstate
  obtain ⟨log, offset, offsetTerm, last, data, wal, failed, heq, -⟩ :=
    r.takeSnapshot_frame index state
  refine ⟨a', hsteps, hstores, ?_⟩
  rw [heq] at hhistory ⊢
  exact hplays.of_same (hsteps.evolves hrun.inv).grows (fun _ => hrun.healthy) rfl rfl hhistory rfl
    rfl rfl

theorem installSnapshot_follower (hready : r.Ready msg) :
    (r.installSnapshot msg).1.state = .follower := by
  obtain ⟨wal, failed, heq | heq⟩ := r.installSnapshot_frame msg <;>
    · rw [heq]
      exact hready.follower

/-- A move of a running node is steps of the protocol that end in its new file and role. -/
theorem Move.realised {a₀ : Sys Nat Entry} (ho : o.Honest setup a₀) (hmember : i ∈ setup.members)
    (hpeers : r.peers = setup.members) (hgrow : Grows a₀ a) (hrun : Running setup a i r w)
    (hplays : r.Plays setup a i) (hmove : Move o r next) : Realised setup a i next := by
  have hrunning := hrun.healthy
  have hhonest : ∀ msg, o.message msg → msg.Honest setup a :=
    fun msg hmsg => (ho.message msg hmsg).grow hgrow
  cases hmove with
  | raise msg lead hmsg _ _ hterm =>
      obtain ⟨a', hsteps, hstores⟩ := hrun.raise lead hterm (hhonest msg hmsg).inRange.term
      refine ⟨a', hsteps, hstores, .of_follower ?_⟩
      rw [becomeFollower_of_lt hterm]
      rfl
  | demote msg _ _ _ _ hterm =>
      rw [becomeFollower_of_eq hterm]
      exact hrun.still rfl rfl (.of_follower rfl)
  | withdraw =>
      exact hrun.still rfl rfl (.of_quiet (fun h => by cases h) (fun h => by cases h))
  | sound hstate =>
      rw [preCampaign, if_neg (by simp [hrunning])]
      exact hrun.still rfl rfl (.of_quiet (fun h => by cases hstate.symm.trans h)
        (fun h => by cases hstate.symm.trans h))
  | stand _ _ hpending => exact hrun.realise_stand (hrun.mirrors.inTerm.term_succ hpending)
  | canvass hstate => exact hrun.realise_canvass hplays hmember hstate
  | grant msg hmsg htype haddressed _ hterm hvote hlog =>
      obtain ⟨a', hsteps, hstores⟩ :=
        hrun.grant (hhonest msg hmsg) htype haddressed hterm hvote hlog
      exact ⟨a', hsteps, hstores.congr rfl rfl,
        hplays.of_same (hsteps.evolves hrun.inv).grows (fun _ => hrunning) rfl rfl rfl rfl rfl rfl⟩
  | recordVote msg hmsg htype haddressed hgranted hterm hstate =>
      have hvote := (hhonest msg hmsg).vote htype hgranted
      rw [hterm, receiver_eq_id haddressed, hrun.id] at hvote
      exact hrun.still rfl rfl
        (hplays.record hstate (hpeers ▸ sender_mem_peers haddressed) hvote)
  | crown _ _ _ hstate _ hcount =>
      obtain ⟨a', hsteps, hstores, hlead, hbid, htermLog⟩ :=
        hrun.elect hplays hpeers hstate hcount
      exact ⟨a', hsteps, hstores.congr rfl rfl,
        .crown hrun.valid hstores.memory hrun.id hpeers hlead hbid htermLog⟩
  | accept msg hmsg htype hready hlog =>
      exact hrun.realise_accept (hhonest msg hmsg) htype hready hlog
  | note msg hmsg htype haddressed hsuccess hterm hstate =>
      exact hrun.still rfl rfl
        (hrun.note hpeers hplays (hhonest msg hmsg) htype haddressed hsuccess hterm hstate)
  | backOff msg _ _ haddressed hstate =>
      exact hrun.still rfl rfl (hplays.backOff (sender_mem_others haddressed) hstate)
  | choose hstate => exact hrun.realise_choose hplays hmember hpeers hstate
  | extend data hstate _ hroom => exact hrun.realise_extend hplays hstate (ho.room _ hroom) data
  | apply index =>
      unfold advance
      split
      · exact hrun.still rfl rfl hplays
      · exact hrun.still rfl rfl
          (hplays.of_same (.refl a) (fun _ => hrunning) rfl rfl rfl rfl rfl rfl)
  | compact index state hstate =>
      exact hrun.realise_compact hplays (ho.snapshot r index state hstate)
  | stale _ _ _ hready => exact hrun.still rfl rfl (.of_follower hready.follower)
  | install msg hmsg htype hready hindex _ hfresh hinstall =>
      obtain ⟨a', hsteps, hstores⟩ :=
        hrun.install (hhonest msg hmsg) htype hready hindex hfresh.1 (ho.install r msg hinstall)
      exact ⟨a', hsteps, hstores.congr rfl rfl, .of_follower (installSnapshot_follower hready)⟩
  | _ =>
      exact hrun.still rfl rfl
        (hplays.of_same (.refl a) (fun _ => hrunning) rfl rfl rfl rfl rfl rfl)

/-! ## Whole calls -/

/-- Other nodes' steps change nothing a node depends on. -/
theorem Simulated.grow {j : Nat} (hne : i ≠ j) (hevolves : setup.protocol.Evolves j a a')
    (hsim : r.Simulated setup a i) : r.Simulated setup a' i where
  mirrors := hsim.mirrors
  id := hsim.id
  peers := hsim.peers
  stores := by
    have hlocated := hsim.stores.located
    refine ⟨⟨?_, ?_, ?_⟩, hsim.stores.disk.grow hevolves.grows,
      hsim.stores.memory.grow hevolves.grows⟩
    · exact (hevolves.others.term i hne).trans hlocated.term
    · exact (hevolves.others.log i hne).trans hlocated.log
    · exact (hevolves.others.vote i hne _).trans hlocated.vote
  plays := hsim.plays.of_same hevolves.grows (fun h => h) rfl rfl rfl rfl rfl rfl
  honest h msg hmsg := (hsim.honest h msg hmsg).grow hevolves.grows

/-- A failed node says and stores nothing more. -/
theorem Move.simulated_of_failed (ho : o.InRange) (hfailed : r.storageFailed = true)
    (hsim : r.Simulated setup a i) (hmove : Move o r next) :
    next.Simulated setup a i := by
  obtain ⟨hwal, hfailed', hdurable⟩ := hmove.of_failed hfailed
  have hnot : next.storageFailed ≠ false := by simp [hfailed']
  obtain ⟨hid, hpeers, -⟩ := hmove.same_config
  refine ⟨hmove.mirrors ho hsim.mirrors, hid.trans hsim.id,
    hpeers.trans hsim.peers, hsim.stores.congr hwal hdurable,
    ⟨fun hleader => ?_, fun h => absurd h hnot, fun h => absurd h hnot, fun h => absurd h hnot⟩,
    fun h => absurd h hnot⟩
  rcases hmove.was_leader_or hleader with ⟨hstate, hterm⟩ | ⟨hhealthy, -⟩
  · rw [hterm, show next.history = r.history from congrArg Durable.history hdurable]
    exact hsim.plays.leader hstate
  · rw [hfailed] at hhealthy
    cases hhealthy

theorem Move.simulated {a₀ : Sys Nat Entry} (ho : o.Honest setup a₀) (hmember : i ∈ setup.members)
    (hinv : setup.protocol.Inv a) (hgrow : Grows a₀ a) (hsim : r.Simulated setup a i)
    (hmove : Move o r next) :
    ∃ a', setup.protocol.Steps i a a' ∧ next.Simulated setup a' i := by
  cases hfailed : r.storageFailed with
  | true => exact ⟨a, .refl, hmove.simulated_of_failed ho.inRange hfailed hsim⟩
  | false =>
      obtain ⟨w, hrun⟩ := hsim.stores.running hinv hsim.mirrors hfailed hsim.id
      obtain ⟨a', hsteps, hstores, hplays⟩ :=
        hmove.realised ho hmember hsim.peers hgrow hrun hsim.plays
      have hmirrors := hmove.mirrors ho.inRange hsim.mirrors
      have hinv' := (hsteps.evolves hinv).inv
      obtain ⟨hid, hpeers, -⟩ := hmove.same_config
      rw [hsim.id] at hid
      rw [hsim.peers] at hpeers
      cases hfailed' : next.storageFailed with
      | true =>
          exact ⟨a', hsteps, hmirrors, hid, hpeers, hstores, hplays,
            fun h => by rw [hfailed'] at h; cases h⟩
      | false =>
          -- whatever it now holds of its leader's log it may have acknowledged
          obtain ⟨w', hrun'⟩ := hstores.running hinv' hmirrors hfailed' hid
          obtain ⟨k, hmore, hrun'', hfull⟩ := hrun'.fullyAcked
          have hgrow' := (hsteps.evolves hinv).grows.trans (hmore.evolves hinv').grows
          have hplays' := hplays.of_same (hmore.evolves hinv').grows (fun h => h) rfl rfl rfl rfl
            rfl rfl
          refine ⟨_, hsteps.trans hmore, hmirrors, hid, hpeers, hrun''.stores, hplays',
            fun _ msg hmsg => ?_⟩
          obtain ⟨new, hnew, hsent⟩ := hmove.sends
          rw [hnew] at hmsg
          rcases List.mem_append.mp hmsg with hold | hadded
          · exact (hsim.honest hfailed msg hold).grow hgrow'
          · exact (hsent msg hadded).honest hrun hgrow' hrun'' hplays' hfull
              fun m hm => (ho.message m hm).grow hgrow

theorem Moves.simulated {a₀ : Sys Nat Entry} (ho : o.Honest setup a₀)
    (hmember : i ∈ setup.members) (hinv : setup.protocol.Inv a₀) (hsim : r.Simulated setup a₀ i)
    (hmoves : Moves o r next) :
    ∃ a', setup.protocol.Steps i a₀ a' ∧ next.Simulated setup a' i := by
  induction hmoves with
  | refl => exact ⟨a₀, .refl, hsim⟩
  | tail _ hmove ih =>
      obtain ⟨a, hsteps, hmid⟩ := ih
      have hevolves := hsteps.evolves hinv
      obtain ⟨a', hmore, hnext⟩ := hmove.simulated ho hmember hevolves.inv hevolves.grows hmid
      exact ⟨a', hsteps.trans hmore, hnext⟩

theorem Simulated.arm (hsim : r.Simulated setup a i) (env : Env) :
    (r.arm env).Simulated setup a i := by
  have hdisk : (r.arm env).onDisk = r.onDisk := by rw [onDisk, synced_arm, onDisk]
  exact ⟨hsim.mirrors.arm env, hsim.id, hsim.peers,
    ⟨hdisk ▸ hsim.stores.located, hdisk ▸ hsim.stores.disk, hsim.stores.memory⟩,
    hsim.plays.of_same (.refl a) (fun h => h) rfl rfl rfl rfl rfl rfl, hsim.honest⟩

/-- A call is steps of the node, and everything it hands to the transport is honest. -/
theorem Simulated.act (env : Env) {input : Input Capture} (hmember : i ∈ setup.members)
    (hinv : setup.protocol.Inv a) (hsim : r.Simulated setup a i)
    (hallows : (r.arm env).Allows (honestOutside setup a) input) :
    ∃ a', setup.protocol.Steps i a a' ∧ (r.act env input).1.Simulated setup a' i ∧
      ∀ msg ∈ (r.act env input).2, msg.Honest setup a' := by
  unfold Raft.act
  split
  · exact ⟨a, .refl, hsim, by simp⟩
  next hhealthy =>
    have hmoves := step_moves (r := r.arm env) (Bool.not_eq_true _ ▸ hhealthy) hallows
    obtain ⟨a', hsteps, hnext⟩ := hmoves.simulated honestOutside_honest hmember hinv (hsim.arm env)
    split
    · exact ⟨a', hsteps, hnext, by simp⟩
    next hrunning =>
      rw [Bool.not_eq_true] at hrunning
      refine ⟨a', hsteps, ⟨hnext.mirrors.readMessages, hnext.id, hnext.peers,
        hnext.stores.congr rfl rfl,
        hnext.plays.of_same (.refl a') (fun h => h) rfl rfl rfl rfl rfl rfl,
        fun _ msg hmsg => by cases hmsg⟩, hnext.honest hrunning⟩

end Raft

/-- A started node is what its file says. -/
theorem Booted.simulated {config : Config} {file : List (Record Capture)}
    (hbooted : Booted config file r) (hmirrors : r.Mirrors) (hid : config.id = i)
    (hpeers : config.peers = setup.members)
    (hlocated : (file.foldl Durable.apply Durable.start).Located a i)
    (hground : (file.foldl Durable.apply Durable.start).Grounded setup a) :
    r.Simulated setup a i := by
  have hdisk : r.onDisk = file.foldl Durable.apply Durable.start := by
    simp [Raft.onDisk, Raft.synced, hbooted.wal]
  have hmemory := hmirrors.onDisk_eq hbooted.healthy
  refine ⟨hmirrors, hbooted.id.trans hid, hbooted.peers.trans hpeers,
    ⟨hdisk ▸ hlocated, hdisk ▸ hground, ?_⟩, .of_quiet (fun h => ?_) (fun h => ?_),
    fun _ msg hmsg => ?_⟩
  · rw [← hmemory, hdisk]
    exact hground
  · cases hbooted.state.symm.trans h
  · cases hbooted.state.symm.trans h
  · rw [hbooted.msgs] at hmsg
    cases hmsg

/-! ## The cluster -/

namespace Cluster

variable {c next : Cluster}

/-- Snapshots are installed only over logs that may go, and there is room for new entries. -/
def Safe (c : Cluster) : Action → Prop
  | .call n env (.message msg) => msg.type = .installSnapshot →
      ((c.node n).arm env).Installs msg → (c.node n).Replaceable msg
  | .call n _ (.propose _) => (c.node n).lastLogIndex + 2 < 2 ^ 64
  | .call n _ .readIndex => (c.node n).lastLogIndex + 2 < 2 ^ 64
  | _ => True

instance (c : Cluster) : (action : Action) → Decidable (c.Safe action)
  | .call n env (.message msg) => inferInstanceAs (Decidable (msg.type = .installSnapshot →
      ((c.node n).arm env).Installs msg → (c.node n).Replaceable msg))
  | .call n _ (.propose _) | .call n _ .readIndex =>
      inferInstanceAs (Decidable ((c.node n).lastLogIndex + 2 < 2 ^ 64))
  | .call _ _ .tick | .call _ _ (.finishRead _) | .call _ _ (.advance _)
  | .call _ _ (.takeSnapshot _ _) | .restart _ _ => .isTrue trivial

/-- The cluster is in a state of the abstract protocol. -/
structure Refines (setup : Setup) (a : Sys Nat Entry) (c : Cluster) : Prop where
  inv : setup.protocol.Inv a
  node : ∀ i ∈ setup.members, (c.node i).Simulated setup a i
  net : ∀ msg ∈ c.net, msg.Honest setup a

theorem Initial.refines (hinitial : c.Initial setup) : c.Refines setup Sys.start where
  inv := setup.protocol.inv_start
  node i hi := by
    obtain ⟨draws, hboot⟩ := hinitial.2 i hi
    have hnothing : (Durable.start : Durable Capture).Accepts [] := trivial
    exact (boot_booted hboot).simulated (boot_mirrors hnothing hboot) rfl rfl ⟨rfl, rfl, rfl⟩
      ⟨setup.protocol.rooted_nil, .inl rfl, rfl, rfl⟩
  net msg hmsg := by simp [hinitial.1] at hmsg

theorem Safe.allows {n : Nat} {env : Env} {input : Input Capture} (hrefines : c.Refines setup a)
    (hsafe : c.Safe (.call n env input)) (hmay : c.mayCall n input = true) :
    ((c.node n).arm env).Allows (honestOutside setup a) input := by
  cases input with
  | message msg =>
      obtain ⟨hnet, -⟩ := mem_net_of_mayCall hmay
      refine ⟨hrefines.net msg hnet, fun htype hinstalls next hsame => ?_⟩
      exact Raft.SameLog.replaceable (r := c.node n)
        ⟨hsame.log, hsame.logOffset, hsame.logOffsetTerm, hsame.commitIndex, hsame.lastApplied⟩
        (hsafe htype hinstalls)
  | takeSnapshot index state =>
      simp only [mayCall, Bool.and_eq_true, beq_iff_eq] at hmay
      exact hmay.2
  | propose data => exact hsafe
  | readIndex => exact hsafe
  | _ => trivial

/-- A step of the cluster is steps of one node. -/
theorem Refines.step {action : Action} (hrefines : c.Refines setup a) (hsafe : c.Safe action)
    (hstep : c.step setup action = some next) :
    ∃ n a', setup.protocol.Steps n a a' ∧ next.Refines setup a' := by
  cases action with
  | call n env input =>
      obtain ⟨hmember, hmay, rfl⟩ := step_call hstep
      obtain ⟨a', hsteps, hsim, hsent⟩ := (hrefines.node n hmember).act env hmember hrefines.inv
        (hsafe.allows hrefines hmay)
      have hevolves := hsteps.evolves hrefines.inv
      refine ⟨n, a', hsteps, hevolves.inv, ?_, fun msg hmsg => ?_⟩
      · exact forall_setNode (P := fun i r => i ∈ setup.members → r.Simulated setup a' i)
          (fun _ => hsim) (fun i hne hi => (hrefines.node i hi).grow hne hevolves)
      · rcases List.mem_append.mp hmsg with hold | hnew
        · exact (hrefines.net msg hold).grow hevolves.grows
        · exact hsent msg hnew
  | restart n draws =>
      obtain ⟨hmember, r, hboot, rfl⟩ := step_restart hstep
      have hold := hrefines.node n hmember
      have haccepts := hold.mirrors.synced_accepts
      have hsim := (boot_booted hboot).simulated (boot_mirrors haccepts hboot) rfl rfl
        hold.stores.located hold.stores.disk
      refine ⟨n, a, .refl, hrefines.inv, ?_, hrefines.net⟩
      exact forall_setNode (P := fun i r => i ∈ setup.members → r.Simulated setup a i)
        (fun _ => hsim) (fun i _ hi => hrefines.node i hi)

end Cluster

/-- Every run goes along with a run of the protocol, which only ever grows. -/
theorem Run.refines {c : Cluster} {past : List Cluster}
    (hrun : Run setup Cluster.Safe (c :: past)) :
    ∃ a, c.Refines setup a ∧ ∀ c' ∈ past, ∃ a', c'.Refines setup a' ∧ Grows a' a := by
  generalize hstates : c :: past = states at hrun
  induction hrun generalizing c past with
  | start c₀ hinitial =>
      obtain ⟨rfl, rfl⟩ := List.cons.inj hstates
      exact ⟨_, hinitial.refines, by simp⟩
  | step before next earlier action _ hok hstep ih =>
      obtain ⟨rfl, rfl⟩ := List.cons.inj hstates
      obtain ⟨a, hrefines, hpast⟩ := ih rfl
      obtain ⟨n, a', hsteps, hnext⟩ := hrefines.step hok hstep
      have hgrow := (hsteps.evolves hrefines.inv).grows
      refine ⟨a', hnext, fun c' hc' => ?_⟩
      rcases List.mem_cons.mp hc' with rfl | hc'
      · exact ⟨a, hrefines, hgrow⟩
      · obtain ⟨b, hb, hle⟩ := hpast c' hc'
        exact ⟨b, hb, hle.trans hgrow⟩

end RaftKv
