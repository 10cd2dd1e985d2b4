import RaftKv.Cluster.Simulation

/-! # Clusters without snapshots

With a snapshot threshold of zero no node compacts its log and no snapshot is sent, so
every log is whole from its first entry on. The bound on the size of a log then keeps every
index in range, and all runs are safe.
-/

namespace RaftKv

open TermLog

variable {setup : Setup} {a : Sys Nat Entry} {i : Nat} {r next : Raft Capture}
  {msg : Message Capture} {o : Outside Capture}

namespace Raft

/-- Nothing was ever compacted, in memory or in the file. -/
structure Whole (r : Raft Capture) : Prop where
  threshold : r.snapshotThreshold = 0
  memory : r.logOffset = 0
  disk : r.onDisk.offset = 0
  spoken : r.storageFailed = false → ∀ msg ∈ r.msgs, msg.type ≠ .installSnapshot

/-- A leader of a whole log has no use for a snapshot. -/
theorem Sent.type_ne (hoffset : next.logOffset = 0) (hhealthy : next.storageFailed = false)
    (hplays : next.Plays setup a i) (hsent : Sent o r next msg) : msg.type ≠ .installSnapshot := by
  cases hsent with
  | plain _ hplain =>
      intro htype
      rw [Message.Plain, htype] at hplain
      exact hplain
  | heartbeat peer hpeer hstate =>
      obtain ⟨pr, hpr⟩ := hplays.known hhealthy hstate peer hpeer
      have hpos := (hplays.tracks hhealthy hstate peer pr hpr).next_pos
      have hprogress : next.progressOf peer = pr := by rw [progressOf, hpr]; rfl
      rw [heartbeatFor, if_neg (by rw [hprogress, hoffset]; omega)]
      exact fun h => by cases h
  | snapshot peer _ _ hpos => omega
  | accepted request =>
      obtain ⟨success, index, hreply⟩ := r.acceptEntries_reply request
      rw [hreply]
      exact fun h => by cases h
  | _ => exact fun h => by cases h

theorem Writes.offset {w : Wal Capture} {records : List (Record Capture)}
    (hwrites : Writes r w records next)
    (hdurable : r.durable = w.file.foldl Durable.apply Durable.start)
    (hkeeps : ∀ record ∈ records, record.KeepsStart) :
    next.logOffset = r.logOffset ∧ next.onDisk.offset = r.logOffset := by
  have hdisk : ∀ (w' : Wal Capture) done, done <+: records → next.wal = some w' →
      w'.file = w.file ++ done → next.onDisk.offset = r.logOffset := by
    intro w' done hpre hwal' hfile
    rw [onDisk, Raft.synced, hwal', Option.map_some, Option.getD_some, hfile, List.foldl_append,
      ← hdurable, Durable.foldl_offset fun record h => hkeeps record (hpre.subset h)]
    rfl
  have hmemory : ∀ done, done <+: records → next.durable = done.foldl Durable.apply r.durable →
      next.logOffset = r.logOffset := by
    intro done hpre hnext
    have hoffset := Durable.foldl_offset (fun record h => hkeeps record (hpre.subset h)) r.durable
    rw [← hnext] at hoffset
    exact hoffset
  cases hwrites with
  | synced w' _ hwal' _ _ hfile hnext =>
      exact ⟨hmemory _ List.prefix_rfl hnext, hdisk w' _ List.prefix_rfl hwal' hfile⟩
  | failed w' kept rest seen _ hsplit hseen hwal' _ _ hfile _ hnext =>
      exact ⟨hmemory _ (hseen.trans hsplit) hnext,
        hdisk w' _ ((List.prefix_append _ _).trans hsplit) hwal' hfile⟩

theorem Move.whole (ho : o.InRange) (hno : ¬ o.Compacts r) (hmirrors : r.Mirrors)
    (hplays : next.Plays setup a i) (hwhole : r.Whole) (hmove : Move o r next) : next.Whole := by
  have hthreshold := hmove.same_config.2.2.trans hwhole.threshold
  cases hfailed : r.storageFailed with
  | true =>
      obtain ⟨hwal, hfailed', hdurable⟩ := hmove.of_failed hfailed
      refine ⟨hthreshold, (congrArg Durable.offset hdurable).trans hwhole.memory, ?_,
        fun h => by rw [hfailed'] at h; cases h⟩
      rw [onDisk, Raft.synced, hwal]
      exact hwhole.disk
  | false =>
      obtain ⟨hterms, hsane, w, hwal, _, _, hclean⟩ := hmirrors
      obtain ⟨hclean, hdurable⟩ := hclean hfailed
      obtain ⟨records, hwrites, hkeeps⟩ := hmove.writes ho hterms hsane hwal hclean hfailed
      obtain ⟨hmemory, hdisk⟩ := hwrites.offset hdurable (hkeeps.resolve_left hno)
      rw [hwhole.memory] at hmemory hdisk
      refine ⟨hthreshold, hmemory, hdisk, fun hhealthy msg hmsg => ?_⟩
      obtain ⟨new, hnew, hsent⟩ := hmove.sends
      rw [hnew] at hmsg
      rcases List.mem_append.mp hmsg with hold | hadded
      · exact hwhole.spoken hfailed msg hold
      · exact (hsent msg hadded).type_ne hmemory hhealthy hplays

theorem Moves.whole (ho : o.Honest setup a) (hno : ∀ r, ¬ o.Compacts r)
    (hmember : i ∈ setup.members) (hinv : setup.protocol.Inv a) (hsim : r.Simulated setup a i)
    (hwhole : r.Whole) (hmoves : Moves o r next) : next.Whole := by
  induction hmoves with
  | refl => exact hwhole
  | tail hmoves hmove ih =>
      obtain ⟨_, _, hmid⟩ := Moves.simulated ho hmember hinv hsim hmoves
      obtain ⟨_, _, hnext⟩ := Moves.simulated ho hmember hinv hsim (hmoves.tail hmove)
      exact hmove.whole ho.inRange (hno _) hmid.mirrors hnext.plays ih

/-! ## Proposals -/

theorem appendOwn_log_length (r : Raft Capture) (e : Entry) :
    r.log.length ≤ (r.appendOwn e).1.log.length := by
  unfold appendOwn
  dsimp only
  split <;> simp [syncWal, saveEntry]

theorem propose_log_length (r : Raft Capture) (data : Bytes) :
    r.log.length ≤ (r.propose data).1.log.length := by
  unfold propose
  split
  · exact le_rfl
  · have happend := r.appendOwn_log_length (r.nextEntry data)
    dsimp only
    split <;> exact happend

theorem finishReadIndex_log (r : Raft Capture) (read : ReadIndexToken) :
    (r.finishReadIndex read).log = r.log := by
  unfold finishReadIndex
  split <;> rfl

theorem readIndex_log_length (r : Raft Capture) : r.log.length ≤ r.readIndex.1.log.length := by
  unfold readIndex
  split
  · exact le_rfl
  split
  · exact le_rfl
  dsimp only
  split
  · have hpropose := propose_log_length { r.startReadRound with
      pendingReadIndex := wrap64 (r.startReadRound.lastLogIndex + 1) } []
    split
    next heq =>
      rw [heq] at hpropose
      dsimp only
      rw [finishReadIndex_log]
      exact hpropose
    next heq =>
      rw [heq] at hpropose
      exact hpropose
  · exact le_rfl

/-- A call that may add to the log never shortens it. -/
theorem act_log_length (r : Raft Capture) (env : Env) {input : Input Capture}
    (hinput : (∃ data, input = .propose data) ∨ input = .readIndex) :
    r.log.length ≤ (r.act env input).1.log.length := by
  have hstep : r.log.length ≤ ((r.arm env).step input).log.length := by
    rcases hinput with ⟨data, rfl⟩ | rfl
    · exact (r.arm env).propose_log_length data
    · exact (r.arm env).readIndex_log_length
  unfold act
  split
  · exact le_rfl
  · split <;> exact hstep

end Raft

/-- What a node of a cluster without snapshots meets. -/
def wholeOutside (setup : Setup) (a : Sys Nat Entry) : Outside Capture where
  message msg := msg.Honest setup a ∧ msg.type ≠ .installSnapshot
  snapshot _ _ _ := False
  room last := last + 2 < 2 ^ 64
  install _ _ := False

theorem wholeOutside_honest : (wholeOutside setup a).Honest setup a :=
  ⟨fun _ h => h.1, fun _ _ _ h => h.elim, fun _ h => h, fun _ _ h => h.elim⟩

theorem not_compacts_wholeOutside (r : Raft Capture) : ¬ (wholeOutside setup a).Compacts r := by
  rintro (⟨_, _, h⟩ | ⟨_, ⟨_, hne⟩, htype⟩)
  · exact h
  · exact hne htype

theorem Raft.Whole.act (env : Env) {input : Input Capture} (hmember : i ∈ setup.members)
    (hinv : setup.protocol.Inv a) (hsim : r.Simulated setup a i) (hwhole : r.Whole)
    (hallows : (r.arm env).Allows (wholeOutside setup a) input) :
    (r.act env input).1.Whole ∧ ∀ msg ∈ (r.act env input).2, msg.type ≠ .installSnapshot := by
  have harmed : (r.arm env).Whole :=
    ⟨hwhole.threshold, hwhole.memory, by rw [onDisk, synced_arm]; exact hwhole.disk, hwhole.spoken⟩
  unfold Raft.act
  split
  · exact ⟨hwhole, by simp⟩
  next hhealthy =>
    have hmoves := step_moves (r := r.arm env) (Bool.not_eq_true _ ▸ hhealthy) hallows
    have hnext := hmoves.whole wholeOutside_honest not_compacts_wholeOutside hmember hinv
      (hsim.arm env) harmed
    split
    · exact ⟨hnext, by simp⟩
    next hrunning =>
      rw [Bool.not_eq_true] at hrunning
      exact ⟨⟨hnext.threshold, hnext.memory, hnext.disk, fun _ msg hmsg => by cases hmsg⟩,
        hnext.spoken hrunning⟩

namespace Cluster

variable {c next : Cluster}

structure Whole (setup : Setup) (c : Cluster) : Prop where
  node : ∀ i ∈ setup.members, (c.node i).Whole
  net : ∀ msg ∈ c.net, msg.type ≠ .installSnapshot

theorem Whole.allows {n : Nat} {env : Env} {input : Input Capture} (hmember : n ∈ setup.members)
    (hrefines : c.Refines setup a) (hwhole : c.Whole setup) (hmay : c.mayCall n input = true)
    (hfits : ((c.node n).act env input).1.log.length < maxLogSize) :
    ((c.node n).arm env).Allows (wholeOutside setup a) input := by
  have hroom : (∃ data, input = .propose data) ∨ input = .readIndex →
      (c.node n).lastLogIndex + 2 < 2 ^ 64 := by
    intro hinput
    have hlength := Raft.act_log_length (c.node n) env hinput
    have hlast : (c.node n).lastLogIndex = wrap64 (c.node n).log.length := by
      rw [Raft.lastLogIndex, (hwhole.node n hmember).memory, Nat.zero_add]
    unfold maxLogSize at hfits
    rw [hlast, wrap64_of_lt (by omega)]
    omega
  cases input with
  | message msg =>
      obtain ⟨hnet, -⟩ := mem_net_of_mayCall hmay
      exact ⟨⟨hrefines.net msg hnet, hwhole.net msg hnet⟩, fun h => absurd h (hwhole.net msg hnet)⟩
  | takeSnapshot index state =>
      simp only [mayCall, (hwhole.node n hmember).threshold] at hmay
      cases hmay
  | propose data => exact hroom (.inl ⟨data, rfl⟩)
  | readIndex => exact hroom (.inr rfl)
  | _ => trivial

theorem Whole.safe {action : Action} (hrefines : c.Refines setup a) (hwhole : c.Whole setup)
    (hstep : c.step setup action = some next) : c.Safe action := by
  cases action with
  | restart n draws => trivial
  | call n env input =>
      obtain ⟨hmember, hmay, -⟩ := step_call hstep
      have hallows := hwhole.allows hmember hrefines hmay (step_call_fits hstep)
      cases input with
      | message msg => exact fun htype _ => absurd htype hallows.1.2
      | propose data => exact hallows
      | readIndex => exact hallows
      | _ => trivial

end Cluster

/-- A node started on a whole file. -/
theorem Booted.whole {config : Config} {file : List (Record Capture)}
    (hbooted : Booted config file r) (hmirrors : r.Mirrors)
    (hthreshold : config.snapshotThreshold = 0)
    (hfile : (file.foldl Durable.apply Durable.start).offset = 0) : r.Whole := by
  have hdisk : r.onDisk = file.foldl Durable.apply Durable.start := by
    simp [Raft.onDisk, Raft.synced, hbooted.wal]
  refine ⟨hbooted.threshold.trans hthreshold, ?_, hdisk ▸ hfile, fun _ msg hmsg => ?_⟩
  · show r.durable.offset = 0
    rw [← hmirrors.onDisk_eq hbooted.healthy, hdisk, hfile]
  · rw [hbooted.msgs] at hmsg
    cases hmsg

namespace Cluster

variable {c next : Cluster}

theorem Initial.whole (hno : ∀ i ∈ setup.members, setup.snapshotThreshold i = 0)
    (hinitial : c.Initial setup) : c.Whole setup where
  node i hi := by
    obtain ⟨draws, hboot⟩ := hinitial.2 i hi
    have hnothing : (Durable.start : Durable Capture).Accepts [] := trivial
    exact (boot_booted hboot).whole (boot_mirrors hnothing hboot) (hno i hi) rfl
  net msg hmsg := by simp [hinitial.1] at hmsg

theorem Whole.step {action : Action} (hno : ∀ i ∈ setup.members, setup.snapshotThreshold i = 0)
    (hrefines : c.Refines setup a) (hwhole : c.Whole setup)
    (hstep : c.step setup action = some next) : next.Whole setup := by
  cases action with
  | call n env input =>
      obtain ⟨hmember, hmay, rfl⟩ := step_call hstep
      have hallows := hwhole.allows hmember hrefines hmay (step_call_fits hstep)
      obtain ⟨hnode, hsent⟩ := (hwhole.node n hmember).act env hmember hrefines.inv
        (hrefines.node n hmember) hallows
      refine ⟨?_, fun msg hmsg => ?_⟩
      · exact forall_setNode (P := fun i r => i ∈ setup.members → r.Whole) (fun _ => hnode)
          (fun i _ => hwhole.node i)
      · rcases List.mem_append.mp hmsg with hold | hnew
        · exact hwhole.net msg hold
        · exact hsent msg hnew
  | restart n draws =>
      obtain ⟨hmember, r, hboot, rfl⟩ := step_restart hstep
      have haccepts := (hrefines.node n hmember).mirrors.synced_accepts
      have hnode := (boot_booted hboot).whole (boot_mirrors haccepts hboot) (hno n hmember)
        (hwhole.node n hmember).disk
      exact ⟨forall_setNode (P := fun i r => i ∈ setup.members → r.Whole) (fun _ => hnode)
        (fun i _ => hwhole.node i), hwhole.net⟩

end Cluster

/-- Without snapshots every run is safe. -/
theorem Run.whole {Ok : Cluster → Action → Prop} {c : Cluster} {past : List Cluster}
    (hno : ∀ i ∈ setup.members, setup.snapshotThreshold i = 0)
    (hrun : Run setup Ok (c :: past)) :
    Run setup Cluster.Safe (c :: past) ∧ ∀ c' ∈ c :: past, c'.Whole setup := by
  generalize hstates : c :: past = states at hrun
  induction hrun generalizing c past with
  | start c₀ hinitial =>
      refine ⟨.start c₀ hinitial, fun c' hc' => ?_⟩
      obtain rfl := List.mem_singleton.mp hc'
      exact hinitial.whole hno
  | step before next earlier action _ _ hstep ih =>
      obtain ⟨hsafe, hwhole⟩ := ih rfl
      obtain ⟨a, hrefines, -⟩ := hsafe.refines
      have hbefore := hwhole before List.mem_cons_self
      refine ⟨.step before next earlier action hsafe (hbefore.safe hrefines hstep) hstep,
        fun c' hc' => ?_⟩
      rcases List.mem_cons.mp hc' with rfl | hc'
      · exact hbefore.step hno hrefines hstep
      · exact hwhole c' hc'

end RaftKv
