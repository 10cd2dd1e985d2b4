import RaftKv.Node.Run
import RaftKv.Raft.Sent

/-! # Nothing is promised before it is on disk

A node hands its messages to the transport at the end of a call. By then every
record a message rests on has been flushed: the vote it gives, the candidacy it
announces, the entries it sends or acknowledges. A node whose storage has failed
sends nothing any more.
-/

namespace RaftKv

variable {D : Type} {config : Config} {r : Raft D}

section

variable [Blob D]

/-- The file, as recovery reads it, holds the node's log up to index `last`: the very entries of
the log, and below them the snapshot that the log continues. -/
def Covers (r : Raft D) (file : List (Record D)) (last : Nat) : Prop :=
  ∀ i, 0 < i → i ≤ last →
    i ≤ r.logOffset ∧ .snapshot (replay file).snapshot ∈ file ∧
        (replay file).snapshot.index = r.logOffset ∧
        (replay file).snapshot.term = r.logOffsetTerm ∧
        (replay file).snapshot.state = r.lastSnapshotData ∨
      r.logOffset < i ∧ ∃ e, r.log[i - r.logOffset - 1]? = some e ∧ e.index = i ∧
        e ∈ (replay file).entries ∧ .entry e ∈ file

/-- A snapshot record that installs the state carried by a message. -/
def Message.snapshotRecord (msg : Message D) : Record D :=
  .snapshot ⟨msg.snapshotIndex, msg.snapshotTerm, msg.snapshotData, true⟩

/-- The test by which `handle_install_snapshot` takes a snapshot for stale. -/
def Raft.StaleFor (r : Raft D) (msg : Message D) : Prop :=
  r.commitIndex > msg.snapshotIndex ∨ r.lastApplied ≥ msg.snapshotIndex

/-- What must be in the file of a node that was in state `r`, was called with `input` and is in
state `next`, when it sends `msg`. -/
def Backed (r next : Raft D) (input : Input D) (msg : Message D) : Prop :=
  match msg.type with
  | .requestVoteResponse => msg.voteGranted = true →
      ∃ commit, .hardState ⟨msg.term, msg.receiver, commit⟩ ∈ next.synced
  | .requestVote => ∃ commit, .hardState ⟨msg.term, msg.sender, commit⟩ ∈ next.synced
  | .appendEntries => ∀ e ∈ msg.entries, .entry e ∈ next.synced
  | .appendEntriesResponse => msg.success = true → Covers next next.synced msg.matchIndex
  | .installSnapshotResponse =>
      msg.success = true → ∃ request, input = .message request ∧
        (request.snapshotRecord ∈ next.synced ∧ msg.matchIndex = request.snapshotIndex ∨
          r.StaleFor request ∧ Covers next next.synced msg.matchIndex)
  | _ => True

end

namespace Raft

/-! ## What a healthy node finds in its file -/

section

variable [Blob D]

theorem Mirrors.synced_eq (hmirrors : r.Mirrors) (hhealthy : r.storageFailed = false) :
    (replay r.synced).durable = r.durable := by
  obtain ⟨w, hwal, _, haccepts, hclean⟩ := hmirrors.stored
  obtain ⟨hclean, hdurable⟩ := hclean hhealthy
  rw [hclean.lost, List.append_nil] at haccepts
  simpa [synced, hwal, hdurable] using durable_replay haccepts

theorem Mirrors.vote_mem (hmirrors : r.Mirrors) (hhealthy : r.storageFailed = false)
    (hvote : r.votedFor ≠ 0) : ∃ commit, .hardState ⟨r.term, r.votedFor, commit⟩ ∈ r.synced := by
  have heq := hmirrors.synced_eq hhealthy
  have hterm : (replay r.synced).hardState.term = r.term := congrArg Durable.term heq
  have hvote' : (replay r.synced).hardState.vote = r.votedFor := congrArg Durable.vote heq
  rcases (replay_traced r.synced).hardState with hempty | hmem
  · exact absurd (by rw [← hvote', hempty]) hvote
  · refine ⟨(replay r.synced).hardState.commit, ?_⟩
    rw [← hterm, ← hvote']
    exact hmem

theorem Mirrors.entry_mem (hmirrors : r.Mirrors) (hhealthy : r.storageFailed = false) {e : Entry}
    (he : e ∈ r.log) : .entry e ∈ r.synced := by
  have hlog : (replay r.synced).entries = r.log :=
    congrArg Durable.log (hmirrors.synced_eq hhealthy)
  exact (replay_traced r.synced).entry e (hlog ▸ he)

theorem Mirrors.covers (hmirrors : r.Mirrors) (hhealthy : r.storageFailed = false) {last : Nat}
    (hlast : last ≤ r.logOffset + r.log.length) : Covers r r.synced last := by
  have heq := hmirrors.synced_eq hhealthy
  have hlog : (replay r.synced).entries = r.log := congrArg Durable.log heq
  have hoffset : (replay r.synced).snapshot.index = r.logOffset := congrArg Durable.offset heq
  intro i hpos hi
  by_cases hle : i ≤ r.logOffset
  · refine .inl ⟨hle, ?_, hoffset, congrArg Durable.offsetTerm heq, congrArg Durable.data heq⟩
    rcases (replay_traced r.synced).snapshot with hnone | hmem
    · rw [hnone] at hoffset
      simp only [SnapshotMeta.none] at hoffset
      omega
    · exact hmem
  · have hk : i - r.logOffset - 1 < r.log.length := by omega
    have hmem := List.getElem_mem hk
    refine .inr ⟨by omega, _, List.getElem?_eq_getElem hk, ?_, by rw [hlog]; exact hmem,
      hmirrors.entry_mem hhealthy hmem⟩
    have := hmirrors.sane.valid.indexed _ _ (List.getElem?_eq_getElem hk)
    simp only [durable] at this
    omega

theorem Move.synced_isPrefix {o : Outside D} {next : Raft D} (ho : o.InRange) (hmirrors : r.Mirrors)
    (hmove : Move o r next) : r.synced <+: next.synced := by
  obtain ⟨hterms, hsane, w, hwal, _, _, hclean⟩ := hmirrors
  cases hfailed : r.storageFailed with
  | true => simp [synced, (hmove.of_failed hfailed).1]
  | false =>
      obtain ⟨records, hwrites, -⟩ := hmove.writes ho hterms hsane hwal (hclean hfailed).1 hfailed
      cases hwrites with
      | synced w' _ hwal' _ _ hfile => simp [synced, hwal, hwal', hfile]
      | failed w' kept rest seen _ _ _ hwal' _ _ hfile => simp [synced, hwal, hwal', hfile]

theorem Move.healthy_of {o : Outside D} {next : Raft D} (hmove : Move o r next)
    (hhealthy : next.storageFailed = false) : r.storageFailed = false := by
  by_contra hfailed
  have := (hmove.of_failed (Bool.not_eq_false _ ▸ hfailed)).2.1
  simp [hhealthy] at this

end

/-! ## Messages that are no answer to a leader -/

/-- The clauses of `Backed` that do not look at the call; no leader is answered. -/
def Vouched (file : List (Record D)) (msg : Message D) : Prop :=
  match msg.type with
  | .requestVoteResponse =>
      msg.voteGranted = true → ∃ commit, .hardState ⟨msg.term, msg.receiver, commit⟩ ∈ file
  | .requestVote => ∃ commit, .hardState ⟨msg.term, msg.sender, commit⟩ ∈ file
  | .appendEntries => ∀ e ∈ msg.entries, .entry e ∈ file
  | .appendEntriesResponse | .installSnapshotResponse => msg.success = false
  | _ => True

theorem Vouched.mono {file more : List (Record D)} {msg : Message D} (hpre : file <+: more)
    (hvouched : Vouched file msg) : Vouched more msg := by
  unfold Vouched at *
  split at *
  · exact fun h => (hvouched h).imp fun _ hmem => hpre.subset hmem
  · exact hvouched.imp fun _ hmem => hpre.subset hmem
  · exact fun e he => hpre.subset (hvouched e he)
  all_goals exact hvouched

theorem vouched_of_plain {file : List (Record D)} {msg : Message D} (hplain : msg.Plain) :
    Vouched file msg := by
  unfold Message.Plain at hplain
  unfold Vouched
  split at hplain <;> simp_all

theorem mem_log_of_entriesFrom (hvalid : r.durable.Valid) {next : Nat} (hnext : r.logOffset < next)
    {e : Entry} (he : e ∈ r.entriesFrom next) : e ∈ r.log := by
  obtain ⟨i, hi, rfl⟩ := List.mem_map.mp he
  rw [List.mem_range'_1, lastLogIndex_of_valid hvalid] at hi
  exact List.mem_of_getElem? (logEntry_of_valid hvalid (by omega) (by omega))

variable [Blob D]

theorem Vouched.backed {next : Raft D} {msg : Message D} {input : Input D}
    (hvouched : Vouched next.synced msg) : Backed r next input msg := by
  unfold Vouched at hvouched
  unfold Backed
  split at hvouched
  all_goals simp_all

theorem Mirrors.heartbeat_vouched (hmirrors : r.Mirrors) (hhealthy : r.storageFailed = false)
    (peer : Nat) : Vouched r.synced (r.heartbeatFor peer) := by
  unfold heartbeatFor
  split
  · trivial
  next hnext =>
    intro e he
    exact hmirrors.entry_mem hhealthy
      (mem_log_of_entriesFrom hmirrors.sane.valid (not_le.mp hnext) he)

/-- Every queued message is vouched for. -/
def Outbox (r : Raft D) : Prop := ∀ msg ∈ r.msgs, Vouched r.synced msg

theorem Sent.vouched {o : Outside D} {next : Raft D} {msg : Message D}
    (hno : ∀ msg, o.message msg → ¬ msg.FromLeader) (hmirrors : next.Mirrors)
    (hhealthy : next.storageFailed = false) (hsent : Sent o r next msg) :
    Vouched next.synced msg := by
  cases hsent with
  | plain msg hplain => exact vouched_of_plain hplain
  | preVote => trivial
  | candidacy peer _ hstate =>
      have hself := hmirrors.inTerm.candidate hstate
      have hmem := hmirrors.vote_mem hhealthy (hself ▸ hmirrors.inTerm.id_ne_zero)
      rwa [hself] at hmem
  | vote request _ _ haddressed _ _ hvote =>
      have hmem := hmirrors.vote_mem hhealthy (hvote ▸ sender_ne_zero haddressed)
      rw [hvote] at hmem
      exact fun _ => hmem
  | heartbeat peer => exact hmirrors.heartbeat_vouched hhealthy peer
  | snapshot => trivial
  | accepted request hmsg htype => exact absurd (.inl htype) (hno request hmsg)
  | stale request hmsg htype => exact absurd (.inr htype) (hno request hmsg)
  | installed request hmsg htype => exact absurd (.inr htype) (hno request hmsg)

theorem Moves.outbox {o : Outside D} {next : Raft D} (ho : o.InRange)
    (hno : ∀ msg, o.message msg → ¬ msg.FromLeader) (hmirrors : r.Mirrors)
    (hmoves : Moves o r next) (hout : r.Outbox) (hnext : next.storageFailed = false) :
    next.Outbox := by
  induction hmoves with
  | refl => exact hout
  | tail hmoves hmove ih =>
      have hmid := Moves.mirrors ho hmirrors hmoves
      obtain ⟨new, hmsgs, hnew⟩ := hmove.sends
      intro msg hmsg
      rw [hmsgs] at hmsg
      rcases List.mem_append.mp hmsg with hold | hadded
      · exact (ih (hmove.healthy_of hnext) msg hold).mono (hmove.synced_isPrefix ho hmid)
      · exact (hnew msg hadded).vouched hno (hmove.mirrors ho hmid) hnext

/-! ## Answers to a leader -/

variable {msg : Message D}

/-- The answer to an `AppendEntries`, the only message it leaves in the queue. -/
theorem handleAppendEntries_answer (hmirrors : r.Mirrors) (hhealthy : r.storageFailed = false)
    (hrange : msg.InRange) (htype : msg.type = .appendEntries) :
    (r.handleAppendEntries msg).1.msgs = r.msgs ∧
      (r.handleAppendEntries msg).2.type = .appendEntriesResponse ∧
      ((r.handleAppendEntries msg).2.success = true → (r.handleAppendEntries msg).2.matchIndex ≤
        (r.handleAppendEntries msg).1.logOffset + (r.handleAppendEntries msg).1.log.length) := by
  obtain ⟨hmoves, -, hready⟩ := prepareForLeaderRpc_moves (o := inRangeOutside) hrange (.inl htype)
    hhealthy
  have hprepared := hmoves.mirrors inRangeOutside_inRange hmirrors
  have hmsgs := prepareForLeaderRpc_msgs r msg
  unfold handleAppendEntries
  generalize r.prepareForLeaderRpc msg = prepared at *
  obtain ⟨prepared, ready⟩ := prepared
  cases ready with
  | false => exact ⟨hmsgs, rfl, fun h => by cases h⟩
  | true =>
      simp only [Bool.not_true, Bool.false_eq_true, if_false]
      split
      · exact ⟨hmsgs, rfl, fun h => by cases h⟩
      next hlog =>
        obtain ⟨log, commit, wal, failed, hframe⟩ := prepared.acceptEntries_frame msg
        obtain ⟨w, hwal, _, _, hclean⟩ := hprepared.stored
        have hstored := (hready rfl).healthy
        obtain ⟨added, log', more, haccepted⟩ := acceptEntries_spec hprepared.sane.valid hwal
          (hclean hstored).1 hstored hrange htype (by simpa using hlog)
        refine ⟨by rw [hframe]; exact hmsgs, ?_, fun hsuccess => ?_⟩
        · obtain ⟨success, index, heq⟩ := prepared.acceptEntries_reply msg
          rw [heq]
          rfl
        · obtain ⟨hcomplete, hmatch, _, hlog'⟩ := haccepted.response hsuccess
          have hreached := haccepted.appended.reached hcomplete
          rw [hmatch, hlog', hframe]
          exact hreached

/-- The answer to an `InstallSnapshot`. -/
theorem handleInstallSnapshot_answer (hmirrors : r.Mirrors) (hhealthy : r.storageFailed = false)
    (hrange : msg.InRange) (htype : msg.type = .installSnapshot) :
    (r.handleInstallSnapshot msg).1.msgs = r.msgs ∧
      (r.handleInstallSnapshot msg).2.type = .installSnapshotResponse ∧
      ((r.handleInstallSnapshot msg).1.storageFailed = false →
        (r.handleInstallSnapshot msg).2.success = true →
        msg.snapshotRecord ∈ (r.handleInstallSnapshot msg).1.synced ∧
            (r.handleInstallSnapshot msg).2.matchIndex = msg.snapshotIndex ∨
          r.StaleFor msg ∧ (r.handleInstallSnapshot msg).2.matchIndex ≤
            (r.handleInstallSnapshot msg).1.logOffset +
              (r.handleInstallSnapshot msg).1.log.length) := by
  obtain ⟨hmoves, hsame, hready⟩ := prepareForLeaderRpc_moves (o := inRangeOutside) hrange
    (.inr htype) hhealthy
  have hprepared := hmoves.mirrors inRangeOutside_inRange hmirrors
  have hmsgs := prepareForLeaderRpc_msgs r msg
  unfold handleInstallSnapshot
  generalize r.prepareForLeaderRpc msg = prepared at *
  obtain ⟨prepared, ready⟩ := prepared
  cases ready with
  | false => exact ⟨hmsgs, rfl, fun _ h => by cases h⟩
  | true =>
      simp only [Bool.not_true, Bool.false_eq_true, if_false]
      split
      · exact ⟨hmsgs, rfl, fun _ h => by cases h⟩
      next hwellFormed =>
        split
        next hstale =>
          refine ⟨hmsgs, rfl, fun _ _ => .inr ⟨?_, ?_⟩⟩
          · rwa [hsame.commitIndex, hsame.lastApplied] at hstale
          · have hcommit := hprepared.sane.valid.commit_le
            have happlied := hprepared.sane.applied_le
            simp only [Durable.last, durable] at hcommit
            exact max_le hcommit (le_trans happlied hcommit)
        next hfresh =>
          split
          · exact ⟨hmsgs, rfl, fun _ h => by cases h⟩
          · obtain ⟨w, hwal, _, _, hclean⟩ := hprepared.stored
            have hstored := (hready rfl).healthy
            have hindex : msg.snapshotIndex ≠ 0 := fun h => hwellFormed (.inl h)
            have hwrites := installSnapshot_writes hprepared.sane.valid hwal (hclean hstored).1
              hstored (hrange.snapshot htype) hindex (not_lt.mp fun h => hfresh (.inl h))
            refine ⟨?_, ?_, fun hok hsuccess => .inl ⟨?_, ?_⟩⟩
            · obtain ⟨wal, failed, heq | heq⟩ := prepared.installSnapshot_frame msg
              · rw [heq]
                exact hmsgs
              · rw [heq]
                exact hmsgs
            · rcases prepared.installSnapshot_reply msg with heq | heq <;> rw [heq] <;> rfl
            · cases hwrites with
              | synced w' _ hwal' _ _ hfile =>
                  simp [synced, hwal', hfile, Message.snapshotRecord]
              | failed _ _ _ _ _ _ _ _ hfailed => simp [hok] at hfailed
            · rcases prepared.installSnapshot_reply msg with heq | heq
              · rw [heq] at hsuccess
                cases hsuccess
              · rw [heq]
                rfl

end Raft

section

variable [Blob D]

/-- A healthy node has handed over everything it said. -/
theorem Reach.msgs_nil {Ok : Raft D → Input D → Prop} (hreach : Reach config Ok r)
    (hhealthy : r.storageFailed = false) : r.msgs = [] := by
  induction hreach with
  | start draws r hboot => exact (boot_booted hboot).msgs
  | act r env input _ _ ih =>
      unfold Raft.act at hhealthy ⊢
      split
      next hfailed => simp [hfailed] at hhealthy
      next hrunning =>
        rw [if_neg hrunning] at hhealthy
        split
        next hfailed => simp [hfailed] at hhealthy
        · rfl
  | crash r n draws next _ hboot => exact (boot_booted hboot).msgs

end

/-! ## Every message of a run -/

/-- The call itself is all a node hears of. -/
def callOutside (input : Input D) : Outside D where
  message msg := input = .message msg ∧ msg.InRange
  snapshot _ _ _ := True
  room last := last + 2 < 2 ^ 64
  install _ _ := True

theorem callOutside_inRange (input : Input D) : (callOutside input).InRange :=
  ⟨fun _ h => h.2, fun _ h => h⟩

variable [Blob D]

theorem callOutside_allows {input : Input D} {env : Env} (hrange : r.InRange input) :
    (r.arm env).Allows (callOutside input) input := by
  cases input with
  | message msg => exact ⟨⟨rfl, hrange⟩, fun _ _ _ _ => trivial⟩
  | propose data => exact hrange
  | readIndex => exact hrange
  | _ => trivial

theorem step_backed {input : Input D} {env : Env} (hmirrors : r.Mirrors) (hmsgs : r.msgs = [])
    (hhealthy : r.storageFailed = false) (hrange : r.InRange input)
    (hok : ((r.arm env).step input).storageFailed = false) :
    ∀ msg ∈ ((r.arm env).step input).msgs, Backed r ((r.arm env).step input) input msg := by
  have harmed := hmirrors.arm env
  have hmoves := Raft.step_moves (r := r.arm env) hhealthy (callOutside_allows hrange)
  have hstep := hmoves.mirrors (callOutside_inRange input) harmed
  by_cases hleader : ∃ request, input = .message request ∧ request.FromLeader
  · obtain ⟨request, rfl, htype | htype⟩ := hleader
    · obtain ⟨hquiet, hkind, hmatch⟩ :=
        Raft.handleAppendEntries_answer harmed hhealthy hrange htype
      have heq : (r.arm env).step (.message request) =
          ((r.arm env).handleAppendEntries request).1.send
            ((r.arm env).handleAppendEntries request).2 := by
        simp only [Raft.step, Raft.handleMessage, htype]
      rw [heq] at hstep hok ⊢
      intro msg hmsg
      rw [Raft.send, hquiet, show (r.arm env).msgs = [] from hmsgs, List.nil_append,
        List.mem_singleton] at hmsg
      subst hmsg
      unfold Backed
      rw [hkind]
      exact fun hsuccess => hstep.covers hok (hmatch hsuccess)
    · obtain ⟨hquiet, hkind, hanswer⟩ :=
        Raft.handleInstallSnapshot_answer harmed hhealthy hrange htype
      have heq : (r.arm env).step (.message request) =
          ((r.arm env).handleInstallSnapshot request).1.send
            ((r.arm env).handleInstallSnapshot request).2 := by
        simp only [Raft.step, Raft.handleMessage, htype]
      rw [heq] at hstep hok ⊢
      intro msg hmsg
      rw [Raft.send, hquiet, show (r.arm env).msgs = [] from hmsgs, List.nil_append,
        List.mem_singleton] at hmsg
      subst hmsg
      unfold Backed
      rw [hkind]
      refine fun hsuccess => ⟨request, rfl, ?_⟩
      rcases hanswer hok hsuccess with hinstalled | ⟨hstale, hmatch⟩
      · exact .inl hinstalled
      · exact .inr ⟨hstale, hstep.covers hok hmatch⟩
  · have hno : ∀ request, (callOutside input).message request → ¬ request.FromLeader :=
      fun request hrequest hfrom => hleader ⟨request, hrequest.1, hfrom⟩
    have hout : (r.arm env).Outbox := by
      intro msg hmsg
      rw [show (r.arm env).msgs = [] from hmsgs] at hmsg
      simp at hmsg
    exact fun msg hmsg =>
      ((hmoves.outbox (callOutside_inRange input) hno harmed hout hok) msg hmsg).backed

/-- In every run in range whose flushes may fail at any point, each message handed to the
transport rests on records flushed by then. A failed flush ends the sending for good. -/
theorem sent_backed (hreach : Reach config Raft.InRange r) (env : Env) (input : Input D)
    (hrange : r.InRange input) :
    (∀ msg ∈ (r.act env input).2, Backed r (r.act env input).1 input msg) ∧
      ((r.act env input).1.wal.any (·.failed) = true → (r.act env input).2 = [] ∧
        ∀ later call, (r.act env input).1.act later call = ((r.act env input).1, [])) := by
  have hmirrors : (r.act env input).1.Mirrors := hreach.mirrors.act hrange
  constructor
  · unfold Raft.act
    split
    · simp
    next hhealthy =>
      split
      · simp
      next hok =>
        rw [Bool.not_eq_true] at hhealthy hok
        exact step_backed hreach.mirrors (hreach.msgs_nil hhealthy) hhealthy hrange hok
  · intro hfailed
    have hstopped : (r.act env input).1.storageFailed = true := by
      obtain ⟨w, hwal, hmarked, _⟩ := hmirrors.stored
      rw [← hmarked]
      simpa [hwal] using hfailed
    refine ⟨?_, fun later call => if_pos hstopped⟩
    unfold Raft.act at hstopped ⊢
    split
    · rfl
    next hhealthy =>
      rw [if_neg hhealthy] at hstopped
      split
      · rfl
      next hok =>
        rw [if_neg hok] at hstopped
        exact absurd hstopped hok

theorem sent_backed_ledOne :
    (ledOne.act .calm .tick).2.length = 2 ∧
      ∀ msg ∈ (ledOne.act .calm .tick).2, Backed ledOne (ledOne.act .calm .tick).1 .tick msg :=
  ⟨by decide +kernel, (sent_backed ledOne_reach .calm .tick trivial).1⟩

def Record.isSnapshot : Record D → Bool
  | .snapshot _ => true
  | _ => false

/-- A snapshot of index 1 from node 2, leader of the given term. -/
def lateSnapshot (term : Nat) : Input Bytes :=
  .message { fromTwo .installSnapshot term with
    snapshotIndex := 1
    snapshotTerm := 1
    snapshotData := [0] }

/-- A stale snapshot is confirmed although the file has no snapshot, only the entries; out
of range not even those, when a record of index zero has replaced the last one. -/
theorem stale_snapshot_confirmed :
    (∃ r, Reach nodeOne Raft.InRange r ∧ r.InRange (lateSnapshot 1) ∧
      ∃ msg ∈ (r.act .calm (lateSnapshot 1)).2,
        msg.type = .installSnapshotResponse ∧ msg.success = true ∧
        ∀ record ∈ (r.act .calm (lateSnapshot 1)).1.synced, record.isSnapshot = false) ∧
    ∃ r, Reach nodeOne OnWire r ∧ OnWire r (lateSnapshot 3) ∧
      ∃ msg ∈ (r.act .calm (lateSnapshot 3)).2,
        msg.type = .installSnapshotResponse ∧ msg.success = true ∧
        ¬ Covers (r.act .calm (lateSnapshot 3)).1 (r.act .calm (lateSnapshot 3)).1.synced
          msg.matchIndex := by
  constructor
  · exact ⟨freshOne.actAll [(.calm, committedFromTwo)],
      (freshOne_reach _).actAll (by decide +kernel), by decide +kernel, by decide +kernel⟩
  · let r := freshOne.actAll wrappedCommit
    let reply :=
      { (r.snapshotResponse (fromTwo .installSnapshot 3) true (2 ^ 64 - 1)) with term := 3 }
    refine ⟨r, (freshOne_reach _).actAll (by decide +kernel), by decide +kernel, reply,
      by decide +kernel, by decide +kernel, by decide +kernel, fun hcovers => ?_⟩
    have hoffset : (r.act .calm (lateSnapshot 3)).1.logOffset < 2 ^ 64 - 1 := by
      decide +kernel
    have hentries : ∀ e ∈ (replay (r.act .calm (lateSnapshot 3)).1.synced).entries,
        e.index ≠ 2 ^ 64 - 1 := by
      decide +kernel
    rcases hcovers (2 ^ 64 - 1) (by decide) (by decide +kernel) with
      ⟨hle, -⟩ | ⟨-, e, -, hindex, he, -⟩
    · omega
    · exact hentries e he hindex

end RaftKv
