import Mathlib.Logic.Relation
import Mathlib.Order.Basic
import RaftKv.Raft.Input

/-! # The elementary moves of a node

Every input is carried out by a short sequence of moves. A move is one piece of
`raft.cpp` together with the tests under which the code reaches it, so what a
node can do is read off once here; each invariant is then proved move by move.
What the outside may do is a parameter of the moves: which messages arrive, which
state a snapshot carries, how long a log may get.
-/

namespace RaftKv

variable {D : Type}

/-- Messages that only the leader of a term sends. -/
def Message.FromLeader (msg : Message D) : Prop :=
  msg.type = .appendEntries ∨ msg.type = .installSnapshot

/-- Messages that promise nothing: pre-votes and negative answers. -/
def Message.Plain (msg : Message D) : Prop :=
  match msg.type with
  | .preVote | .preVoteResponse => True
  | .requestVoteResponse => msg.voteGranted = false
  | .appendEntriesResponse | .installSnapshotResponse => msg.success = false
  | _ => False

/-- Assumptions about what a node meets: messages it may receive, the state captured for a
snapshot of an index, the last log index at which a new entry may be proposed, and the
snapshots it may be asked to install. -/
structure Outside (D : Type) where
  message : Message D → Prop
  snapshot : Raft D → Nat → D → Prop
  room : Nat → Prop
  install : Raft D → Message D → Prop

/-- A node may be asked for a snapshot or sent one. -/
def Outside.Compacts {D : Type} (o : Outside D) (r : Raft D) : Prop :=
  (∃ index state, o.snapshot r index state) ∨ ∃ msg, o.message msg ∧ msg.type = .installSnapshot

namespace Raft

/-- The log and the indices into it are the same. -/
structure SameLog (r next : Raft D) : Prop where
  log : next.log = r.log
  logOffset : next.logOffset = r.logOffset
  logOffsetTerm : next.logOffsetTerm = r.logOffsetTerm
  commitIndex : next.commitIndex = r.commitIndex
  lastApplied : next.lastApplied = r.lastApplied

section

variable [Blob D]

/-- A healthy follower in the term of a leader's message addressed to it. -/
structure Ready (r : Raft D) (msg : Message D) : Prop where
  addressed : r.rejects msg = false
  healthy : r.storageFailed = false
  term : msg.term = r.term
  follower : r.state = .follower

inductive Move (o : Outside D) : Raft D → Raft D → Prop
  /-- Timers, random draws, pre-vote tallies and read rounds. -/
  | idle (r : Raft D) (elapsed timeout heartbeat : Nat) (rng : List Nat) (preVotes : Table Bool)
      (pending : Bool) (index context next : Nat) (acks : Table Bool) (restore : Option Bool) :
      Move o r { r with
        electionElapsed := elapsed
        randomizedElectionTimeout := timeout
        heartbeatElapsed := heartbeat
        electionRng := rng
        preVotes := preVotes
        readIndexPending := pending
        pendingReadIndex := index
        pendingReadContext := context
        nextReadContext := next
        readIndexAcks := acks
        snapshotRestore := restore }
  | raise (r : Raft D) (msg : Message D) (lead : Nat) (hmsg : o.message msg)
      (hhealthy : r.storageFailed = false) (haddressed : r.rejects msg = false)
      (hterm : r.term < msg.term) (hlead : lead = 0 ∨ msg.FromLeader ∧ lead = msg.sender) :
      Move o r (r.becomeFollower msg.term lead)
  | demote (r : Raft D) (msg : Message D) (hmsg : o.message msg)
      (haddressed : r.rejects msg = false)
      (hhealthy : r.storageFailed = false) (hleader : msg.FromLeader)
      (hterm : msg.term = r.term) : Move o r (r.becomeFollower msg.term msg.sender)
  | follow (r : Raft D) (msg : Message D) (hmsg : o.message msg)
      (haddressed : r.rejects msg = false)
      (hleader : msg.FromLeader) (hterm : msg.term = r.term) (hstate : r.state = .follower) :
      Move o r { r with lead := msg.sender }
  | withdraw (r : Raft D) (hstate : r.state ≠ .leader) : Move o r r.becomePreCandidate
  | sound (r : Raft D) (hstate : r.state = .preCandidate) : Move o r r.preCampaign
  | stand (r : Raft D) (hstate : r.state = .preCandidate)
      (hhealthy : r.storageFailed = false)
      (hpending : r.pendingPreVoteTerm ≠ 0) : Move o r r.becomeCandidate
  | canvass (r : Raft D) (hstate : r.state = .candidate) : Move o r r.campaign
  | grant (r : Raft D) (msg : Message D) (hmsg : o.message msg) (htype : msg.type = .requestVote)
      (haddressed : r.rejects msg = false) (hhealthy : r.storageFailed = false)
      (hterm : msg.term = r.term) (hvote : r.votedFor = 0 ∨ r.votedFor = msg.sender)
      (hlog : r.isLogUpToDate msg.lastLogIndex msg.lastLogTerm = true) :
      Move o r ((r.grantVote msg).1.send
        ((r.grantVote msg).1.voteResponse msg (r.grantVote msg).2))
  | recordVote (r : Raft D) (msg : Message D) (hmsg : o.message msg)
      (htype : msg.type = .requestVoteResponse) (haddressed : r.rejects msg = false)
      (hgranted : msg.voteGranted = true) (hterm : msg.term = r.term)
      (hstate : r.state = .candidate) :
      Move o r { r with votes := r.votes.insert msg.sender true }
  | crown (r : Raft D) (msg : Message D) (hmsg : o.message msg)
      (htype : msg.type = .requestVoteResponse) (hstate : r.state = .candidate)
      (hhealthy : r.storageFailed = false)
      (hcount : r.votes.count (fun granted => granted) > r.peers.length / 2) :
      Move o r r.becomeLeader
  | beat (r : Raft D) (hstate : r.state = .leader) : Move o r r.broadcastHeartbeat
  | push (r : Raft D) (peer : Nat) (hstate : r.state = .leader) (hoffset : 0 < r.logOffset)
      (hpeer : peer ∈ r.others) : Move o r (r.send (r.makeInstallSnapshot peer))
  | accept (r : Raft D) (msg : Message D) (hmsg : o.message msg) (htype : msg.type = .appendEntries)
      (hready : r.Ready msg) (hlog : r.logOk msg = true) :
      Move o r ((r.acceptEntries msg).1.send (r.acceptEntries msg).2)
  | note (r : Raft D) (msg : Message D) (hmsg : o.message msg)
      (htype : msg.type = .appendEntriesResponse ∨ msg.type = .installSnapshotResponse)
      (haddressed : r.rejects msg = false) (hsuccess : msg.success = true)
      (hterm : msg.term = r.term) (hstate : r.state = .leader) : Move o r (r.noteMatch msg)
  | backOff (r : Raft D) (msg : Message D) (hmsg : o.message msg)
      (htype : msg.type = .appendEntriesResponse) (haddressed : r.rejects msg = false)
      (hstate : r.state = .leader) : Move o r (r.backOff msg.sender)
  | choose (r : Raft D) (hstate : r.state = .leader) (hhealthy : r.storageFailed = false) :
      Move o r r.chooseCommit
  | extend (r : Raft D) (data : Bytes) (hstate : r.state = .leader)
      (hhealthy : r.storageFailed = false) (hroom : o.room r.lastLogIndex) :
      Move o r (r.appendOwn (r.nextEntry data)).1
  | apply (r : Raft D) (index : Nat) : Move o r (r.advance index)
  | compact (r : Raft D) (index : Nat) (state : D) (hstate : o.snapshot r index state)
      (hhealthy : r.storageFailed = false) : Move o r (r.takeSnapshot index state)
  | stale (r : Raft D) (msg : Message D) (hmsg : o.message msg)
      (htype : msg.type = .installSnapshot)
      (hready : r.Ready msg)
      (hstale : r.commitIndex > msg.snapshotIndex ∨ r.lastApplied ≥ msg.snapshotIndex) :
      Move o r (r.send (r.snapshotResponse msg true (max r.commitIndex r.lastApplied)))
  | install (r : Raft D) (msg : Message D) (hmsg : o.message msg)
      (htype : msg.type = .installSnapshot)
      (hready : r.Ready msg) (hindex : msg.snapshotIndex ≠ 0)
      (hsnapTerm : msg.snapshotTerm ≠ 0)
      (hfresh : r.commitIndex ≤ msg.snapshotIndex ∧ r.lastApplied < msg.snapshotIndex)
      (hinstall : o.install r msg) (hrestore : r.snapshotRestore = some true) :
      Move o r ((r.installSnapshot msg).1.send (r.installSnapshot msg).2)
  /-- Negative answers leave with the current term. -/
  | say (r : Raft D) (msg : Message D) (hplain : msg.Plain) (hterm : msg.term = r.term)
      (hsender : msg.sender = r.id) : Move o r (r.send msg)

def Moves (o : Outside D) : Raft D → Raft D → Prop := Relation.ReflTransGen (Move o)

/-- The tests `handle_install_snapshot` makes before it replaces the log. -/
def Installs (r : Raft D) (msg : Message D) : Prop :=
  r.rejects msg = false ∧ r.storageFailed = false ∧ r.term ≤ msg.term ∧
    ¬ (msg.snapshotIndex = 0 ∨ msg.snapshotTerm = 0 ∨ msg.snapshotTerm > msg.term ∨
      Blob.isEmpty msg.snapshotData = true) ∧
    ¬ (r.commitIndex > msg.snapshotIndex ∨ r.lastApplied ≥ msg.snapshotIndex) ∧
    r.snapshotRestore = some true

instance (r : Raft D) (msg : Message D) : Decidable (r.Installs msg) := by
  unfold Installs
  infer_instance

/-- The inputs the outside may call this node with. -/
def Allows (o : Outside D) (r : Raft D) : Input D → Prop
  | .message msg => o.message msg ∧
      (msg.type = .installSnapshot → r.Installs msg → ∀ next, SameLog r next → o.install next msg)
  | .takeSnapshot index state => o.snapshot r index state
  | .propose _ => o.room r.lastLogIndex
  | .readIndex => o.room r.lastLogIndex
  | _ => True

end

section Decomposition

variable {o : Outside D} {r : Raft D} {msg : Message D}

theorem sender_mem_others (haddressed : r.rejects msg = false) : msg.sender ∈ r.others := by
  simp only [rejects, Bool.or_eq_false_iff, isMember, Bool.not_eq_false', Bool.and_eq_true,
    List.contains_iff_mem, beq_eq_false_iff_ne, bne_eq_false_iff_eq] at haddressed
  simp [others, haddressed]

theorem receiver_eq_id (haddressed : r.rejects msg = false) : msg.receiver = r.id := by
  simp only [rejects, Bool.or_eq_false_iff, bne_eq_false_iff_eq] at haddressed
  exact haddressed.1.1

theorem sender_ne_id (haddressed : r.rejects msg = false) : msg.sender ≠ r.id := by
  simp only [rejects, Bool.or_eq_false_iff, beq_eq_false_iff_ne] at haddressed
  exact haddressed.1.2

theorem sender_mem_peers (haddressed : r.rejects msg = false) : msg.sender ∈ r.peers := by
  have hmem := sender_mem_others haddressed
  simp only [others, List.mem_filter] at hmem
  exact hmem.1

section

variable [Blob D]

theorem reset_moves : Moves o r r.resetRandomizedElectionTimeout :=
  .single (.idle r _ _ _ _ _ _ _ _ _ _ _)

end

/-! ## Elections -/

theorem becomeFollower_of_lt {term lead : Nat} (hterm : r.term < term) :
    r.becomeFollower term lead =
      (saveHardState (resetRandomizedElectionTimeout
        { r with
          state := .follower
          term := term
          lead := lead
          votedFor := 0
          readIndexPending := false
          pendingReadIndex := 0
          pendingReadContext := 0
          readIndexAcks := Table.empty
          pendingPreVoteTerm := 0 })).syncWal.1 := by
  simp [becomeFollower, hterm, Nat.lt_asymm hterm]

theorem becomeFollower_of_eq {term lead : Nat} (hterm : term = r.term) :
    r.becomeFollower term lead = resetRandomizedElectionTimeout
      { r with
        state := .follower
        lead := lead
        readIndexPending := false
        pendingReadIndex := 0
        pendingReadContext := 0
        readIndexAcks := Table.empty
        pendingPreVoteTerm := 0 } := by
  subst hterm
  simp [becomeFollower]

/-- Stepping down leaves the address check as it is. -/
theorem becomeFollower_rejects {term lead : Nat} :
    (r.becomeFollower term lead).rejects msg = r.rejects msg := by
  unfold becomeFollower
  split
  · rfl
  · dsimp only
    split <;> rfl

theorem becomeFollower_state {term lead : Nat} (hterm : r.term ≤ term) :
    (r.becomeFollower term lead).state = .follower := by
  unfold becomeFollower
  rw [if_neg (not_lt.mpr hterm)]
  dsimp only
  split <;> rfl

theorem becomeFollower_term {term lead : Nat} (hterm : r.term ≤ term) :
    (r.becomeFollower term lead).term = term := by
  unfold becomeFollower
  rw [if_neg (not_lt.mpr hterm)]
  dsimp only
  split <;> rfl

theorem SameLog.refl (r : Raft D) : SameLog r r := ⟨rfl, rfl, rfl, rfl, rfl⟩

theorem SameLog.lastLogIndex {next : Raft D} (hsame : SameLog r next) :
    next.lastLogIndex = r.lastLogIndex := by
  rw [Raft.lastLogIndex, hsame.log, hsame.logOffset, Raft.lastLogIndex]

theorem SameLog.termAt {next : Raft D} (hsame : SameLog r next) (index : Nat) :
    next.termAt index = r.termAt index := by
  unfold Raft.termAt logEntry logPosition
  rw [hsame.lastLogIndex, hsame.log, hsame.logOffset, hsame.logOffsetTerm]

theorem SameLog.trans {a b c : Raft D} (hab : SameLog a b) (hbc : SameLog b c) : SameLog a c :=
  ⟨hbc.log.trans hab.log, hbc.logOffset.trans hab.logOffset,
    hbc.logOffsetTerm.trans hab.logOffsetTerm, hbc.commitIndex.trans hab.commitIndex,
    hbc.lastApplied.trans hab.lastApplied⟩

theorem becomeFollower_sameLog {term lead : Nat} : SameLog r (r.becomeFollower term lead) := by
  unfold becomeFollower
  split
  · exact .refl r
  · dsimp only
    split <;> exact ⟨rfl, rfl, rfl, rfl, rfl⟩

section

variable [Blob D]

theorem tick_moves : Moves o r r.tick := by
  unfold tick
  split
  · exact .refl
  next hhealthy =>
    split
    next hleader =>
      dsimp only
      split
      · exact (Relation.ReflTransGen.single (.idle r _ _ _ _ _ _ _ _ _ _ _)).tail
          (.beat _ hleader)
      · exact .single (.idle r _ _ _ _ _ _ _ _ _ _ _)
    next hstate =>
      dsimp only
      split
      · refine ((Relation.ReflTransGen.single (.idle r _ _ _ _ _ _ _ _ _ _ _)).tail
          (.withdraw _ ?_)).tail (.sound _ rfl)
        exact hstate
      · exact .single (.idle r _ _ _ _ _ _ _ _ _ _ _)

/-- Step down first when the message is from a later term. -/
theorem raise_moves (hmsg : o.message msg) (hhealthy : r.storageFailed = false)
    (haddressed : r.rejects msg = false) (lead : Nat)
    (hlead : lead = 0 ∨ msg.FromLeader ∧ lead = msg.sender) :
    Moves o r (if msg.term > r.term then r.becomeFollower msg.term lead else r) ∧
      (if msg.term > r.term then r.becomeFollower msg.term lead else r).rejects msg = false ∧
      SameLog r (if msg.term > r.term then r.becomeFollower msg.term lead else r) := by
  split
  next hterm =>
    refine ⟨.single (.raise r msg lead hmsg hhealthy haddressed hterm hlead), ?_,
      becomeFollower_sameLog⟩
    rw [becomeFollower_rejects, haddressed]
  · exact ⟨.refl, haddressed, .refl r⟩

theorem handleRequestVote_moves (hmsg : o.message msg) (htype : msg.type = .requestVote)
    (hhealthy : r.storageFailed = false) :
    Moves o r ((r.handleRequestVote msg).1.send (r.handleRequestVote msg).2) := by
  unfold handleRequestVote
  split
  · exact .single (.say r _ rfl rfl rfl)
  next hrejects =>
    obtain ⟨hraised, haddressed, -⟩ :=
      raise_moves hmsg hhealthy (by simpa using hrejects) 0 (.inl rfl)
    generalize (if msg.term > r.term then r.becomeFollower msg.term 0 else r) = raised at *
    dsimp only
    split
    · exact hraised.tail (.say raised _ rfl rfl rfl)
    next hstored =>
      split
      next hgrant =>
        exact hraised.tail (.grant raised msg hmsg htype haddressed (by simpa using hstored)
          hgrant.1 hgrant.2.1 hgrant.2.2)
      · exact hraised.tail (.say raised _ rfl rfl rfl)

theorem handleRequestVoteResponse_moves (hmsg : o.message msg)
    (htype : msg.type = .requestVoteResponse)
    (hhealthy : r.storageFailed = false) :
    Moves o r (r.handleRequestVoteResponse msg) := by
  unfold handleRequestVoteResponse
  split
  · exact .refl
  next hrejects =>
    have haddressed : r.rejects msg = false := by simpa using hrejects
    split
    next hterm => exact .single (.raise r msg 0 hmsg hhealthy haddressed hterm (.inl rfl))
    next hterm =>
      split
      · exact .refl
      next hstate =>
        simp only [not_or, not_not, not_lt] at hstate hterm
        have hrecorded : Moves o r (r.recordVote msg) ∧
            (r.recordVote msg).state = .candidate ∧ (r.recordVote msg).storageFailed = false := by
          unfold recordVote
          split
          next hgranted =>
            exact ⟨.single (.recordVote r msg hmsg htype haddressed hgranted
              (Nat.le_antisymm hterm hstate.1) hstate.2), hstate.2, hhealthy⟩
          · exact ⟨.refl, hstate.2, hhealthy⟩
        dsimp only
        split
        next hcount =>
          exact hrecorded.1.tail (.crown _ msg hmsg htype hrecorded.2.1 hrecorded.2.2 hcount)
        · exact hrecorded.1

theorem handlePreVote_moves : Moves o r (r.send (r.handlePreVote msg)) := by
  refine .single (.say r _ ?_ ?_ ?_) <;>
    · unfold handlePreVote
      split_ifs <;> first | rfl | trivial

theorem handlePreVoteResponse_moves (hmsg : o.message msg) (hhealthy : r.storageFailed = false) :
    Moves o r (r.handlePreVoteResponse msg) := by
  unfold handlePreVoteResponse
  split
  · exact .refl
  next hrejects =>
    have haddressed : r.rejects msg = false := by simpa using hrejects
    split
    next hterm => exact .single (.raise r msg 0 hmsg hhealthy haddressed hterm (.inl rfl))
    · split
      · exact .refl
      next hstate =>
        split
        · exact .refl
        next hpending =>
          simp only [not_or, not_not] at hstate hpending
          have hrecorded : Moves o r (r.recordPreVote msg) ∧
              (r.recordPreVote msg).state = .preCandidate ∧
              (r.recordPreVote msg).storageFailed = false ∧
              (r.recordPreVote msg).pendingPreVoteTerm ≠ 0 := by
            have hne : r.pendingPreVoteTerm ≠ 0 := hpending.2 ▸ hpending.1
            unfold recordPreVote
            split
            · exact ⟨.single (.idle r _ _ _ _ _ _ _ _ _ _ _), hstate, hhealthy, hne⟩
            · exact ⟨.refl, hstate, hhealthy, hne⟩
          obtain ⟨hmoves, hstate', hhealthy', hne⟩ := hrecorded
          dsimp only
          split
          · exact (hmoves.tail (.stand _ hstate' hhealthy' hne)).tail (.canvass _ rfl)
          · exact hmoves

end

/-! ## Replication -/

theorem becomeFollower_restore {term lead : Nat} :
    (r.becomeFollower term lead).snapshotRestore = r.snapshotRestore := by
  unfold becomeFollower
  split
  · rfl
  · dsimp only
    split <;> rfl

theorem prepareForLeaderRpc_restore :
    (r.prepareForLeaderRpc msg).1.snapshotRestore = r.snapshotRestore := by
  unfold prepareForLeaderRpc
  split
  · rfl
  · have hraised : (if msg.term > r.term then r.becomeFollower msg.term msg.sender
        else r).snapshotRestore = r.snapshotRestore := by
      split
      · exact becomeFollower_restore
      · rfl
    generalize (if msg.term > r.term then r.becomeFollower msg.term msg.sender else r) = raised at *
    dsimp only
    split
    · exact hraised
    · split
      · exact becomeFollower_restore.trans hraised
      · exact hraised

theorem prepareForLeaderRpc_true (hready : (r.prepareForLeaderRpc msg).2 = true) :
    r.rejects msg = false ∧ r.term ≤ msg.term := by
  unfold prepareForLeaderRpc at hready
  split at hready
  · cases hready
  next hrejects =>
    refine ⟨by simpa using hrejects, ?_⟩
    by_contra hlt
    rw [if_neg (show ¬ msg.term > r.term by omega)] at hready
    dsimp only at hready
    rw [if_pos (.inr (by omega))] at hready
    cases hready

variable [Blob D]

theorem demote_moves (hmsg : o.message msg) (hleader : msg.FromLeader)
    (haddressed : r.rejects msg = false) (hhealthy : r.storageFailed = false)
    (hterm : msg.term = r.term) :
    Moves o r (if r.state ≠ .follower then r.becomeFollower msg.term msg.sender else r) ∧
      (if r.state ≠ .follower then r.becomeFollower msg.term msg.sender else r).Ready msg ∧
      SameLog r (if r.state ≠ .follower then r.becomeFollower msg.term msg.sender else r) := by
  split
  · refine ⟨.single (.demote r msg hmsg haddressed hhealthy hleader hterm), ⟨?_, ?_, ?_, ?_⟩,
      becomeFollower_sameLog⟩
    · rw [becomeFollower_rejects, haddressed]
    · simpa [becomeFollower, hterm, resetRandomizedElectionTimeout] using hhealthy
    · exact (becomeFollower_term hterm.ge).symm
    · exact becomeFollower_state hterm.ge
  next hstate => exact ⟨.refl, ⟨haddressed, hhealthy, hterm, not_not.mp hstate⟩, .refl r⟩

/-- A leader's message that passes `prepare_for_leader_rpc` finds a healthy follower in
its term. -/
theorem prepareForLeaderRpc_moves (hmsg : o.message msg) (hleader : msg.FromLeader)
    (hhealthy : r.storageFailed = false) :
    Moves o r (r.prepareForLeaderRpc msg).1 ∧ SameLog r (r.prepareForLeaderRpc msg).1 ∧
      ((r.prepareForLeaderRpc msg).2 = true → (r.prepareForLeaderRpc msg).1.Ready msg) := by
  unfold prepareForLeaderRpc
  split
  · exact ⟨.refl, .refl r, fun h => by cases h⟩
  next hrejects =>
    obtain ⟨hraised, haddressed, hlog⟩ :=
      raise_moves hmsg hhealthy (by simpa using hrejects) msg.sender (.inr ⟨hleader, rfl⟩)
    have hge : msg.term ≤
        (if msg.term > r.term then r.becomeFollower msg.term msg.sender else r).term := by
      split
      next hterm => exact (becomeFollower_term (le_of_lt hterm)).ge
      next hterm => exact not_lt.mp hterm
    generalize (if msg.term > r.term then r.becomeFollower msg.term msg.sender else r) = raised at *
    dsimp only
    split
    · exact ⟨hraised, hlog, fun h => by cases h⟩
    next hready =>
      simp only [not_or, not_lt, Bool.not_eq_true] at hready
      obtain ⟨hdemoted, hfollows, hlog'⟩ := demote_moves hmsg hleader haddressed hready.1
        (Nat.le_antisymm hge hready.2)
      generalize (if raised.state ≠ .follower then raised.becomeFollower msg.term msg.sender
        else raised) = demoted at *
      obtain ⟨hrej, hstored, hterm, hstate⟩ := hfollows
      exact ⟨((hraised.trans hdemoted).trans reset_moves).tail
        (.follow _ msg hmsg hrej hleader hterm hstate),
        (hlog.trans hlog').trans ⟨rfl, rfl, rfl, rfl, rfl⟩, fun _ => ⟨hrej, hstored, hterm, hstate⟩⟩

theorem handleAppendEntries_moves (hmsg : o.message msg) (htype : msg.type = .appendEntries)
    (hhealthy : r.storageFailed = false) :
    Moves o r ((r.handleAppendEntries msg).1.send (r.handleAppendEntries msg).2) := by
  obtain ⟨hmoves, -, hready⟩ := prepareForLeaderRpc_moves hmsg (.inl htype) hhealthy
  unfold handleAppendEntries
  generalize r.prepareForLeaderRpc msg = prepared at *
  obtain ⟨prepared, ready⟩ := prepared
  cases ready with
  | false => exact hmoves.tail (.say prepared _ rfl rfl rfl)
  | true =>
      simp only [Bool.not_true, Bool.false_eq_true, if_false]
      split
      · exact hmoves.tail (.say prepared _ rfl rfl rfl)
      next hlog =>
        exact hmoves.tail (.accept prepared msg hmsg htype (hready rfl) (by simpa using hlog))

theorem handleAppendEntriesResponse_moves (hmsg : o.message msg)
    (htype : msg.type = .appendEntriesResponse) (hhealthy : r.storageFailed = false) :
    Moves o r (r.handleAppendEntriesResponse msg) := by
  unfold handleAppendEntriesResponse
  split
  · exact .refl
  next hrejects =>
    have haddressed : r.rejects msg = false := by simpa using hrejects
    split
    next hterm => exact .single (.raise r msg 0 hmsg hhealthy haddressed hterm (.inl rfl))
    next hterm =>
      split
      · exact .refl
      · split
        · exact .refl
        next hstate =>
          split
          · exact .refl
          next hge =>
            simp only [not_not, not_lt] at hterm hstate hge
            split
            next hsuccess =>
              have hnote : Moves o r ((r.noteMatch msg).noteReadAck msg) := by
                have hmatch : Moves o r (r.noteMatch msg) :=
                  .single (.note r msg hmsg (.inl htype) haddressed hsuccess
                    (Nat.le_antisymm hterm hge) hstate)
                unfold noteReadAck
                split
                · exact hmatch.tail (.idle _ _ _ _ _ _ _ _ _ _ _ _)
                · exact hmatch
              refine hnote.tail (.choose _ ?_ ?_)
              · unfold noteReadAck
                split <;> exact hstate
              · unfold noteReadAck
                split <;> exact hhealthy
            · have hback := Relation.ReflTransGen.single
                (Move.backOff (o := o) r msg hmsg htype haddressed hstate)
              dsimp only
              split
              next hoffset =>
                exact hback.tail (.push _ _ hstate hoffset.1 (sender_mem_others haddressed))
              · exact hback.tail (.beat _ hstate)

theorem propose_moves {data : Bytes} (hroom : o.room r.lastLogIndex) :
    Moves o r (r.propose data).1 := by
  unfold propose
  split
  · exact .refl
  next hleader =>
    simp only [not_or, not_not, Bool.not_eq_true] at hleader
    have hmove := Relation.ReflTransGen.single
      (Move.extend (o := o) r data hleader.1 hleader.2 hroom)
    have hstate : (r.appendOwn (r.nextEntry data)).1.state = .leader := by
      unfold appendOwn
      dsimp only
      split <;> exact hleader.1
    dsimp only
    split
    · exact hmove
    · exact hmove.tail (.beat _ hstate)

theorem propose_moves_of_eq {data : Bytes} {next : Raft D} {index : Option Nat}
    (hroom : o.room r.lastLogIndex) (hpropose : r.propose data = (next, index)) :
    Moves o r next := by
  have hmoves : Moves o r (r.propose data).1 := propose_moves hroom
  rwa [hpropose] at hmoves

theorem handleInstallSnapshot_moves (hmsg : o.message msg) (htype : msg.type = .installSnapshot)
    (hinstall : r.Installs msg → ∀ next, SameLog r next → o.install next msg)
    (hhealthy : r.storageFailed = false) :
    Moves o r ((r.handleInstallSnapshot msg).1.send (r.handleInstallSnapshot msg).2) := by
  obtain ⟨hmoves, hlog, hready⟩ := prepareForLeaderRpc_moves hmsg (.inr htype) hhealthy
  have hrestored : (r.prepareForLeaderRpc msg).1.snapshotRestore = r.snapshotRestore :=
    prepareForLeaderRpc_restore
  have hpassed : (r.prepareForLeaderRpc msg).2 = true →
    r.rejects msg = false ∧ r.term ≤ msg.term := prepareForLeaderRpc_true
  unfold handleInstallSnapshot
  generalize r.prepareForLeaderRpc msg = prepared at *
  obtain ⟨prepared, ready⟩ := prepared
  cases ready with
  | false => exact hmoves.tail (.say prepared _ rfl rfl rfl)
  | true =>
      simp only [Bool.not_true, Bool.false_eq_true, if_false]
      split
      · exact hmoves.tail (.say prepared _ rfl rfl rfl)
      next hvalid =>
        split
        next hstale => exact hmoves.tail (.stale prepared msg hmsg htype (hready rfl) hstale)
        next hfresh =>
          split
          · exact hmoves.tail (.say prepared _ rfl rfl rfl)
          next hrestore =>
            obtain ⟨haddressed, hterm⟩ := hpassed rfl
            have hinstalls : r.Installs msg := by
              refine ⟨haddressed, hhealthy, hterm, hvalid, ?_, ?_⟩
              · rwa [← hlog.commitIndex, ← hlog.lastApplied]
              · rw [← hrestored]
                exact not_not.mp hrestore
            simp only [not_or, not_lt, not_le, not_not] at hvalid hfresh hrestore
            exact hmoves.tail (.install prepared msg hmsg htype (hready rfl) hvalid.1 hvalid.2.1
              hfresh (hinstall hinstalls prepared hlog) hrestore)

theorem handleInstallSnapshotResponse_moves (hmsg : o.message msg)
    (htype : msg.type = .installSnapshotResponse) (hhealthy : r.storageFailed = false) :
    Moves o r (r.handleInstallSnapshotResponse msg) := by
  unfold handleInstallSnapshotResponse
  split
  · exact .refl
  next hrejects =>
    have haddressed : r.rejects msg = false := by simpa using hrejects
    split
    next hterm => exact .single (.raise r msg 0 hmsg hhealthy haddressed hterm (.inl rfl))
    next hterm =>
      split
      · exact .refl
      next hstate =>
        split
        · exact .refl
        next hge =>
          simp only [not_not, not_lt] at hstate hge hterm
          split
          next hsuccess =>
            exact (Relation.ReflTransGen.single (.note r msg hmsg (.inr htype) haddressed hsuccess
              (Nat.le_antisymm hterm hge) hstate)).tail (.beat _ hstate)
          · exact .refl

theorem finishReadIndex_moves {read : ReadIndexToken} : Moves o r (r.finishReadIndex read) := by
  unfold finishReadIndex
  split
  · exact .refl
  · exact .single (.idle r _ _ _ _ _ _ _ _ _ _ _)

theorem readIndex_moves (hroom : o.room r.lastLogIndex) : Moves o r r.readIndex.1 := by
  unfold readIndex
  split
  · exact .refl
  next hleader =>
    simp only [not_or, not_not, Bool.not_eq_true] at hleader
    split
    · exact .refl
    · dsimp only
      split
      · have hround := Relation.ReflTransGen.single (Move.idle (o := o) r r.electionElapsed
          r.randomizedElectionTimeout r.heartbeatElapsed r.electionRng r.preVotes true
          (wrap64 (r.lastLogIndex + 1)) r.nextReadContext (nextContext r.nextReadContext)
          Table.empty r.snapshotRestore)
        -- a new leader proposes a no-op to commit in its own term
        split
        next hpropose =>
          exact (hround.trans (propose_moves_of_eq (r := _) hroom hpropose)).trans
            finishReadIndex_moves
        next hpropose => exact hround.trans (propose_moves_of_eq (r := _) hroom hpropose)
      · exact (Relation.ReflTransGen.single (.idle r _ _ _ _ _ _ _ _ _ _ _)).tail
          (.beat _ hleader.1)

/-- Whatever a healthy node is called with, it answers with a sequence of moves. -/
theorem step_moves {input : Input D} (hhealthy : r.storageFailed = false)
    (hallows : r.Allows o input) : Moves o r (r.step input) := by
  cases input with
  | tick => exact tick_moves
  | message msg =>
      show Moves o r (r.handleMessage msg)
      unfold handleMessage
      split
      next htype => exact handleRequestVote_moves hallows.1 htype hhealthy
      next htype => exact handleRequestVoteResponse_moves hallows.1 htype hhealthy
      · exact handlePreVote_moves
      · exact handlePreVoteResponse_moves hallows.1 hhealthy
      next htype => exact handleAppendEntries_moves hallows.1 htype hhealthy
      next htype => exact handleAppendEntriesResponse_moves hallows.1 htype hhealthy
      next htype => exact handleInstallSnapshot_moves hallows.1 htype (hallows.2 htype) hhealthy
      next htype => exact handleInstallSnapshotResponse_moves hallows.1 htype hhealthy
      · exact .refl
  | propose data => exact propose_moves hallows
  | readIndex => exact readIndex_moves hallows
  | finishRead read => exact finishReadIndex_moves
  | advance index => exact .single (.apply r index)
  | takeSnapshot index state => exact .single (.compact r index state hallows hhealthy)

end Decomposition

end Raft

end RaftKv
