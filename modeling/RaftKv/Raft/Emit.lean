import RaftKv.Raft.Role
import RaftKv.Raft.Sent

/-! # What each operation says

An operation leaves one answer, one message to every other node, or nothing in an empty
queue. Each message of pre-votes and of replication goes with the role the node plays at the
end of the operation.
-/

namespace RaftKv.Raft

variable {D : Type} {r : Raft D} {msg request : Message D}

theorem finishReadIndex_msgs (read : ReadIndexToken) : (r.finishReadIndex read).msgs = r.msgs := by
  unfold finishReadIndex
  split <;> rfl

theorem acknowledge_msgs (r : Raft D) (response : Message D) :
    ((r.noteMatch response).noteReadAck response).chooseCommit.msgs = r.msgs := by
  obtain ⟨commit, wal, failed, heq⟩ :=
    ((r.noteMatch response).noteReadAck response).chooseCommit_frame
  rw [heq]
  unfold noteReadAck
  split <;> rfl

theorem advance_msgs (r : Raft D) (index : Nat) : (r.advance index).msgs = r.msgs := by
  unfold advance
  split <;> rfl

variable [Blob D]

/-- The messages of pre-votes and of replication that an operation leaves in the queue. -/
inductive Emits (r : Raft D) (input : Input D) (next : Raft D) : Message D → Prop
  | preVote (peer : Nat) (hinput : input = .tick) (hterm : next.term = r.term)
      (hpending : next.pendingPreVoteTerm = wrap64 (next.term + 1)) :
      Emits r input next (next.makePreVote peer)
  | preVoteReply (request : Message D) (hinput : input = .message request)
      (htype : request.type = .preVote) : Emits r input next (r.handlePreVote request)
  | entries (msg : Message D) (htype : msg.type = .appendEntries) (hsender : msg.sender = next.id)
      (hterm : msg.term = next.term) (hstate : next.state = .leader)
      (hcontext : msg.readContext =
        if next.readIndexPending then next.pendingReadContext else 0) : Emits r input next msg
  | reply (request : Message D) (success : Bool) (matchIndex : Nat)
      (hinput : input = .message request) (htype : request.type = .appendEntries)
      (hsuccess : success = true → r.rejects request = false ∧ request.term = next.term) :
      Emits r input next (next.appendResponse request success matchIndex)
  | snapshot (msg : Message D) (htype : msg.type = .installSnapshot)
      (hterm : msg.term = next.term) (hstate : next.state = .leader) : Emits r input next msg
  | other (msg : Message D) (hpreVote : msg.type ≠ .preVote)
      (hpreVoteResponse : msg.type ≠ .preVoteResponse) (hentries : msg.type ≠ .appendEntries)
      (hreply : msg.type ≠ .appendEntriesResponse) (hsnapshot : msg.type ≠ .installSnapshot) :
      Emits r input next msg

theorem Emits.of_type {input : Input D} {next : Raft D} (type : MessageType)
    (htype : msg.type = type)
    (hother : type ∉ [.preVote, .preVoteResponse, .appendEntries, .appendEntriesResponse,
      .installSnapshot]) : Emits r input next msg := by
  subst htype
  simp only [List.mem_cons, List.not_mem_nil, or_false, not_or] at hother
  obtain ⟨hpreVote, hpreVoteResponse, hentries, hreply, hsnapshot⟩ := hother
  exact .other msg hpreVote hpreVoteResponse hentries hreply hsnapshot

theorem handlePreVote_type : (r.handlePreVote request).type = .preVoteResponse := by
  unfold handlePreVote
  split_ifs <;> rfl

/-- `q` leads as `r` does, and knows the same of every peer but the sender of the input. -/
structure Steers (r : Raft D) (input : Input D) (q : Raft D) : Prop where
  term : q.term = r.term
  pending : q.readIndexPending = r.readIndexPending
  context : q.pendingReadContext = r.pendingReadContext
  logOffset : q.logOffset = r.logOffset
  progress : ∀ peer, (∀ msg, input = .message msg → msg.sender ≠ peer) →
    q.progressOf peer = r.progressOf peer

/-- What an operation leaves in an empty queue. -/
inductive Output (r : Raft D) (input : Input D) (next : Raft D) : List (Message D) → Prop
  | nothing : Output r input next []
  | answer (request reply : Message D) (hinput : input = .message request)
      (hto : reply.receiver = request.sender) (hemits : Emits r input next reply) :
      Output r input next [reply]
  | beat (q : Raft D) (hid : q.id = r.id) (hothers : q.others = r.others)
      (hstate : q.state = .leader) (hsame : next.id = q.id) (hrole : next.role = q.role)
      (hsteers : r.state = .leader → input ≠ .readIndex → Steers r input q) :
      Output r input next (q.others.map q.heartbeatFor)
  | canvass (make : Nat → Message D) (hto : ∀ peer, (make peer).receiver = peer)
      (hstate : r.state ≠ .leader) (hemits : ∀ peer, Emits r input next (make peer)) :
      Output r input next (r.others.map make)

theorem handleRequestVote_says (r : Raft D) (request : Message D) :
    (r.handleRequestVote request).1.msgs = r.msgs ∧
      (r.handleRequestVote request).2.type = .requestVoteResponse := by
  have hraised : (if request.term > r.term then r.becomeFollower request.term 0 else r).msgs =
      r.msgs := by
    split
    · exact becomeFollower_msgs
    · rfl
  unfold handleRequestVote
  split
  · exact ⟨rfl, rfl⟩
  · generalize (if request.term > r.term then r.becomeFollower request.term 0 else r) = raised at *
    dsimp only
    split
    · exact ⟨hraised, rfl⟩
    · split
      · exact ⟨hraised, rfl⟩
      · exact ⟨hraised, rfl⟩

/-- The answer to an `AppendEntries` carries its context, and is positive only in its term. -/
theorem handleAppendEntries_says (r : Raft D) (request : Message D) :
    (r.handleAppendEntries request).1.msgs = r.msgs ∧
      ∃ success index, (r.handleAppendEntries request).2 =
          (r.handleAppendEntries request).1.appendResponse request success index ∧
        (success = true → r.rejects request = false ∧
          request.term = (r.handleAppendEntries request).1.term) := by
  have hquiet := prepareForLeaderRpc_msgs r request
  have hready : (r.prepareForLeaderRpc request).2 = true →
      r.rejects request = false ∧ request.term = (r.prepareForLeaderRpc request).1.term :=
    prepareForLeaderRpc_current
  unfold handleAppendEntries
  generalize r.prepareForLeaderRpc request = prepared at *
  obtain ⟨prepared, ready⟩ := prepared
  dsimp only at hquiet hready ⊢
  split
  · exact ⟨hquiet, false, 0, rfl, fun h => by cases h⟩
  next hpassed =>
    split
    · exact ⟨hquiet, false, 0, rfl, fun h => by cases h⟩
    · obtain ⟨log, commit, wal, failed, heq⟩ := prepared.acceptEntries_frame request
      obtain ⟨success, index, hreply⟩ := prepared.acceptEntries_reply request
      refine ⟨by rw [heq]; exact hquiet, success, index, hreply, fun _ => ?_⟩
      rw [heq]
      exact hready (by simpa using hpassed)

theorem handleInstallSnapshot_says (r : Raft D) (request : Message D) :
    (r.handleInstallSnapshot request).1.msgs = r.msgs ∧
      (r.handleInstallSnapshot request).2.type = .installSnapshotResponse := by
  have hquiet := prepareForLeaderRpc_msgs r request
  unfold handleInstallSnapshot
  generalize r.prepareForLeaderRpc request = prepared at *
  obtain ⟨prepared, ready⟩ := prepared
  dsimp only at hquiet ⊢
  split_ifs
  · exact ⟨hquiet, rfl⟩
  · exact ⟨hquiet, rfl⟩
  · exact ⟨hquiet, rfl⟩
  · exact ⟨hquiet, rfl⟩
  · constructor
    · obtain ⟨wal, failed, heq | heq⟩ := prepared.installSnapshot_frame request <;>
        · rw [heq]
          exact hquiet
    · rcases prepared.installSnapshot_reply request with heq | heq <;>
        · rw [heq]
          rfl

/-- A proposal that is refused says nothing. -/
theorem propose_refused {data : Bytes} {next : Raft D} (hpropose : r.propose data = (next, none)) :
    next.msgs = r.msgs := by
  obtain ⟨log, wal, failed, heq⟩ := r.appendOwn_frame (r.nextEntry data)
  unfold propose at hpropose
  split at hpropose
  · obtain ⟨rfl, -⟩ := Prod.mk.inj hpropose
    rfl
  · dsimp only at hpropose
    split at hpropose
    · obtain ⟨rfl, -⟩ := Prod.mk.inj hpropose
      rw [heq]
    · cases hpropose

theorem handleRequestVote_receiver (r : Raft D) (request : Message D) :
    (r.handleRequestVote request).2.receiver = request.sender := by
  unfold handleRequestVote
  split
  · rfl
  · dsimp only
    split_ifs <;> rfl

theorem handlePreVote_receiver (r : Raft D) (request : Message D) :
    (r.handlePreVote request).receiver = request.sender := by
  unfold handlePreVote
  split_ifs <;> rfl

theorem handleInstallSnapshot_receiver (r : Raft D) (request : Message D) :
    (r.handleInstallSnapshot request).2.receiver = request.sender := by
  unfold handleInstallSnapshot
  generalize r.prepareForLeaderRpc request = prepared
  obtain ⟨prepared, ready⟩ := prepared
  dsimp only
  split_ifs
  · rfl
  · rfl
  · rfl
  · rfl
  · rcases prepared.installSnapshot_reply request with heq | heq <;>
      · rw [heq]
        rfl

theorem takeSnapshot_msgs (r : Raft D) (index : Nat) (state : D) :
    (r.takeSnapshot index state).msgs = r.msgs := by
  obtain ⟨log, offset, offsetTerm, last, data, wal, failed, heq, -⟩ :=
    r.takeSnapshot_frame index state
  rw [heq]

theorem tick_output (hmsgs : r.msgs = []) : Output r .tick r.tick r.tick.msgs := by
  unfold tick
  split
  · rw [hmsgs]
    exact .nothing
  · split
    next hstate =>
      dsimp only
      split
      · simp only [broadcastHeartbeat, hmsgs, List.nil_append]
        exact .beat { r with heartbeatElapsed := 0 } rfl rfl hstate rfl rfl
          fun _ _ => ⟨rfl, rfl, rfl, rfl, fun _ _ => rfl⟩
      · rw [hmsgs]
        exact .nothing
    next hstate =>
      dsimp only
      split
      · unfold preCampaign
        split
        · exact hmsgs ▸ .nothing
        · have hquiet : (becomePreCandidate { r with electionElapsed := 0 }).msgs = [] := hmsgs
          simp only [hquiet, List.nil_append]
          exact .canvass _ (fun _ => rfl) hstate fun peer => .preVote peer rfl rfl rfl
      · rw [hmsgs]
        exact .nothing

theorem handleRequestVoteResponse_output (hmsgs : r.msgs = []) :
    Output r (.message request) (r.handleRequestVoteResponse request)
      (r.handleRequestVoteResponse request).msgs := by
  have hrecord : (r.recordVote request).msgs = [] ∧ (r.recordVote request).id = r.id ∧
      (r.recordVote request).others = r.others := by
    unfold recordVote
    split <;> exact ⟨hmsgs, rfl, rfl⟩
  unfold handleRequestVoteResponse
  split
  · exact hmsgs ▸ .nothing
  · split
    · rw [becomeFollower_msgs, hmsgs]
      exact .nothing
    · split
      · exact hmsgs ▸ .nothing
      next hpassed =>
        have hstate : r.state ≠ .leader := fun hleader => by simp [hleader] at hpassed
        dsimp only
        split
        · simp only [becomeLeader, broadcastHeartbeat, hrecord.1, List.nil_append]
          exact .beat _ hrecord.2.1 hrecord.2.2 rfl rfl rfl fun hleader => absurd hleader hstate
        · exact hrecord.1 ▸ .nothing

theorem handlePreVoteResponse_output (hmsgs : r.msgs = []) :
    Output r (.message request) (r.handlePreVoteResponse request)
      (r.handlePreVoteResponse request).msgs := by
  have hrecord : (r.recordPreVote request).msgs = [] ∧
      (r.recordPreVote request).others = r.others := by
    unfold recordPreVote
    split <;> exact ⟨hmsgs, rfl⟩
  unfold handlePreVoteResponse
  split
  · exact hmsgs ▸ .nothing
  · split
    · rw [becomeFollower_msgs, hmsgs]
      exact .nothing
    · split
      · exact hmsgs ▸ .nothing
      next hstate =>
        split
        · exact hmsgs ▸ .nothing
        · dsimp only
          split
          · have hquiet : (r.recordPreVote request).becomeCandidate.msgs = [] := hrecord.1
            have hothers : (r.recordPreVote request).becomeCandidate.others = r.others := hrecord.2
            unfold campaign
            split
            · exact hquiet ▸ .nothing
            · simp only [hquiet, List.nil_append]
              exact hothers ▸ .canvass _ (fun _ => rfl) (fun hleader => by simp [hleader] at hstate)
                fun peer => .of_type .requestVote rfl (by decide)
          · exact hrecord.1 ▸ .nothing

theorem handleAppendEntriesResponse_output (hmsgs : r.msgs = []) :
    Output r (.message request) (r.handleAppendEntriesResponse request)
      (r.handleAppendEntriesResponse request).msgs := by
  unfold handleAppendEntriesResponse
  split
  · exact hmsgs ▸ .nothing
  · split
    · rw [becomeFollower_msgs, hmsgs]
      exact .nothing
    · split
      · exact hmsgs ▸ .nothing
      · split
        · exact hmsgs ▸ .nothing
        next hstate =>
          split
          · exact hmsgs ▸ .nothing
          · split
            · rw [acknowledge_msgs, hmsgs]
              exact .nothing
            · have hquiet : (r.backOff request.sender).msgs = [] := hmsgs
              dsimp only
              split
              · simp only [send, hquiet, List.nil_append]
                exact .answer request _ rfl rfl (.snapshot _ rfl rfl (not_not.mp hstate))
              · simp only [broadcastHeartbeat, hquiet, List.nil_append]
                refine .beat (r.backOff request.sender) rfl rfl (not_not.mp hstate) rfl rfl
                  fun _ _ => ⟨rfl, rfl, rfl, rfl, fun peer hother => ?_⟩
                simp only [progressOf, backOff]
                rw [Table.get?_insert, if_neg (hother request rfl).symm]

theorem handleInstallSnapshotResponse_output (hmsgs : r.msgs = []) :
    Output r (.message request) (r.handleInstallSnapshotResponse request)
      (r.handleInstallSnapshotResponse request).msgs := by
  unfold handleInstallSnapshotResponse
  split
  · exact hmsgs ▸ .nothing
  · split
    · rw [becomeFollower_msgs, hmsgs]
      exact .nothing
    · split
      · exact hmsgs ▸ .nothing
      next hstate =>
        split
        · exact hmsgs ▸ .nothing
        · split
          · have hquiet : (r.noteMatch request).msgs = [] := hmsgs
            simp only [broadcastHeartbeat, hquiet, List.nil_append]
            refine .beat (r.noteMatch request) rfl rfl (not_not.mp hstate) rfl rfl
              fun _ _ => ⟨rfl, rfl, rfl, rfl, fun peer hother => ?_⟩
            simp only [progressOf, noteMatch]
            rw [Table.get?_insert, if_neg (hother request rfl).symm]
          · exact hmsgs ▸ .nothing

theorem propose_output {input : Input D} {data : Bytes} {q : Raft D} (hmsgs : q.msgs = [])
    (hid : q.id = r.id) (hothers : q.others = r.others)
    (hsteers : r.state = .leader → input ≠ .readIndex → Steers r input q) :
    Output r input (q.propose data).1 (q.propose data).1.msgs := by
  obtain ⟨log, wal, failed, heq⟩ := q.appendOwn_frame (q.nextEntry data)
  have hquiet : (q.appendOwn (q.nextEntry data)).1.msgs = [] := by rw [heq, hmsgs]
  unfold propose
  split
  · exact hmsgs ▸ .nothing
  next hleads =>
    have hstate : q.state = .leader := by
      simp only [not_or, not_not] at hleads
      exact hleads.1
    dsimp only
    split
    · exact hquiet ▸ .nothing
    · simp only [broadcastHeartbeat, hquiet, List.nil_append]
      refine .beat _ (by rw [heq]; exact hid) (by rw [heq]; exact hothers)
        (by rw [heq]; exact hstate) rfl rfl fun hleader hinput => ?_
      obtain ⟨hterm, hpending, hcontext, hoffset, hprogress⟩ := hsteers hleader hinput
      rw [heq]
      exact ⟨hterm, hpending, hcontext, hoffset, hprogress⟩

theorem readIndex_output (hmsgs : r.msgs = []) :
    Output r .readIndex r.readIndex.1 r.readIndex.1.msgs := by
  have hquiet : r.startReadRound.msgs = [] := hmsgs
  unfold readIndex
  split
  · exact hmsgs ▸ .nothing
  next hleads =>
    simp only [not_or, not_not] at hleads
    split
    · exact hmsgs ▸ .nothing
    · dsimp only
      split
      · split
        next next hpropose =>
          have hsilent := (propose_refused hpropose).trans hmsgs
          rw [finishReadIndex_msgs, hsilent]
          exact .nothing
        next next index hpropose =>
          obtain rfl : _ = next := congrArg Prod.fst hpropose
          exact propose_output hquiet rfl rfl fun _ hinput => absurd rfl hinput
      · simp only [broadcastHeartbeat, hquiet, List.nil_append]
        exact .beat { r.startReadRound with pendingReadIndex := r.startReadRound.commitIndex }
          rfl rfl hleads.1 rfl rfl fun _ hinput => absurd rfl hinput

/-- Every operation sends one of these. -/
theorem step_output (input : Input D) (hmsgs : r.msgs = []) :
    Output r input (r.step input) (r.step input).msgs := by
  have hanswer {q : Raft D} {reply request : Message D} (hquiet : q.msgs = r.msgs)
      (hto : reply.receiver = request.sender)
      (hemits : Emits r (.message request) (q.send reply) reply) :
      Output r (.message request) (q.send reply) (q.send reply).msgs := by
    simp only [send, hquiet, hmsgs, List.nil_append] at hemits ⊢
    exact .answer request reply rfl hto hemits
  cases input with
  | tick => exact tick_output hmsgs
  | message request =>
      simp only [step, handleMessage]
      split
      · obtain ⟨hquiet, htype⟩ := handleRequestVote_says r request
        exact hanswer hquiet (handleRequestVote_receiver r request) (.of_type _ htype (by decide))
      · exact handleRequestVoteResponse_output hmsgs
      next htype =>
        exact hanswer rfl (handlePreVote_receiver r request) (.preVoteReply request rfl htype)
      · exact handlePreVoteResponse_output hmsgs
      next htype =>
        obtain ⟨hquiet, success, index, hreply, hsuccess⟩ := handleAppendEntries_says r request
        rw [hreply]
        exact hanswer hquiet rfl (.reply request success index rfl htype hsuccess)
      · exact handleAppendEntriesResponse_output hmsgs
      · obtain ⟨hquiet, htype⟩ := handleInstallSnapshot_says r request
        exact hanswer hquiet (handleInstallSnapshot_receiver r request)
          (.of_type _ htype (by decide))
      · exact handleInstallSnapshotResponse_output hmsgs
      · exact hmsgs ▸ .nothing
  | propose data =>
      exact propose_output hmsgs rfl rfl fun _ _ => ⟨rfl, rfl, rfl, rfl, fun _ _ => rfl⟩
  | readIndex => exact readIndex_output hmsgs
  | finishRead read =>
      rw [step, finishReadIndex_msgs, hmsgs]
      exact .nothing
  | advance index =>
      rw [step, advance_msgs, hmsgs]
      exact .nothing
  | takeSnapshot index state =>
      rw [step, takeSnapshot_msgs, hmsgs]
      exact .nothing

theorem heartbeat_emits {input : Input D} {next q : Raft D}
    (hmsg : msg ∈ q.others.map q.heartbeatFor)
    (hid : next.id = q.id) (hrole : next.role = q.role) (hstate : q.state = .leader) :
    Emits r input next msg := by
  obtain ⟨peer, -, rfl⟩ := List.mem_map.mp hmsg
  have hterm : q.term = next.term := (congrArg Role.term hrole).symm
  have hleads : next.state = .leader := (congrArg Role.state hrole).trans hstate
  unfold heartbeatFor
  split
  · exact .snapshot _ rfl hterm hleads
  · have hpending : next.readIndexPending = q.readIndexPending :=
      congrArg Role.readIndexPending hrole
    have hcontext : next.pendingReadContext = q.pendingReadContext :=
      congrArg Role.pendingReadContext hrole
    refine .entries _ rfl hid.symm hterm hleads ?_
    rw [hpending, hcontext]
    rfl

/-- Whatever an operation leaves in an empty queue is on the list. -/
theorem step_emits {input : Input D} (hmsgs : r.msgs = []) (hmsg : msg ∈ (r.step input).msgs) :
    Emits r input (r.step input) msg := by
  have houtput := step_output input hmsgs
  generalize (r.step input).msgs = msgs at houtput hmsg
  cases houtput with
  | nothing => cases hmsg
  | answer request reply _ _ hemits => exact List.mem_singleton.mp hmsg ▸ hemits
  | beat q _ _ hstate hsame hrole => exact heartbeat_emits hmsg hsame hrole hstate
  | canvass make _ _ hemits =>
      obtain ⟨peer, -, rfl⟩ := List.mem_map.mp hmsg
      exact hemits peer

/-- Whoever sends a leader's message leads its term after the call. -/
theorem step_leads {input : Input D} (hmsgs : r.msgs = []) (hmsg : msg ∈ (r.step input).msgs)
    (hfrom : msg.FromLeader) :
    (r.step input).state = .leader ∧ msg.term = (r.step input).term := by
  cases step_emits hmsgs hmsg with
  | preVote | reply => rcases hfrom with htype | htype <;> cases htype
  | preVoteReply =>
      rcases hfrom with htype | htype <;> cases handlePreVote_type.symm.trans htype
  | entries _ _ _ hterm hstate => exact ⟨hstate, hterm⟩
  | snapshot _ _ hterm hstate => exact ⟨hstate, hterm⟩
  | other _ _ _ hentries _ hsnapshot => exact (hfrom.elim hentries hsnapshot).elim

end RaftKv.Raft
