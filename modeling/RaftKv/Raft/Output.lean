import RaftKv.Raft.Emit

/-! # What one operation sends to a peer

While a node stays leader, what a given peer gets from it continues one stream:
AppendEntries of its term and read round.
-/

namespace RaftKv.Raft

variable {D : Type} {r : Raft D}

/-- A call that continues the stream to a peer: the node leads and its log still has what the
peer needs, the peer itself is not heard from, and no read round starts or ends. -/
def continues (r : Raft D) (peer : Nat) (input : Input D) : Bool :=
  r.state = .leader && r.logOffset < (r.progressOf peer).next &&
    match input with
    | .message msg => msg.sender ≠ peer
    | .readIndex | .finishRead _ => false
    | .tick | .propose _ | .advance _ | .takeSnapshot _ _ => true

theorem leader_of_continues {peer : Nat} {input : Input D}
    (hcontinues : r.continues peer input = true) : r.state = .leader := by
  simp only [continues, Bool.and_eq_true, decide_eq_true_eq] at hcontinues
  exact hcontinues.1.1

/-- A call that sends nothing: a leader's tick between heartbeats, the acknowledgment of an
append, and what the node does with its own log. -/
def silent (r : Raft D) : Input D → Bool
  | .tick => r.state = .leader && r.heartbeatElapsed + 1 < r.heartbeatTimeout
  | .message msg => msg.type = .appendEntriesResponse && msg.success
  | .propose _ | .readIndex => false
  | .finishRead _ | .advance _ | .takeSnapshot _ _ => true

variable [Blob D]

theorem heartbeatFor_receiver (r : Raft D) (peer : Nat) :
    (r.heartbeatFor peer).receiver = peer := by
  unfold heartbeatFor
  split <;> rfl

/-- Without repetitions among the peers, an operation sends each of them one message at most. -/
theorem Output.one {input : Input D} {next : Raft D} {msgs : List (Message D)}
    (houtput : Output r input next msgs) (hpeers : r.peers.Nodup) (peer : Nat) :
    (msgs.filter (·.receiver = peer)).length ≤ 1 := by
  have hbroadcast (make : Nat → Message D) (hto : ∀ peer, (make peer).receiver = peer) :
      ((r.others.map make).filter (·.receiver = peer)).length ≤ 1 := by
    have hsame : (fun msg : Message D => decide (msg.receiver = peer)) ∘ make = (· == peer) := by
      funext other
      simp [hto, beq_eq_decide]
    rw [List.filter_map, List.length_map, hsame, ← List.countP_eq_length_filter, ← List.count]
    exact List.nodup_iff_count_le_one.mp (hpeers.filter _) peer
  cases houtput with
  | nothing => exact Nat.zero_le 1
  | answer request reply => exact List.length_filter_le _ [reply]
  | beat q _ hothers => exact hothers ▸ hbroadcast _ q.heartbeatFor_receiver
  | canvass make hto => exact hbroadcast make hto

/-- A call that continues the stream sends the peer nothing, or an AppendEntries of the node's
term and round. -/
theorem Output.stream {input : Input D} {next : Raft D} {msgs : List (Message D)}
    (houtput : Output r input next msgs)
    {peer : Nat} (hcontinues : r.continues peer input = true) :
    ∀ msg ∈ msgs, msg.receiver = peer → msg.type = .appendEntries ∧ msg.sender = r.id ∧
      msg.term = r.term ∧ msg.readContext = (r.makeAppendEntries peer).readContext := by
  simp only [continues, Bool.and_eq_true, decide_eq_true_eq] at hcontinues
  obtain ⟨⟨hleader, hnext⟩, hinput⟩ := hcontinues
  have hother : ∀ msg, input = .message msg → msg.sender ≠ peer := by
    rintro msg rfl
    simpa using hinput
  have hread : input ≠ .readIndex := by
    rintro rfl
    cases hinput
  cases houtput with
  | nothing => simp
  | answer request reply hrequest hto =>
      intro msg hmsg hpeer
      rw [List.mem_singleton.mp hmsg, hto] at hpeer
      exact absurd hpeer (hother request hrequest)
  | beat q hid _ _ _ _ hsteers =>
      obtain ⟨hterm, hpending, hcontext, hoffset, hprogress⟩ := hsteers hleader hread
      intro msg hmsg hpeer
      obtain ⟨other, -, rfl⟩ := List.mem_map.mp hmsg
      obtain rfl : other = peer := (q.heartbeatFor_receiver other).symm.trans hpeer
      have happend : q.heartbeatFor other = q.makeAppendEntries other := by
        rw [heartbeatFor, if_neg (by rw [hprogress other hother, hoffset]; omega)]
      rw [happend]
      exact ⟨rfl, hid, hterm, by simp only [makeAppendEntries, hpending, hcontext]⟩
  | canvass make _ hstate => exact absurd hleader hstate

theorem silent_output {input : Input D} (hmsgs : r.msgs = []) (hsilent : r.silent input = true) :
    (r.step input).msgs = [] := by
  cases input with
  | tick =>
      simp only [silent, Bool.and_eq_true, decide_eq_true_eq] at hsilent
      simp only [step, tick, hsilent.1, if_true]
      split
      · exact hmsgs
      · rw [if_neg (by omega)]
        exact hmsgs
  | message msg =>
      simp only [silent, Bool.and_eq_true, decide_eq_true_eq] at hsilent
      obtain ⟨htype, hsuccess⟩ := hsilent
      simp only [step, handleMessage, htype, handleAppendEntriesResponse, hsuccess, if_true]
      split_ifs
      · exact hmsgs
      · rw [becomeFollower_msgs, hmsgs]
      · exact hmsgs
      · exact hmsgs
      · exact hmsgs
      · exact (acknowledge_msgs r msg).trans hmsgs
  | propose data => cases hsilent
  | readIndex => cases hsilent
  | finishRead read => exact (finishReadIndex_msgs read).trans hmsgs
  | advance index => exact (advance_msgs r index).trans hmsgs
  | takeSnapshot index state => exact (takeSnapshot_msgs r index state).trans hmsgs

/-- A node that leads after it leads in the same term and read round. -/
theorem continues_role {peer : Nat} {input : Input D} (hcontinues : r.continues peer input = true)
    (hleads : (r.step input).state = .leader) : (r.step input).term = r.term ∧
      (r.step input).readIndexPending = r.readIndexPending ∧
      (r.step input).pendingReadContext = r.pendingReadContext := by
  simp only [continues, Bool.and_eq_true, decide_eq_true_eq] at hcontinues
  obtain ⟨⟨hleader, -⟩, hinput⟩ := hcontinues
  have hrole := step_role r input
  have hstate : (r.step input).role.state = .leader := hleads
  change (r.step input).role.term = _ ∧ (r.step input).role.readIndexPending = _ ∧
    (r.step input).role.pendingReadContext = _
  generalize (r.step input).role = next at hrole hstate
  cases hrole with
  | same => exact ⟨rfl, rfl, rfl⟩
  | ack => exact ⟨rfl, rfl, rfl⟩
  | follow => cases hstate
  | canvass _ hnot => exact absurd hleader hnot
  | preVote msg _ hcounts => cases hleader.symm.trans hcounts.state
  | stand => cases hstate
  | crown msg _ hcandidate => cases hleader.symm.trans hcandidate
  | start hread | give hread | finish _ hread =>
      subst hread
      cases hinput

end RaftKv.Raft
