import RaftKv.Raft.Storage

/-! # What a move says

The messages one move puts in the queue, each as a function of the node it leaves
and together with the tests under which the code sends it.
-/

namespace RaftKv.Raft

variable {D : Type}

section

variable [Blob D]

inductive Sent (o : Outside D) (r next : Raft D) : Message D → Prop
  | plain (msg : Message D) (hplain : msg.Plain) (hterm : msg.term = next.term)
      (hsender : msg.sender = next.id) : Sent o r next msg
  | preVote (peer : Nat) (hpending : next.pendingPreVoteTerm = wrap64 (next.term + 1)) :
      Sent o r next (next.makePreVote peer)
  | candidacy (peer : Nat) (hhealthy : next.storageFailed = false)
      (hstate : next.state = .candidate) : Sent o r next (next.makeRequestVote peer)
  | vote (request : Message D) (hmsg : o.message request) (htype : request.type = .requestVote)
      (haddressed : next.rejects request = false) (hhealthy : next.storageFailed = false)
      (hterm : request.term = next.term) (hvote : next.votedFor = request.sender) :
      Sent o r next (next.voteResponse request true)
  | heartbeat (peer : Nat) (hpeer : peer ∈ next.others) (hstate : next.state = .leader) :
      Sent o r next (next.heartbeatFor peer)
  | snapshot (peer : Nat) (hpeer : peer ∈ next.others) (hstate : next.state = .leader)
      (hoffset : 0 < next.logOffset) : Sent o r next (next.makeInstallSnapshot peer)
  | accepted (request : Message D) (hmsg : o.message request)
      (htype : request.type = .appendEntries) (hready : r.Ready request)
      (hlog : r.logOk request = true)
      (hnext : next = (r.acceptEntries request).1.send (r.acceptEntries request).2)
      (hsuccess : (r.acceptEntries request).2.success = true) :
      Sent o r next (r.acceptEntries request).2
  | stale (request : Message D) (hmsg : o.message request)
      (htype : request.type = .installSnapshot) (hready : r.Ready request)
      (hstale : r.commitIndex > request.snapshotIndex ∨ r.lastApplied ≥ request.snapshotIndex)
      (hnext : next = r.send (r.snapshotResponse request true (max r.commitIndex r.lastApplied))) :
      Sent o r next (r.snapshotResponse request true (max r.commitIndex r.lastApplied))
  | installed (request : Message D) (hmsg : o.message request)
      (htype : request.type = .installSnapshot) (hready : r.Ready request)
      (hnext : next = (r.installSnapshot request).1.send
        ((r.installSnapshot request).1.snapshotResponse request true request.snapshotIndex)) :
      Sent o r next
        ((r.installSnapshot request).1.snapshotResponse request true request.snapshotIndex)

end

variable {o : Outside D} {r next : Raft D}

section

variable [Blob D]

theorem Move.sends (hmove : Move o r next) :
    ∃ new, next.msgs = r.msgs ++ new ∧ ∀ msg ∈ new, Sent o r next msg := by
  have hquiet : next.msgs = r.msgs →
      ∃ new, next.msgs = r.msgs ++ new ∧ ∀ msg ∈ new, Sent o r next msg :=
    fun h => ⟨[], by simp [h], by simp⟩
  cases hmove with
  | raise msg lead _ _ _ hterm =>
      refine hquiet ?_
      rw [becomeFollower_of_lt hterm]
      rfl
  | demote msg _ _ _ _ hterm =>
      refine hquiet ?_
      rw [becomeFollower_of_eq hterm]
      rfl
  | sound =>
      unfold preCampaign at hquiet ⊢
      split
      next hfailed => exact ⟨[], by simp, by simp⟩
      · refine ⟨_, rfl, fun msg hmsg => ?_⟩
        obtain ⟨peer, _, rfl⟩ := List.mem_map.mp hmsg
        exact .preVote peer rfl
  | canvass hstate =>
      unfold campaign at hquiet ⊢
      split
      · exact ⟨[], by simp, by simp⟩
      next hhealthy =>
        refine ⟨_, rfl, fun msg hmsg => ?_⟩
        obtain ⟨peer, _, rfl⟩ := List.mem_map.mp hmsg
        exact .candidacy peer (by simpa using hhealthy) hstate
  | grant msg hmsg htype haddressed hhealthy hterm =>
      refine ⟨_, rfl, fun reply hreply => ?_⟩
      rw [List.mem_singleton.mp hreply]
      cases hok : (r.grantVote msg).2 with
      | false => exact .plain _ rfl rfl rfl
      | true => exact .vote msg hmsg htype haddressed (syncWal_healthy hhealthy hok) hterm rfl
  | crown =>
      refine ⟨_, rfl, fun msg hmsg => ?_⟩
      obtain ⟨peer, hpeer, rfl⟩ := List.mem_map.mp hmsg
      exact .heartbeat peer hpeer rfl
  | beat hstate =>
      refine ⟨_, rfl, fun msg hmsg => ?_⟩
      obtain ⟨peer, hpeer, rfl⟩ := List.mem_map.mp hmsg
      exact .heartbeat peer hpeer hstate
  | push peer hstate hoffset hpeer =>
      refine ⟨_, rfl, fun msg hmsg => ?_⟩
      rw [List.mem_singleton.mp hmsg]
      exact .snapshot peer hpeer hstate hoffset
  | say msg hplain hterm hsender =>
      refine ⟨_, rfl, fun reply hreply => ?_⟩
      rw [List.mem_singleton.mp hreply]
      exact .plain msg hplain hterm hsender
  | accept msg hmsg htype hready hlog =>
      obtain ⟨log, commit, wal, failed, heq⟩ := r.acceptEntries_frame msg
      refine ⟨[(r.acceptEntries msg).2], ?_, fun reply hreply => ?_⟩
      · simp [send, heq]
      · rw [List.mem_singleton.mp hreply]
        cases hsuccess : (r.acceptEntries msg).2.success with
        | true => exact .accepted msg hmsg htype hready hlog rfl hsuccess
        | false =>
            obtain ⟨success, index, hreply⟩ := r.acceptEntries_reply msg
            rw [hreply] at hsuccess ⊢
            exact .plain _ hsuccess rfl rfl
  | stale msg hmsg htype hready hstale =>
      refine ⟨_, rfl, fun reply hreply => ?_⟩
      rw [List.mem_singleton.mp hreply]
      exact .stale msg hmsg htype hready hstale rfl
  | install msg hmsg htype hready =>
      have hmsgs : (r.installSnapshot msg).1.msgs = r.msgs := by
        obtain ⟨wal, failed, heq | heq⟩ := r.installSnapshot_frame msg
        · rw [heq]
        · rw [heq]
          rfl
      refine ⟨[(r.installSnapshot msg).2], by simp [send, hmsgs], fun reply hreply => ?_⟩
      rw [List.mem_singleton.mp hreply]
      rcases r.installSnapshot_reply msg with heq | heq
      · rw [heq]
        exact .plain _ rfl rfl rfl
      · rw [heq]
        exact .installed msg hmsg htype hready rfl
  | choose =>
      obtain ⟨commit, wal, failed, heq⟩ := r.chooseCommit_frame
      exact hquiet (by rw [heq])
  | extend data =>
      obtain ⟨log, wal, failed, heq⟩ := r.appendOwn_frame (r.nextEntry data)
      exact hquiet (by rw [heq])
  | compact index state =>
      obtain ⟨log, offset, offsetTerm, last, data, wal, failed, heq, -⟩ :=
        r.takeSnapshot_frame index state
      exact hquiet (by rw [heq])
  | apply index =>
      refine hquiet ?_
      unfold advance
      split <;> rfl
  | _ => exact hquiet rfl

end

/-! ## Stepping down says nothing -/

theorem becomeFollower_msgs {term lead : Nat} : (r.becomeFollower term lead).msgs = r.msgs := by
  unfold becomeFollower
  split
  · rfl
  · dsimp only
    split <;> rfl

theorem prepareForLeaderRpc_msgs (r : Raft D) (msg : Message D) :
    (r.prepareForLeaderRpc msg).1.msgs = r.msgs := by
  unfold prepareForLeaderRpc
  split
  · rfl
  · have hraised :
        (if msg.term > r.term then r.becomeFollower msg.term msg.sender else r).msgs = r.msgs := by
      split
      · exact becomeFollower_msgs
      · rfl
    generalize (if msg.term > r.term then r.becomeFollower msg.term msg.sender else r) = raised at *
    dsimp only
    split
    · exact hraised
    · refine Eq.trans ?_ hraised
      split
      · exact becomeFollower_msgs
      · rfl

end RaftKv.Raft
