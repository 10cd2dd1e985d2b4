import RaftKv.Cluster.Whole
import RaftKv.Node.Send
import RaftKv.TermLog.Copy

/-! # The replication stream of a leader

What a leader sends to one follower in one term is a stream. A later message of it
reaches at least as far and tells at least as much committed as an earlier one. It may
start later only when the follower has acknowledged everything up to there.
-/

namespace RaftKv

open TermLog

/-- Two replication messages of one leader in one term to one follower. -/
structure Message.SameStream (earlier later : Message Capture) : Prop where
  appends : earlier.type = .appendEntries
  appends' : later.type = .appendEntries
  sender : earlier.sender = later.sender
  receiver : earlier.receiver = later.receiver
  term : earlier.term = later.term

/-- How a replication message compares with an earlier one of its stream. -/
structure Message.Succeeds (a : Sys Nat Entry) (earlier later : Message Capture) : Prop where
  reach : earlier.prevLogIndex + earlier.entries.length ≤
    later.prevLogIndex + later.entries.length
  commit : earlier.leaderCommit ≤ later.leaderCommit
  start : later.prevLogIndex ≤ earlier.prevLogIndex ∨
    later.prevLogIndex ≤ a.ack later.receiver later.term

/-- Messages in the order they were sent. -/
def InOrder (a : Sys Nat Entry) (msgs : List (Message Capture)) : Prop :=
  msgs.Pairwise fun earlier later => earlier.SameStream later → earlier.Succeeds a later

variable {setup : Setup} {a a' : Sys Nat Entry} {i : Nat} {r next : Raft Capture}
  {msg : Message Capture} {o : Outside Capture}

theorem InOrder.grow {msgs : List (Message Capture)} (hgrow : Grows a a')
    (horder : InOrder a msgs) : InOrder a' msgs :=
  horder.imp fun h hstream =>
    have hsucceeds := h hstream
    ⟨hsucceeds.reach, hsucceeds.commit,
      hsucceeds.start.imp_right fun h => h.trans (hgrow.ack _ _)⟩

theorem Outside.Honest.grow (hgrow : Grows a a') (ho : o.Honest setup a) : o.Honest setup a' :=
  ⟨fun msg hmsg => (ho.message msg hmsg).grow hgrow, ho.snapshot, ho.room, ho.install⟩

namespace Raft

/-! ## Moves of a leader -/

section Leads

variable {D : Type} [Blob D] {o : Outside D} {r next : Raft D}

/-- How a node comes to lead, or goes on leading. -/
inductive Leads (o : Outside D) (r next : Raft D) : Prop
  | crowned (hstate : r.state = .candidate) (hnext : next = r.becomeLeader)
  | kept (hstate : r.state = .leader) (hterm : next.term = r.term)
      (hcommit : r.commitIndex ≤ next.commitIndex) (hprogress : next.progress = r.progress)
  | noted (msg : Message D) (hmsg : o.message msg)
      (htype : msg.type = .appendEntriesResponse ∨ msg.type = .installSnapshotResponse)
      (hsuccess : msg.success = true) (hterm : msg.term = r.term) (hstate : r.state = .leader)
      (hnext : next = r.noteMatch msg)
  | backedOff (peer : Nat) (hpeer : peer ∈ r.others) (hstate : r.state = .leader)
      (hnext : next = r.backOff peer)

theorem Move.leads (hvalid : r.durable.Valid) (hmove : Move o r next)
    (hleader : next.state = .leader) : Leads o r next := by
  cases hmove with
  | raise msg lead _ _ _ hterm =>
      rw [becomeFollower_of_lt hterm] at hleader
      cases hleader
  | demote msg _ _ _ _ hterm =>
      rw [becomeFollower_of_eq hterm] at hleader
      cases hleader
  | withdraw | stand => cases hleader
  | crown msg hmsg htype hstate => exact .crowned hstate rfl
  | note msg hmsg htype haddressed hsuccess hterm hstate =>
      exact .noted msg hmsg htype hsuccess hterm hstate rfl
  | backOff msg _ _ haddressed hstate =>
      exact .backedOff msg.sender (sender_mem_others haddressed) hstate rfl
  | sound hstate =>
      unfold preCampaign at hleader
      split at hleader <;> cases hstate.symm.trans hleader
  | canvass hstate =>
      unfold campaign at hleader
      split at hleader <;> cases hstate.symm.trans hleader
  | accept msg _ _ hready =>
      obtain ⟨log, commit, wal, failed, heq⟩ := r.acceptEntries_frame msg
      rw [heq] at hleader
      cases hready.follower.symm.trans hleader
  | choose hstate =>
      obtain ⟨commit, heq, hcommit⟩ := advanceCommit_spec hvalid
      have hle : r.commitIndex ≤ commit := hcommit.elim Eq.ge fun h => h.1.le
      unfold chooseCommit
      rw [heq]
      split <;> exact .kept hstate rfl hle rfl
  | extend data hstate =>
      obtain ⟨log, wal, failed, heq⟩ := r.appendOwn_frame (r.nextEntry data)
      rw [heq]
      exact .kept hstate rfl le_rfl rfl
  | apply index =>
      unfold advance at hleader ⊢
      split at hleader
      next h =>
        rw [if_pos h]
        exact .kept hleader rfl le_rfl rfl
      next h =>
        rw [if_neg h]
        exact .kept hleader rfl le_rfl rfl
  | compact index state =>
      obtain ⟨log, offset, offsetTerm, last, data, wal, failed, heq, -⟩ :=
        r.takeSnapshot_frame index state
      rw [heq] at hleader ⊢
      exact .kept hleader rfl le_rfl rfl
  | install msg _ _ hready =>
      obtain ⟨wal, failed, heq | heq⟩ := r.installSnapshot_frame msg <;>
        · rw [heq] at hleader
          cases hready.follower.symm.trans hleader
  | _ => exact .kept hleader rfl le_rfl rfl

theorem Move.was_candidate_or (hmove : Move o r next) (hcandidate : next.state = .candidate) :
    r.state = .candidate ∧ next.term = r.term ∨
      r.pendingPreVoteTerm ≠ 0 ∧ next = r.becomeCandidate := by
  have hstored (hsaves : Saves r next) : r.state = .candidate ∧ next.term = r.term ∨
      r.pendingPreVoteTerm ≠ 0 ∧ next = r.becomeCandidate := by
    obtain ⟨_, _, _, _, _, _, _, _, _, _, rfl⟩ := hsaves.frame
    exact .inl ⟨hcandidate, rfl⟩
  cases hmove with
  | raise msg lead _ _ _ hterm =>
      rw [becomeFollower_of_lt hterm] at hcandidate
      cases hcandidate
  | demote msg _ _ _ _ hterm =>
      rw [becomeFollower_of_eq hterm] at hcandidate
      cases hcandidate
  | withdraw | crown => cases hcandidate
  | stand _ _ hpending => exact .inr ⟨hpending, rfl⟩
  | sound hstate =>
      unfold preCampaign at hcandidate
      split at hcandidate <;> cases hstate.symm.trans hcandidate
  | canvass hstate =>
      refine .inl ⟨hstate, ?_⟩
      unfold campaign
      split <;> rfl
  | accept | choose | extend | apply | compact => exact hstored (by constructor)
  | install => exact hstored (.install _)
  | _ => exact .inl ⟨hcandidate, rfl⟩

end Leads

/-! ## What has been said -/

/-- The leader has gone on since it sent a message. -/
structure Ahead (a : Sys Nat Entry) (r : Raft Capture) (msg : Message Capture) : Prop where
  commit : msg.leaderCommit ≤ r.commitIndex
  start : ∀ pr, r.progress.get? msg.receiver = some pr →
    pr.next - 1 ≤ msg.prevLogIndex ∨ pr.next - 1 ≤ a.ack msg.receiver r.term

/-- The replication that node `i` has sent, against what the node is now. -/
structure Streams (a : Sys Nat Entry) (i : Nat) (said : List (Message Capture))
    (r : Raft Capture) : Prop where
  candidate : r.state = .candidate → ∀ msg ∈ said, msg.type = .appendEntries → msg.sender = i →
    msg.term ≠ r.term
  leader : r.state = .leader → ∀ msg ∈ said, msg.type = .appendEntries → msg.sender = i →
    msg.term = r.term → r.Ahead a msg

/-- A message as the leader would send it now. -/
structure Fresh (i : Nat) (r : Raft Capture) (msg : Message Capture) : Prop where
  leads : r.state = .leader
  sender : msg.sender = i
  term : msg.term = r.term
  commit : msg.leaderCommit = r.commitIndex
  reach : msg.prevLogIndex + msg.entries.length = r.history.length
  start : ∃ pr, r.progress.get? msg.receiver = some pr ∧ msg.prevLogIndex = pr.next - 1

theorem Fresh.ahead (hfresh : r.Fresh i msg) : r.Ahead a msg where
  commit := hfresh.commit.le
  start pr hpr := by
    obtain ⟨pr', hpr', hstart⟩ := hfresh.start
    obtain rfl : pr' = pr := Option.some.inj (hpr'.symm.trans hpr)
    exact .inl hstart.ge

theorem Fresh.succeeds {w : Wal Capture} {earlier later : Message Capture}
    (hrun : Running setup a i r w) (hplays : r.Plays setup a i) (hfresh : r.Fresh i later)
    (hahead : r.Ahead a earlier) (hhonest : earlier.Honest setup a)
    (hstream : earlier.SameStream later) : earlier.Succeeds a later where
  reach := by
    obtain ⟨before, hlen, -, hpre, -⟩ := hhonest.entries hstream.appends
    rw [hstream.term, hfresh.term, ← hrun.history_eq (hplays.leader hfresh.leads).1] at hpre
    have hle := hpre.length_le
    rw [List.length_append, hlen] at hle
    exact hle.trans_eq hfresh.reach.symm
  commit := hahead.commit.trans_eq hfresh.commit.symm
  start := by
    obtain ⟨pr, hpr, hstart⟩ := hfresh.start
    rw [← hstream.receiver] at hpr
    have hbehind := hahead.start pr hpr
    rwa [← hstart, hstream.receiver, ← hfresh.term] at hbehind

/-- The only replication a move sends is that of a leader. -/
theorem Sent.fresh {w : Wal Capture} (hrun : Running setup a i next w)
    (hplays : next.Plays setup a i) (hsent : Sent o r next msg)
    (htype : msg.type = .appendEntries) : next.Fresh i msg := by
  cases hsent with
  | heartbeat peer hpeer hstate =>
      unfold heartbeatFor at htype ⊢
      split at htype
      · cases htype
      next hnext =>
        rw [if_neg hnext]
        obtain ⟨pr, hpr⟩ := hplays.known hrun.healthy hstate peer hpeer
        have htracks := hplays.tracks hrun.healthy hstate peer pr hpr
        have hprogress : next.progressOf peer = pr := by rw [progressOf, hpr]; rfl
        have hpos := htracks.next_pos
        have hle := htracks.next_le
        have hbound := hrun.bound
        rw [hprogress, not_le] at hnext
        have hprev : (next.makeAppendEntries peer).prevLogIndex = pr.next - 1 := by
          show sub64 (next.progressOf peer).next 1 = _
          rw [hprogress, sub64_of_le hpos (by omega)]
        have hentries : (next.makeAppendEntries peer).entries =
            next.history.drop (pr.next - 1) := by
          show next.entriesFrom (next.progressOf peer).next = _
          rw [hprogress, hrun.entriesFrom_eq hnext hle]
        refine ⟨hstate, hrun.id, rfl, rfl, ?_, pr, hpr, hprev⟩
        rw [hprev, hentries, List.length_drop]
        omega
  | plain _ hplain =>
      rw [Message.Plain, htype] at hplain
      cases hplain
  | accepted request =>
      obtain ⟨success, index, hreply⟩ := r.acceptEntries_reply request
      rw [hreply] at htype
      cases htype
  | _ => cases htype

/-! ## One move -/

/-- A node has sent replication only in terms it has reached. -/
theorem Running.said_term_le {w : Wal Capture} (hrun : Running setup a i r w)
    (hhonest : msg.Honest setup a) (htype : msg.type = .appendEntries) (hsender : msg.sender = i) :
    msg.term ≤ r.term := by
  obtain ⟨l, hbid⟩ := hrun.inv.leaderBid _ _ (hhonest.leader (.inl htype))
  rw [hsender] at hbid
  exact ((hrun.inv.bidTerm _ _ _ hbid).2.1).trans_eq hrun.term

theorem Ahead.leads (hgrow : Grows a a') (hplays : r.Plays setup a i)
    (hhealthy : r.storageFailed = false) (ho : o.Honest setup a) (hstate : r.state = .leader)
    (hahead : r.Ahead a msg) (hleads : Leads o r next) : next.Ahead a' msg := by
  have hstart : ∀ k, k ≤ msg.prevLogIndex ∨ k ≤ a.ack msg.receiver r.term →
      k ≤ msg.prevLogIndex ∨ k ≤ a'.ack msg.receiver r.term :=
    fun k => Or.imp_right fun h => h.trans (hgrow.ack _ _)
  cases hleads with
  | crowned hcandidate => cases hcandidate.symm.trans hstate
  | kept _ hterm hcommit hprogress =>
      refine ⟨hahead.commit.trans hcommit, fun pr hpr => ?_⟩
      rw [hprogress] at hpr
      rw [hterm]
      exact hstart _ (hahead.start pr hpr)
  | noted reply hreply htype hsuccess hterm _ hnext =>
      subst hnext
      refine ⟨hahead.commit, fun pr hpr => ?_⟩
      simp only [noteMatch, Table.get?_insert] at hpr
      split at hpr
      next heq =>
        obtain rfl := Option.some.inj hpr
        have hack := (ho.message reply hreply).accepted htype hsuccess
        rw [hterm, ← heq] at hack
        refine .inr (le_trans ?_ (hack.trans (hgrow.ack _ _)))
        exact Nat.sub_le_of_le_add (Nat.mod_le _ _)
      · exact hstart _ (hahead.start pr hpr)
  | backedOff peer hpeer _ hnext =>
      subst hnext
      refine ⟨hahead.commit, fun pr hpr => ?_⟩
      simp only [backOff, Table.get?_insert] at hpr
      split at hpr
      next heq =>
        obtain ⟨old, hold⟩ := hplays.known hhealthy hstate peer hpeer
        have hprogress : r.progressOf peer = old := by rw [progressOf, hold]; rfl
        obtain rfl := Option.some.inj hpr
        have hle : (if (r.progressOf peer).next > 1 then (r.progressOf peer).next - 1
            else (r.progressOf peer).next) - 1 ≤ old.next - 1 := by
          rw [hprogress]
          split <;> omega
        rw [← heq] at hold
        exact (hstart _ (hahead.start old hold)).imp hle.trans hle.trans
      · exact hstart _ (hahead.start pr hpr)

theorem Streams.move {w : Wal Capture} {said : List (Message Capture)} (hgrow : Grows a a')
    (hrun : Running setup a i r w) (hplays : r.Plays setup a i) (ho : o.Honest setup a)
    (hhonest : ∀ msg ∈ said, msg.Honest setup a) (hstreams : r.Streams a i said)
    (hmove : Move o r next) : next.Streams a' i said where
  candidate hstate msg hmsg htype hsender := by
    rcases hmove.was_candidate_or hstate with ⟨hcandidate, hterm⟩ | ⟨hpending, rfl⟩
    · rw [hterm]
      exact hstreams.candidate hcandidate msg hmsg htype hsender
    · -- it has sent nothing in the term it opens
      have hle := hrun.said_term_le (hhonest msg hmsg) htype hsender
      have hterm : r.becomeCandidate.term = r.term + 1 :=
        wrap64_of_lt (hrun.mirrors.inTerm.term_succ hpending)
      omega
  leader hstate msg hmsg htype hsender hterm := by
    have hleads := hmove.leads hrun.valid hstate
    have hbefore : r.state = .leader ∧ next.term = r.term := by
      cases hleads with
      | crowned hcandidate hnext =>
          subst hnext
          exact absurd hterm (hstreams.candidate hcandidate msg hmsg htype hsender)
      | kept hstate hterm => exact ⟨hstate, hterm⟩
      | noted _ _ _ _ _ hstate hnext => exact ⟨hstate, hnext ▸ rfl⟩
      | backedOff _ _ hstate hnext => exact ⟨hstate, hnext ▸ rfl⟩
    exact (hstreams.leader hbefore.1 msg hmsg htype hsender (hterm.trans hbefore.2)).leads hgrow
      hplays hrun.healthy ho hbefore.1 hleads

/-- While storage works, all that was sent and is about to be sent is in order. -/
def Spoke (a : Sys Nat Entry) (net : List (Message Capture)) (i : Nat) (r : Raft Capture) : Prop :=
  r.storageFailed = false → InOrder a (net ++ r.msgs) ∧ r.Streams a i (net ++ r.msgs) ∧
    ∀ msg ∈ r.msgs, msg.type = .appendEntries → msg.sender = i

theorem Move.spoke {net : List (Message Capture)} (hinv : setup.protocol.Inv a)
    (hinv' : setup.protocol.Inv a') (hgrow : Grows a a') (ho : o.Honest setup a)
    (hsim : r.Simulated setup a i) (hsim' : next.Simulated setup a' i)
    (hnet : ∀ msg ∈ net, msg.Honest setup a) (hspoke : Spoke a net i r) (hmove : Move o r next) :
    Spoke a' net i next := by
  intro hhealthy'
  have hhealthy := hmove.healthy_of hhealthy'
  obtain ⟨w, hrun⟩ := hsim.stores.running hinv hsim.mirrors hhealthy hsim.id
  obtain ⟨w', hrun'⟩ := hsim'.stores.running hinv' hsim'.mirrors hhealthy' hsim'.id
  obtain ⟨horder, hstreams, hown⟩ := hspoke hhealthy
  have hhonest : ∀ msg ∈ net ++ r.msgs, msg.Honest setup a := fun msg hmsg =>
    (List.mem_append.mp hmsg).elim (hnet msg) (hsim.honest hhealthy msg)
  have hold := hstreams.move hgrow hrun hsim.plays ho hhonest hmove
  obtain ⟨new, hnew, hsent⟩ := hmove.sends
  have hfresh : ∀ msg ∈ new, msg.type = .appendEntries → next.Fresh i msg :=
    fun msg hmsg => (hsent msg hmsg).fresh hrun' hsim'.plays
  have hhonestNew : ∀ msg ∈ new, msg.Honest setup a' := fun msg hmsg =>
    hsim'.honest hhealthy' msg (hnew ▸ List.mem_append_right _ hmsg)
  rw [hnew, ← List.append_assoc]
  refine ⟨List.pairwise_append.mpr ⟨horder.grow hgrow, ?_, ?_⟩, ⟨?_, ?_⟩,
    fun msg hmsg htype => (List.mem_append.mp hmsg).elim (fun h => hown msg h htype)
      fun h => (hfresh msg h htype).sender⟩
  · refine List.pairwise_of_forall_mem_list fun earlier hearlier later hlater hstream => ?_
    exact (hfresh later hlater hstream.appends').succeeds hrun' hsim'.plays
      (hfresh earlier hearlier hstream.appends).ahead (hhonestNew earlier hearlier) hstream
  · intro earlier hearlier later hlater hstream
    have hlate := hfresh later hlater hstream.appends'
    refine hlate.succeeds hrun' hsim'.plays ?_ ((hhonest earlier hearlier).grow hgrow) hstream
    exact hold.leader hlate.leads earlier hearlier hstream.appends
      (hstream.sender.trans hlate.sender) (hstream.term.trans hlate.term)
  · intro hstate msg hmsg htype hsender
    rcases List.mem_append.mp hmsg with hmem | hmem
    · exact hold.candidate hstate msg hmem htype hsender
    · cases hstate.symm.trans (hfresh msg hmem htype).leads
  · intro hstate msg hmsg htype hsender hterm
    rcases List.mem_append.mp hmsg with hmem | hmem
    · exact hold.leader hstate msg hmem htype hsender hterm
    · exact (hfresh msg hmem htype).ahead

theorem Moves.spoke {a₀ : Sys Nat Entry} {net : List (Message Capture)}
    (ho : o.Honest setup a₀) (hmember : i ∈ setup.members) (hinv : setup.protocol.Inv a₀)
    (hsim : r.Simulated setup a₀ i) (hnet : ∀ msg ∈ net, msg.Honest setup a₀)
    (hspoke : Spoke a₀ net i r) (hmoves : Moves o r next) :
    ∃ a', setup.protocol.Steps i a₀ a' ∧ next.Simulated setup a' i ∧ Spoke a' net i next := by
  induction hmoves with
  | refl => exact ⟨a₀, .refl, hsim, hspoke⟩
  | tail _ hmove ih =>
      obtain ⟨a, hsteps, hmid, hspokeMid⟩ := ih
      have hevolves := hsteps.evolves hinv
      obtain ⟨a', hmore, hnext⟩ := hmove.simulated ho hmember hevolves.inv hevolves.grows hmid
      have hevolves' := hmore.evolves hevolves.inv
      refine ⟨a', hsteps.trans hmore, hnext, ?_⟩
      exact hmove.spoke hevolves.inv hevolves'.inv hevolves'.grows (ho.grow hevolves.grows) hmid
        hnext (fun msg hmsg => (hnet msg hmsg).grow hevolves.grows) hspokeMid

/-- A call keeps everything said so far in order. -/
theorem Simulated.act_spoke (env : Env) {input : Input Capture} {net : List (Message Capture)}
    (hmember : i ∈ setup.members) (hinv : setup.protocol.Inv a) (hsim : r.Simulated setup a i)
    (hnet : ∀ msg ∈ net, msg.Honest setup a) (horder : InOrder a net)
    (hstreams : r.storageFailed = false → r.Streams a i net)
    (hsilent : r.storageFailed = false → r.msgs = [])
    (hallows : (r.arm env).Allows (honestOutside setup a) input) :
    ∃ a', setup.protocol.Steps i a a' ∧ (r.act env input).1.Simulated setup a' i ∧
      (∀ msg ∈ (r.act env input).2, msg.Honest setup a' ∧
        (msg.type = .appendEntries → msg.sender = i)) ∧
      InOrder a' (net ++ (r.act env input).2) ∧
      ((r.act env input).1.storageFailed = false →
        (r.act env input).1.Streams a' i (net ++ (r.act env input).2) ∧
        (r.act env input).1.msgs = []) := by
  unfold Raft.act
  split
  next hfailed =>
    refine ⟨a, .refl, hsim, by simp, by simpa using horder, fun h => ?_⟩
    cases h.symm.trans hfailed
  next hhealthy =>
    rw [Bool.not_eq_true] at hhealthy
    have hmoves := step_moves (r := r.arm env) hhealthy hallows
    have hspoke : Spoke a net i (r.arm env) := by
      intro _
      have hnone : (r.arm env).msgs = [] := hsilent hhealthy
      have hold := hstreams hhealthy
      rw [hnone, List.append_nil]
      exact ⟨horder, ⟨hold.candidate, fun hstate msg hmsg htype hsender hterm =>
        have hahead := hold.leader hstate msg hmsg htype hsender hterm
        ⟨hahead.commit, hahead.start⟩⟩, by simp⟩
    obtain ⟨a', hsteps, hnext, hspoke'⟩ :=
      hmoves.spoke honestOutside_honest hmember hinv (hsim.arm env) hnet hspoke
    have hgrow := (hsteps.evolves hinv).grows
    split
    next hfailed =>
      refine ⟨a', hsteps, hnext, by simp, by simpa using horder.grow hgrow, fun h => ?_⟩
      cases h.symm.trans hfailed
    next hrunning =>
      rw [Bool.not_eq_true] at hrunning
      obtain ⟨horder', hstreams', hown⟩ := hspoke' hrunning
      refine ⟨a', hsteps, ⟨hnext.mirrors.readMessages, hnext.id, hnext.peers,
        hnext.stores.congr rfl rfl,
        hnext.plays.of_same (.refl a') (fun h => h) rfl rfl rfl rfl rfl rfl,
        fun _ msg hmsg => by cases hmsg⟩, fun msg hmsg => ⟨hnext.honest hrunning msg hmsg,
        hown msg hmsg⟩, horder', fun _ => ⟨⟨hstreams'.candidate, ?_⟩, rfl⟩⟩
      intro hstate msg hmsg htype hsender hterm
      have hahead := hstreams'.leader hstate msg hmsg htype hsender hterm
      exact ⟨hahead.commit, hahead.start⟩

/-- What others do and say does not concern the stream of a node. -/
theorem Streams.others {net sent : List (Message Capture)} (hgrow : Grows a a')
    (hsent : ∀ msg ∈ sent, msg.type = .appendEntries → msg.sender ≠ i)
    (hstreams : r.Streams a i net) : r.Streams a' i (net ++ sent) where
  candidate hstate msg hmsg htype hsender := by
    rcases List.mem_append.mp hmsg with hold | hnew
    · exact hstreams.candidate hstate msg hold htype hsender
    · exact absurd hsender (hsent msg hnew htype)
  leader hstate msg hmsg htype hsender hterm := by
    rcases List.mem_append.mp hmsg with hold | hnew
    · have hahead := hstreams.leader hstate msg hold htype hsender hterm
      exact ⟨hahead.commit, fun pr hpr =>
        (hahead.start pr hpr).imp_right fun h => h.trans (hgrow.ack _ _)⟩
    · exact absurd hsender (hsent msg hnew htype)

end Raft

/-! ## The cluster -/

namespace Cluster

variable {c next : Cluster}

/-- The cluster with the streams of its leaders. -/
structure Streaming (setup : Setup) (a : Sys Nat Entry) (c : Cluster) : Prop where
  refines : c.Refines setup a
  holding : Holding a
  order : InOrder a c.net
  streams : ∀ i ∈ setup.members, (c.node i).storageFailed = false → (c.node i).Streams a i c.net
  silent : ∀ i ∈ setup.members, (c.node i).storageFailed = false → (c.node i).msgs = []

theorem Initial.streaming (hinitial : c.Initial setup) : c.Streaming setup Sys.start where
  refines := hinitial.refines
  holding := holding_start
  order := by
    rw [InOrder, hinitial.1]
    exact .nil
  streams i hi _ := ⟨fun _ msg hmsg => by simp [hinitial.1] at hmsg,
    fun _ msg hmsg => by simp [hinitial.1] at hmsg⟩
  silent i hi _ := by
    obtain ⟨draws, hboot⟩ := hinitial.2 i hi
    exact (boot_booted hboot).msgs

theorem Streaming.step {action : Action} (hstreaming : c.Streaming setup a) (hsafe : c.Safe action)
    (hstep : c.step setup action = some next) : ∃ a', next.Streaming setup a' := by
  have hrefines := hstreaming.refines
  cases action with
  | call n env input =>
      obtain ⟨hmember, hmay, rfl⟩ := step_call hstep
      obtain ⟨a', hsteps, hsim, hsent, horder, hstreams⟩ := (hrefines.node n hmember).act_spoke env
        hmember hrefines.inv hrefines.net hstreaming.order (hstreaming.streams n hmember)
        (hstreaming.silent n hmember) (hsafe.allows hrefines hmay)
      have hevolves := hsteps.evolves hrefines.inv
      refine ⟨a', ⟨hevolves.inv, ?_, fun msg hmsg => ?_⟩, hsteps.holding hrefines.inv
        hstreaming.holding, horder, ?_, ?_⟩
      · exact forall_setNode (P := fun i r => i ∈ setup.members → r.Simulated setup a' i)
          (fun _ => hsim) (fun i hne hi => (hrefines.node i hi).grow hne hevolves)
      · rcases List.mem_append.mp hmsg with hold | hnew
        · exact (hrefines.net msg hold).grow hevolves.grows
        · exact (hsent msg hnew).1
      · refine forall_setNode (P := fun i r => i ∈ setup.members → r.storageFailed = false →
          r.Streams a' i (c.net ++ ((c.node n).act env input).2)) (fun _ h => (hstreams h).1)
          fun i hne hi hhealthy => ?_
        exact (hstreaming.streams i hi hhealthy).others hevolves.grows
          fun msg hmsg htype hsender => hne (hsender.symm.trans ((hsent msg hmsg).2 htype))
      · exact forall_setNode (P := fun i r => i ∈ setup.members → r.storageFailed = false →
          r.msgs = []) (fun _ h => (hstreams h).2) fun i _ hi => hstreaming.silent i hi
  | restart n draws =>
      obtain ⟨hmember, r, hboot, rfl⟩ := step_restart hstep
      have hold := hrefines.node n hmember
      have hbooted := boot_booted hboot
      have hsim := hbooted.simulated (boot_mirrors hold.mirrors.synced_accepts hboot) rfl rfl
        hold.stores.located hold.stores.disk
      refine ⟨a, ⟨hrefines.inv, ?_, hrefines.net⟩, hstreaming.holding, hstreaming.order, ?_, ?_⟩
      · exact forall_setNode (P := fun i r => i ∈ setup.members → r.Simulated setup a i)
          (fun _ => hsim) (fun i _ hi => hrefines.node i hi)
      · refine forall_setNode (P := fun i r => i ∈ setup.members → r.storageFailed = false →
          r.Streams a i c.net) (fun _ _ => ⟨fun hstate => ?_, fun hstate => ?_⟩)
          fun i _ hi => hstreaming.streams i hi
        · cases hbooted.state.symm.trans hstate
        · cases hbooted.state.symm.trans hstate
      · exact forall_setNode (P := fun i r => i ∈ setup.members → r.storageFailed = false →
          r.msgs = []) (fun _ _ => hbooted.msgs) fun i _ hi => hstreaming.silent i hi

end Cluster

theorem Run.streaming {c : Cluster} {past : List Cluster}
    (hrun : Run setup Cluster.Safe (c :: past)) : ∃ a, c.Streaming setup a := by
  generalize hstates : c :: past = states at hrun
  induction hrun generalizing c past with
  | start c₀ hinitial =>
      obtain ⟨rfl, rfl⟩ := List.cons.inj hstates
      exact ⟨_, hinitial.streaming⟩
  | step before next earlier action _ hok hstep ih =>
      obtain ⟨rfl, rfl⟩ := List.cons.inj hstates
      obtain ⟨a, hstreaming⟩ := ih rfl
      exact hstreaming.step hok hstep

end RaftKv
