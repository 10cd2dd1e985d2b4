import RaftKv.Raft.Link
import RaftKv.Raft.Progress
import RaftKv.Node.Indices

/-! # Catching up a follower

A leader and one follower alone: the leader sends what `broadcast_heartbeat` builds for that
follower, the follower answers, and the leader takes the answer in. Rejections walk `next` down
one step each. The walk ends at an index where the logs agree, or at the leader's compaction
point, where a snapshot makes them agree.
-/

namespace RaftKv

variable {D : Type} [Blob D] {l f f' : Raft D} {i j : Nat} {msg : Message D}

namespace Raft

/-- One round of the exchange between a leader and a follower. -/
def exchange (pair : Raft D × Raft D) : Raft D × Raft D :=
  let msg := pair.1.heartbeatFor pair.2.id
  if msg.type = .installSnapshot then
    let (follower, reply) := pair.2.handleInstallSnapshot msg
    (pair.1.handleInstallSnapshotResponse reply, follower)
  else
    let (follower, reply) := pair.2.handleAppendEntries msg
    (pair.1.handleAppendEntriesResponse reply, follower)

/-- The follower holds the leader's log, and the leader knows. -/
structure CaughtUp (l f : Raft D) : Prop where
  known : (l.progressOf f.id).matchIndex = l.lastLogIndex
  reaches : l.lastLogIndex ≤ f.lastLogIndex
  agree : ∀ i ≤ l.lastLogIndex, AgreeAt l f i

namespace Link

/-! ## One round -/

/-- The follower may change its term and role; the link stays. -/
theorem of_follower (h : Link l f) (hsame : SameLog f f') (hid : f'.id = f.id)
    (hpeers : f'.peers = f.peers) (hterm : f'.term ≤ l.term)
    (hrestore : f'.snapshotRestore = f.snapshotRestore) : Link l f' where
  leader := h.leader
  healthy := h.healthy
  ordered := h.ordered
  room := h.room
  term_lt := h.term_lt
  knows := hid ▸ h.knows
  snapshot := h.snapshot
  next := hid ▸ h.next
  known := by
    rw [isMember, hpeers]
    exact h.known
  ordered' := hsame.ordered h.ordered'
  term_le := hterm
  restore := hrestore.trans h.restore
  log i hl hf hll hfl hterm j hj := by
    rw [hsame.logOffset] at hf
    rw [hsame.lastLogIndex] at hfl
    rw [hsame.termAt] at hterm
    exact (h.log i hl hf hll hfl hterm j hj).congr hsame.log hsame.logOffset hsame.logOffsetTerm
  commit_le := hsame.commitIndex ▸ h.commit_le
  committed i hi :=
    (h.committed i (hsame.commitIndex ▸ hi)).congr hsame.log hsame.logOffset hsame.logOffsetTerm

/-- The leader may change what it knows about the follower. -/
theorem of_leader (h : Link l f) (progress : Table Progress) (msgs : List (Message D))
    (hnext : 1 ≤ (({ l with progress := progress, msgs := msgs } : Raft D).progressOf f.id).next ∧
      (({ l with progress := progress, msgs := msgs } : Raft D).progressOf f.id).next ≤
        l.lastLogIndex + 1) :
    Link { l with progress := progress, msgs := msgs } f :=
  { leader := h.leader
    healthy := h.healthy
    ordered := h.ordered
    room := h.room
    term_lt := h.term_lt
    knows := h.knows
    snapshot := h.snapshot
    next := hnext
    known := h.known
    ordered' := h.ordered'
    term_le := h.term_le
    restore := h.restore
    log := fun i hl hf hll hfl hterm j hj =>
      let hagree := h.log i hl hf hll hfl hterm j hj
      ⟨hagree.term, hagree.entry⟩
    commit_le := h.commit_le
    committed := fun i hi => ⟨(h.committed i hi).term, (h.committed i hi).entry⟩ }

/-- A message of the leader finds the follower in the leader's term. -/
theorem prepared (h : Link l f) (msg : Message D) (hfrom : msg.FromLeader)
    (hsender : msg.sender = l.id)
    (hreceiver : msg.receiver = f.id) (hterm : msg.term = l.term)
    (hhealthy : f.storageFailed = false)
    (hprepared : (f.prepareForLeaderRpc msg).1.storageFailed = false) :
    (f.prepareForLeaderRpc msg).2 = true ∧ (f.prepareForLeaderRpc msg).1.id = f.id ∧
      (f.prepareForLeaderRpc msg).1.term = l.term ∧ SameLog f (f.prepareForLeaderRpc msg).1 ∧
      Link l (f.prepareForLeaderRpc msg).1 := by
  have haddressed : f.rejects msg = false := by
    simp [rejects, hreceiver, hsender, h.known, Ne.symm h.knows.1]
  have hready := (prepareForLeaderRpc_ready_iff f msg hprepared).mpr
    ⟨haddressed, h.term_le.trans hterm.ge⟩
  obtain ⟨hmoves, hsame, hcurrent⟩ :=
    prepareForLeaderRpc_moves (o := heard (.message msg)) rfl hfrom
    hhealthy
  obtain ⟨hid, hpeers, -⟩ := hmoves.same_config
  have hnow : (f.prepareForLeaderRpc msg).1.term = l.term := (hcurrent hready).term.symm.trans hterm
  exact ⟨hready, hid, hnow, hsame,
    h.of_follower hsame hid hpeers hnow.le prepareForLeaderRpc_restore⟩

theorem addressed (h : Link l f) (hsender : msg.sender = f.id) (hreceiver : msg.receiver = l.id) :
    l.rejects msg = false := by
  simp [rejects, hreceiver, hsender, h.knows.1, h.knows.2]

/-- A rejection moves `next` one step back. -/
theorem response_failure (h : Link l f) (msg : Message D) (hsender : msg.sender = f.id)
    (hreceiver : msg.receiver = l.id) (hterm : msg.term = l.term) (hfailure : msg.success = false) :
    ∃ msgs, l.handleAppendEntriesResponse msg =
      { l with progress := (l.backOff f.id).progress, msgs := msgs } := by
  unfold handleAppendEntriesResponse
  rw [h.addressed hsender hreceiver, if_neg (by simp), if_neg (by omega),
    if_neg (by simp [h.healthy]),
    if_neg (by simp [h.leader]), if_neg (by omega), if_neg (by simp [hfailure]), hsender]
  dsimp only
  split <;> exact ⟨_, rfl⟩

/-- A success is recorded, and the leader's log stays. -/
theorem response_success (h : Link l f) (msg : Message D) (hsender : msg.sender = f.id)
    (hreceiver : msg.receiver = l.id) (hterm : msg.term = l.term) (hsuccess : msg.success = true) :
    (l.handleAppendEntriesResponse msg).log = l.log ∧
      (l.handleAppendEntriesResponse msg).logOffset = l.logOffset ∧
      (l.handleAppendEntriesResponse msg).logOffsetTerm = l.logOffsetTerm ∧
      ((l.handleAppendEntriesResponse msg).progressOf f.id).matchIndex = msg.matchIndex := by
  have heq : l.handleAppendEntriesResponse msg =
      ((l.noteMatch msg).noteReadAck msg).chooseCommit := by
    unfold handleAppendEntriesResponse
    rw [h.addressed hsender hreceiver, if_neg (by simp), if_neg (by omega),
      if_neg (by simp [h.healthy]), if_neg (by simp [h.leader]), if_neg (by omega), if_pos hsuccess]
  have hnoted : ((l.noteMatch msg).progressOf f.id).matchIndex = msg.matchIndex := by
    have hinsert : (l.noteMatch msg).progress = l.progress.insert msg.sender _ := rfl
    rw [progressOf_of_insert hinsert, if_pos hsender.symm]
  rw [heq]
  obtain ⟨commit, wal, failed, hframe⟩ := ((l.noteMatch msg).noteReadAck msg).chooseCommit_frame
  rw [hframe]
  unfold noteReadAck
  split <;> exact ⟨rfl, rfl, rfl, hnoted⟩

theorem exchange_append (hnext : l.logOffset < (l.progressOf f.id).next) :
    exchange (l, f) = (l.handleAppendEntriesResponse
      (f.handleAppendEntries (l.makeAppendEntries f.id)).2,
      (f.handleAppendEntries (l.makeAppendEntries f.id)).1) := by
  have hmsg : l.heartbeatFor f.id = l.makeAppendEntries f.id := if_neg (by omega)
  simp only [exchange, hmsg]
  rw [if_neg (by simp [makeAppendEntries])]

theorem handleAppendEntries_of_ready (hready : (f.prepareForLeaderRpc msg).2 = true) :
    f.handleAppendEntries msg =
      if f.logOk msg then (f.prepareForLeaderRpc msg).1.acceptEntries msg
      else ((f.prepareForLeaderRpc msg).1,
        (f.prepareForLeaderRpc msg).1.appendResponse msg false 0) := by
  have hlog := (prepareForLeaderRpc_sameLog f msg).1.logOk msg
  unfold handleAppendEntries
  rw [← hlog]
  generalize f.prepareForLeaderRpc msg = prepared at *
  obtain ⟨prepared, ready⟩ := prepared
  dsimp only at *
  subst hready
  cases prepared.logOk msg <;> rfl

/-- A rejected append: one step back, and the link stays. -/
theorem exchange_rejected (h : Link l f) (hnext : l.logOffset < (l.progressOf f.id).next)
    (hhealthy : f.storageFailed = false) (hafter : (exchange (l, f)).2.storageFailed = false)
    (hlog : f.logOk (l.makeAppendEntries f.id) = false) :
    Link (exchange (l, f)).1 (exchange (l, f)).2 ∧ 1 < (l.progressOf f.id).next ∧
      ((exchange (l, f)).1.progressOf (exchange (l, f)).2.id).next =
        (l.progressOf f.id).next - 1 := by
  have hone : 1 < (l.progressOf f.id).next := by
    have hpos := h.next.1
    have hprev : (l.makeAppendEntries f.id).prevLogIndex ≠ 0 := fun hzero => by
      rw [logOk_iff.mpr (.inl hzero)] at hlog
      cases hlog
    rw [h.prevLogIndex] at hprev
    omega
  rw [exchange_append hnext] at hafter ⊢
  obtain ⟨hready, hid, hterm, hsame, hlink⟩ := h.prepared (l.makeAppendEntries f.id) (.inl rfl)
    rfl rfl rfl hhealthy (prepared_healthy hafter)
  rw [handleAppendEntries_of_ready hready, hlog, if_neg (by simp)]
  generalize (f.prepareForLeaderRpc (l.makeAppendEntries f.id)).1 = p at *
  obtain ⟨msgs, hleader⟩ := hlink.response_failure
    (p.appendResponse (l.makeAppendEntries f.id) false 0) rfl rfl hterm rfl
  have hback : ∀ msgs, (({ l with progress := (l.backOff p.id).progress, msgs := msgs } :
      Raft D).progressOf p.id).next = (l.progressOf f.id).next - 1 := fun msgs => by
    show ((l.backOff p.id).progressOf p.id).next = _
    have hinsert : (l.backOff p.id).progress = l.progress.insert p.id _ := rfl
    rw [progressOf_of_insert hinsert p.id, if_pos rfl, hid]
    exact if_pos hone
  dsimp only
  rw [hleader]
  refine ⟨hlink.of_leader _ msgs ?_, hone, hback msgs⟩
  rw [hback msgs]
  have hle := h.next.2
  omega

/-- An accepted append ends the exchange. -/
theorem exchange_accepted (h : Link l f) (hnext : l.logOffset < (l.progressOf f.id).next)
    (hhealthy : f.storageFailed = false) (hafter : (exchange (l, f)).2.storageFailed = false)
    (hlog : f.logOk (l.makeAppendEntries f.id) = true) :
    CaughtUp (exchange (l, f)).1 (exchange (l, f)).2 := by
  have hcarries := h.carries hnext
  rw [exchange_append hnext] at hafter ⊢
  obtain ⟨hready, hid, hterm, hsame, hlink⟩ := h.prepared (l.makeAppendEntries f.id) (.inl rfl)
    rfl rfl rfl hhealthy (prepared_healthy hafter)
  rw [handleAppendEntries_of_ready hready, hlog, if_pos rfl] at hafter ⊢
  rw [← hsame.logOk] at hlog
  have hsender : (l.makeAppendEntries f.id).sender = l.id := rfl
  generalize l.makeAppendEntries f.id = msg at *
  generalize (f.prepareForLeaderRpc msg).1 = p at *
  obtain ⟨hsuccess, hmatch, hreaches, hagree⟩ := hlink.accepted hcarries hlog hafter
  obtain ⟨success, index, hreply⟩ := p.acceptEntries_reply msg
  obtain ⟨log, commit, wal, failed, hframe⟩ := p.acceptEntries_frame msg
  have hreplied : (p.acceptEntries msg).2.sender = p.id ∧ (p.acceptEntries msg).2.receiver = l.id ∧
      (p.acceptEntries msg).2.term = l.term := by
    rw [hreply, hframe]
    exact ⟨rfl, hsender, hterm⟩
  have hpeer : (p.acceptEntries msg).1.id = p.id := by rw [hframe]
  obtain ⟨hlogs, hoffset, hoffsetTerm, hnoted⟩ :=
    hlink.response_success _ hreplied.1 hreplied.2.1 hreplied.2.2 hsuccess
  have hlast : (l.handleAppendEntriesResponse (p.acceptEntries msg).2).lastLogIndex =
      l.lastLogIndex := by
    rw [lastLogIndex, hlogs, hoffset, lastLogIndex]
  refine ⟨?_, hlast ▸ hreaches, fun i hi => ?_⟩
  · rw [hpeer, hnoted, hmatch, hlast]
  · exact ((hagree i (hlast ▸ hi)).symm.congr hlogs hoffset hoffsetTerm).symm

/-! ## A snapshot -/

theorem exchange_snapshot (hnext : (l.progressOf f.id).next ≤ l.logOffset) :
    exchange (l, f) = (l.handleInstallSnapshotResponse
      (f.handleInstallSnapshot (l.makeInstallSnapshot f.id)).2,
      (f.handleInstallSnapshot (l.makeInstallSnapshot f.id)).1) := by
  have hmsg : l.heartbeatFor f.id = l.makeInstallSnapshot f.id := if_pos hnext
  simp only [exchange, hmsg]
  rw [if_pos (by simp [makeInstallSnapshot])]

/-- What the follower makes of the leader's snapshot: it has everything up to its commit index. -/
structure Restored (l f : Raft D) (result : Raft D × Message D) : Prop where
  link : Link l result.1
  id : result.1.id = f.id
  reaches : l.logOffset ≤ result.1.commitIndex
  success : result.2.success = true
  matchIndex : result.2.matchIndex = result.1.commitIndex
  sender : result.2.sender = f.id
  receiver : result.2.receiver = l.id
  term : result.2.term = l.term

theorem restored_stale (h : Link l f) (hterm : f.term = l.term)
    (hstale : f.commitIndex > l.logOffset ∨ f.lastApplied ≥ l.logOffset) :
    Restored l f (f, f.snapshotResponse (l.makeInstallSnapshot f.id) true
      (max f.commitIndex f.lastApplied)) := by
  have happlied : f.lastApplied ≤ f.commitIndex := h.ordered'.applied_le
  have hreaches : l.logOffset ≤ f.commitIndex := by omega
  exact ⟨h, rfl, hreaches, rfl, max_eq_left happlied, rfl, rfl, hterm⟩

/-- A node whose whole log is the leader's snapshot is linked to the leader. -/
theorem of_snapshot (h : Link l f) (hid : f'.id = f.id) (hpeers : f'.peers = f.peers)
    (hterm : f'.term ≤ l.term) (hrestore : f'.snapshotRestore = f.snapshotRestore)
    (hlog : f'.log = []) (hoffset : f'.logOffset = l.logOffset)
    (hoffsetTerm : f'.logOffsetTerm = l.logOffsetTerm) (happlied : f'.lastApplied = l.logOffset)
    (hcommit : f'.commitIndex = l.logOffset) : Link l f' := by
  have hbelow : l.logOffset ≤ l.indices.last := Nat.le_add_right _ _
  have hlast := h.ordered.last_lt
  have hend : f'.indices.last = l.logOffset := by
    simp [indices, Indices.last, hlog, hoffset]
  have hordered : f'.indices.Ordered := by
    refine ⟨fun k e he => ?_, ?_, ?_, ?_, by omega⟩
    · rw [show f'.indices.log = [] from hlog] at he
      cases he
    · exact (hoffset.trans happlied.symm).le
    · exact (happlied.trans hcommit.symm).le
    · exact (hcommit.trans hend.symm).le
  have hagree : ∀ i ≤ l.logOffset, AgreeAt l f' i := by
    intro i hi
    refine ⟨fun hl _ => ?_, fun hl => absurd hl (by omega)⟩
    obtain rfl : i = l.logOffset := le_antisymm hi hl
    unfold termAt
    rw [hoffset, hoffsetTerm, if_pos rfl, if_pos rfl]
  exact
    { h with
      knows := hid ▸ h.knows
      next := hid ▸ h.next
      known := by
        rw [isMember, hpeers]
        exact h.known
      ordered' := hordered
      term_le := hterm
      restore := hrestore.trans h.restore
      log := fun i _ _ _ hfl _ j hj => by
        rw [lastLogIndex_of_ordered hordered, hend] at hfl
        exact hagree j (hj.trans hfl)
      commit_le := by
        rw [hcommit, lastLogIndex_of_ordered h.ordered]
        exact hbelow
      committed := fun i hi => hagree i (hcommit ▸ hi) }

theorem restored_installed (h : Link l f) (hterm : f.term = l.term)
    (hafter : (f.installSnapshot (l.makeInstallSnapshot f.id)).1.storageFailed = false) :
    Restored l f (f.installSnapshot (l.makeInstallSnapshot f.id)) := by
  obtain ⟨⟨wal, hstored⟩, hreply⟩ := installSnapshot_stored hafter
  generalize f.installSnapshot (l.makeInstallSnapshot f.id) = result at *
  obtain ⟨f', reply⟩ := result
  dsimp only at *
  subst hstored hreply
  exact ⟨h.of_snapshot rfl rfl hterm.le rfl rfl rfl rfl rfl rfl, rfl, le_rfl, rfl, rfl, rfl, rfl,
    hterm⟩

theorem snapshotPrepared_healthy
    (hhealthy : (f.handleInstallSnapshot msg).1.storageFailed = false) :
    (f.prepareForLeaderRpc msg).1.storageFailed = false := by
  cases hready : (f.prepareForLeaderRpc msg).2 with
  | true => exact (prepareForLeaderRpc_sameLog f msg).2 hready
  | false => simpa [handleInstallSnapshot, hready] using hhealthy

theorem restored (h : Link l f) (hoffset : 0 < l.logOffset) (hhealthy : f.storageFailed = false)
    (hafter : (f.handleInstallSnapshot (l.makeInstallSnapshot f.id)).1.storageFailed = false) :
    Restored l f (f.handleInstallSnapshot (l.makeInstallSnapshot f.id)) := by
  obtain ⟨hdata, hpos, hle⟩ := h.snapshot hoffset
  obtain ⟨hready, hid, hterm, hsame, hlink⟩ := h.prepared (l.makeInstallSnapshot f.id) (.inr rfl)
    rfl rfl rfl hhealthy (snapshotPrepared_healthy hafter)
  unfold handleInstallSnapshot at hafter ⊢
  generalize f.prepareForLeaderRpc (l.makeInstallSnapshot f.id) = prepared at *
  obtain ⟨p, ready⟩ := prepared
  dsimp only at *
  subst hready
  have hvalid : ¬ ((l.makeInstallSnapshot f.id).snapshotIndex = 0 ∨
      (l.makeInstallSnapshot f.id).snapshotTerm = 0 ∨
      (l.makeInstallSnapshot f.id).snapshotTerm > (l.makeInstallSnapshot f.id).term ∨
      Blob.isEmpty (l.makeInstallSnapshot f.id).snapshotData = true) := by
    simp only [makeInstallSnapshot, hdata]
    simp
    omega
  rw [if_neg (by simp), if_neg hvalid] at hafter ⊢
  rw [← hid] at hafter ⊢
  split at hafter
  next hstale =>
    rw [if_pos hstale]
    have hrestored := hlink.restored_stale hterm hstale
    exact { hrestored with id := hrestored.id.trans hid, sender := hrestored.sender.trans hid }
  next hfresh =>
    rw [if_neg (by simp [hlink.restore])] at hafter
    rw [if_neg hfresh, if_neg (by simp [hlink.restore])]
    have hrestored := hlink.restored_installed hterm hafter
    exact { hrestored with id := hrestored.id.trans hid, sender := hrestored.sender.trans hid }

/-- A follower whose commit index is where the next message starts passes the check. -/
theorem aligned (h : Link l f) (hreaches : l.logOffset ≤ f.commitIndex)
    (hnext : (l.progressOf f.id).next = f.commitIndex + 1) :
    f.logOk (l.makeAppendEntries f.id) = true := by
  have hprev : (l.makeAppendEntries f.id).prevLogIndex = f.commitIndex := by
    rw [h.prevLogIndex, hnext, Nat.add_sub_cancel]
  have hterm := (h.carries (by omega)).prevTerm
  have hbelow : f.logOffset ≤ f.commitIndex := h.ordered'.offset_le.trans h.ordered'.applied_le
  rw [logOk_iff]
  by_cases hzero : (l.makeAppendEntries f.id).prevLogIndex = 0
  · exact .inl hzero
  · refine .inr ⟨by omega, ?_, ?_⟩
    · rw [hprev, lastLogIndex_of_ordered h.ordered']
      exact h.ordered'.commit_le
    · rw [hterm hzero, hprev, (h.committed _ le_rfl).term hreaches hbelow]

/-- After a snapshot the next append is accepted. -/
theorem exchange_restored (h : Link l f) (hnext : (l.progressOf f.id).next ≤ l.logOffset)
    (hhealthy : f.storageFailed = false) (hafter : (exchange (l, f)).2.storageFailed = false) :
    Link (exchange (l, f)).1 (exchange (l, f)).2 ∧
      (exchange (l, f)).1.logOffset <
        ((exchange (l, f)).1.progressOf (exchange (l, f)).2.id).next ∧
      (exchange (l, f)).2.logOk ((exchange (l, f)).1.makeAppendEntries (exchange (l, f)).2.id) =
        true := by
  have hpos := h.next.1
  rw [exchange_snapshot hnext] at hafter ⊢
  have hrestored := h.restored (by omega) hhealthy hafter
  generalize f.handleInstallSnapshot (l.makeInstallSnapshot f.id) = result at *
  obtain ⟨f', reply⟩ := result
  obtain ⟨hlink, hid, hreaches, hsuccess, hmatch, hsender, hreceiver, hterm⟩ := hrestored
  dsimp only at *
  have hroom := h.room
  have hcommit := hlink.commit_le
  have hleader : ∃ msgs, l.handleInstallSnapshotResponse reply =
      { l with
        progress := l.progress.insert f'.id ⟨f'.commitIndex, f'.commitIndex + 1⟩
        msgs := msgs } := by
    rw [lastLogIndex_of_ordered h.ordered] at hcommit
    unfold handleInstallSnapshotResponse
    rw [h.addressed hsender hreceiver, if_neg (by simp), if_neg (by omega),
      if_neg (by simp [h.leader]),
      if_neg (by omega), if_pos hsuccess, noteMatch, hsender, hmatch, wrap64_of_lt (by omega),
        ← hid]
    exact ⟨_, rfl⟩
  obtain ⟨msgs, heq⟩ := hleader
  rw [heq]
  have hnoted : (({ l with
      progress := l.progress.insert f'.id ⟨f'.commitIndex, f'.commitIndex + 1⟩
      msgs := msgs } : Raft D).progressOf f'.id).next = f'.commitIndex + 1 := by
    simp [progressOf, Table.get?_insert]
  have hlinked := hlink.of_leader
    (l.progress.insert f'.id ⟨f'.commitIndex, f'.commitIndex + 1⟩) msgs
    ⟨by rw [hnoted]; omega, by rw [hnoted]; omega⟩
  exact ⟨hlinked, by rw [hnoted]; exact Nat.lt_succ_of_le hreaches, hlinked.aligned hreaches hnoted⟩

end Link

/-! ## Whole exchanges -/

/-- The exchange brings the follower up to date within `next + 1` rounds: rejections cost one step
of `next` each, and a snapshot is followed by an append that is accepted. -/
theorem exchange_catches_up (h : Link l f)
    (hhealthy : ∀ k ≤ (l.progressOf f.id).next + 1,
      (exchange^[k] (l, f)).2.storageFailed = false) :
    ∃ k ≤ (l.progressOf f.id).next + 1,
      CaughtUp (exchange^[k] (l, f)).1 (exchange^[k] (l, f)).2 := by
  -- by induction on `next`, over all pairs that are linked
  induction hn : (l.progressOf f.id).next generalizing l f with
  | zero =>
      have hpos := h.next.1
      omega
  | succ n ih =>
      rw [hn] at hhealthy
      have hbefore : f.storageFailed = false := hhealthy 0 (by omega)
      have hafter : (exchange (l, f)).2.storageFailed = false := hhealthy 1 (by omega)
      by_cases hsnapshot : (l.progressOf f.id).next ≤ l.logOffset
      · obtain ⟨hlink, hnext, hlog⟩ := h.exchange_restored hsnapshot hbefore hafter
        have htwo : exchange^[2] (l, f) = exchange ((exchange (l, f)).1, (exchange (l, f)).2) :=
          Function.iterate_succ_apply' exchange 1 (l, f)
        have htwice := hhealthy 2 (by omega)
        rw [htwo] at htwice
        refine ⟨2, by omega, ?_⟩
        rw [htwo]
        exact hlink.exchange_accepted hnext hafter htwice hlog
      · cases hlog : f.logOk (l.makeAppendEntries f.id) with
        | true =>
            exact ⟨1, by omega, h.exchange_accepted (not_le.mp hsnapshot) hbefore hafter hlog⟩
        | false =>
            obtain ⟨hlink, -, hback⟩ :=
              h.exchange_rejected (not_le.mp hsnapshot) hbefore hafter hlog
            rw [hn, Nat.add_sub_cancel] at hback
            obtain ⟨k, hk, hcaught⟩ := ih hlink (fun k hk => by
              rw [hback] at hk
              exact hhealthy (k + 1) (by omega)) hback
            exact ⟨k + 1, by omega, hcaught⟩

instance (l f : Raft D) (i : Nat) : Decidable (AgreeAt l f i) :=
  decidable_of_iff ((l.logOffset ≤ i → f.logOffset ≤ i → l.termAt i = f.termAt i) ∧
      (l.logOffset < i → f.logOffset < i → l.indices.entryAt? i = f.indices.entryAt? i))
    ⟨fun h => ⟨h.1, h.2⟩, fun h => ⟨h.term, h.entry⟩⟩

end Raft

/-- Node 2 with an empty log. -/
def freshTwo : Raft Bytes :=
  ((boot { nodeOne with id := 2 } [] ([] : List (Record Bytes))).get (by decide +kernel)).arm .calm

/-- Node 1 leads with everything up to index 5 compacted; node 2 has nothing. The first append is
rejected, then comes the snapshot, then the rest. -/
theorem exchange_catches_up_freshTwo :
    ledOne.logOffset = 5 ∧ freshTwo.log = [] ∧ ∃ k ≤ 7,
      Raft.CaughtUp (Raft.exchange^[k] (ledOne, freshTwo)).1
        (Raft.exchange^[k] (ledOne, freshTwo)).2 := by
  refine ⟨by decide +kernel, by decide +kernel, ?_⟩
  have hlink : Raft.Link ledOne freshTwo := by
    refine ⟨by decide +kernel, by decide +kernel, ledOne_reach.mirrors.sane.ordered,
      by decide +kernel, by decide +kernel, by decide +kernel, by decide +kernel,
      by decide +kernel, by decide +kernel, ?_, by decide +kernel, by decide +kernel, ?_,
      by decide +kernel, by decide +kernel⟩
    · have hnil : freshTwo.indices.log = [] := by decide +kernel
      refine ⟨fun k e he => ?_, by decide +kernel, by decide +kernel, by decide +kernel,
        by decide +kernel⟩
      rw [hnil] at he
      cases he
    · intro i hl _ _ hi
      have hzero : freshTwo.lastLogIndex = 0 := by decide +kernel
      have hoffset : ledOne.logOffset = 5 := by decide +kernel
      omega
  exact Raft.exchange_catches_up hlink (by decide +kernel)

end RaftKv
