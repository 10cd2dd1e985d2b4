import RaftKv.Cluster.State
import RaftKv.Raft.Mirror
import RaftKv.TermLog.Replication

/-! # The cluster as a replicated term log

What a node stores, and what a message says, in terms of the abstract protocol: the
log of a node is everything it holds, the entries under its snapshot included, and two
members are a quorum.
-/

namespace RaftKv

open TermLog

/-- Two of the three members decide. -/
def Setup.protocol (setup : Setup) : Protocol Nat Entry where
  stamp := Entry.term
  quorum S := ∃ x y, x ≠ y ∧ x ∈ setup.members ∧ y ∈ setup.members ∧ x ∈ S ∧ y ∈ S
  meet := by
    rintro A B ⟨a, b, hab, ha, hb, haA, hbA⟩ ⟨x, y, hxy, hx, hy, hxB, hyB⟩
    rcases two_of_three setup.three hab hxy ha hb hx hy with rfl | rfl | rfl | rfl
    · exact ⟨_, haA, hxB⟩
    · exact ⟨_, haA, hyB⟩
    · exact ⟨_, hbA, hxB⟩
    · exact ⟨_, hbA, hyB⟩

/-- Every entry a stored state stands for, those under its snapshot included. -/
def Durable.history (d : Durable Capture) : List Entry := d.data.entries ++ d.log

theorem Raft.durable_history (r : Raft Capture) : r.durable.history = r.history := rfl

/-- What the file of a node says by now. -/
def Raft.onDisk (r : Raft Capture) : Durable Capture :=
  r.synced.foldl Durable.apply Durable.start

variable {setup : Setup} {a a' : Sys Nat Entry} {i : Nat}

/-- A stored state that is true of the abstract system: its entries stand where the leaders
of their terms put them, what it calls committed is, and its snapshot is of its history. -/
structure Durable.Grounded (setup : Setup) (a : Sys Nat Entry) (d : Durable Capture) : Prop where
  rooted : setup.protocol.Rooted a d.history
  committed : setup.protocol.Committed a d.term (d.history.take d.commit)
  covered : d.data.entries.length = d.offset
  boundary : d.offsetTerm = setup.protocol.lastStamp d.data.entries

/-- A stored state that is the abstract state of node `i`. -/
structure Durable.Located (a : Sys Nat Entry) (i : Nat) (d : Durable Capture) : Prop where
  term : a.term i = d.term
  log : a.log i = d.history
  vote : a.vote i d.term = if d.vote = 0 then none else some d.vote

namespace Durable

variable {d : Durable Capture}

theorem Grounded.grow (hgrow : Grows a a') (hground : d.Grounded setup a) :
    d.Grounded setup a' where
  rooted := hground.rooted.grow _ hgrow
  committed := hground.committed.grow _ hgrow le_rfl
  covered := hground.covered
  boundary := hground.boundary

theorem length_history (hground : d.Grounded setup a) : d.history.length = d.last := by
  simp [history, last, hground.covered]

theorem history_take_offset (hground : d.Grounded setup a) :
    d.history.take d.offset = d.data.entries := by
  rw [history, ← hground.covered, List.take_left]

theorem history_getElem? (hground : d.Grounded setup a) {k : Nat} (hk : d.offset ≤ k) :
    d.history[k]? = d.log[k - d.offset]? := by
  rw [history, List.getElem?_append_right (by rw [hground.covered]; exact hk), hground.covered]

end Durable

namespace Raft

variable {r : Raft Capture}

theorem length_history (hground : r.durable.Grounded setup a) :
    r.history.length = r.logOffset + r.log.length :=
  Durable.length_history hground

theorem lastLogIndex_eq (hvalid : r.durable.Valid) (hground : r.durable.Grounded setup a) :
    r.lastLogIndex = r.history.length := by
  rw [lastLogIndex_of_valid hvalid, length_history hground]

/-- The term a node reads at an index is that of the last entry up to there. -/
theorem termAt_eq (hvalid : r.durable.Valid) (hground : r.durable.Grounded setup a) {index : Nat}
    (hge : r.logOffset ≤ index) (hle : index ≤ r.history.length) :
    r.termAt index = setup.protocol.lastStamp (r.history.take index) := by
  rcases Nat.eq_or_lt_of_le hge with rfl | hlt
  · have htake : r.history.take r.logOffset = r.lastSnapshotData.entries :=
      Durable.history_take_offset hground
    have hboundary : r.logOffsetTerm = setup.protocol.lastStamp r.lastSnapshotData.entries :=
      hground.boundary
    rw [htake, ← hboundary]
    unfold termAt
    split
    next hzero =>
      have hnil : r.lastSnapshotData.entries = [] :=
        List.eq_nil_of_length_eq_zero (hground.covered.trans hzero)
      rw [hboundary, hnil]
      rfl
    · rw [if_pos rfl]
  · rw [length_history hground] at hle
    have hentry := logEntry_of_valid hvalid hlt hle
    rw [termAt_of_valid hvalid hlt hle]
    have hget : r.history[index - 1]? = some (r.logEntry index) := by
      rw [← hentry]
      have hsplit : r.history[index - 1]? = r.log[index - 1 - r.logOffset]? :=
        Durable.history_getElem? hground (show r.logOffset ≤ index - 1 by omega)
      rw [hsplit, show index - 1 - r.logOffset = index - r.logOffset - 1 by omega]
    have hstamp := setup.protocol.lastStamp_take_succ hget
    rw [show index - 1 + 1 = index by omega] at hstamp
    exact hstamp.symm

theorem lastLogTerm_eq (hground : r.durable.Grounded setup a) :
    r.lastLogTerm = setup.protocol.lastStamp r.history := by
  unfold lastLogTerm history Protocol.lastStamp
  cases hlast : r.log.getLast? with
  | none =>
      rw [List.getLast?_eq_none_iff] at hlast
      rw [hlast, List.append_nil]
      exact hground.boundary
  | some e => simp [List.getLast?_append, hlast, Setup.protocol]

end Raft

/-! ## Messages -/

/-- A message that is true of the abstract system. -/
structure Message.Honest (setup : Setup) (a : Sys Nat Entry) (msg : Message Capture) : Prop where
  inRange : msg.InRange
  candidacy : msg.type = .requestVote → ∃ l, a.bid msg.term msg.sender = some l ∧
    msg.lastLogIndex = l.length ∧ msg.lastLogTerm = setup.protocol.lastStamp l
  vote : msg.type = .requestVoteResponse → msg.voteGranted = true →
    a.vote msg.sender msg.term = some msg.receiver
  leader : msg.FromLeader → a.leader msg.term = some msg.sender
  /-- The entries follow others in the leader's log, and what it calls committed is. -/
  entries : msg.type = .appendEntries → ∃ before, before.length = msg.prevLogIndex ∧
    msg.prevLogTerm = setup.protocol.lastStamp before ∧
    before ++ msg.entries <+: a.termLog msg.term ∧
    msg.leaderCommit ≤ (before ++ msg.entries).length ∧
    setup.protocol.Committed a msg.term ((before ++ msg.entries).take msg.leaderCommit)
  accepted : msg.type = .appendEntriesResponse ∨ msg.type = .installSnapshotResponse →
    msg.success = true → msg.matchIndex ≤ a.ack msg.sender msg.term
  snapshot : msg.type = .installSnapshot →
    msg.snapshotData.entries.length = msg.snapshotIndex ∧
    msg.snapshotTerm = setup.protocol.lastStamp msg.snapshotData.entries ∧
    setup.protocol.Committed a msg.term msg.snapshotData.entries

theorem Message.Honest.grow {msg : Message Capture} (hgrow : Grows a a')
    (hhonest : msg.Honest setup a) : msg.Honest setup a' where
  inRange := hhonest.inRange
  candidacy htype := by
    obtain ⟨l, hbid, hlog⟩ := hhonest.candidacy htype
    exact ⟨l, hgrow.bid _ _ l hbid, hlog⟩
  vote htype hgranted := hgrow.vote _ _ _ (hhonest.vote htype hgranted)
  leader hfrom := hgrow.leader _ _ (hhonest.leader hfrom)
  entries htype := by
    obtain ⟨before, hlen, hterm, hpre, hle, hcommitted⟩ := hhonest.entries htype
    exact ⟨before, hlen, hterm, hpre.trans (hgrow.termLog _), hle,
      hcommitted.grow _ hgrow le_rfl⟩
  accepted htype hsuccess := (hhonest.accepted htype hsuccess).trans (hgrow.ack _ _)
  snapshot htype := by
    obtain ⟨hlen, hterm, hcommitted⟩ := hhonest.snapshot htype
    exact ⟨hlen, hterm, hcommitted.grow _ hgrow le_rfl⟩

end RaftKv
