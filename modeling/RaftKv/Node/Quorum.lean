import Mathlib.Order.Bounds.Basic
import RaftKv.Node.Indices
import RaftKv.Raft.Loops

/-! # The quorum rule

The loop over the log that a leader runs after an acknowledgement, with what it computes:
the greatest index of an entry of its own term that another node is known to hold. It
computes it unless the log ends at the last 64-bit index, where it does not end.
-/

namespace RaftKv

namespace Raft

variable {D : Type} {r : Raft D} {msg : Message D}

/-- The loop visits the indices in order, so it ends at the last one that qualifies. -/
theorem le_advanceCommit_foldl {indices : List Nat} (hsorted : indices.Pairwise (· < ·))
    {i : Nat} (hi : i ∈ indices) (hreplicated : r.Replicated i) :
    i ≤ (indices.foldl commitStep r).commitIndex := by
  induction indices generalizing r with
  | nil => cases hi
  | cons first rest ih =>
      obtain ⟨habove, hrest⟩ := List.pairwise_cons.mp hsorted
      rw [List.foldl_cons, commitStep]
      rcases List.mem_cons.mp hi with rfl | hi
      · obtain ⟨hterm, hcount⟩ := hreplicated
        rw [if_neg (not_not.mpr hterm), if_pos hcount]
        -- later turns only move the index up
        obtain ⟨c, heq, hc⟩ := advanceCommit_foldl { r with commitIndex := i } rest
        rw [heq]
        rcases hc with rfl | ⟨hmem, -⟩
        · exact le_rfl
        · exact (habove c hmem).le
      · split
        · exact ih hrest hi hreplicated
        · split
          · exact ih hrest hi hreplicated
          · exact ih hrest hi hreplicated

/-- An index the loop looks at. -/
theorem mem_commit_range (hordered : r.indices.Ordered) (hroom : r.lastLogIndex + 1 < 2 ^ 64)
    {i : Nat} : i ∈ List.range' (wrap64 (r.commitIndex + 1))
        (r.lastLogIndex + 1 - wrap64 (r.commitIndex + 1)) ↔
      r.commitIndex < i ∧ i ≤ r.lastLogIndex := by
  have hcommit := hordered.commit_le
  rw [← lastLogIndex_of_ordered hordered] at hcommit
  have hle : r.commitIndex ≤ r.lastLogIndex := hcommit
  rw [wrap64_of_lt (by omega), List.mem_range'_1]
  omega

theorem chooseCommit_isGreatest (hordered : r.indices.Ordered)
    (hroom : r.lastLogIndex + 1 < 2 ^ 64) :
    IsGreatest {i | i = r.commitIndex ∨
      r.commitIndex < i ∧ i ≤ r.lastLogIndex ∧ r.Replicated i} r.chooseCommit.commitIndex := by
  have hsame : r.chooseCommit.commitIndex = r.advanceCommit.commitIndex := by
    unfold chooseCommit
    split <;> rfl
  obtain ⟨c, heq, hc⟩ := advanceCommit_foldl r (List.range' (wrap64 (r.commitIndex + 1))
    (r.lastLogIndex + 1 - wrap64 (r.commitIndex + 1)))
  have hadvance : r.advanceCommit.commitIndex = c := congrArg Raft.commitIndex heq
  have hbetween : c = r.commitIndex ∨
      r.commitIndex < c ∧ c ≤ r.lastLogIndex ∧ r.Replicated c := by
    refine hc.imp_right fun ⟨hmem, hreplicated⟩ => ?_
    obtain ⟨habove, hlast⟩ := (mem_commit_range hordered hroom).mp hmem
    exact ⟨habove, hlast, hreplicated⟩
  rw [hsame]
  refine ⟨by rwa [hadvance], fun i hi => ?_⟩
  rcases hi with rfl | ⟨habove, hlast, hreplicated⟩
  · rw [hadvance]
    rcases hbetween with rfl | ⟨hlt, -⟩
    · exact le_rfl
    · exact hlt.le
  · exact le_advanceCommit_foldl List.pairwise_lt_range'
      ((mem_commit_range hordered hroom).mpr ⟨habove, hlast⟩) hreplicated

/-- Among three nodes a majority beyond the leader is one other node. -/
theorem replicas_majority_iff (hthree : r.peers.length = 3)
    (hothers : ∀ peer ∈ r.progress.keys, peer ∈ r.others) {i : Nat} (hi : 0 < i) :
    r.replicas i > r.peers.length / 2 ↔ ∃ peer ∈ r.others, i ≤ (r.progressOf peer).matchIndex := by
  have hcount : r.replicas i > r.peers.length / 2 ↔
      0 < r.progress.count fun p => p.matchIndex ≥ i := by
    simp only [replicas, hthree]
    omega
  rw [hcount]
  constructor
  · intro hpos
    obtain ⟨peer, progress, hget, hmatch⟩ := Table.exists_of_count_pos hpos
    have hkey : peer ∈ r.progress.keys :=
      List.mem_map_of_mem ((r.progress.mem_entries_iff peer progress).mpr hget)
    exact ⟨peer, hothers peer hkey, by simpa [progressOf, hget] using hmatch⟩
  · rintro ⟨peer, -, hmatch⟩
    unfold progressOf at hmatch
    cases hget : r.progress.get? peer with
    | none =>
        rw [hget] at hmatch
        exact absurd (show i ≤ 0 from hmatch) (by omega)
    | some progress =>
        rw [hget] at hmatch
        have hmem := (r.progress.mem_entries_iff peer progress).mpr hget
        exact List.countP_pos_iff.mpr ⟨(peer, progress), hmem, by simpa using hmatch⟩

theorem keys_noteMatch (haddressed : r.rejects msg = false)
    (hothers : ∀ peer ∈ r.progress.keys, peer ∈ r.others) :
    ∀ peer ∈ (r.noteMatch msg).progress.keys, peer ∈ r.others := by
  intro peer hpeer
  simp only [noteMatch, Table.keys, Table.insert, List.map_cons, List.mem_cons] at hpeer
  rcases hpeer with rfl | hpeer
  · exact sender_mem_others haddressed
  · obtain ⟨entry, hentry, rfl⟩ := List.mem_map.mp hpeer
    exact hothers _ (List.mem_map_of_mem (List.mem_filter.mp hentry).1)

end Raft

variable {D : Type} [Blob D] {r : Raft D} {msg : Message D}

/-- The index that the quorum rule gives for a leader `r`, once the acknowledgement has been
noted in `next`. -/
def Raft.IsQuorumIndex (r next : Raft D) (commit : Nat) : Prop :=
  IsGreatest {i | i = r.commitIndex ∨ r.commitIndex < i ∧ i ≤ r.lastLogIndex ∧
    (r.logEntry i).term = r.term ∧
    ∃ peer ∈ r.others, i ≤ (next.progressOf peer).matchIndex} commit

theorem Raft.handleAppendEntriesResponse_quorum (hordered : r.indices.Ordered)
    (hroom : r.lastLogIndex + 1 < 2 ^ 64) (hthree : r.peers.length = 3)
    (hprogress : ∀ peer ∈ r.progress.keys, peer ∈ r.others) (hleader : r.state = .leader)
    (hhealthy : r.storageFailed = false) (haddressed : r.rejects msg = false)
    (hterm : msg.term = r.term) (hsuccess : msg.success = true) :
    r.IsQuorumIndex (r.handleAppendEntriesResponse msg)
      (r.handleAppendEntriesResponse msg).commitIndex := by
  have hhandled : r.handleAppendEntriesResponse msg =
      ((r.noteMatch msg).noteReadAck msg).chooseCommit := by
    simp [Raft.handleAppendEntriesResponse, haddressed, hterm, hhealthy, hleader, hsuccess]
  -- the acknowledgement only adds to the progress and to the acks
  obtain ⟨acks, hnoted⟩ : ∃ acks, (r.noteMatch msg).noteReadAck msg =
      { r.noteMatch msg with readIndexAcks := acks } := by
    unfold Raft.noteReadAck
    split
    · exact ⟨_, rfl⟩
    · exact ⟨r.readIndexAcks, rfl⟩
  have hprogress' : ∀ peer, (r.handleAppendEntriesResponse msg).progressOf peer =
      (r.noteMatch msg).progressOf peer := by
    intro peer
    obtain ⟨commit, wal, failed, heq⟩ := ((r.noteMatch msg).noteReadAck msg).chooseCommit_frame
    rw [hhandled, heq, hnoted]
    rfl
  have hgreatest := Raft.chooseCommit_isGreatest
    (r := { r.noteMatch msg with readIndexAcks := acks }) hordered hroom
  unfold Raft.IsQuorumIndex
  rw [hhandled, hnoted]
  convert hgreatest using 1
  ext i
  refine or_congr Iff.rfl (and_congr_right fun habove => and_congr_right fun _ =>
    and_congr_right fun _ => ?_)
  rw [hhandled, hnoted] at hprogress'
  simp only [hprogress']
  exact (Raft.replicas_majority_iff (r := { r.noteMatch msg with readIndexAcks := acks }) hthree
    (Raft.keys_noteMatch haddressed hprogress) (Nat.zero_lt_of_lt habove)).symm

/-- A leader handles a successful response, and its commit index is then the greatest of the
old one and of the indices of its log that hold an entry of its term and that one of the two
other nodes matches, exactly when its log ends before the last 64-bit index. -/
theorem commit_index_by_quorum (hordered : r.indices.Ordered) (hthree : r.peers.length = 3)
    (hprogress : ∀ peer ∈ r.progress.keys, peer ∈ r.others) (hleader : r.state = .leader)
    (hhealthy : r.storageFailed = false) (haddressed : r.rejects msg = false)
    (hterm : msg.term = r.term) (hsuccess : msg.success = true) :
    (∃ turns next, (∀ fuel ≥ turns, r.appendResponseLoop fuel msg = some next) ∧
        r.IsQuorumIndex next next.commitIndex) ↔
      r.lastLogIndex + 1 < 2 ^ 64 := by
  constructor
  · rintro ⟨turns, next, hends, -⟩
    by_contra hlast
    have hendless := Raft.appendResponseLoop_endless (not_lt.mp hlast) haddressed hterm hhealthy
      hleader hsuccess turns
    cases hendless.symm.trans (hends turns le_rfl)
  · intro hroom
    refine ⟨r.lastLogIndex + 2, r.handleAppendEntriesResponse msg, fun fuel hfuel => ?_, ?_⟩
    · exact Raft.appendResponseLoop_eq hroom (by omega) msg
    · exact Raft.handleAppendEntriesResponse_quorum hordered hroom hthree hprogress hleader
        hhealthy haddressed hterm hsuccess

/-- Node 2 acknowledges the entry that node 1 has proposed at index 6. -/
def ackFromTwo : Message Bytes :=
  { fromTwo .appendEntriesResponse 2 with success := true, matchIndex := 6 }

theorem commit_index_by_quorum_ledOne :
    ∃ turns next, (∀ fuel ≥ turns, ledOne.appendResponseLoop fuel ackFromTwo = some next) ∧
      next.commitIndex = 6 ∧ ledOne.IsQuorumIndex next 6 := by
  have hordered : ledOne.indices.Ordered := ledOne_reach.mirrors.sane.ordered
  have hlast : ledOne.lastLogIndex = 6 := by decide +kernel
  have hcommit : (ledOne.handleAppendEntriesResponse ackFromTwo).commitIndex = 6 := by
    decide +kernel
  obtain ⟨turns, next, hends, hquorum⟩ := (commit_index_by_quorum (r := ledOne) hordered
    (by decide +kernel) (by decide +kernel) (by decide +kernel) (by decide +kernel)
    (show ledOne.rejects ackFromTwo = false by decide +kernel) (by decide +kernel) rfl).mpr
    (by omega)
  obtain rfl : next = ledOne.handleAppendEntriesResponse ackFromTwo :=
    Option.some.inj ((hends (turns + 8) (by omega)).symm.trans
      (Raft.appendResponseLoop_eq (by omega) (by omega) ackFromTwo))
  rw [hcommit] at hquorum
  exact ⟨turns, _, hends, hcommit, hquorum⟩

/-- The log of node 1 ends at the last 64-bit index when node 1 is elected. -/
def filledOne : Raft Bytes :=
  freshOne.actAll ([(.calm, snapshotFromTwo (2 ^ 64 - 2)),
    (.calm, .message { fromTwo .appendEntries 1 with
      prevLogIndex := 2 ^ 64 - 2
      prevLogTerm := 1
      entries := [{ term := 1, index := 2 ^ 64 - 1 }] })] ++ electionOfOne)

theorem filledOne_ordered : filledOne.indices.Ordered := by
  have hlog : filledOne.indices.log = [{ term := 1, index := 2 ^ 64 - 1 }] := by decide +kernel
  have hoffset : filledOne.indices.offset = 2 ^ 64 - 2 := by decide +kernel
  refine ⟨fun k e he => ?_, by decide +kernel, by decide +kernel, by decide +kernel,
    by decide +kernel⟩
  rw [hlog] at he
  rw [hoffset]
  cases k with
  | zero =>
      obtain rfl := Option.some.inj he
      rfl
  | succ k => cases he

/-- This leader never gets through the loop. -/
theorem commit_loop_endless :
    Reach nodeOne OnWire filledOne ∧ filledOne.indices.Ordered ∧ filledOne.state = .leader ∧
      filledOne.storageFailed = false ∧ filledOne.rejects ackFromTwo = false ∧
      ackFromTwo.term = filledOne.term ∧
      ∀ fuel, filledOne.appendResponseLoop fuel ackFromTwo = none := by
  have hlast : filledOne.lastLogIndex = 2 ^ 64 - 1 := by decide +kernel
  have haddressed : filledOne.rejects ackFromTwo = false := by decide +kernel
  have hterm : ackFromTwo.term = filledOne.term := by decide +kernel
  have hhealthy : filledOne.storageFailed = false := by decide +kernel
  have hleader : filledOne.state = .leader := by decide +kernel
  exact ⟨(freshOne_reach OnWire).actAll (by decide +kernel), filledOne_ordered, hleader, hhealthy,
    haddressed, hterm, Raft.appendResponseLoop_endless (by omega) haddressed hterm hhealthy
      hleader rfl⟩

end RaftKv
