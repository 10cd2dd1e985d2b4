import RaftKv.Cluster.Records

/-! # Snapshots and followers

Compaction leaves the history of a node alone. A follower that merges its leader's
entries, or installs its snapshot over a log that does not go on from it, takes steps
of the abstract protocol.
-/

namespace RaftKv

open TermLog

variable {setup : Setup} {a : Sys Nat Entry} {i : Nat} {r next : Raft Capture}
  {w : Wal Capture} {msg : Message Capture}

/-- The log may go: it is no longer than the snapshot, or does not go on from it. -/
def Raft.Replaceable (r : Raft Capture) (msg : Message Capture) : Prop :=
  r.lastLogIndex ≤ msg.snapshotIndex ∨ r.termAt msg.snapshotIndex ≠ msg.snapshotTerm

instance (r : Raft Capture) (msg : Message Capture) : Decidable (r.Replaceable msg) :=
  inferInstanceAs (Decidable (_ ∨ _))

theorem Raft.SameLog.replaceable (hsame : SameLog r next) (hreplaceable : r.Replaceable msg) :
    next.Replaceable msg := by
  rw [Replaceable, hsame.lastLogIndex, hsame.termAt]
  exact hreplaceable

namespace Raft.Running

/-! ## Compaction -/

theorem snapshot_history (hrun : Running setup a i r w) {index : Nat} {state : Capture}
    (hstate : state.entries = r.history.take index) (hlt : r.logOffset < index) (term : Nat) :
    (r.durable.apply (.snapshot ⟨index, term, state, false⟩)).history = r.history := by
  have hdrop : r.log.dropWhile (fun x => x.index ≤ index) = r.history.drop index := by
    have hcovered : r.lastSnapshotData.entries.length = r.logOffset := hrun.grounded.covered
    have hnone : r.lastSnapshotData.entries.drop index = [] := List.drop_eq_nil_of_le (by omega)
    rw [Durable.dropWhile_index (log_indexed hrun.valid), Raft.history, List.drop_append, hcovered,
      hnone, List.nil_append]
  show state.entries ++ r.log.dropWhile _ = r.history
  rw [hstate, hdrop, List.take_append_drop]

theorem snapshot_grounded (hrun : Running setup a i r w) {index : Nat} {state : Capture}
    (hstate : state.entries = r.history.take index) (hlt : r.logOffset < index)
    (hle : index ≤ r.commitIndex) :
    (r.durable.apply (.snapshot ⟨index, r.termAt index, state, false⟩)).Grounded setup a := by
  have hhistory := hrun.snapshot_history hstate hlt (r.termAt index)
  have hlen := hle.trans hrun.commit_le
  refine ⟨?_, ?_, ?_, ?_⟩
  · rw [hhistory]
    exact hrun.grounded.rooted
  · rw [hhistory]
    show setup.protocol.Committed a r.term (r.history.take (max index r.commitIndex))
    rw [max_eq_right hle]
    exact hrun.grounded.committed
  · show state.entries.length = index
    rw [hstate, List.length_take, Nat.min_eq_left hlen]
  · show r.termAt index = setup.protocol.lastStamp state.entries
    rw [hstate, termAt_eq hrun.valid hrun.grounded hlt.le hlen]

theorem compact (hrun : Running setup a i r w) {index : Nat} {state : Capture}
    (hstate : state.entries = r.history.take index) :
    (∃ a', setup.protocol.Steps i a a' ∧ (r.takeSnapshot index state).Stores setup a' i) ∧
      (r.takeSnapshot index state).history = r.history := by
  rcases takeSnapshot_writes hrun.mirrors.sane hrun.wal hrun.clean hrun.healthy index state with
    heq | ⟨hlt, hle, hwrites⟩
  · rw [heq]
    exact ⟨⟨a, .refl, hrun.stores⟩, rfl⟩
  · have hhistory := hrun.snapshot_history hstate hlt (r.termAt index)
    have hground := hrun.snapshot_grounded hstate hlt (hle.trans hrun.mirrors.sane.applied_le)
    constructor
    · obtain ⟨a', hsteps, hstores, -⟩ := hrun.one (fun _ => True) hwrites hground
        ⟨a, .refl, ⟨hrun.term, hrun.log.trans hhistory.symm, hrun.located.vote⟩, trivial⟩
      exact ⟨a', hsteps, hstores⟩
    · have hseen : ∀ seen, seen <+: [Record.snapshot ⟨index, r.termAt index, state, false⟩] →
          (seen.foldl Durable.apply r.durable).history = r.history := by
        intro seen hseen
        rcases List.prefix_cons_iff.mp hseen with rfl | ⟨more, rfl, hmore⟩
        · rfl
        · obtain rfl := List.prefix_nil.mp hmore
          exact hhistory
      rw [← durable_history]
      cases hwrites with
      | synced _ _ _ _ _ _ hnext =>
          rw [hnext]
          exact hseen _ List.prefix_rfl
      | failed _ _ _ seen _ hsplit hpre _ _ _ _ _ hnext =>
          rw [hnext]
          exact hseen _ (hpre.trans hsplit)

/-! ## Installation -/

theorem install (hrun : Running setup a i r w) (hhonest : msg.Honest setup a)
    (htype : msg.type = .installSnapshot) (hready : r.Ready msg) (hindex : msg.snapshotIndex ≠ 0)
    (hfresh : r.commitIndex ≤ msg.snapshotIndex) (hreplaceable : r.Replaceable msg) :
    ∃ a', setup.protocol.Steps i a a' ∧ (r.installSnapshot msg).1.Stores setup a' i := by
  have hwrites := installSnapshot_writes hrun.valid hrun.wal hrun.clean hrun.healthy
    (hhonest.inRange.snapshot htype) hindex hfresh
  obtain ⟨hlen, hterm, hcommitted⟩ := hhonest.snapshot htype
  have hlead : a.leader (a.term i) ≠ some i := by
    rw [hrun.term, ← hready.term, hhonest.leader (.inr htype)]
    exact fun h => sender_ne_id hready.addressed ((Option.some.inj h).trans hrun.id.symm)
  rw [hready.term] at hcommitted
  have hkeep : ¬ (msg.snapshotData.entries <+: a.log i ∧
      msg.snapshotData.entries.length < (a.log i).length) := by
    rw [hrun.log, hlen]
    rintro ⟨hpre, hlt⟩
    rcases hreplaceable with hshort | hother
    · rw [lastLogIndex_eq hrun.valid hrun.grounded] at hshort
      omega
    · apply hother
      rw [termAt_eq hrun.valid hrun.grounded (hrun.offset_le.trans hfresh) hlt.le, hterm, ← hlen,
        ← List.prefix_iff_eq_take.mp hpre]
  let snap : Record Capture :=
    .snapshot ⟨msg.snapshotIndex, msg.snapshotTerm, msg.snapshotData, true⟩
  have hhistory : (r.durable.apply snap).history = msg.snapshotData.entries := List.append_nil _
  have hground : (r.durable.apply snap).Grounded setup a := by
    refine ⟨?_, ?_, hlen, hterm⟩
    · rw [hhistory]
      exact hrun.inv.rooted_of_committed hcommitted
    · rw [hhistory]
      exact hcommitted.of_isPrefix _ (List.take_prefix _ _)
  have hstep : setup.protocol.Step i a (a.setLog i msg.snapshotData.entries) :=
    .adopt a _ hlead (by rw [hrun.term]; exact hcommitted) hkeep
  have hlocated : (r.durable.apply snap).Located (a.setLog i msg.snapshotData.entries) i :=
    ⟨hrun.term, by rw [Sys.log_setLog, hhistory], hrun.located.vote⟩
  obtain ⟨a', hsteps, hstores, -⟩ := hwrites.stores (fun _ => True) hrun.durable hrun.inv
    (fun done hdone => by
      rcases List.prefix_cons_iff.mp hdone with rfl | ⟨more, rfl, hmore⟩
      · exact ⟨hrun.grounded, a, .refl, hrun.located, fun _ => trivial⟩
      · rcases List.prefix_cons_iff.mp hmore with rfl | ⟨last, rfl, hlast⟩
        · exact ⟨hground, _, .single hstep, hlocated, fun _ => trivial⟩
        · obtain rfl := List.prefix_nil.mp hlast
          refine ⟨?_, _, .single hstep, ⟨hlocated.term, hlocated.log, hlocated.vote⟩,
            fun _ => trivial⟩
          refine hground.hardState le_rfl ?_
          rw [hhistory]
          exact hcommitted.of_isPrefix _ (List.take_prefix _ _))
  exact ⟨a', hsteps, hstores⟩

/-! ## Replication -/

/-- A follower that passes the consistency check holds the leader's log up to there. -/
theorem follows (hrun : Running setup a i r w) (hhonest : msg.Honest setup a)
    (htype : msg.type = .appendEntries) (hterm : msg.term = r.term) (hlog : r.logOk msg = true) :
    r.durable.Follows setup a i msg.prevLogIndex ∧
      (a.termLog (a.term i)).take msg.prevLogIndex ++ msg.entries <+: a.termLog (a.term i) := by
  obtain ⟨before, hlen, hlast, hpre, -⟩ := hhonest.entries htype
  rw [hterm, ← hrun.term] at hpre
  have hbefore : before <+: a.termLog (a.term i) := (List.prefix_append _ _).trans hpre
  have htake : (a.termLog (a.term i)).take msg.prevLogIndex = before := by
    rw [← hlen]
    exact (List.prefix_iff_eq_take.mp hbefore).symm
  refine ⟨⟨hrun.valid, hrun.grounded, hrun.term.symm, hlen ▸ hbefore.length_le, ?_⟩, by rwa [htake]⟩
  rw [htake, durable_history]
  unfold logOk at hlog
  split at hlog
  next hzero =>
    rw [List.eq_nil_of_length_eq_zero (hlen.trans hzero)]
    exact List.nil_prefix
  · split at hlog
    next hin =>
      -- the two logs end in the same term here
      rw [lastLogIndex_eq hrun.valid hrun.grounded] at hin
      have hsame : r.termAt msg.prevLogIndex = msg.prevLogTerm := by simpa using hlog
      rw [termAt_eq hrun.valid hrun.grounded hin.1 hin.2, hlast] at hsame
      have heq : r.history.take msg.prevLogIndex = before :=
        Protocol.Inv.eq_of_lastStamp
          (hrun.grounded.rooted.of_isPrefix _ (List.take_prefix _ _))
          ((hrun.inv.termLogRooted _).of_isPrefix _ hbefore)
          (by rw [List.length_take, Nat.min_eq_left hin.2, hlen]) hsame
      rw [← heq]
      exact List.take_prefix _ _
    · cases hlog

/-- Entry records touch nothing but the log. -/
theorem foldl_entries (d : Durable Capture) (entries : List Entry) :
    ∃ log, (entries.map Record.entry).foldl Durable.apply d = { d with log := log } := by
  induction entries generalizing d with
  | nil => exact ⟨d.log, rfl⟩
  | cons e rest ih =>
      obtain ⟨log, heq⟩ := ih (d.apply (.entry e))
      exact ⟨log, heq⟩

/-- A follower that holds all a message speaks of may commit what the leader has committed. -/
theorem learned (hrun : Running setup a i r w) (hhonest : msg.Honest setup a)
    (htype : msg.type = .appendEntries) (hterm : msg.term = r.term) {d : Durable Capture}
    (hfollows : d.Follows setup a i (msg.prevLogIndex + msg.entries.length)) :
    msg.leaderCommit ≤ d.last ∧
      setup.protocol.Committed a r.term (d.history.take msg.leaderCommit) := by
  obtain ⟨before, hlen, -, hpre, hle, hcommitted⟩ := hhonest.entries htype
  rw [hterm] at hcommitted
  rw [hterm, ← hrun.term] at hpre
  have hall : before ++ msg.entries =
      (a.termLog (a.term i)).take (msg.prevLogIndex + msg.entries.length) := by
    rw [← hlen, ← List.length_append]
    exact List.prefix_iff_eq_take.mp hpre
  rw [List.length_append, hlen] at hle
  refine ⟨hle.trans hfollows.base_le_last, ?_⟩
  have hsame : d.history.take msg.leaderCommit = (before ++ msg.entries).take msg.leaderCommit := by
    rw [hall, ← hfollows.take_eq, List.take_take, Nat.min_eq_left hle]
  rw [hsame]
  exact hcommitted

/-- What merging a message comes to: each of its records is a step, and true beforehand. -/
structure Merged (setup : Setup) (a : Sys Nat Entry) (i : Nat) (r : Raft Capture)
    (msg : Message Capture) (added : List Entry) : Prop where
  grounded : ∀ done, done <+: added.map Record.entry →
    (done.foldl Durable.apply r.durable).Grounded setup a
  located : ∀ done, done <+: added.map Record.entry →
    ∃ a', setup.protocol.Steps i a a' ∧ (done.foldl Durable.apply r.durable).Located a' i
  follows : (r.appendLoop msg.prevLogIndex 0 msg.entries).2 = true →
    ((added.map Record.entry).foldl Durable.apply r.durable).Follows setup a i
      (msg.prevLogIndex + msg.entries.length)

theorem merged (hrun : Running setup a i r w) (hhonest : msg.Honest setup a)
    (htype : msg.type = .appendEntries) (hready : r.Ready msg) (hlog : r.logOk msg = true)
    {added log : List Entry} (happended : Appended r msg.prevLogIndex msg.entries
      (r.appendLoop msg.prevLogIndex 0 msg.entries) added log) :
    Merged setup a i r msg added := by
  obtain ⟨hfollows, hcarried⟩ := hrun.follows hhonest htype hready.term hlog
  have hlead : a.leader (a.term i) = some msg.sender := by
    rw [hrun.term, ← hready.term]
    exact hhonest.leader (.inl htype)
  have hother : msg.sender ≠ i := hrun.id ▸ sender_ne_id hready.addressed
  obtain ⟨hsteps, hheld⟩ := happended.merges.realised hrun.inv hlead hother hfollows hcarried
    (hhonest.inRange.indexed htype) (hhonest.inRange.entries htype)
  have hself : a.setLog i r.durable.history = a := by
    rw [durable_history, ← hrun.log, Sys.setLog_log_self]
  rw [hself] at hsteps
  refine ⟨fun done hdone => (hsteps done hdone).2, fun done hdone => ?_, hheld⟩
  obtain ⟨part, -, rfl⟩ := List.prefix_map_iff.mp hdone
  obtain ⟨log', heq⟩ := foldl_entries r.durable part
  refine ⟨_, (hsteps _ hdone).1, ?_, Sys.log_setLog _ _ _, ?_⟩
  · rw [heq]
    exact hrun.term
  · rw [heq]
    exact hrun.located.vote

theorem accept (hrun : Running setup a i r w) (hhonest : msg.Honest setup a)
    (htype : msg.type = .appendEntries) (hready : r.Ready msg) (hlog : r.logOk msg = true) :
    ∃ a', setup.protocol.Steps i a a' ∧ (r.acceptEntries msg).1.Stores setup a' i := by
  obtain ⟨added, log, more, haccepted⟩ := acceptEntries_spec hrun.valid hrun.wal hrun.clean
    hrun.healthy hhonest.inRange htype hlog
  have hmerged := hrun.merged hhonest htype hready hlog haccepted.appended
  suffices hrecords : ∀ done, done <+: added.map Record.entry ++ more →
      (done.foldl Durable.apply r.durable).Grounded setup a ∧
      ∃ a', setup.protocol.Steps i a a' ∧ (done.foldl Durable.apply r.durable).Located a' i by
    obtain ⟨a', hsteps, hstores, -⟩ := haccepted.writes.stores (fun _ => True) hrun.durable hrun.inv
      (fun done hdone => by
        obtain ⟨hground, a', hsteps, hlocated⟩ := hrecords done hdone
        exact ⟨hground, a', hsteps, hlocated, fun _ => trivial⟩)
    exact ⟨a', hsteps, hstores⟩
  rcases haccepted.learned with rfl | ⟨hcomplete, hbehind, hmore⟩
  · intro done hdone
    rw [List.append_nil] at hdone
    exact ⟨hmerged.grounded done hdone, hmerged.located done hdone⟩
  · -- the commit index the leader told is written last
    obtain ⟨hle, hcommitted⟩ := hrun.learned hhonest htype hready.term (hmerged.follows hcomplete)
    have hlast : ((added.map Record.entry).foldl Durable.apply r.durable).last =
        r.logOffset + log.length := by
      rw [← haccepted.appended.durable]
      rfl
    have hoffset := hrun.offset_le
    rw [hlast] at hle
    rw [hardStateRecord, if_neg (by simp only; omega), Nat.min_eq_left hle] at hmore
    subst hmore
    intro done hdone
    rcases List.prefix_concat_iff.mp hdone with rfl | hdone'
    · obtain ⟨a', hsteps, hlocated⟩ := hmerged.located _ List.prefix_rfl
      obtain ⟨log', heq⟩ := foldl_entries r.durable added
      rw [List.foldl_append, List.foldl_cons, List.foldl_nil]
      refine ⟨(hmerged.grounded _ List.prefix_rfl).hardState ?_ hcommitted, a', hsteps, ?_,
        hlocated.log, ?_⟩
      · rw [heq]
        show r.logOffset ≤ msg.leaderCommit
        omega
      · rw [hlocated.term, heq]
        rfl
      · have hvote := hlocated.vote
        rw [heq] at hvote
        exact hvote
    · exact ⟨hmerged.grounded done hdone', hmerged.located done hdone'⟩

/-- A positive answer means that the follower holds all the message speaks of. -/
theorem accept_holds (hrun : Running setup a i r w) (hhonest : msg.Honest setup a)
    (htype : msg.type = .appendEntries) (hready : r.Ready msg) (hlog : r.logOk msg = true)
    (hsuccess : (r.acceptEntries msg).2.success = true) :
    (r.acceptEntries msg).2.matchIndex ≤ (a.termLog r.term).length ∧
      (a.termLog r.term).take (r.acceptEntries msg).2.matchIndex <+:
        (r.acceptEntries msg).1.history := by
  obtain ⟨added, log, more, haccepted⟩ := acceptEntries_spec hrun.valid hrun.wal hrun.clean
    hrun.healthy hhonest.inRange htype hlog
  obtain ⟨hcomplete, hmatch, -, hlog'⟩ := haccepted.response hsuccess
  have hend := (hrun.merged hhonest htype hready hlog haccepted.appended).follows hcomplete
  have hhistory : (r.acceptEntries msg).1.history =
      ((added.map Record.entry).foldl Durable.apply r.durable).history := by
    obtain ⟨log', commit, wal, failed, heq⟩ := r.acceptEntries_frame msg
    rw [← haccepted.appended.durable, Raft.history, hlog', heq]
    rfl
  rw [← hrun.term, hhistory, hmatch]
  exact ⟨hend.base_le, hend.holds⟩

end Raft.Running

end RaftKv
