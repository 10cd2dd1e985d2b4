import RaftKv.Raft.Compaction
import RaftKv.Node.Indices

/-! # Compaction does not show

Taking a snapshot drops the log up to the captured index. Nothing that consensus looks at changes,
and from then on the node answers votes, pre-votes and appends above the cut as if it had kept its
log.
-/

namespace RaftKv

variable {D : Type} [Blob D] {r s : Raft D} {b index : Nat} {env : Env} {input : Input D}

namespace Raft

/-- The requests whose answers a compaction up to `b` does not touch. -/
def AboveCut (b : Nat) (r : Raft D) : Input D → Prop
  | .message msg => msg.type = .requestVote ∨ msg.type = .preVote ∨
      msg.type = .appendEntries ∧ msg.Wire ∧ msg.Numbered ∧
        (b ≤ msg.prevLogIndex ∨ r.lastLogIndex < msg.prevLogIndex)
  | _ => False

/-- What a sequence of calls makes the node send, call by call. -/
def answers (r : Raft D) : List (Env × Input D) → List (List (Message D))
  | [] => []
  | i :: rest => (r.act i.1 i.2).2 :: (r.act i.1 i.2).1.answers rest

theorem takeSnapshot_compacted (hordered : r.indices.Ordered) {state : D}
    (hhealthy : (r.takeSnapshot index state).storageFailed = false) :
    r.takeSnapshot index state = r ∨ Compacted index r (r.takeSnapshot index state) := by
  unfold takeSnapshot at hhealthy ⊢
  split
  · exact .inl rfl
  next hrefused =>
    simp only [not_or, not_le, not_lt] at hrefused
    obtain ⟨-, hoffset, happlied⟩ := hrefused
    right
    rw [if_neg (by omega)] at hhealthy
    have hlog : compactLog r.log index = r.log.drop (index - r.logOffset) :=
      compactLog_eq hordered.indexed hoffset
        (happlied.trans (hordered.applied_le.trans hordered.commit_le))
    dsimp only at hhealthy ⊢
    cases hok : (r.saveSnapshot ⟨index, r.termAt index, state, false⟩).syncWal.2 with
    | false =>
        rw [hok] at hhealthy
        cases hhealthy.symm.trans (syncWal_failed hok)
    | true =>
        rw [hok] at hhealthy
        have hrest : (r.saveSnapshot ⟨index, r.termAt index, state, false⟩).syncWal.1.rest =
            r.rest :=
          rest_syncWal hhealthy
        exact ⟨hordered, hoffset, happlied, hrest, hlog, rfl, rfl⟩

/-! ## Later calls -/

theorem Compacted.arm (h : Compacted b r s) (env : Env) :
    Compacted b (r.arm env) (s.arm env) :=
  h.keep ⟨rfl, rfl, rfl, rfl, rfl⟩ ⟨rfl, rfl, rfl, rfl, rfl⟩
    (h.congr (fun x => ({ x with electionRng := env.draws, snapshotRestore := env.restored } :
      Raft D).rest) fun _ => rfl)

theorem Compacted.send (h : Compacted b r s) (msg : Message D) :
    Compacted b (r.send msg) (s.send msg) :=
  h.keep ⟨rfl, rfl, rfl, rfl, rfl⟩ ⟨rfl, rfl, rfl, rfl, rfl⟩
    (h.congr (fun x => (x.send msg).rest) fun _ => rfl)

theorem Compacted.step (h : Compacted b r s) (habove : r.AboveCut b input)
    (hr : (r.step input).storageFailed = false) (hs : (s.step input).storageFailed = false) :
    Compacted b (r.step input) (s.step input) := by
  cases input with
  | message msg =>
      rcases habove with htype | htype | ⟨htype, hwire, hnumbered, hprev⟩
      · simp only [Raft.step, handleMessage, htype] at hr hs ⊢
        obtain ⟨hnext, hsame⟩ := h.handleRequestVote hr hs
        rw [hsame]
        exact hnext.send _
      · simp only [Raft.step, handleMessage, htype] at hr hs ⊢
        rw [h.handlePreVote]
        exact h.send _
      · simp only [Raft.step, handleMessage, htype] at hr hs ⊢
        have hcut : b ≤ msg.prevLogIndex := hprev.elim (fun h => h) fun hbeyond => by
          rw [lastLogIndex_of_ordered h.ordered] at hbeyond
          exact h.le_last.trans hbeyond.le
        obtain ⟨hnext, hsame⟩ := h.handleAppendEntries hnumbered hcut hr hs
        rw [hsame]
        exact hnext.send _
  | _ => cases habove

theorem Compacted.act (h : Compacted b r s) (habove : r.AboveCut b input)
    (hr : (r.act env input).1.storageFailed = false)
    (hs : (s.act env input).1.storageFailed = false) :
    Compacted b (r.act env input).1 (s.act env input).1 ∧
      (s.act env input).2 = (r.act env input).2 := by
  have harmed : (r.arm env).AboveCut b input := by
    cases input <;> exact habove
  have hstep := (h.arm env).step harmed
  unfold Raft.act at hr hs ⊢
  rw [h.storageFailed] at hs ⊢
  by_cases hfailed : r.storageFailed = true
  · rw [if_pos hfailed] at hr
    cases hfailed.symm.trans hr
  rw [if_neg hfailed] at hr hs
  rw [if_neg hfailed, if_neg hfailed]
  by_cases hrf : ((r.arm env).step input).storageFailed = true
  · rw [if_pos hrf] at hr
    cases hrf.symm.trans hr
  by_cases hsf : ((s.arm env).step input).storageFailed = true
  · rw [if_pos hsf] at hs
    cases hsf.symm.trans hs
  rw [if_neg hrf, if_neg hsf]
  replace hstep := hstep (by simpa using hrf) (by simpa using hsf)
  refine ⟨hstep.keep ⟨rfl, rfl, rfl, rfl, rfl⟩ ⟨rfl, rfl, rfl, rfl, rfl⟩ ?_,
    hstep.congr Raft.msgs fun _ => rfl⟩
  exact hstep.congr (fun x => x.readMessages.1.rest) fun _ => rfl

/-- A node that has failed does nothing any more. -/
theorem actAll_of_failed (hfailed : r.storageFailed = true) (calls : List (Env × Input D)) :
    (r.actAll calls).storageFailed = true := by
  induction calls with
  | nil => exact hfailed
  | cons i rest ih =>
      have hstays : (r.act i.1 i.2).1 = r := by rw [Raft.act, if_pos hfailed]
      rw [Raft.actAll, List.foldl_cons, hstays]
      exact ih

theorem act_healthy_of_actAll {i : Env × Input D} {calls : List (Env × Input D)}
    (hhealthy : (r.actAll (i :: calls)).storageFailed = false) :
    (r.act i.1 i.2).1.storageFailed = false := by
  by_contra hfailed
  cases hhealthy.symm.trans (actAll_of_failed (by simpa using hfailed) calls)

theorem Compacted.actAll {calls : List (Env × Input D)} (h : Compacted b r s)
    (habove : r.ActsOk (AboveCut b) calls) (hr : (r.actAll calls).storageFailed = false)
    (hs : (s.actAll calls).storageFailed = false) :
    Compacted b (r.actAll calls) (s.actAll calls) ∧ s.answers calls = r.answers calls := by
  induction calls generalizing r s with
  | nil => exact ⟨h, rfl⟩
  | cons i rest ih =>
      obtain ⟨hnext, hsent⟩ := h.act habove.1 (act_healthy_of_actAll hr) (act_healthy_of_actAll hs)
      obtain ⟨hlater, hanswers⟩ := ih hnext habove.2 hr hs
      exact ⟨hlater, by rw [answers, answers, hsent, hanswers]⟩

theorem Compacted.nextEntryToApply (h : Compacted b r s) :
    s.nextEntryToApply = r.nextEntryToApply := by
  unfold Raft.nextEntryToApply
  rw [h.lastApplied, h.commitIndex]
  split
  · rfl
  next hbehind =>
    have hcommit : r.commitIndex ≤ r.indices.last := h.ordered.commit_le
    have hlast := h.ordered.last_lt
    have happlied := h.applied_le
    rw [wrap64_of_lt (by omega), h.logEntry (by omega) (by omega)]

/-- Compaction is invisible to consensus: nothing it reads above the cut changes, and whatever
requests above the cut come later, in any number and order, they get the same answers and leave
the same entries. -/
theorem takeSnapshot_invisible (hordered : r.indices.Ordered) (index : Nat) (state : D)
    (hhealthy : (r.takeSnapshot index state).storageFailed = false) :
    ((r.takeSnapshot index state).lastLogIndex = r.lastLogIndex ∧
      (r.takeSnapshot index state).lastLogTerm = r.lastLogTerm ∧
      (∀ i, index < i → (r.takeSnapshot index state).indices.entryAt? i = r.indices.entryAt? i) ∧
      (∀ i, max index r.logOffset ≤ i → (r.takeSnapshot index state).termAt i = r.termAt i) ∧
      (r.takeSnapshot index state).commitIndex = r.commitIndex ∧
      (r.takeSnapshot index state).lastApplied = r.lastApplied ∧
      (r.takeSnapshot index state).term = r.term ∧
      (r.takeSnapshot index state).votedFor = r.votedFor ∧
      (r.takeSnapshot index state).nextEntryToApply = r.nextEntryToApply) ∧
    ∀ calls, r.ActsOk (AboveCut index) calls → (r.actAll calls).storageFailed = false →
      ((r.takeSnapshot index state).actAll calls).storageFailed = false →
      (r.takeSnapshot index state).answers calls = r.answers calls ∧
      ∀ i, index < i → ((r.takeSnapshot index state).actAll calls).indices.entryAt? i =
        (r.actAll calls).indices.entryAt? i := by
  rcases takeSnapshot_compacted hordered hhealthy with heq | h
  · rw [heq]
    exact ⟨⟨rfl, rfl, fun _ _ => rfl, fun _ _ => rfl, rfl, rfl, rfl, rfl, rfl⟩,
      fun _ _ _ _ => ⟨rfl, fun _ _ => rfl⟩⟩
  · refine ⟨⟨h.lastLogIndex, h.lastLogTerm, fun i => h.entryAt?,
      fun i hi => h.termAt ((le_max_left _ _).trans hi), h.commitIndex, h.lastApplied, h.term,
      h.congr Raft.votedFor fun _ => rfl, h.nextEntryToApply⟩, fun calls habove hr hs => ?_⟩
    obtain ⟨hlater, hanswers⟩ := h.actAll habove hr hs
    exact ⟨hanswers, fun i => hlater.entryAt?⟩

end Raft

/-- Node 1 has applied both entries that node 2 committed. -/
def appliedOne : Raft Bytes :=
  freshOne.actAll [(.calm, committedFromTwo), (.calm, .advance 1), (.calm, .advance 2)]

/-- Node 2 asks for a vote and then sends an entry after the second. -/
def laterFromTwo : List (Env × Input Bytes) :=
  [(.calm, .message { fromTwo .requestVote 2 with lastLogIndex := 2, lastLogTerm := 1 }),
    (.calm, .message { fromTwo .appendEntries 2 with
      prevLogIndex := 2, prevLogTerm := 1, entries := [{ term := 2, index := 3 }] })]

/-- The cut is at the last entry: the log is empty afterwards, and a vote and an append are
answered all the same. -/
theorem takeSnapshot_invisible_appliedOne :
    (appliedOne.takeSnapshot 2 [1]).log = [] ∧
      (appliedOne.takeSnapshot 2 [1]).lastLogTerm = appliedOne.lastLogTerm ∧
      (appliedOne.takeSnapshot 2 [1]).answers laterFromTwo = appliedOne.answers laterFromTwo := by
  have hreach : Reach nodeOne Raft.InRange appliedOne :=
    (freshOne_reach _).actAll (by decide +kernel)
  have hinvisible := Raft.takeSnapshot_invisible hreach.mirrors.sane.ordered 2 [1]
    (by decide +kernel)
  refine ⟨by decide +kernel, hinvisible.1.2.1, (hinvisible.2 laterFromTwo ⟨.inl rfl, .inr (.inr
    ⟨rfl, by decide +kernel, ⟨fun k e he => ?_, by decide⟩, .inl (by decide)⟩), trivial⟩
    (by decide +kernel) (by decide +kernel)).1⟩
  cases k with
  | zero => rw [← Option.some.inj he]
  | succ k => cases he

end RaftKv
