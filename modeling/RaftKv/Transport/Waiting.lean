import RaftKv.Transport.Queue

/-! # The queue of a peer that is never reached

As long as the peer cannot be reached nothing leaves the queue. Of the frames it was given it
keeps one for every run of AppendEntries of one term and read round, and every other frame;
the frames the strand has not seen yet count in full.
-/

namespace RaftKv.Transport.Peer

variable {D : Type}

theorem enqueue_room {p : Peer} {frame : PendingFrame} (hrunning : p.stopRequested = false)
    (hframes : p.pendingFrames < kMaxPendingFrames)
    (hbytes : p.pendingBytes + frame.size ≤ kMaxPendingBytes) :
    p.enqueue frame false = some { p with
      pendingFrames := p.pendingFrames + 1
      pendingBytes := p.pendingBytes + frame.size
      posted := p.posted ++ [.push frame]
      accepted := p.accepted ++ [frame] } := by
  have hlt := kMaxPendingBytes_lt
  have hspace : minus kMaxPendingBytes p.pendingBytes = kMaxPendingBytes - p.pendingBytes :=
    if_pos (by omega)
  have hcount : wrap64 (p.pendingFrames + 1) = p.pendingFrames + 1 :=
    wrap64_of_lt (by unfold kMaxPendingFrames at hframes; omega)
  have hsum : wrap64 (p.pendingBytes + frame.size) = p.pendingBytes + frame.size :=
    wrap64_of_lt (by omega)
  have hroom : ¬ (p.stopRequested || decide (p.pendingFrames ≥ kMaxPendingFrames) ||
      decide (frame.size > minus kMaxPendingBytes p.pendingBytes)) = true := by
    rw [hspace, hrunning]
    simp only [Bool.false_or, Bool.or_eq_true, decide_eq_true_eq, not_or, not_le, not_lt]
    omega
  rw [Peer.enqueue, reserve, if_neg hroom, hcount, hsum]
  rfl

theorem reach_enqueue {p next : Peer} (hreach : Peer.Reach D p) {msg : Message D} {bytes : Bytes}
    (henqueue : p.enqueue (.of msg bytes) false = some next) : Peer.Reach D next :=
  .step p next (.enqueue msg bytes false) hreach (by rw [Peer.step, henqueue]; rfl)

/-- A queue whose peer has not been reached: every AppendEntries that could give way has. -/
structure Waiting (p : Peer) : Prop where
  connected : p.connected = false
  writing : p.writeInProgress = false
  running : p.stopRequested = false
  merged : ∃ base, p.accepted = base ++ p.posted.filterMap StrandTask.frame? ∧
    p.outbound = coalesce SameAppendStream base

theorem connect_flags (p : Peer) :
    p.connect.connected = p.connected ∧ p.connect.writeInProgress = p.writeInProgress ∧
      p.connect.stopRequested = p.stopRequested ∧ p.connect.posted = p.posted := by
  unfold Peer.connect
  split
  · exact ⟨rfl, rfl, rfl, rfl⟩
  · exact ⟨rfl, rfl, rfl, rfl⟩

theorem scheduleRetry_flags (p : Peer) :
    p.scheduleRetry.connected = p.connected ∧
      p.scheduleRetry.writeInProgress = p.writeInProgress ∧
      p.scheduleRetry.stopRequested = p.stopRequested := by
  unfold Peer.scheduleRetry
  split
  · exact ⟨rfl, rfl, rfl⟩
  · exact ⟨rfl, rfl, rfl⟩

/-- The strand queues a frame. -/
theorem Waiting.push {p : Peer} (hwaiting : Waiting p) (hsound : p.Sound) {frame : PendingFrame}
    {rest : List StrandTask} (hposted : p.posted = .push frame :: rest) :
    Waiting (Peer.push { p with posted := rest } frame false) := by
  obtain ⟨hconnected, hwriting, hrunning, base, haccepted, hmerged⟩ := hwaiting
  have hstopped : p.stopped = false := by
    rw [← Bool.not_eq_true]
    exact fun hstopped => absurd (hrunning.symm.trans (hsound.stopped hstopped)) (by decide)
  have hstopping : ({ p with posted := rest } : Peer).stopping = false := by
    simp [stopping, hstopped, hrunning]
  have hbase : p.accepted = base ++ [frame] ++ rest.filterMap StrandTask.frame? := by
    rw [haccepted, hposted, List.append_assoc]
    rfl
  have hlast : Peer.replaced? { p with posted := rest } frame =
      p.outbound.getLast?.filter fun previous => SameAppendStream previous frame := by
    simp [replaced?, hwriting]
  unfold Peer.push
  rw [if_neg (by rw [hstopping]; decide), hlast]
  split
  next previous hprevious =>
    obtain ⟨hback, hsame⟩ := Option.filter_eq_some_iff.mp hprevious
    simp only [raced, Bool.false_eq_true, if_false]
    rw [if_neg (by simp [release, hconnected])]
    refine ⟨hconnected, hwriting, hrunning, base ++ [frame], hbase, ?_⟩
    rw [coalesce_concat, ← hmerged, absorb, if_pos (by simpa [hback] using hsame)]
    rfl
  next hnone =>
    simp only [raced, Bool.false_eq_true, if_false]
    rw [if_neg (by simp [hconnected])]
    have hsame := sameQueue_connect { p with posted := rest, outbound := p.outbound ++ [frame] }
    have hflags := connect_flags { p with posted := rest, outbound := p.outbound ++ [frame] }
    refine ⟨hflags.1.trans hconnected, hflags.2.1.trans hwriting, hflags.2.2.1.trans hrunning,
      base ++ [frame], ?_, ?_⟩
    · rw [hsame.accepted, hsame.posted]
      exact hbase
    · rw [hsame.outbound, coalesce_concat, ← hmerged, absorb, if_neg ?_]
      intro hany
      cases hback : p.outbound.getLast? with
      | none => simp [hback] at hany
      | some previous =>
          rw [hback] at hany hnone
          exact Option.filter_eq_none_iff.mp hnone previous rfl hany

/-- The flags after an operation that does not reach the peer. -/
theorem complete_flags {p : Peer} (operations : List Operation) {operation : Operation} {ok : Bool}
    (hother : operation.frame? = none) (hfails : operation = .connect → ok = false)
    (hconnected : p.connected = false) (hwriting : p.writeInProgress = false) :
    let next := Peer.complete { p with operations := operations } ok false operation
    next.connected = false ∧ next.writeInProgress = false ∧
      next.stopRequested = p.stopRequested := by
  cases operation with
  | write frame => cases hother
  | resolve =>
      simp only [Peer.complete, raced, Bool.false_eq_true, if_false]
      split
      · exact ⟨hconnected, hwriting, rfl⟩
      · split
        · exact ⟨hconnected, hwriting, rfl⟩
        · have hflags := scheduleRetry_flags { p with
            operations := operations
            connectInProgress := false }
          exact ⟨hflags.1.trans hconnected, hflags.2.1.trans hwriting, hflags.2.2⟩
  | connect =>
      obtain rfl := hfails rfl
      simp only [Peer.complete, raced, Bool.false_eq_true, if_false]
      split
      · exact ⟨hconnected, hwriting, rfl⟩
      · have hflags := scheduleRetry_flags (markDisconnected { p with
          operations := operations
          connectInProgress := false })
        exact ⟨hflags.1, hflags.2.1, hflags.2.2⟩
  | retry =>
      simp only [Peer.complete, raced, Bool.false_eq_true, if_false]
      split
      · have hflags := connect_flags { p with operations := operations, retryPending := false }
        exact ⟨hflags.1.trans hconnected, hflags.2.1.trans hwriting, hflags.2.2.1⟩
      · exact ⟨hconnected, hwriting, rfl⟩

/-- No write is under way. -/
theorem Waiting.noWrite {p : Peer} (hwaiting : Waiting p) (hlive : p.Live) {operation : Operation}
    (hmem : operation ∈ p.operations) : operation.frame? = none := by
  cases operation with
  | write frame =>
      exact absurd (hwaiting.writing.symm.trans (hlive.write_done hmem).1) (by decide)
  | resolve | connect | retry => rfl

theorem Waiting.sameQueue {p : Peer} (hwaiting : Waiting p) (hlive : p.Live)
    {operation : Operation} (hmem : operation ∈ p.operations) (ok : Bool) :
    SameQueue p (Peer.complete { p with operations := p.operations.erase operation } ok false
      operation) :=
  sameQueue_complete p (p.operations.erase operation) ok false (.inl (hwaiting.noWrite hlive hmem))

/-- An attempt to reach the peer fails, or goes on. -/
theorem Waiting.complete {p : Peer} (hwaiting : Waiting p) (hlive : p.Live)
    {operation : Operation} (hmem : operation ∈ p.operations) {ok : Bool}
    (hfails : operation = .connect → ok = false) :
    Waiting (Peer.complete { p with operations := p.operations.erase operation } ok false
      operation) := by
  have hsame := hwaiting.sameQueue hlive hmem ok
  have hother := hwaiting.noWrite hlive hmem
  obtain ⟨hconnected, hwriting, hrunning, hmerged⟩ := hwaiting
  obtain ⟨hdown, hidle, hasked⟩ :=
    complete_flags (p.operations.erase operation) hother hfails hconnected hwriting
  refine ⟨hdown, hidle, hasked.trans hrunning, ?_⟩
  rw [hsame.accepted, hsame.posted, hsame.outbound]
  exact hmerged

theorem accepted_push (p : Peer) (frame : PendingFrame) (late : Bool) :
    (p.push frame late).accepted = p.accepted := by
  unfold push
  split
  · rfl
  · split
    · have hraced := sameQueue_raced late (release
        { p with outbound := p.outbound.dropLast ++ [frame] } ‹PendingFrame›.size)
      dsimp only
      split
      · exact (sameQueue_writeNext _).accepted.trans hraced.accepted
      · exact hraced.accepted
    · have hraced := sameQueue_raced late { p with outbound := p.outbound ++ [frame] }
      dsimp only
      split
      · exact (sameQueue_writeNext _).accepted.trans hraced.accepted
      · exact (sameQueue_connect _).accepted.trans hraced.accepted

/-- One event of the strand. -/
theorem Waiting.step {p next : Peer} (hwaiting : Waiting p) (hreach : Peer.Reach D p)
    {event : Peer.Event D} (hstep : p.step event = some next)
    (hrun : ∀ late, event = .run late → late = false)
    (hcomplete : ∀ operation ok late, event = .complete operation ok late →
      late = false ∧ (operation = .connect → ok = false))
    (henqueue : ∀ message bytes late, event ≠ .enqueue message bytes late)
    (hstop : event ≠ .stop) : Waiting next ∧ next.accepted = p.accepted := by
  obtain ⟨hsound, hlive⟩ := hreach.sound
  have hstopped : p.stopped = false := by
    rw [← Bool.not_eq_true]
    exact fun hstopped => absurd (hwaiting.running.symm.trans (hsound.stopped hstopped)) (by decide)
  cases event with
  | enqueue message bytes late => exact absurd rfl (henqueue message bytes late)
  | run late =>
      obtain rfl := hrun late rfl
      simp only [Peer.step] at hstep
      split at hstep
      · cases hstep
      next task rest hposted =>
        obtain rfl := Option.some.inj hstep
        cases task with
        | push frame => exact ⟨hwaiting.push hsound hposted, accepted_push _ frame false⟩
        | stopNow =>
            have hasked := hsound.posts (by rw [hposted]; exact List.mem_cons_self)
            exact absurd (hwaiting.running.symm.trans hasked) (by decide)
  | complete operation ok late =>
      obtain ⟨rfl, hfails⟩ := hcomplete operation ok late rfl
      simp only [Peer.step] at hstep
      split at hstep
      next hmem =>
        obtain rfl := Option.some.inj hstep
        exact ⟨hwaiting.complete (hlive hstopped) hmem hfails,
          (hwaiting.sameQueue (hlive hstopped) hmem ok).accepted⟩
      · cases hstep
  | stop => exact absurd rfl hstop

/-- What the counter says is bounded by the runs of frames and the tasks of the strand. -/
theorem Waiting.frames_le {p : Peer} (hwaiting : Waiting p) (hsound : p.Sound) :
    p.pendingFrames ≤ (coalesce SameAppendStream p.accepted).length + p.posted.length := by
  obtain ⟨-, -, -, base, haccepted, hmerged⟩ := hwaiting
  have hbase : (coalesce SameAppendStream base).length ≤
      (coalesce SameAppendStream p.accepted).length := by
    rw [haccepted]
    exact length_coalesce_append SameAppendStream base _
  have hposted := List.length_filterMap_le StrandTask.frame? p.posted
  rw [hsound.counts.frames_eq, queued, hmerged, List.length_append]
  omega

end RaftKv.Transport.Peer
