import RaftKv.Transport.Peer

/-! # The queue neither loses, reorders nor miscounts frames

Three invariants of every run. The counters are those of the frames queued or posted. While
the peer is not stopped, a write in progress is that of the first queued frame. And until a
stop is requested, the frames written, queued and posted are those accepted, up to
AppendEntries that gave way to their successors.
-/

namespace RaftKv.Transport.Peer

variable {D : Type} {p next : Peer}

/-! ## Counting -/

/-- The counters stand for these frames. -/
structure Counts (p : Peer) (frames : List PendingFrame) : Prop where
  frames_eq : p.pendingFrames = frames.length
  bytes_eq : p.pendingBytes = bytesOf frames
  frames_le : frames.length ≤ kMaxPendingFrames
  bytes_le : bytesOf frames ≤ kMaxPendingBytes
  exact : p.underflow = false

/-- Calls that leave the counters and the frames alone. -/
structure SameQueue (p next : Peer) : Prop where
  frames : next.pendingFrames = p.pendingFrames
  bytes : next.pendingBytes = p.pendingBytes
  underflow : next.underflow = p.underflow
  outbound : next.outbound = p.outbound
  posted : next.posted.filterMap StrandTask.frame? = p.posted.filterMap StrandTask.frame?
  accepted : next.accepted = p.accepted
  written : next.written = p.written
  stopped : next.stopped = p.stopped
  asked : p.stopRequested = true → next.stopRequested = true
  posts : StrandTask.stopNow ∈ next.posted →
    StrandTask.stopNow ∈ p.posted ∨ next.stopRequested = true

theorem SameQueue.refl (p : Peer) : SameQueue p p :=
  ⟨rfl, rfl, rfl, rfl, rfl, rfl, rfl, rfl, id, .inl⟩

theorem SameQueue.trans {last : Peer} (h : SameQueue p next) (h' : SameQueue next last) :
    SameQueue p last :=
  ⟨h'.frames.trans h.frames, h'.bytes.trans h.bytes, h'.underflow.trans h.underflow,
    h'.outbound.trans h.outbound, h'.posted.trans h.posted, h'.accepted.trans h.accepted,
    h'.written.trans h.written, h'.stopped.trans h.stopped, h'.asked ∘ h.asked, fun hpost =>
      (h'.posts hpost).elim (fun hmid => (h.posts hmid).imp_right h'.asked) .inr⟩

theorem SameQueue.queued (h : SameQueue p next) : next.queued = p.queued := by
  rw [Peer.queued, h.outbound, h.posted, Peer.queued]

theorem SameQueue.counts {frames : List PendingFrame} (h : SameQueue p next)
    (hcounts : p.Counts frames) : next.Counts frames :=
  ⟨h.frames.trans hcounts.frames_eq, h.bytes.trans hcounts.bytes_eq, hcounts.frames_le,
    hcounts.bytes_le, h.underflow.trans hcounts.exact⟩

theorem sameQueue_requestStop (p : Peer) : SameQueue p p.requestStop := by
  unfold requestStop
  split
  · exact .refl p
  · exact ⟨rfl, rfl, rfl, rfl, by simp [StrandTask.frame?], rfl, rfl, rfl, fun _ => rfl,
      fun _ => .inr rfl⟩

theorem sameQueue_raced (late : Bool) (p : Peer) : SameQueue p (raced late p) := by
  unfold raced
  split
  · exact sameQueue_requestStop p
  · exact .refl p

theorem sameQueue_connect (p : Peer) : SameQueue p p.connect := by
  unfold connect
  split
  · exact .refl p
  · exact ⟨rfl, rfl, rfl, rfl, rfl, rfl, rfl, rfl, id, .inl⟩

theorem sameQueue_writeNext (p : Peer) : SameQueue p p.writeNext := by
  unfold writeNext
  split
  · exact .refl p
  · split
    · exact .refl p
    · exact ⟨rfl, rfl, rfl, rfl, rfl, rfl, rfl, rfl, id, .inl⟩

theorem sameQueue_scheduleRetry (p : Peer) : SameQueue p p.scheduleRetry := by
  unfold scheduleRetry
  split
  · exact .refl p
  · exact ⟨rfl, rfl, rfl, rfl, rfl, rfl, rfl, rfl, id, .inl⟩

theorem bytesOf_perm {frames others : List PendingFrame} (hperm : frames.Perm others) :
    bytesOf frames = bytesOf others :=
  (hperm.map PendingFrame.size).sum_nat

theorem Counts.perm {frames others : List PendingFrame} (hcounts : p.Counts frames)
    (hperm : frames.Perm others) : p.Counts others :=
  ⟨hcounts.frames_eq.trans hperm.length_eq, hcounts.bytes_eq.trans (bytesOf_perm hperm),
    hperm.length_eq ▸ hcounts.frames_le, bytesOf_perm hperm ▸ hcounts.bytes_le, hcounts.exact⟩

theorem kMaxPendingBytes_lt : kMaxPendingBytes < 2 ^ 64 := by decide

theorem Counts.reserve {frames : List PendingFrame} {frame : PendingFrame}
    (hcounts : p.Counts frames) (hreserve : p.reserve frame.size = some next) :
    next.Counts (frames ++ [frame]) := by
  obtain ⟨hframes, hbytes, hframesLe, hbytesLe, hexact⟩ := hcounts
  have hlt := kMaxPendingBytes_lt
  have hspace : minus kMaxPendingBytes p.pendingBytes = kMaxPendingBytes - p.pendingBytes :=
    if_pos (by omega)
  have hsum : bytesOf (frames ++ [frame]) = bytesOf frames + frame.size := by
    simp [bytesOf]
  unfold Peer.reserve at hreserve
  rw [hspace] at hreserve
  split at hreserve
  · cases hreserve
  next hroom =>
    obtain rfl := Option.some.inj hreserve
    simp only [Bool.or_eq_true, decide_eq_true_eq, not_or, not_le, not_lt] at hroom
    obtain ⟨⟨-, hcount⟩, hsize⟩ := hroom
    unfold kMaxPendingFrames at hcount hframesLe
    refine ⟨?_, ?_, ?_, by omega, hexact⟩
    · rw [List.length_append, List.length_singleton, ← hframes]
      exact wrap64_of_lt (by omega)
    · rw [hsum, ← hbytes]
      exact wrap64_of_lt (by omega)
    · rw [List.length_append, List.length_singleton, kMaxPendingFrames]
      omega

theorem Counts.release {frames : List PendingFrame} {frame : PendingFrame}
    (hcounts : p.Counts (frame :: frames)) : (p.release frame.size).Counts frames := by
  obtain ⟨hframes, hbytes, hframesLe, hbytesLe, hexact⟩ := hcounts
  have hsum : bytesOf (frame :: frames) = frame.size + bytesOf frames := rfl
  rw [hsum] at hbytes hbytesLe
  rw [List.length_cons] at hframes hframesLe
  unfold kMaxPendingFrames at hframesLe
  have hless : minus p.pendingFrames 1 = p.pendingFrames - 1 := if_pos (by omega)
  have hfewer : minus p.pendingBytes frame.size = p.pendingBytes - frame.size :=
    if_pos (by omega)
  refine ⟨hless.trans (by omega), hfewer.trans (by omega), ?_, by omega, ?_⟩
  · unfold kMaxPendingFrames
    omega
  · simp only [Peer.release, hexact, Bool.false_or, Bool.or_eq_false_iff, decide_eq_false_iff_not]
    omega

/-- Releasing one frame after the other. -/
theorem Counts.releaseAll {frames rest : List PendingFrame} (hcounts : p.Counts (frames ++ rest)) :
    (frames.foldl (fun p frame => p.release frame.size) p).Counts rest := by
  induction frames generalizing p with
  | nil => exact hcounts
  | cons frame frames ih =>
      rw [List.foldl_cons]
      have hrest : (p.release frame.size).Counts (frames ++ rest) := Counts.release hcounts
      exact ih hrest

/-! ## What is being written -/

/-- The operations outstanding are those the flags tell of; a write is that of the first
queued frame. -/
structure Live (p : Peer) : Prop where
  idle : p.writeInProgress = false → p.operations.filterMap Operation.frame? = []
  busy : p.writeInProgress = true → p.connected = true ∧
    ∃ frame, p.outbound.head? = some frame ∧ p.operations.filterMap Operation.frame? = [frame]
  once : p.operations.countP Operation.isConnecting ≤ 1
  connecting : p.connectInProgress = false → p.operations.countP Operation.isConnecting = 0
  disconnected : p.connectInProgress = true → p.connected = false

/-- Another queue with the same front. -/
theorem Live.congr (hlive : p.Live)
    (hfront : p.writeInProgress = true → next.outbound.head? = p.outbound.head?)
    (hoperations : next.operations = p.operations)
    (hwriting : next.writeInProgress = p.writeInProgress)
    (hconnected : next.connected = p.connected)
    (hconnecting : next.connectInProgress = p.connectInProgress) : next.Live := by
  refine ⟨?_, ?_, ?_, ?_, ?_⟩
  · rw [hwriting, hoperations]
    exact hlive.idle
  · rw [hwriting, hoperations, hconnected]
    intro hbusy
    rw [hfront hbusy]
    exact hlive.busy hbusy
  · rw [hoperations]
    exact hlive.once
  · rw [hconnecting, hoperations]
    exact hlive.connecting
  · rw [hconnecting, hconnected]
    exact hlive.disconnected

theorem Live.release (hlive : p.Live) (bytes : Nat) : (p.release bytes).Live :=
  hlive.congr (fun _ => rfl) rfl rfl rfl rfl

theorem Live.requestStop (hlive : p.Live) : p.requestStop.Live := by
  unfold Peer.requestStop
  split
  · exact hlive
  · exact hlive.congr (fun _ => rfl) rfl rfl rfl rfl

theorem Live.raced (hlive : p.Live) (late : Bool) : (raced late p).Live := by
  unfold Peer.raced
  split
  · exact hlive.requestStop
  · exact hlive

theorem Live.connect (hlive : p.Live) : p.connect.Live := by
  unfold Peer.connect
  split
  · exact hlive
  next hguard =>
    simp only [Bool.or_eq_true, not_or, Bool.not_eq_true] at hguard
    obtain ⟨⟨⟨⟨-, hconnected⟩, hidle⟩, -⟩, -⟩ := hguard
    have hnone := hlive.connecting hidle
    have hsame : (p.operations ++ [Operation.resolve]).filterMap Operation.frame? =
        p.operations.filterMap Operation.frame? := by
      simp [Operation.frame?]
    refine ⟨?_, ?_, ?_, nofun, fun _ => hconnected⟩
    · exact fun hfree => hsame.trans (hlive.idle hfree)
    · intro hbusy
      obtain ⟨hup, -⟩ := hlive.busy hbusy
      exact absurd (hconnected.symm.trans hup) (by decide)
    · simp [start, hnone, Operation.isConnecting]

theorem Live.writeNext (hlive : p.Live) : p.writeNext.Live := by
  unfold Peer.writeNext
  split
  · exact hlive
  next hguard =>
    simp only [Bool.or_eq_true, not_or, Bool.not_eq_true, Bool.not_eq_false'] at hguard
    obtain ⟨⟨-, hconnected⟩, hidle⟩ := hguard
    have hnone := hlive.idle hidle
    split
    · exact hlive
    next frame rest heq =>
      have hcount : (p.operations ++ [Operation.write frame]).countP Operation.isConnecting =
          p.operations.countP Operation.isConnecting := by
        simp [Operation.isConnecting]
      refine ⟨nofun, ?_, ?_, ?_, hlive.disconnected⟩
      · intro _
        refine ⟨hconnected, frame, by simp [start, heq], ?_⟩
        simp [start, hnone, Operation.frame?]
      · exact hcount.trans_le hlive.once
      · exact fun hfree => hcount.trans (hlive.connecting hfree)

theorem Live.scheduleRetry (hlive : p.Live) : p.scheduleRetry.Live := by
  unfold Peer.scheduleRetry
  split
  · exact hlive
  · have hsame : (p.operations ++ [Operation.retry]).filterMap Operation.frame? =
        p.operations.filterMap Operation.frame? := by
      simp [Operation.frame?]
    have hcount : (p.operations ++ [Operation.retry]).countP Operation.isConnecting =
        p.operations.countP Operation.isConnecting := by
      simp [Operation.isConnecting]
    refine ⟨?_, ?_, ?_, ?_, hlive.disconnected⟩
    · exact fun hfree => hsame.trans (hlive.idle hfree)
    · intro hbusy
      obtain ⟨hup, frame, hfront, hone⟩ := hlive.busy hbusy
      exact ⟨hup, frame, hfront, hsame.trans hone⟩
    · exact hcount.trans_le hlive.once
    · exact fun hfree => hcount.trans (hlive.connecting hfree)

/-! ## Posted tasks -/

theorem replaced?_eq_some {frame previous : PendingFrame} (h : p.replaced? frame = some previous) :
    SameAppendStream previous frame ∧ p.outbound = p.outbound.dropLast ++ [previous] ∧
      (p.writeInProgress = true → p.outbound.length ≠ 1) := by
  unfold replaced? at h
  split at h
  · cases h
  next hidle =>
    obtain ⟨hlast, hsame⟩ := Option.filter_eq_some_iff.mp h
    refine ⟨by simpa using hsame, ?_, ?_⟩
    · exact (List.dropLast_append_getLast? previous hlast).symm
    · intro hbusy hone
      simp [hbusy, hone] at hidle

/-- What the task `enqueue` posts does to the queue. -/
inductive Pushed (p : Peer) (frame : PendingFrame) (next : Peer) : Prop
  | dropped (hstop : p.stopping = true) (h : next = p.release frame.size)
  | replaced (previous : PendingFrame) (hrunning : p.stopping = false)
      (hsame : SameAppendStream previous frame)
      (hback : p.outbound = p.outbound.dropLast ++ [previous])
      (hfree : p.writeInProgress = true → p.outbound.length ≠ 1)
      (h : SameQueue (release { p with outbound := p.outbound.dropLast ++ [frame] } previous.size)
        next)
  | queued (hrunning : p.stopping = false)
      (h : SameQueue { p with outbound := p.outbound ++ [frame] } next)

theorem push_pushed (p : Peer) (frame : PendingFrame) (late : Bool) :
    Pushed p frame (p.push frame late) := by
  unfold push
  split
  next hstop => exact .dropped hstop rfl
  next hrunning =>
    rw [Bool.not_eq_true] at hrunning
    split
    next previous hprevious =>
      obtain ⟨hsame, hback, hfree⟩ := replaced?_eq_some hprevious
      refine .replaced previous hrunning hsame hback hfree ?_
      dsimp only
      split
      · exact (sameQueue_raced late _).trans (sameQueue_writeNext _)
      · exact sameQueue_raced late _
    · refine .queued hrunning ?_
      dsimp only
      split
      · exact (sameQueue_raced late _).trans (sameQueue_writeNext _)
      · exact (sameQueue_raced late _).trans (sameQueue_connect _)

theorem Live.push (hlive : p.Live) (frame : PendingFrame) (late : Bool) :
    (p.push frame late).Live := by
  unfold Peer.push
  split
  · exact hlive.release _
  · split
    next previous hprevious =>
      obtain ⟨-, hback, hfree⟩ := replaced?_eq_some hprevious
      -- The frame being written is the first, and the replaced one another.
      have hfront : p.writeInProgress = true →
          (p.outbound.dropLast ++ [frame]).head? = p.outbound.head? := by
        intro hbusy
        have hlong := hfree hbusy
        cases hrest : p.outbound.dropLast with
        | nil =>
            rw [hrest] at hback
            exact absurd (by rw [hback]; rfl) hlong
        | cons first rest =>
            rw [hrest] at hback
            rw [hback]
            rfl
      have hswapped : Live { p with outbound := p.outbound.dropLast ++ [frame] } :=
        hlive.congr hfront rfl rfl rfl rfl
      dsimp only
      split
      · exact ((hswapped.release _).raced late).writeNext
      · exact (hswapped.release _).raced late
    · have hfront : p.writeInProgress = true →
          (p.outbound ++ [frame]).head? = p.outbound.head? := by
        intro hbusy
        obtain ⟨-, first, hfirst, -⟩ := hlive.busy hbusy
        rw [List.head?_append, hfirst]
        rfl
      have hlonger : Live { p with outbound := p.outbound ++ [frame] } :=
        hlive.congr hfront rfl rfl rfl rfl
      dsimp only
      split
      · exact (hlonger.raced late).writeNext
      · exact (hlonger.raced late).connect

/-! ## Operations that complete -/

theorem frames_erase {operations : List Operation} {operation : Operation}
    (hmem : operation ∈ operations) :
    (operations.filterMap Operation.frame?).Perm
      (operation.frame?.toList ++ (operations.erase operation).filterMap Operation.frame?) := by
  refine ((List.perm_cons_erase hmem).filterMap _).trans ?_
  cases operation <;> exact .refl _

theorem connecting_erase {operations : List Operation} {operation : Operation}
    (hmem : operation ∈ operations) :
    operations.countP Operation.isConnecting =
      (operations.erase operation).countP Operation.isConnecting +
        if operation.isConnecting then 1 else 0 := by
  rw [(List.perm_cons_erase hmem).countP_eq, List.countP_cons]

/-- An attempt to connect comes to its end; nothing is being written meanwhile. -/
theorem Live.connecting_done (hlive : p.Live) {operation : Operation}
    (hmem : operation ∈ p.operations) (hconnecting : operation.isConnecting = true) :
    p.connectInProgress = true ∧ p.writeInProgress = false ∧
      (p.operations.erase operation).filterMap Operation.frame? = [] ∧
      (p.operations.erase operation).countP Operation.isConnecting = 0 := by
  have hcount := connecting_erase hmem
  rw [if_pos hconnecting] at hcount
  have honce := hlive.once
  have hflag : p.connectInProgress = true := by
    rw [← Bool.not_eq_false]
    intro hidle
    have hzero := hlive.connecting hidle
    omega
  have hfree : p.writeInProgress = false := by
    rw [← Bool.not_eq_true]
    intro hbusy
    exact absurd ((hlive.disconnected hflag).symm.trans (hlive.busy hbusy).1) (by decide)
  have hnone : operation.frame? = none := by
    cases operation <;> first | rfl | cases hconnecting
  have hperm := frames_erase hmem
  rw [hlive.idle hfree, hnone] at hperm
  exact ⟨hflag, hfree, List.nil_perm.mp hperm, by omega⟩

/-- A write that completes is that of the first frame. -/
theorem Live.write_done (hlive : p.Live) {frame : PendingFrame}
    (hmem : Operation.write frame ∈ p.operations) :
    p.writeInProgress = true ∧ p.connected = true ∧ p.outbound.head? = some frame ∧
      (p.operations.erase (.write frame)).filterMap Operation.frame? = [] := by
  have hframe : frame ∈ p.operations.filterMap Operation.frame? :=
    List.mem_filterMap.mpr ⟨_, hmem, rfl⟩
  have hbusy : p.writeInProgress = true := by
    rw [← Bool.not_eq_false]
    intro hfree
    rw [hlive.idle hfree] at hframe
    cases hframe
  obtain ⟨hup, first, hfirst, hone⟩ := hlive.busy hbusy
  rw [hone] at hframe
  obtain rfl := List.mem_singleton.mp hframe
  have hperm := frames_erase hmem
  rw [hone] at hperm
  have hrest := List.Perm.cons_inv hperm
  exact ⟨hbusy, hup, hfirst, List.nil_perm.mp hrest⟩

theorem Live.complete (hlive : p.Live) {operation : Operation} (hmem : operation ∈ p.operations)
    (ok late : Bool) :
    (complete { p with operations := p.operations.erase operation } ok late operation).Live := by
  cases operation with
  | resolve =>
      obtain ⟨hflag, hfree, hframes, hcount⟩ := hlive.connecting_done hmem rfl
      simp only [Peer.complete]
      split
      · exact ⟨fun _ => hframes, fun hbusy => absurd (hfree.symm.trans hbusy) (by decide),
          hcount.le.trans zero_le_one, fun _ => hcount, hlive.disconnected⟩
      · split
        · refine ⟨?_, fun hbusy => absurd (hfree.symm.trans hbusy) (by decide), ?_,
            fun hidle => absurd (hidle.symm.trans hflag) (by decide), hlive.disconnected⟩
          · intro _
            simp [start, hframes, Operation.frame?]
          · simp [start, hcount, Operation.isConnecting]
        · refine ((Live.mk ?_ ?_ ?_ ?_ ?_).raced late).scheduleRetry
          · exact fun _ => hframes
          · exact fun hbusy => absurd (hfree.symm.trans hbusy) (by decide)
          · exact hcount.le.trans zero_le_one
          · exact fun _ => hcount
          · exact nofun
  | connect =>
      obtain ⟨-, hfree, hframes, hcount⟩ := hlive.connecting_done hmem rfl
      have hdone : ∀ connected, Live { p with
          operations := p.operations.erase .connect
          connectInProgress := false
          connected := connected } := fun connected =>
        ⟨fun _ => hframes, fun hbusy => absurd (hfree.symm.trans hbusy) (by decide),
          hcount.le.trans zero_le_one, fun _ => hcount, nofun⟩
      simp only [Peer.complete]
      split
      · exact hdone p.connected
      · split
        · exact ((hdone true).raced late).writeNext
        · refine (Live.raced ?_ late).scheduleRetry
          exact ⟨fun _ => hframes, nofun, hcount.le.trans zero_le_one, fun _ => hcount, nofun⟩
  | write frame =>
      obtain ⟨-, hup, -, hframes⟩ := hlive.write_done hmem
      have hcount := connecting_erase hmem
      simp only [Operation.isConnecting, Bool.false_eq_true, if_false, Nat.add_zero] at hcount
      have hdone : ∀ connected outbound written, Live { p with
          operations := p.operations.erase (.write frame)
          writeInProgress := false
          connected := connected
          outbound := outbound
          written := written } := by
        intro connected outbound written
        refine ⟨fun _ => hframes, nofun, hcount ▸ hlive.once, ?_, ?_⟩
        · exact fun hidle => hcount ▸ hlive.connecting hidle
        · intro hflag
          exact absurd ((hlive.disconnected hflag).symm.trans hup) (by decide)
      simp only [Peer.complete]
      split
      · exact hdone p.connected p.outbound p.written
      · split
        · exact (((hdone p.connected p.outbound.tail (p.written ++ [frame])).release
            frame.size).raced late).writeNext
        · exact ((hdone false p.outbound p.written).raced late).scheduleRetry
  | retry =>
      have hcount := connecting_erase hmem
      simp only [Operation.isConnecting, Bool.false_eq_true, if_false, Nat.add_zero] at hcount
      have hperm := frames_erase hmem
      have hdone : Live { p with
          operations := p.operations.erase .retry
          retryPending := false } := by
        refine ⟨?_, ?_, ?_, ?_, hlive.disconnected⟩
        · intro hfree
          rw [hlive.idle hfree] at hperm
          exact List.nil_perm.mp hperm
        · intro hbusy
          obtain ⟨hup, first, hfirst, hone⟩ := hlive.busy hbusy
          rw [hone] at hperm
          exact ⟨hup, first, hfirst, List.perm_singleton.mp hperm.symm⟩
        · exact hcount ▸ hlive.once
        · exact fun hidle => hcount ▸ hlive.connecting hidle
      simp only [Peer.complete]
      split
      · exact (hdone.raced late).connect
      · exact hdone

/-! ## Every run -/

/-- The counters and the order of the frames, with what a stop leaves behind. -/
structure Sound (p : Peer) : Prop where
  counts : p.Counts p.queued
  order : p.stopRequested = false →
    ∃ base, p.accepted = base ++ p.posted.filterMap StrandTask.frame? ∧
      Coalesced SameAppendStream base (p.written ++ p.outbound)
  stopped : p.stopped = true → p.stopRequested = true
  posts : StrandTask.stopNow ∈ p.posted → p.stopRequested = true

theorem SameQueue.sound (h : SameQueue p next) (hsound : p.Sound) : next.Sound := by
  refine ⟨?_, ?_, ?_, ?_⟩
  · rw [h.queued]
    exact h.counts hsound.counts
  · intro hrunning
    have hbefore : p.stopRequested = false := by
      rw [← Bool.not_eq_true]
      exact fun hasked => absurd (hrunning.symm.trans (h.asked hasked)) (by decide)
    rw [h.accepted, h.posted, h.written, h.outbound]
    exact hsound.order hbefore
  · rw [h.stopped]
    exact fun hstopped => h.asked (hsound.stopped hstopped)
  · intro hpost
    exact (h.posts hpost).elim (fun hmem => h.asked (hsound.posts hmem)) id

theorem reserve_eq {bytes : Nat} (hreserve : p.reserve bytes = some next) :
    p.stopRequested = false ∧ ∃ count size,
      next = { p with pendingFrames := count, pendingBytes := size } := by
  unfold reserve at hreserve
  split at hreserve
  · cases hreserve
  next hroom =>
    simp only [Bool.or_eq_true, not_or, Bool.not_eq_true] at hroom
    exact ⟨hroom.1.1, _, _, (Option.some.inj hreserve).symm⟩

theorem Sound.enqueue (hsound : p.Sound) {frame : PendingFrame} {late : Bool}
    (henqueue : p.enqueue frame late = some next) : next.Sound := by
  obtain ⟨q, hreserve, rfl⟩ := Option.map_eq_some_iff.mp henqueue
  obtain ⟨hrunning, count, size, rfl⟩ := reserve_eq hreserve
  have hsame := sameQueue_raced late { p with pendingFrames := count, pendingBytes := size }
  have hcounts := hsame.counts (hsound.counts.reserve hreserve)
  obtain ⟨base, haccepted, hcoalesced⟩ := hsound.order hrunning
  generalize raced late { p with pendingFrames := count, pendingBytes := size } = q at hsame hcounts
  refine ⟨?_, ?_, ?_, ?_⟩
  · have hqueued : Peer.queued { q with
        posted := q.posted ++ [.push frame]
        accepted := q.accepted ++ [frame] } = p.queued ++ [frame] := by
      simp only [Peer.queued, List.filterMap_append, hsame.outbound, hsame.posted,
        List.append_assoc]
      rfl
    rw [hqueued]
    exact ⟨hcounts.frames_eq, hcounts.bytes_eq, hcounts.frames_le, hcounts.bytes_le,
      hcounts.exact⟩
  · intro _
    refine ⟨base, ?_, ?_⟩
    · simp only [hsame.accepted, hsame.posted, List.filterMap_append, haccepted,
        List.append_assoc]
      rfl
    · simp only [hsame.written, hsame.outbound]
      exact hcoalesced
  · simp only [hsame.stopped]
    exact fun hstopped => hsame.asked (hsound.stopped hstopped)
  · intro hpost
    rcases List.mem_append.mp hpost with hmem | hmem
    · exact (hsame.posts hmem).elim (fun hold => hsame.asked (hsound.posts hold)) id
    · cases List.mem_singleton.mp hmem

/-- A posted frame is dropped, takes the place of the last one, or is queued. -/
theorem Sound.push (hsound : p.Sound) {frame : PendingFrame} {rest : List StrandTask}
    (hposted : p.posted = .push frame :: rest) (late : Bool) :
    (Peer.push { p with posted := rest } frame late).Sound := by
  have hframes : p.posted.filterMap StrandTask.frame? =
      frame :: rest.filterMap StrandTask.frame? := by
    rw [hposted]
    rfl
  have hposts : StrandTask.stopNow ∈ rest → p.stopRequested = true := fun hmem =>
    hsound.posts (by rw [hposted]; exact List.mem_cons_of_mem _ hmem)
  have hcounts := hsound.counts
  rw [Peer.queued, hframes] at hcounts
  cases push_pushed { p with posted := rest } frame late with
  | dropped hstop h =>
      rw [h]
      have hasked : p.stopRequested = true := by
        rcases Bool.or_eq_true_iff.mp hstop with hstopped | hasked
        · exact hsound.stopped hstopped
        · exact hasked
      have hreleased := (hcounts.perm List.perm_middle).release
      refine ⟨⟨hreleased.frames_eq, hreleased.bytes_eq, hreleased.frames_le, hreleased.bytes_le,
        hreleased.exact⟩, ?_, hsound.stopped, hposts⟩
      exact fun hrunning => absurd (hrunning.symm.trans hasked) (by decide)
  | replaced previous hrunning hsame hback hfree h =>
      refine h.sound ⟨?_, ?_, hsound.stopped, hposts⟩
      · have hperm : (p.outbound ++ frame :: rest.filterMap StrandTask.frame?).Perm
            (previous :: (p.outbound.dropLast ++ [frame] ++ rest.filterMap StrandTask.frame?)) := by
          rw [hback, List.dropLast_concat, List.append_assoc, List.append_assoc]
          exact List.perm_middle
        have hreleased := (hcounts.perm hperm).release
        exact ⟨hreleased.frames_eq, hreleased.bytes_eq, hreleased.frames_le, hreleased.bytes_le,
          hreleased.exact⟩
      · intro hidle
        obtain ⟨base, haccepted, hcoalesced⟩ := hsound.order hidle
        refine ⟨base ++ [frame], ?_, ?_⟩
        · exact haccepted.trans (by rw [hframes, List.append_assoc]; rfl)
        · rw [hback, ← List.append_assoc] at hcoalesced
          have hlast := hcoalesced.replace_last hsame
          rw [List.append_assoc] at hlast
          exact hlast
  | queued hrunning h =>
      refine h.sound ⟨?_, ?_, hsound.stopped, hposts⟩
      · have hqueued : Peer.queued { p with outbound := p.outbound ++ [frame], posted := rest } =
            p.outbound ++ frame :: rest.filterMap StrandTask.frame? := by
          simp [Peer.queued]
        rw [hqueued]
        exact ⟨hcounts.frames_eq, hcounts.bytes_eq, hcounts.frames_le, hcounts.bytes_le,
          hcounts.exact⟩
      · intro hidle
        obtain ⟨base, haccepted, hcoalesced⟩ := hsound.order hidle
        refine ⟨base ++ [frame], ?_, ?_⟩
        · exact haccepted.trans (by rw [hframes, List.append_assoc]; rfl)
        · have hmore := hcoalesced.append [frame]
          rw [List.append_assoc] at hmore
          exact hmore

/-- Releasing frames touches the counters only. -/
theorem releaseAll_eq (frames : List PendingFrame) (p : Peer) :
    ∃ count bytes underflow, frames.foldl (fun p frame => p.release frame.size) p =
      { p with pendingFrames := count, pendingBytes := bytes, underflow := underflow } := by
  induction frames generalizing p with
  | nil => exact ⟨_, _, _, rfl⟩
  | cons frame frames ih =>
      obtain ⟨count, bytes, underflow, heq⟩ := ih (p.release frame.size)
      exact ⟨count, bytes, underflow, by rw [List.foldl_cons, heq]; rfl⟩

theorem Sound.stopNow (hsound : p.Sound) {rest : List StrandTask}
    (hposted : p.posted = .stopNow :: rest) : (Peer.stopNow { p with posted := rest }).Sound := by
  have hasked := hsound.posts (by rw [hposted]; exact List.mem_cons_self)
  have hcounts := hsound.counts
  have hframes : p.posted.filterMap StrandTask.frame? = rest.filterMap StrandTask.frame? := by
    rw [hposted]
    rfl
  rw [Peer.queued, hframes] at hcounts
  unfold Peer.stopNow
  split
  · exact ⟨⟨hcounts.frames_eq, hcounts.bytes_eq, hcounts.frames_le, hcounts.bytes_le,
      hcounts.exact⟩, fun hrunning => absurd (hrunning.symm.trans hasked) (by decide),
      fun _ => hasked, fun _ => hasked⟩
  · dsimp only
    set q : Peer := { p with
      posted := rest
      stopped := true
      connected := false
      connectInProgress := false
      writeInProgress := false
      retryPending := false } with hq
    have hbefore : q.Counts (p.outbound ++ rest.filterMap StrandTask.frame?) :=
      ⟨hcounts.frames_eq, hcounts.bytes_eq, hcounts.frames_le, hcounts.bytes_le, hcounts.exact⟩
    have hafter := hbefore.releaseAll
    obtain ⟨count, bytes, underflow, heq⟩ := releaseAll_eq p.outbound q
    rw [heq] at hafter ⊢
    exact ⟨⟨hafter.frames_eq, hafter.bytes_eq, hafter.frames_le, hafter.bytes_le, hafter.exact⟩,
      fun hrunning => absurd (hrunning.symm.trans hasked) (by decide), fun _ => hasked,
      fun _ => hasked⟩

/-- Completions leave the queue alone, but for a write that succeeds. -/
theorem sameQueue_complete (p : Peer) (operations : List Operation) (ok late : Bool)
    {operation : Operation} (hother : operation.frame? = none ∨ ok = false ∨ p.stopping = true) :
    SameQueue p (complete { p with operations := operations } ok late operation) := by
  cases operation with
  | resolve =>
      simp only [complete]
      split
      · exact ⟨rfl, rfl, rfl, rfl, rfl, rfl, rfl, rfl, id, .inl⟩
      · split
        · exact ⟨rfl, rfl, rfl, rfl, rfl, rfl, rfl, rfl, id, .inl⟩
        · refine .trans (.trans ?_ (sameQueue_raced late _)) (sameQueue_scheduleRetry _)
          exact ⟨rfl, rfl, rfl, rfl, rfl, rfl, rfl, rfl, id, .inl⟩
  | connect =>
      simp only [complete]
      split
      · exact ⟨rfl, rfl, rfl, rfl, rfl, rfl, rfl, rfl, id, .inl⟩
      · split
        · refine .trans (.trans ?_ (sameQueue_raced late _)) (sameQueue_writeNext _)
          exact ⟨rfl, rfl, rfl, rfl, rfl, rfl, rfl, rfl, id, .inl⟩
        · refine .trans (.trans ?_ (sameQueue_raced late _)) (sameQueue_scheduleRetry _)
          exact ⟨rfl, rfl, rfl, rfl, rfl, rfl, rfl, rfl, id, .inl⟩
  | write frame =>
      simp only [complete]
      split
      · exact ⟨rfl, rfl, rfl, rfl, rfl, rfl, rfl, rfl, id, .inl⟩
      next hrunning =>
        rcases hother with hnone | rfl | hstop
        · cases hnone
        · rw [if_neg (by decide)]
          refine .trans (.trans ?_ (sameQueue_raced late _)) (sameQueue_scheduleRetry _)
          exact ⟨rfl, rfl, rfl, rfl, rfl, rfl, rfl, rfl, id, .inl⟩
        · exact absurd hstop hrunning
  | retry =>
      simp only [complete]
      split
      · refine .trans (.trans ?_ (sameQueue_raced late _)) (sameQueue_connect _)
        exact ⟨rfl, rfl, rfl, rfl, rfl, rfl, rfl, rfl, id, .inl⟩
      · exact ⟨rfl, rfl, rfl, rfl, rfl, rfl, rfl, rfl, id, .inl⟩

theorem Sound.complete (hsound : p.Sound) (hlive : p.stopped = false → p.Live)
    {operation : Operation} (hmem : operation ∈ p.operations) (ok late : Bool) :
    (Peer.complete { p with operations := p.operations.erase operation } ok late
      operation).Sound := by
  by_cases hother : operation.frame? = none ∨ ok = false ∨ p.stopping = true
  · exact (sameQueue_complete p _ ok late hother).sound hsound
  · obtain ⟨hwrite, hok, hrunning⟩ : operation.frame? ≠ none ∧ ok = true ∧ p.stopping = false := by
      simpa using hother
    cases operation with
    | resolve | connect | retry => exact absurd rfl hwrite
    | write frame =>
        subst hok
        have hstopped : p.stopped = false := (Bool.or_eq_false_iff.mp hrunning).1
        obtain ⟨-, -, hfront, -⟩ := (hlive hstopped).write_done hmem
        obtain ⟨rest, hqueue⟩ := List.head?_eq_some_iff.mp hfront
        have hcounts := hsound.counts
        rw [Peer.queued, hqueue, List.cons_append] at hcounts
        have hreleased := hcounts.release
        have hguard : ({ p with
            operations := p.operations.erase (.write frame)
            writeInProgress := false } : Peer).stopping = false := hrunning
        simp only [Peer.complete]
        rw [if_neg (by rw [hguard]; decide), if_pos trivial]
        refine ((sameQueue_raced late _).trans (sameQueue_writeNext _)).sound
          ⟨?_, ?_, hsound.stopped, hsound.posts⟩
        · rw [hqueue]
          exact ⟨hreleased.frames_eq, hreleased.bytes_eq, hreleased.frames_le, hreleased.bytes_le,
            hreleased.exact⟩
        · intro hidle
          obtain ⟨base, haccepted, hcoalesced⟩ := hsound.order hidle
          refine ⟨base, haccepted, ?_⟩
          rw [hqueue] at hcoalesced ⊢
          simpa [release] using hcoalesced

theorem stopped_push (p : Peer) (frame : PendingFrame) (late : Bool) :
    (p.push frame late).stopped = p.stopped := by
  cases push_pushed p frame late with
  | dropped _ h =>
      rw [h]
      rfl
  | replaced _ _ _ _ _ h => exact h.stopped
  | queued _ h => exact h.stopped

theorem stopped_stopNow (p : Peer) : p.stopNow.stopped = true := by
  unfold Peer.stopNow
  split
  next hstopped => exact hstopped
  · dsimp only
    obtain ⟨count, bytes, underflow, heq⟩ := releaseAll_eq p.outbound { p with
      stopped := true
      connected := false
      connectInProgress := false
      writeInProgress := false
      retryPending := false }
    rw [heq]

theorem stopped_complete (p : Peer) (operations : List Operation) (ok late : Bool)
    (operation : Operation) :
    (complete { p with operations := operations } ok late operation).stopped = p.stopped := by
  by_cases hother : operation.frame? = none ∨ ok = false ∨ p.stopping = true
  · exact (sameQueue_complete p operations ok late hother).stopped
  · obtain ⟨hwrite, rfl, -⟩ : operation.frame? ≠ none ∧ ok = true ∧ p.stopping = false := by
      simpa using hother
    cases operation with
    | resolve | connect | retry => exact absurd rfl hwrite
    | write frame =>
        simp only [complete]
        split
        · rfl
        · exact ((sameQueue_raced late _).trans (sameQueue_writeNext _)).stopped

theorem Live.enqueue (hlive : p.Live) {frame : PendingFrame} {late : Bool}
    (henqueue : p.enqueue frame late = some next) : next.Live := by
  obtain ⟨q, hreserve, rfl⟩ := Option.map_eq_some_iff.mp henqueue
  obtain ⟨-, count, size, rfl⟩ := reserve_eq hreserve
  have hreserved : Live { p with pendingFrames := count, pendingBytes := size } :=
    hlive.congr (fun _ => rfl) rfl rfl rfl rfl
  exact (hreserved.raced late).congr (fun _ => rfl) rfl rfl rfl rfl

theorem stopped_enqueue {frame : PendingFrame} {late : Bool}
    (henqueue : p.enqueue frame late = some next) : next.stopped = p.stopped := by
  obtain ⟨q, hreserve, rfl⟩ := Option.map_eq_some_iff.mp henqueue
  obtain ⟨-, count, size, rfl⟩ := reserve_eq hreserve
  exact (sameQueue_raced late _).stopped

theorem Reach.sound (hreach : Reach D p) : p.Sound ∧ (p.stopped = false → p.Live) := by
  induction hreach with
  | start =>
      refine ⟨⟨⟨rfl, rfl, Nat.zero_le _, Nat.zero_le _, rfl⟩, fun _ => ⟨[], rfl, .nil⟩, nofun,
        nofun⟩, fun _ => ?_⟩
      exact ⟨fun _ => rfl, nofun, Nat.zero_le _, fun _ => rfl, nofun⟩
  | step p next event hp hstep ih =>
      obtain ⟨hsound, hlive⟩ := ih
      cases event with
      | enqueue message bytes late =>
          obtain rfl := Option.some.inj hstep
          cases henqueue : p.enqueue (.of message bytes) late with
          | none => exact ⟨hsound, hlive⟩
          | some next =>
              refine ⟨hsound.enqueue henqueue, fun hstopped => ?_⟩
              exact (hlive ((stopped_enqueue henqueue).symm.trans hstopped)).enqueue henqueue
      | run late =>
          simp only [Peer.step] at hstep
          split at hstep
          · cases hstep
          next task rest hposted =>
            obtain rfl := Option.some.inj hstep
            cases task with
            | push frame =>
                refine ⟨hsound.push hposted late, fun hstopped => ?_⟩
                have hkept := stopped_push { p with posted := rest } frame late
                have hpopped : Live { p with posted := rest } :=
                  (hlive (hkept.symm.trans hstopped)).congr (fun _ => rfl) rfl rfl rfl rfl
                exact hpopped.push frame late
            | stopNow =>
                refine ⟨hsound.stopNow hposted, fun hstopped => ?_⟩
                exact absurd ((stopped_stopNow _).symm.trans hstopped) (by decide)
      | complete operation ok late =>
          simp only [Peer.step] at hstep
          split at hstep
          next hmem =>
            obtain rfl := Option.some.inj hstep
            refine ⟨hsound.complete hlive hmem ok late, fun hstopped => ?_⟩
            have hbefore := hlive ((stopped_complete p _ ok late operation).symm.trans hstopped)
            exact hbefore.complete hmem ok late
          · cases hstep
      | stop =>
          obtain rfl := Option.some.inj hstep
          have hsame := sameQueue_requestStop p
          refine ⟨hsame.sound hsound, fun hstopped => ?_⟩
          exact (hlive (hsame.stopped.symm.trans hstopped)).requestStop

/-- In every run the counters are those of the frames queued and posted, within the caps and
without a release below zero; the frame being written stays the first of the queue; and
until a stop is requested the frames written, then those queued, then those posted are the
accepted ones in their order, but for AppendEntries that the very next accepted frame, an
AppendEntries of the same sender, receiver, term and read round, has replaced. -/
theorem peer_queue_exact (hreach : Reach D p) :
    (p.pendingFrames = p.queued.length ∧ p.pendingBytes = bytesOf p.queued) ∧
      (p.pendingFrames ≤ kMaxPendingFrames ∧ p.pendingBytes ≤ kMaxPendingBytes) ∧
      p.underflow = false ∧
      (p.stopped = false → ∀ frame, Operation.write frame ∈ p.operations →
        p.outbound.head? = some frame) ∧
      (p.stopRequested = false →
        Coalesced SameAppendStream p.accepted (p.written ++ p.queued)) := by
  obtain ⟨⟨hcounts, horder, -, -⟩, hlive⟩ := hreach.sound
  refine ⟨⟨hcounts.frames_eq, hcounts.bytes_eq⟩, ⟨?_, ?_⟩, hcounts.exact, ?_, ?_⟩
  · exact hcounts.frames_eq.trans_le hcounts.frames_le
  · exact hcounts.bytes_eq.trans_le hcounts.bytes_le
  · intro hstopped frame hwrite
    exact ((hlive hstopped).write_done hwrite).2.2.1
  · intro hrunning
    obtain ⟨base, haccepted, hcoalesced⟩ := horder hrunning
    rw [haccepted, queued, ← List.append_assoc]
    exact hcoalesced.append _

theorem Reach.foldlM {events : List (Event D)} (hreach : Reach D p)
    (hrun : events.foldlM Peer.step p = some next) : Reach D next := by
  induction events generalizing p with
  | nil =>
      obtain rfl := Option.some.inj hrun
      exact hreach
  | cons event events ih =>
      rw [List.foldlM_cons] at hrun
      obtain ⟨q, hstep, hrest⟩ := Option.bind_eq_some_iff.mp hrun
      exact ih (.step p q event hreach hstep) hrest

/-- An AppendEntries of term 1 from node 1 to node 2. -/
def appendToTwo : Message Bytes :=
  { (Message.default : Message Bytes) with
    type := .appendEntries, sender := 1, receiver := 2, term := 1 }

/-- Three AppendEntries; the second gives way to the third while the first is written. -/
def threeAppends : List (Event Bytes) :=
  [.enqueue appendToTwo [1] false, .run false, .complete .resolve true false,
    .complete .connect true false, .enqueue appendToTwo [2, 2] false, .run false,
    .enqueue appendToTwo [3, 3, 3] false, .run false,
    .complete (.write (.of appendToTwo [1])) true false]

theorem peer_queue_exact_three :
    ∃ p, threeAppends.foldlM Peer.step {} = some p ∧ p.pendingBytes = bytesOf p.queued ∧
      p.outbound = [.of appendToTwo [3, 3, 3]] ∧
      Coalesced SameAppendStream p.accepted (p.written ++ p.queued) := by
  have hrun : (threeAppends.foldlM Peer.step {}).map (fun p => (p.outbound, p.stopRequested)) =
      some ([.of appendToTwo [3, 3, 3]], false) := by decide
  obtain ⟨p, hp, hparts⟩ := Option.map_eq_some_iff.mp hrun
  obtain ⟨houtbound, hrunning⟩ := Prod.mk.inj hparts
  obtain ⟨⟨-, hbytes⟩, -, -, -, horder⟩ := peer_queue_exact (Reach.start.foldlM hp)
  exact ⟨p, hp, hbytes, houtbound, horder hrunning⟩

end RaftKv.Transport.Peer
