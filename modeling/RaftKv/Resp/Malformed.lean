import RaftKv.Resp.Grammar
import RaftKv.Resp.Order

/-! # Malformed input after good commands

`feed` throws in the middle of its loop, and the commands it had already taken off the
buffer go with the exception. The session closes without having seen them. Whether the
commands in front of malformed bytes run is then a matter of how the stream was cut: they
do exactly when the read that meets the malformed bytes completes no command.
-/

namespace RaftKv.Resp

open Scanner

/-- The texts of some requests one after the other. -/
inductive AreFrames (limits : Limits) : List Command → Bytes → Prop
  | nil : AreFrames limits [] []
  | cons {command : Command} {text : Bytes} {commands : List Command} {texts : Bytes}
      (hfirst : IsFrame limits command text) (hrest : AreFrames limits commands texts) :
      AreFrames limits (command :: commands) (text ++ texts)

/-- The commands in front of the rest are taken, up to one a vector cannot hold. -/
theorem AreFrames.takes {limits : Limits} {commands : List Command} {text : Bytes}
    (hframes : AreFrames limits commands text) (rest : Bytes) :
    Takes (parseCommand limits) (text ++ rest) commands rest ∨
      ∃ front command back stop, commands = front ++ command :: back ∧
        Takes (parseCommand limits) (text ++ rest) front stop ∧
        (parseCommand limits).run stop = .fail .length := by
  induction hframes with
  | nil => exact .inl (.nil _)
  | @cons command text commands texts hfirst _ ih =>
      rw [List.append_assoc]
      rcases Nat.lt_or_ge maxArguments command.arguments.length with hlong | hroom
      · refine .inr ⟨[], command, commands, _, rfl, .nil _, ?_⟩
        obtain ⟨hlimit, digits, texts', hdecimal, -, rfl⟩ := hfirst
        rw [List.append_assoc]
        exact parseCommand_oversize limits hdecimal hlimit hlong _
      · have hrun := (accepts_parseCommand limits _ _ (texts ++ rest)).mpr ⟨_, ⟨hroom, hfirst⟩, rfl⟩
        rcases ih with htakes | ⟨front, other, back, stop, rfl, htakes, hfail⟩
        · exact .inl (.cons hrun htakes)
        · exact .inr ⟨command :: front, other, back, stop, rfl, .cons hrun htakes, hfail⟩

/-- With malformed bytes behind them, the commands end there or at one a vector cannot hold. -/
theorem AreFrames.stops {limits : Limits} {commands : List Command} {text bad : Bytes}
    {error : ProtocolError} (hframes : AreFrames limits commands text)
    (hbad : (parseCommand limits).run bad = .fail (.protocol error)) :
    ∃ front back stop e, commands = front ++ back ∧
      Takes (parseCommand limits) (text ++ bad) front stop ∧
      (parseCommand limits).run stop = .fail e ∧ (back = [] ↔ ∃ error, e = .protocol error) := by
  rcases hframes.takes bad with htakes | ⟨front, command, back, stop, rfl, htakes, hfail⟩
  · exact ⟨commands, [], bad, _, (List.append_nil _).symm, htakes, hbad,
      iff_of_true rfl ⟨error, rfl⟩⟩
  · refine ⟨front, command :: back, stop, _, rfl, htakes, hfail, iff_of_false ?_ ?_⟩
    · exact List.cons_ne_nil _ _
    · rintro ⟨_, hfalse⟩
      cases hfalse

namespace Session

/-- Sessions that can come about, with the bytes they have read. -/
inductive Receives (limits : Limits) : Session → Bytes → Prop
  | start : Receives limits (readNext { decoder := { limits := limits } }) []
  | read (s next : Session) (stream bytes : Bytes) (hs : Receives limits s stream)
      (hstep : s.step (.read (some bytes)) = some next) : Receives limits next (stream ++ bytes)
  | other (s next : Session) (stream : Bytes) (event : SessionEvent) (hs : Receives limits s stream)
      (hevent : ∀ bytes, event ≠ .read (some bytes)) (hstep : s.step event = some next) :
      Receives limits next stream

/-- Bytes read in a run. -/
def bytesIn (events : List SessionEvent) : Bytes :=
  events.flatMap fun event =>
    match event with
    | .read (some bytes) => bytes
    | _ => []

theorem Receives.foldlM {limits : Limits} {s next : Session} {stream : Bytes}
    {events : List SessionEvent} (hreceives : Receives limits s stream)
    (hrun : events.foldlM step s = some next) :
    Receives limits next (stream ++ bytesIn events) := by
  induction events generalizing s stream with
  | nil =>
      obtain rfl := Option.some.inj hrun
      rwa [bytesIn, List.flatMap_nil, List.append_nil]
  | cons event rest ih =>
      obtain ⟨mid, hmid, hrest⟩ := Option.bind_eq_some_iff.mp hrun
      rw [bytesIn, List.flatMap_cons, ← bytesIn, ← List.append_assoc]
      split
      next bytes => exact ih (hreceives.read s mid stream bytes hmid) hrest
      next hother =>
        rw [List.append_nil]
        exact ih (hreceives.other s mid stream event (fun bytes h => hother bytes h) hmid) hrest

theorem Receives.reach {limits : Limits} {s : Session} {stream : Bytes}
    (hreceives : Receives limits s stream) : Reach limits s := by
  induction hreceives with
  | start => exact .start
  | read s next stream bytes _ hstep ih => exact ih.step s next _ hstep
  | other s next stream event _ _ hstep ih => exact ih.step s next _ hstep

/-! ## Reads -/

/-- Everything but a read leaves the decoder alone, and a closed session closed. -/
structure SameInput (s next : Session) : Prop where
  decoder : next.decoder = s.decoder
  decoded : decodedIn next.trace = decodedIn s.trace
  opened : next.closed = false → s.closed = false

variable {s next : Session}

theorem SameInput.trans {last : Session} (h : SameInput s next) (h' : SameInput next last) :
    SameInput s last :=
  ⟨h'.decoder.trans h.decoder, h'.decoded.trans h.decoded, fun hopen => h.opened (h'.opened hopen)⟩

theorem sameInput_note (s : Session) {more : List Happening} (hmore : decodedIn more = []) :
    SameInput s (s.note more) :=
  ⟨rfl, by simp [hmore], fun h => h⟩

theorem closed_close (s : Session) : s.close.closed = true := by
  unfold close
  split
  · assumption
  · rfl

theorem sameInput_close (s : Session) : SameInput s s.close := by
  unfold close
  split
  · exact ⟨rfl, rfl, fun h => h⟩
  · exact ⟨rfl, by simp [Session.note, decodedIn], fun h => by cases h⟩

theorem sameInput_readNext (s : Session) : SameInput s s.readNext := by
  unfold readNext
  split <;> exact ⟨rfl, rfl, fun h => h⟩

theorem sameInput_dispatchNext (s : Session) : SameInput s s.dispatchNext := by
  unfold dispatchNext
  split
  · exact ⟨rfl, rfl, fun h => h⟩
  · split
    · exact sameInput_readNext s
    · exact ⟨rfl, by simp [Session.note, decodedIn], fun h => h⟩

theorem sameInput_onReply (s : Session) (requestId : Nat) (encodedReply : Bytes) :
    SameInput s (s.onReply requestId encodedReply) := by
  unfold onReply
  split
  · exact ⟨rfl, rfl, fun h => h⟩
  · have haccepted : SameInput s (note { s with awaitingReply := false }
        [.accepted s.commands encodedReply]) :=
      ⟨rfl, by simp [Session.note, decodedIn], fun h => h⟩
    dsimp only
    split
    · exact haccepted.trans (sameInput_dispatchNext _)
    · exact haccepted.trans ⟨rfl, by simp [Session.note, decodedIn], fun h => h⟩

theorem sameInput_onWritten (s : Session) (ok : Bool) : SameInput s (s.onWritten ok) := by
  have hlowered : SameInput s { s with writeInProgress := false, writeBuffer := [] } :=
    ⟨rfl, rfl, fun h => h⟩
  unfold onWritten
  cases ok with
  | false => exact hlowered.trans (sameInput_close _)
  | true => exact (hlowered.trans (sameInput_note _ rfl)).trans (sameInput_dispatchNext _)

theorem sameInput_step {event : SessionEvent} (hevent : ∀ bytes, event ≠ .read (some bytes))
    (hstep : s.step event = some next) : SameInput s next := by
  have hcounted (reads calls : Nat) : SameInput s { s with reads := reads, calls := calls } :=
    ⟨rfl, rfl, fun h => h⟩
  cases event with
  | read result =>
      obtain ⟨-, hread⟩ := Option.ite_none_right_eq_some.mp hstep
      cases result with
      | none =>
          obtain rfl := Option.some.inj hread
          exact (hcounted _ s.calls).trans (sameInput_close _)
      | some bytes => exact absurd rfl (hevent bytes)
  | reply command encodedReply =>
      obtain ⟨-, rfl⟩ := Option.ite_some_none_eq_some.mp hstep
      have hgiven : SameInput s (s.note [.given command encodedReply]) := sameInput_note s rfl
      exact hgiven.trans (sameInput_onReply _ _ _)
  | handlerReturns =>
      obtain ⟨-, rfl⟩ := Option.ite_some_none_eq_some.mp hstep
      exact hcounted s.reads _
  | handlerThrows =>
      obtain ⟨-, rfl⟩ := Option.ite_some_none_eq_some.mp hstep
      exact (hcounted s.reads _).trans (sameInput_close _)
  | written ok =>
      obtain ⟨-, rfl⟩ := Option.ite_some_none_eq_some.mp hstep
      exact sameInput_onWritten s ok
  | stop =>
      obtain rfl := Option.some.inj hstep
      exact sameInput_close s

/-- The decoder of an open session is that of the whole stream. -/
def Decodes (limits : Limits) (stream : Bytes) (s : Session) : Prop :=
  s.decoder.limits = limits ∧
    drain (parseCommand limits) stream = .ok (decodedIn s.trace, s.decoder.buffer)

theorem SameInput.decodes {limits : Limits} {stream : Bytes} (hsame : SameInput s next)
    (hdecodes : Decodes limits stream s) : Decodes limits stream next := by
  unfold Decodes
  rw [hsame.decoder, hsame.decoded]
  exact hdecodes

/-- A read of an open session that leaves it open was decoded. -/
theorem onRead_open {bytes : Bytes} (hread : s.onRead (some bytes) = some next)
    (hopen : next.closed = false) :
    s.closed = false ∧ ∃ fed, s.decoder.feed bytes = .ok fed ∧ SameInput (s.decoded fed) next := by
  have hclose (h : some s.close = some next) : False := by
    obtain rfl := Option.some.inj h
    cases (closed_close s).symm.trans hopen
  simp only [onRead] at hread
  split at hread
  · exact (hclose hread).elim
  · split at hread
    · exact (hclose hread).elim
    · cases hread
    next fed hfeed =>
      obtain rfl := Option.some.inj hread
      split at hopen
      next hempty =>
        rw [if_pos hempty]
        have hbefore := (sameInput_readNext (s.decoded fed)).opened hopen
        exact ⟨hbefore, fed, hfeed, sameInput_readNext _⟩
      next hpending =>
        rw [if_neg hpending]
        have hbefore := (sameInput_dispatchNext (s.decoded fed)).opened hopen
        exact ⟨hbefore, fed, hfeed, sameInput_dispatchNext _⟩

theorem Receives.decodes {limits : Limits} {stream : Bytes} (hreceives : Receives limits s stream)
    (hopen : s.closed = false) : Decodes limits stream s := by
  induction hreceives with
  | start => exact (sameInput_readNext _).decodes ⟨rfl, rfl⟩
  | other s next stream event _ hevent hstep ih =>
      have hsame := sameInput_step hevent hstep
      exact hsame.decodes (ih (hsame.opened hopen))
  | read s next stream bytes _ hstep ih =>
      obtain ⟨-, hread⟩ := Option.ite_none_right_eq_some.mp hstep
      obtain ⟨hbefore, fed, hfeed, hsame⟩ := onRead_open hread hopen
      obtain ⟨hlimits, hdrain⟩ := ih hbefore
      obtain ⟨hfed, hfedLimits, -⟩ := Decoder.feed_ok hfeed
      refine hsame.decodes ⟨hfedLimits.trans hlimits, ?_⟩
      dsimp only at hfed
      rw [hlimits] at hfed
      rw [drain_append (reads_parseCommand limits) hdrain, hfed]
      simp [Session.decoded, Session.note, Except.map, decodedIn]

/-! ## A closed session -/

/-- A failed `feed` closes the session, unless nobody catches what it throws. -/
theorem onRead_of_error {bytes : Bytes} {e : DecodeError}
    (hread : s.onRead (some bytes) = some next)
    (hfeed : (∃ e, s.decoder.feed bytes = .error (.protocol e)) ∨
      s.decoder.feed bytes = .error e) : next = s.close := by
  simp only [onRead] at hread
  split at hread
  · exact (Option.some.inj hread).symm
  · split at hread
    · exact (Option.some.inj hread).symm
    · cases hread
    next fed hok =>
      rw [hok] at hfeed
      rcases hfeed with ⟨_, hfalse⟩ | hfalse
      · cases hfalse
      · cases hfalse

theorem dispatchNext_closed (hclosed : s.closed = true) : s.dispatchNext = s := by
  simp [dispatchNext, hclosed]

/-- Closed, with nothing handed over since. -/
structure Silent (s next : Session) : Prop where
  closed : next.closed = true
  handed : handedIn next.trace = handedIn s.trace

theorem Silent.trans {last : Session} (h : Silent s next) (h' : Silent next last) :
    Silent s last :=
  ⟨h'.closed, h'.handed.trans h.handed⟩

theorem silent_note {more : List Happening} (hclosed : s.closed = true)
    (hmore : handedIn more = []) :
    Silent s (s.note more) :=
  ⟨hclosed, by simp [hmore]⟩

theorem silent_close (hclosed : s.closed = true) : Silent s s.close :=
  ⟨closed_close s, by simp [close, hclosed]⟩

theorem silent_readNext (hclosed : s.closed = true) : Silent s s.readNext := by
  have hstays : s.readNext = s := by simp [readNext, hclosed]
  rw [hstays]
  exact ⟨hclosed, rfl⟩

theorem silent_dispatchNext (hclosed : s.closed = true) : Silent s s.dispatchNext := by
  rw [dispatchNext_closed hclosed]
  exact ⟨hclosed, rfl⟩

theorem silent_onRead (hclosed : s.closed = true) {result : Option Bytes}
    (hread : s.onRead result = some next) : Silent s next := by
  have hdecoded (fed : Fed) : Silent s (s.decoded fed) :=
    ⟨hclosed, by simp [Session.decoded, handedIn]⟩
  rcases onRead_cases hread with rfl | ⟨fed, rfl | rfl⟩
  · exact silent_close hclosed
  · exact (hdecoded fed).trans (silent_readNext hclosed)
  · exact (hdecoded fed).trans (silent_dispatchNext hclosed)

theorem silent_onWritten (hclosed : s.closed = true) (ok : Bool) : Silent s (s.onWritten ok) := by
  have hlowered : Silent s { s with writeInProgress := false, writeBuffer := [] } := ⟨hclosed, rfl⟩
  unfold onWritten
  cases ok with
  | false => exact hlowered.trans (silent_close hclosed)
  | true =>
      have hnoted := hlowered.trans (silent_note hlowered.closed
        (show handedIn [.written s.commands] = [] from rfl))
      exact hnoted.trans (silent_dispatchNext hnoted.closed)

/-- A closed session hands nothing over any more. -/
theorem silent_step {event : SessionEvent} (hclosed : s.closed = true)
    (hstep : s.step event = some next) : Silent s next := by
  have hcounted (reads calls : Nat) : Silent s { s with reads := reads, calls := calls } :=
    ⟨hclosed, rfl⟩
  cases event with
  | read result =>
      obtain ⟨-, hread⟩ := Option.ite_none_right_eq_some.mp hstep
      have hbefore := hcounted (s.reads - 1) s.calls
      exact hbefore.trans (silent_onRead hbefore.closed hread)
  | reply command encodedReply =>
      obtain ⟨-, rfl⟩ := Option.ite_some_none_eq_some.mp hstep
      have hignored : s.callback command encodedReply = s.note [.given command encodedReply] := by
        simp [callback, onReply, Session.note, hclosed]
      rw [hignored]
      exact silent_note hclosed rfl
  | handlerReturns =>
      obtain ⟨-, rfl⟩ := Option.ite_some_none_eq_some.mp hstep
      exact hcounted s.reads _
  | handlerThrows =>
      obtain ⟨-, rfl⟩ := Option.ite_some_none_eq_some.mp hstep
      exact (hcounted s.reads _).trans (silent_close hclosed)
  | written ok =>
      obtain ⟨-, rfl⟩ := Option.ite_some_none_eq_some.mp hstep
      exact silent_onWritten hclosed ok
  | stop =>
      obtain rfl := Option.some.inj hstep
      exact silent_close hclosed

theorem foldlM_closed {events : List SessionEvent} (hclosed : s.closed = true)
    (hrun : events.foldlM step s = some next) : handedIn next.trace = handedIn s.trace := by
  induction events generalizing s with
  | nil =>
      obtain rfl := Option.some.inj hrun
      rfl
  | cons event rest ih =>
      obtain ⟨mid, hmid, hrest⟩ := Option.bind_eq_some_iff.mp hrun
      obtain ⟨hstays, hhanded⟩ := silent_step hclosed hmid
      rw [ih hstays hrest, hhanded]

/-! ## Nothing is pending while a read is -/

/-- At most one read at a time, and only when there is nothing else to do. -/
structure Reading (s : Session) : Prop where
  once : s.reads ≤ 1
  quiet : s.closed = false → s.reads = 1 →
    s.pendingCommands = [] ∧ s.awaitingReply = false ∧ s.writeInProgress = false

theorem reading_of_none (hnone : s.reads = 0) : s.Reading :=
  ⟨by omega, fun _ hone => by omega⟩

theorem Reading.close (hreading : s.Reading) : s.close.Reading := by
  unfold Session.close
  split
  · exact hreading
  · exact ⟨hreading.once, fun h => by cases h⟩

theorem reading_readNext (hnone : s.reads = 0) : s.readNext.Reading := by
  unfold readNext
  split
  · exact reading_of_none hnone
  next hready =>
    simp only [Bool.or_eq_true, not_or, Bool.not_eq_true, Bool.not_eq_false', List.isEmpty_iff]
      at hready
    obtain ⟨⟨⟨-, hawaiting⟩, hwriting⟩, hpending⟩ := hready
    exact ⟨Nat.le_of_eq (congrArg (· + 1) hnone), fun _ _ => ⟨hpending, hawaiting, hwriting⟩⟩

theorem reading_dispatchNext (hnone : s.reads = 0) : s.dispatchNext.Reading := by
  unfold dispatchNext
  split
  · exact reading_of_none hnone
  · split
    · exact reading_readNext hnone
    · exact reading_of_none hnone

theorem reading_onRead (hnone : s.reads = 0) {result : Option Bytes}
    (hread : s.onRead result = some next) : next.Reading := by
  rcases onRead_cases hread with rfl | ⟨fed, rfl | rfl⟩
  · exact (reading_of_none hnone).close
  · exact reading_readNext hnone
  · exact reading_dispatchNext hnone

theorem Reading.onReply (hreading : s.Reading) (requestId : Nat) (encodedReply : Bytes) :
    (s.onReply requestId encodedReply).Reading := by
  unfold Session.onReply
  dsimp only
  split
  · exact hreading
  next haccepts =>
    simp only [Bool.or_eq_true, not_or, Bool.not_eq_true, Bool.not_eq_false']
      at haccepts
    obtain ⟨⟨hopen, hawaiting⟩, -⟩ := haccepts
    have hnone : s.reads = 0 := by
      have honce := hreading.once
      by_contra hsome
      have hquiet := hreading.quiet hopen (by omega)
      rw [hquiet.2.1] at hawaiting
      cases hawaiting
    split
    · exact reading_dispatchNext hnone
    · exact reading_of_none hnone

theorem Reading.onWritten (hreading : s.Reading) (hwriting : s.writeInProgress = true)
    (ok : Bool) : (s.onWritten ok).Reading := by
  have honce := hreading.once
  unfold Session.onWritten
  cases ok with
  | false => exact Reading.close ⟨honce, fun hopen hone => ⟨(hreading.quiet hopen hone).1,
      (hreading.quiet hopen hone).2.1, rfl⟩⟩
  | true =>
      by_cases hclosed : s.closed = true
      · have hstays : Session.dispatchNext (note { s with
            writeInProgress := false, writeBuffer := [] } [.written s.commands]) = _ :=
          dispatchNext_closed hclosed
        simp only [Bool.not_true, Bool.false_eq_true, if_false, hstays]
        exact ⟨honce, fun hopen => absurd hclosed (by simp [show s.closed = false from hopen])⟩
      · have hnone : s.reads = 0 := by
          by_contra hsome
          have hquiet := hreading.quiet (Bool.not_eq_true _ ▸ hclosed) (by omega)
          rw [hquiet.2.2] at hwriting
          cases hwriting
        exact reading_dispatchNext hnone

theorem Reading.step {event : SessionEvent} (hreading : s.Reading)
    (hstep : s.step event = some next) : next.Reading := by
  have honce := hreading.once
  cases event with
  | read result =>
      obtain ⟨⟨hpos, -⟩, hread⟩ := Option.ite_none_right_eq_some.mp hstep
      exact reading_onRead (by simp only; omega) hread
  | reply command encodedReply =>
      obtain ⟨-, rfl⟩ := Option.ite_some_none_eq_some.mp hstep
      have hgiven : (s.note [.given command encodedReply]).Reading :=
        ⟨hreading.once, hreading.quiet⟩
      exact hgiven.onReply _ _
  | handlerReturns =>
      obtain ⟨-, rfl⟩ := Option.ite_some_none_eq_some.mp hstep
      exact ⟨honce, hreading.quiet⟩
  | handlerThrows =>
      obtain ⟨-, rfl⟩ := Option.ite_some_none_eq_some.mp hstep
      exact Reading.close ⟨honce, hreading.quiet⟩
  | written ok =>
      obtain ⟨⟨hwriting, -⟩, rfl⟩ := Option.ite_some_none_eq_some.mp hstep
      exact hreading.onWritten hwriting ok
  | stop =>
      obtain rfl := Option.some.inj hstep
      exact hreading.close

theorem Reach.reading {limits : Limits} (hreach : Reach limits s) : s.Reading := by
  induction hreach with
  | start => exact reading_readNext rfl
  | step s next event _ hstep ih => exact ih.step hstep

/-- Every command decoded so far has been handed over when a read completes. -/
theorem Receives.handed {limits : Limits} {stream : Bytes} (hreceives : Receives limits s stream)
    (hopen : s.closed = false) (hreads : 0 < s.reads) :
    (handedIn s.trace).map Prod.fst = decodedIn s.trace := by
  obtain ⟨sent, hqueue, hhanded, -⟩ := hreceives.reach.counted.queue
  have hreading := hreceives.reach.reading
  have honce := hreading.once
  rw [hhanded, hqueue, (hreading.quiet hopen (by omega)).1, List.append_nil, List.zipIdx_map_fst]

end Session

/-- The read that meets malformed bytes closes the session. The commands in front of them in
the stream have then been handed over, as they would have been one read at a time, exactly
when that read completed none of them; the others never are. -/
theorem malformed_tail_dispatched {limits : Limits} {s next : Session}
    {stream bytes text bad : Bytes} {commands : List Command} {error : ProtocolError}
    (hreceives : Session.Receives limits s stream) (hopen : s.closed = false)
    (hstep : s.step (.read (some bytes)) = some next)
    (hstream : stream ++ bytes = text ++ bad) (hframes : AreFrames limits commands text)
    (hbad : (parseCommand limits).run bad = .fail (.protocol error)) :
    next.closed = true ∧
      ((handedIn next.trace).map Prod.fst = commands ↔
        ∃ e, (parseCommand limits).run (s.decoder.buffer ++ bytes) = .fail (.protocol e)) ∧
      ∀ (last : Session) (events : List SessionEvent), events.foldlM Session.step next = some last →
        handedIn last.trace = handedIn next.trace := by
  have hreads := reads_parseCommand limits
  obtain ⟨hlimits, hdrain⟩ := hreceives.decodes hopen
  obtain ⟨⟨hreading, -⟩, hread⟩ := Option.ite_none_right_eq_some.mp hstep
  -- what the stream holds is what was decoded before and what this read would have added
  have hbefore := (takes_of_drain hreads hdrain).append hreads.stable bytes
  obtain ⟨front, back, stop, e, rfl, hwhole, hfail, hback⟩ := hframes.stops hbad
  rw [← hstream] at hwhole
  obtain ⟨more, rfl, hmore⟩ := hwhole.of_fail hfail hbefore
  obtain rfl : next = Session.close { s with reads := s.reads - 1 } := by
    have hfeed : (∃ e, s.decoder.feed bytes = .error (.protocol e)) ∨
        s.decoder.feed bytes = .error e := by
      unfold Decoder.feed
      split
      · exact .inl ⟨_, rfl⟩
      · rw [hlimits, hmore.drain_fail hreads hfail]
        exact .inr rfl
    exact Session.onRead_of_error hread hfeed
  have hhanded : handedIn (Session.close { s with reads := s.reads - 1 }).trace =
      handedIn s.trace := by
    simp [Session.close, hopen, Session.note, handedIn]
  rw [hhanded, hreceives.handed hopen hreading]
  refine ⟨Session.closed_close _, ⟨fun hall => ?_, ?_⟩, fun last events hrun => ?_⟩
  · obtain ⟨rfl, rfl⟩ : more = [] ∧ back = [] := by simpa using hall
    cases hmore
    obtain ⟨e, rfl⟩ := hback.mp rfl
    exact ⟨e, hfail⟩
  · rintro ⟨e, he⟩
    cases hmore with
    | nil =>
        rw [he] at hfail
        rw [hback.mpr ⟨e, (Verdict.fail.inj hfail).symm⟩, List.append_nil, List.append_nil]
    | cons hrun =>
        rw [he] at hrun
        cases hrun
  · rw [Session.foldlM_closed (Session.closed_close _) hrun, hhanded]

/-- A session that has read and answered a `PING`. -/
def answeredPing : List SessionEvent :=
  [.read (some pingFrame), .reply 1 [], .handlerReturns]

theorem malformed_tail_dispatched_ping :
    ∃ s next, answeredPing.foldlM Session.step (Session.readNext { decoder := {} }) = some s ∧
      s.step (.read (some [88])) = some next ∧ next.closed = true ∧
      (handedIn next.trace).map Prod.fst = [⟨[[80, 73, 78, 71]]⟩] := by
  let run := answeredPing.foldlM Session.step (Session.readNext { decoder := {} })
  obtain ⟨s, hs⟩ := Option.isSome_iff_exists.mp (show run.isSome = true from rfl)
  obtain ⟨next, hstep⟩ : ∃ next, s.step (.read (some [88])) = some next := by
    have hsome : (run.bind fun s => s.step (.read (some [88]))).isSome = true := rfl
    rw [hs] at hsome
    exact Option.isSome_iff_exists.mp hsome
  have hopen : s.closed = false := by
    have hclosed : run.map Session.closed = some false := rfl
    rw [hs] at hclosed
    exact Option.some.inj hclosed
  have hbuffer : s.decoder.buffer = [] := by
    have hrest : (run.map fun s => s.decoder.buffer) = some [] := rfl
    rw [hs] at hrest
    exact Option.some.inj hrest
  have hping : AreFrames {} [⟨[[80, 73, 78, 71]]⟩] (pingFrame ++ []) := by
    refine .cons ?_ .nil
    obtain ⟨text, ⟨-, hframe⟩, htext⟩ :=
      (accepts_parseCommand {} pingFrame ⟨[[80, 73, 78, 71]]⟩ []).mp rfl
    rwa [htext, List.append_nil]
  obtain ⟨hclosed, hiff, -⟩ := malformed_tail_dispatched (Session.Receives.start.foldlM hs) hopen
    hstep rfl hping (show (parseCommand {}).run [88] = .fail (.protocol .expectedArray) from rfl)
  refine ⟨s, next, hs, hstep, hclosed, hiff.mpr ⟨.expectedArray, ?_⟩⟩
  rw [hbuffer]
  rfl

/-- A `PING` followed by a byte that starts no request: in one read the session closes without
having seen the command; in two it answers the command first. -/
theorem malformed_tail_swallows :
    (([.read (some (pingFrame ++ [88]))] : List SessionEvent).foldlM Session.step
      (Session.readNext { decoder := {} })).map (fun s => (s.closed, handedIn s.trace)) =
        some (true, []) ∧
    ((answeredPing ++ [SessionEvent.read (some [88])]).foldlM Session.step
      (Session.readNext { decoder := {} })).map (fun s => (s.closed, handedIn s.trace)) =
        some (true, [(⟨[[80, 73, 78, 71]]⟩, 1)]) := by
  exact ⟨rfl, rfl⟩

end RaftKv.Resp
