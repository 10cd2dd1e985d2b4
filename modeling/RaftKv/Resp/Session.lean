import Mathlib.Data.List.Infix
import RaftKv.Resp.Codec

/-! # A client session

`RespSession` as a state machine. Its handlers run one at a time on the session's
strand; a reply given inside the command handler runs at once, nested in the dispatch,
and nothing of the dispatch is left to do after the handler. So a nested reply is an
ordinary step taken while a handler call is open. Beside the fields of the source the
state counts what is outstanding and records what has happened.

A command is known by its place in the order in which the commands were handed over. Its
callback holds the 64-bit counter of that moment, so the callback of command `k` holds
`k` modulo 2^64.
-/

namespace RaftKv.Resp

/-- What can be observed of a session, in the order it happens. -/
inductive Happening where
  | decoded (commands : List Command)
  | handed (id : Nat) (command : Command)
  /-- The reply callback of a command runs. -/
  | given (id : Nat) (reply : Bytes)
  | accepted (id : Nat) (reply : Bytes)
  /-- A buffer goes to `async_write`. -/
  | write (id : Nat) (reply : Bytes)
  | written (id : Nat)
  | closed
  deriving DecidableEq, Repr

structure Session where
  decoder : Decoder
  pendingCommands : List Command := []
  writeBuffer : Bytes := []
  /-- A `uint64_t`. -/
  activeRequestId : Nat := 0
  awaitingReply : Bool := false
  writeInProgress : Bool := false
  closed : Bool := false
  /-- Outstanding `async_read_some` operations. -/
  reads : Nat := 0
  /-- Calls of the command handler that have not returned. -/
  calls : Nat := 0
  /-- Commands handed over so far. -/
  commands : Nat := 0
  trace : List Happening := []
  deriving DecidableEq, Repr

namespace Session

def note (s : Session) (happened : List Happening) : Session :=
  { s with trace := s.trace ++ happened }

@[simp] theorem note_trace (s : Session) (happened : List Happening) :
    (s.note happened).trace = s.trace ++ happened := rfl

def close (s : Session) : Session :=
  if s.closed then s else note { s with closed := true } [.closed]

def readNext (s : Session) : Session :=
  if s.closed || s.awaitingReply || s.writeInProgress || !s.pendingCommands.isEmpty then s
  else { s with reads := s.reads + 1 }

/-- Hands the next command to the handler, whose call is open from then on. -/
def dispatchNext (s : Session) : Session :=
  if s.closed || s.awaitingReply || s.writeInProgress then s
  else
    match s.pendingCommands with
    | [] => s.readNext
    | command :: rest =>
        note { s with
          pendingCommands := rest
          awaitingReply := true
          activeRequestId := wrap64 (s.activeRequestId + 1)
          calls := s.calls + 1
          commands := s.commands + 1 } [.handed (s.commands + 1) command]

/-- Decoded commands join the queue. -/
def decoded (s : Session) (fed : Fed) : Session :=
  note { s with
    decoder := fed.decoder
    pendingCommands := s.pendingCommands ++ fed.commands } [.decoded fed.commands]

/-- A read completes with an error, or with some bytes. Only a `RespProtocolError` is caught;
any other exception leaves the event loop, and there is no session any more. -/
def onRead (s : Session) : Option Bytes → Option Session
  | none => some s.close
  | some bytes =>
      if bytes.isEmpty then some s.close
      else
        match s.decoder.feed bytes with
        | .error (.protocol _) => some s.close
        | .error .length => none
        | .ok fed =>
            let s := s.decoded fed
            some (if s.pendingCommands.isEmpty then s.readNext else s.dispatchNext)

def onReply (s : Session) (requestId : Nat) (encodedReply : Bytes) : Session :=
  if s.closed || !s.awaitingReply || requestId != s.activeRequestId then s
  else
    let s := note { s with awaitingReply := false } [.accepted s.commands encodedReply]
    if encodedReply.isEmpty then s.dispatchNext
    else
      note { s with writeBuffer := encodedReply, writeInProgress := true }
        [.write s.commands encodedReply]

/-- The callback of a command runs. -/
def callback (s : Session) (command : Nat) (encodedReply : Bytes) : Session :=
  (s.note [.given command encodedReply]).onReply (wrap64 command) encodedReply

/-- Completion of the write. -/
def onWritten (s : Session) (ok : Bool) : Session :=
  let s := { s with writeInProgress := false, writeBuffer := [] }
  if !ok then s.close else (s.note [.written s.commands]).dispatchNext

end Session

inductive SessionEvent where
  | read (result : Option Bytes)
  | reply (command : Nat) (encodedReply : Bytes)
  | handlerReturns
  | handlerThrows
  | written (ok : Bool)
  | stop
  deriving DecidableEq, Repr

/-- One step. Completions wait until no handler call is open; a reply needs a callback that
was handed out. -/
def Session.step (s : Session) : SessionEvent → Option Session
  | .read result =>
      if s.reads > 0 ∧ s.calls = 0 then onRead { s with reads := s.reads - 1 } result else none
  | .reply command encodedReply =>
      if 1 ≤ command ∧ command ≤ s.commands then some (s.callback command encodedReply) else none
  | .handlerReturns => if s.calls > 0 then some { s with calls := s.calls - 1 } else none
  | .handlerThrows => if s.calls > 0 then some (close { s with calls := s.calls - 1 }) else none
  | .written ok => if s.writeInProgress ∧ s.calls = 0 then some (s.onWritten ok) else none
  | .stop => some s.close

/-- The sessions that can come about. -/
inductive Session.Reach (limits : Limits) : Session → Prop
  | start : Reach limits (readNext { decoder := { limits := limits } })
  | step (s next : Session) (event : SessionEvent) (hs : Reach limits s)
      (hstep : s.step event = some next) : Reach limits next

/-! ## Reading a trace -/

/-- The first reply a command was given. -/
def firstReply (events : List Happening) (id : Nat) : Option Bytes :=
  events.findSome? fun happening =>
    match happening with
    | .given k reply => if k = id then some reply else none
    | _ => none

/-- The first reply, unless it is empty. -/
def reply? (events : List Happening) (id : Nat) : Option Bytes :=
  (firstReply events id).filter fun reply => !reply.isEmpty

def decodedIn (events : List Happening) : List Command :=
  events.flatMap fun happening =>
    match happening with
    | .decoded commands => commands
    | _ => []

/-- Commands given to the handler, each with its number. -/
def handedIn (events : List Happening) : List (Command × Nat) :=
  events.filterMap fun happening =>
    match happening with
    | .handed id command => some (command, id)
    | _ => none

def writesIn (events : List Happening) : List Bytes :=
  events.filterMap fun happening =>
    match happening with
    | .write _ reply => some reply
    | _ => none

@[simp] theorem firstReply_append (events more : List Happening) (id : Nat) :
    firstReply (events ++ more) id = (firstReply events id).or (firstReply more id) := by
  simp [firstReply, List.findSome?_append]

@[simp] theorem decodedIn_append (events more : List Happening) :
    decodedIn (events ++ more) = decodedIn events ++ decodedIn more := by
  simp [decodedIn]

@[simp] theorem handedIn_append (events more : List Happening) :
    handedIn (events ++ more) = handedIn events ++ handedIn more := by
  simp [handedIn]

@[simp] theorem writesIn_append (events more : List Happening) :
    writesIn (events ++ more) = writesIn events ++ writesIn more := by
  simp [writesIn]

theorem firstReply_of_some {events : List Happening} {id : Nat} {reply : Bytes}
    (hfirst : firstReply events id = some reply) (more : List Happening) :
    firstReply (events ++ more) id = some reply := by
  simp [hfirst]

theorem firstReply_append_none {events more : List Happening} {id : Nat}
    (hevents : firstReply events id = none) (hmore : firstReply more id = none) :
    firstReply (events ++ more) id = none := by
  simp [hevents, hmore]

/-! ## What is handed over -/

namespace Session

/-- What has been handed over, and who can have replied. -/
structure Counted (s : Session) : Prop where
  queue : ∃ sent, decodedIn s.trace = sent ++ s.pendingCommands ∧
    handedIn s.trace = sent.zipIdx 1 ∧ sent.length = s.commands
  active : s.activeRequestId = wrap64 s.commands
  issued : ∀ k, s.commands < k → firstReply s.trace k = none

variable {s next : Session}

theorem onRead_cases {result : Option Bytes} (hread : s.onRead result = some next) :
    next = s.close ∨ ∃ fed, next = (s.decoded fed).readNext ∨
      next = (s.decoded fed).dispatchNext := by
  cases result with
  | none => exact .inl (Option.some.inj hread).symm
  | some bytes =>
      simp only [Session.onRead] at hread
      split at hread
      · exact .inl (Option.some.inj hread).symm
      · split at hread
        · exact .inl (Option.some.inj hread).symm
        · cases hread
        next fed _ =>
          refine .inr ⟨fed, ?_⟩
          split at hread
          · exact .inl (Option.some.inj hread).symm
          · exact .inr (Option.some.inj hread).symm

theorem commands_close (s : Session) : s.close.commands = s.commands := by
  unfold Session.close
  split <;> rfl

theorem commands_readNext (s : Session) : s.readNext.commands = s.commands := by
  unfold Session.readNext
  split <;> rfl

theorem commands_le_dispatchNext (s : Session) : s.commands ≤ s.dispatchNext.commands := by
  unfold Session.dispatchNext
  split
  · exact le_rfl
  · split
    · exact (commands_readNext s).ge
    · exact Nat.le_succ _

theorem commands_le_step {event : SessionEvent} (hstep : s.step event = some next) :
    s.commands ≤ next.commands := by
  cases event with
  | read result =>
      obtain ⟨-, hread⟩ := Option.ite_none_right_eq_some.mp hstep
      rcases onRead_cases hread with rfl | ⟨fed, rfl | rfl⟩
      · exact (commands_close { s with reads := s.reads - 1 }).ge
      · exact (commands_readNext (Session.decoded { s with reads := s.reads - 1 } fed)).ge
      · exact commands_le_dispatchNext (Session.decoded { s with reads := s.reads - 1 } fed)
  | reply command encodedReply =>
      obtain ⟨-, rfl⟩ := Option.ite_some_none_eq_some.mp hstep
      unfold Session.callback Session.onReply
      dsimp only
      split
      · exact le_rfl
      · split
        · exact commands_le_dispatchNext (Session.note { s.note [.given command encodedReply] with
            awaitingReply := false } [.accepted s.commands encodedReply])
        · exact le_rfl
  | handlerReturns =>
      obtain ⟨-, rfl⟩ := Option.ite_some_none_eq_some.mp hstep
      exact le_rfl
  | handlerThrows =>
      obtain ⟨-, rfl⟩ := Option.ite_some_none_eq_some.mp hstep
      exact (commands_close { s with calls := s.calls - 1 }).ge
  | written ok =>
      obtain ⟨-, rfl⟩ := Option.ite_some_none_eq_some.mp hstep
      cases ok with
      | false =>
          exact (commands_close { s with writeInProgress := false, writeBuffer := [] }).ge
      | true => exact commands_le_dispatchNext (Session.note
          { s with writeInProgress := false, writeBuffer := [] } [.written s.commands])
  | stop =>
      obtain rfl := Option.some.inj hstep
      exact (commands_close _).ge

/-- Events that neither decode nor hand over leave the count as it is. -/
theorem Counted.note (hcounted : s.Counted) {more : List Happening}
    (hdecoded : decodedIn more = []) (hhanded : handedIn more = [])
    (hissued : ∀ k, s.commands < k → firstReply more k = none) : (s.note more).Counted := by
  obtain ⟨⟨sent, hqueue, hsent, hlength⟩, hactive, hold⟩ := hcounted
  refine ⟨⟨sent, ?_, ?_, hlength⟩, hactive, fun k hk => ?_⟩
  · simpa [Session.note, hdecoded] using hqueue
  · simpa [Session.note, hhanded] using hsent
  · simp [Session.note, hold k hk, hissued k hk]

theorem Counted.close (hcounted : s.Counted) : s.close.Counted := by
  unfold Session.close
  split
  · exact hcounted
  · have hclosed : ({ s with closed := true } : Session).Counted :=
      ⟨hcounted.queue, hcounted.active, hcounted.issued⟩
    exact hclosed.note rfl rfl fun _ _ => rfl

theorem Counted.count (hcounted : s.Counted) (reads calls : Nat) :
    ({ s with reads := reads, calls := calls } : Session).Counted :=
  ⟨hcounted.queue, hcounted.active, hcounted.issued⟩

theorem Counted.readNext (hcounted : s.Counted) : s.readNext.Counted := by
  unfold Session.readNext
  split
  · exact hcounted
  · exact hcounted.count _ s.calls

theorem Counted.dispatchNext (hcounted : s.Counted) : s.dispatchNext.Counted := by
  unfold Session.dispatchNext
  split
  · exact hcounted
  · cases hpending : s.pendingCommands with
    | nil => exact hcounted.readNext
    | cons command rest =>
        obtain ⟨⟨sent, hqueue, hsent, hlength⟩, hactive, hissued⟩ := hcounted
        refine ⟨⟨sent ++ [command], ?_, ?_, ?_⟩, ?_, fun k hk => ?_⟩
        · show decodedIn (s.trace ++ [.handed (s.commands + 1) command]) = _
          rw [decodedIn_append, hqueue, hpending]
          simp [Session.note, decodedIn]
        · rw [note_trace, handedIn_append, hsent, List.zipIdx_append, hlength, Nat.add_comm]
          rfl
        · simp [Session.note, hlength]
        · show wrap64 (s.activeRequestId + 1) = wrap64 (s.commands + 1)
          rw [hactive]
          exact Nat.mod_add_mod _ _ _
        · exact firstReply_append_none (hissued k (Nat.lt_of_succ_lt hk)) rfl

theorem Counted.decoded (hcounted : s.Counted) (fed : Fed) : (s.decoded fed).Counted := by
  obtain ⟨⟨sent, hqueue, hsent, hlength⟩, hactive, hissued⟩ := hcounted
  refine ⟨⟨sent, ?_, ?_, hlength⟩, hactive, fun k hk => ?_⟩
  · rw [Session.decoded, note_trace, decodedIn_append, hqueue, List.append_assoc]
    simp [Session.note, decodedIn]
  · simpa [Session.decoded, Session.note, handedIn] using hsent
  · exact firstReply_append_none (hissued k hk) rfl

theorem Counted.onRead (hcounted : s.Counted) {result : Option Bytes}
    (hread : s.onRead result = some next) : next.Counted := by
  rcases onRead_cases hread with rfl | ⟨fed, rfl | rfl⟩
  · exact hcounted.close
  · exact (hcounted.decoded fed).readNext
  · exact (hcounted.decoded fed).dispatchNext

theorem Counted.given (hcounted : s.Counted) {command : Nat} (hhanded : command ≤ s.commands)
    (encodedReply : Bytes) : (s.note [.given command encodedReply]).Counted := by
  refine hcounted.note rfl rfl fun k hk => ?_
  simp [firstReply, show command ≠ k by omega]

theorem Counted.accepted (hcounted : s.Counted) (encodedReply : Bytes) : (Session.note
    { s with awaitingReply := false } [.accepted s.commands encodedReply]).Counted := by
  have hlowered : ({ s with awaitingReply := false } : Session).Counted :=
    ⟨hcounted.queue, hcounted.active, hcounted.issued⟩
  exact hlowered.note rfl rfl fun _ _ => rfl

theorem Counted.onReply (hcounted : s.Counted) (requestId : Nat) (encodedReply : Bytes) :
    (s.onReply requestId encodedReply).Counted := by
  obtain ⟨hqueue, hactive, hissued⟩ := hcounted.accepted encodedReply
  unfold Session.onReply
  split
  · exact hcounted
  · dsimp only
    split
    · exact (hcounted.accepted encodedReply).dispatchNext
    · have hbuffered : ({ Session.note { s with awaitingReply := false }
          [.accepted s.commands encodedReply] with
          writeBuffer := encodedReply, writeInProgress := true } : Session).Counted :=
        ⟨hqueue, hactive, hissued⟩
      exact hbuffered.note rfl rfl fun _ _ => rfl

theorem Counted.onWritten (hcounted : s.Counted) (ok : Bool) : (s.onWritten ok).Counted := by
  have hlowered : ({ s with writeInProgress := false, writeBuffer := [] } : Session).Counted :=
    ⟨hcounted.queue, hcounted.active, hcounted.issued⟩
  unfold Session.onWritten
  cases ok with
  | false => exact hlowered.close
  | true => exact (hlowered.note rfl rfl fun _ _ => rfl).dispatchNext

theorem Counted.step {event : SessionEvent} (hcounted : s.Counted)
    (hstep : s.step event = some next) : next.Counted := by
  cases event with
  | read result =>
      obtain ⟨-, hread⟩ := Option.ite_none_right_eq_some.mp hstep
      exact (hcounted.count _ s.calls).onRead hread
  | reply command encodedReply =>
      obtain ⟨⟨-, hhanded⟩, rfl⟩ := Option.ite_some_none_eq_some.mp hstep
      exact (hcounted.given hhanded encodedReply).onReply _ _
  | handlerReturns =>
      obtain ⟨-, rfl⟩ := Option.ite_some_none_eq_some.mp hstep
      exact hcounted.count s.reads _
  | handlerThrows =>
      obtain ⟨-, rfl⟩ := Option.ite_some_none_eq_some.mp hstep
      exact (hcounted.count s.reads _).close
  | written ok =>
      obtain ⟨-, rfl⟩ := Option.ite_some_none_eq_some.mp hstep
      exact hcounted.onWritten ok
  | stop =>
      obtain rfl := Option.some.inj hstep
      exact hcounted.close

theorem Reach.counted {limits : Limits} (hreach : Reach limits s) : s.Counted := by
  induction hreach with
  | start => exact Counted.readNext ⟨⟨[], rfl, rfl, rfl⟩, rfl, fun _ _ => rfl⟩
  | step s next event _ hstep ih => exact ih.step hstep

theorem Reach.foldlM {limits : Limits} {next : Session} {events : List SessionEvent}
    (hreach : Reach limits s) (hrun : events.foldlM Session.step s = some next) :
    Reach limits next := by
  induction events generalizing s with
  | nil =>
      obtain rfl := Option.some.inj hrun
      exact hreach
  | cons event rest ih =>
      obtain ⟨mid, hmid, hrest⟩ := Option.bind_eq_some_iff.mp hrun
      exact ih (hreach.step s mid event hmid) hrest

end Session

end RaftKv.Resp
