import RaftKv.Foundation.Coalesce
import RaftKv.Transport.Framing

/-! # The outbound queue of a peer

`Peer::Impl` of `transport/peer.cpp`. Frames are admitted under a mutex, posted to the
strand, queued there and written one at a time; handlers of the asynchronous operations run
on the strand in any order. A stop is requested from another thread, also in the middle of a
handler: what matters then is only whether the last call of the handler, which checks for
it, comes before or after.
-/

namespace RaftKv.Transport

structure PendingFrame where
  bytes : Bytes
  replaceableAppend : Bool := false
  sender : Nat := 0
  receiver : Nat := 0
  term : Nat := 0
  readContext : Nat := 0
  deriving DecidableEq, Repr

def PendingFrame.size (frame : PendingFrame) : Nat := frame.bytes.length

/-- The frame of a message that is encoded to these bytes. -/
def PendingFrame.of {D : Type} (message : Message D) (bytes : Bytes) : PendingFrame where
  bytes := bytes
  replaceableAppend := message.type = .appendEntries
  sender := message.sender
  receiver := message.receiver
  term := message.term
  readContext := message.readContext

/-- An AppendEntries after another one of the same term and read round. -/
def SameAppendStream (previous frame : PendingFrame) : Prop :=
  frame.replaceableAppend = true ∧ previous.replaceableAppend = true ∧
    previous.sender = frame.sender ∧ previous.receiver = frame.receiver ∧
    previous.term = frame.term ∧ previous.readContext = frame.readContext

instance (previous frame : PendingFrame) : Decidable (SameAppendStream previous frame) :=
  inferInstanceAs (Decidable (_ ∧ _))

inductive StrandTask where
  | push (frame : PendingFrame)
  | stopNow
  deriving DecidableEq, Repr

def StrandTask.frame? : StrandTask → Option PendingFrame
  | .push frame => some frame
  | .stopNow => none

/-- Asynchronous operations; a write holds on to its frame. -/
inductive Operation where
  | resolve
  | connect
  | write (frame : PendingFrame)
  | retry
  deriving DecidableEq, Repr

def Operation.frame? : Operation → Option PendingFrame
  | .write frame => some frame
  | _ => none

def Operation.isConnecting : Operation → Bool
  | .resolve => true
  | .connect => true
  | _ => false

structure Peer where
  outbound : List PendingFrame := []
  pendingFrames : Nat := 0
  pendingBytes : Nat := 0
  stopRequested : Bool := false
  stopped : Bool := false
  connected : Bool := false
  connectInProgress : Bool := false
  writeInProgress : Bool := false
  retryPending : Bool := false
  /-- Tasks posted to the strand, in order. -/
  posted : List StrandTask := []
  /-- Operations whose handlers have not run. -/
  operations : List Operation := []
  -- What is only recorded: whether a release went below zero, the frames for which
  -- `enqueue` returned true, and those whose writes completed.
  underflow : Bool := false
  accepted : List PendingFrame := []
  written : List PendingFrame := []
  deriving DecidableEq, Repr

namespace Peer

def kMaxPendingFrames : Nat := 512

def kMaxPendingBytes : Nat := kMaxPayloadSize.toNat + kHeaderSize

/-- Subtraction of sizes, which wraps. -/
def minus (a b : Nat) : Nat := if b ≤ a then a - b else a + 2 ^ 64 - b

def stopping (p : Peer) : Bool := p.stopped || p.stopRequested

def reserve (p : Peer) (bytes : Nat) : Option Peer :=
  if p.stopRequested || p.pendingFrames ≥ kMaxPendingFrames ||
      bytes > minus kMaxPendingBytes p.pendingBytes then none
  else
    some { p with
      pendingFrames := wrap64 (p.pendingFrames + 1)
      pendingBytes := wrap64 (p.pendingBytes + bytes) }

def release (p : Peer) (bytes : Nat) : Peer :=
  { p with
    pendingFrames := minus p.pendingFrames 1
    pendingBytes := minus p.pendingBytes bytes
    underflow := p.underflow || p.pendingFrames < 1 || p.pendingBytes < bytes }

def start (p : Peer) (operation : Operation) : Peer :=
  { p with operations := p.operations ++ [operation] }

def requestStop (p : Peer) : Peer :=
  if p.stopRequested then p
  else { p with stopRequested := true, posted := p.posted ++ [.stopNow] }

/-- Another thread may get in a stop request here. -/
def raced (late : Bool) (p : Peer) : Peer := if late then p.requestStop else p

/-- `enqueue`: none when it returns false. -/
def enqueue (p : Peer) (frame : PendingFrame) (late : Bool) : Option Peer :=
  (p.reserve frame.size).map fun p =>
    let p := raced late p
    { p with posted := p.posted ++ [.push frame], accepted := p.accepted ++ [frame] }

def connect (p : Peer) : Peer :=
  if p.stopping || p.connected || p.connectInProgress || p.retryPending || p.outbound.isEmpty then p
  else start { p with connectInProgress := true } .resolve

def writeNext (p : Peer) : Peer :=
  if p.stopping || !p.connected || p.writeInProgress then p
  else
    match p.outbound with
    | [] => p
    | frame :: _ => start { p with writeInProgress := true } (.write frame)

def scheduleRetry (p : Peer) : Peer :=
  if p.stopping || p.outbound.isEmpty || p.retryPending then p
  else start { p with retryPending := true } .retry

def markDisconnected (p : Peer) : Peer := { p with connected := false, writeInProgress := false }

def stopNow (p : Peer) : Peer :=
  if p.stopped then p
  else
    let p := { p with
      stopped := true
      connected := false
      connectInProgress := false
      writeInProgress := false
      retryPending := false }
    { p.outbound.foldl (fun p frame => p.release frame.size) p with outbound := [] }

/-- The queued frame that a new one replaces: the last, unless it is being written. -/
def replaced? (p : Peer) (frame : PendingFrame) : Option PendingFrame :=
  if p.writeInProgress && p.outbound.length == 1 then none
  else p.outbound.getLast?.filter fun previous => SameAppendStream previous frame

/-- The task `enqueue` posts. -/
def push (p : Peer) (frame : PendingFrame) (late : Bool) : Peer :=
  if p.stopping then p.release frame.size
  else
    match p.replaced? frame with
    | some previous =>
        let p := raced late
          (release { p with outbound := p.outbound.dropLast ++ [frame] } previous.size)
        if p.connected then p.writeNext else p
    | none =>
        let p := raced late { p with outbound := p.outbound ++ [frame] }
        if p.connected then p.writeNext else p.connect

def runTask (p : Peer) (late : Bool) : StrandTask → Peer
  | .push frame => p.push frame late
  | .stopNow => p.stopNow

/-- The handler of an operation, with success or an error. -/
def complete (p : Peer) (ok late : Bool) : Operation → Peer
  | .resolve =>
      if p.stopping then p
      else if ok then p.start .connect
      else scheduleRetry (raced late { p with connectInProgress := false })
  | .connect =>
      let p := { p with connectInProgress := false }
      if p.stopping then p
      else if ok then writeNext (raced late { p with connected := true })
      else scheduleRetry (raced late p.markDisconnected)
  | .write frame =>
      let p := { p with writeInProgress := false }
      if p.stopping then p
      else if ok then
        writeNext (raced late (release
          { p with outbound := p.outbound.tail, written := p.written ++ [frame] } frame.size))
      else scheduleRetry (raced late p.markDisconnected)
  | .retry =>
      let p := { p with retryPending := false }
      if ok && !p.stopping then connect (raced late p) else p

inductive Event (D : Type) where
  | enqueue (message : Message D) (bytes : Bytes) (late : Bool)
  /-- The strand runs its first task. -/
  | run (late : Bool)
  | complete (operation : Operation) (ok late : Bool)
  | stop
  deriving DecidableEq

variable {D : Type}

/-- One event; none when it cannot happen now. -/
def step (p : Peer) : Event D → Option Peer
  | .enqueue message bytes late => some ((p.enqueue (.of message bytes) late).getD p)
  | .run late =>
      match p.posted with
      | [] => none
      | task :: rest => some (runTask { p with posted := rest } late task)
  | .complete operation ok late =>
      if operation ∈ p.operations then
        some (complete { p with operations := p.operations.erase operation } ok late operation)
      else none
  | .stop => some p.requestStop

inductive Reach (D : Type) : Peer → Prop
  | start : Reach D {}
  | step (p next : Peer) (event : Event D) (hp : Reach D p) (hstep : p.step event = some next) :
      Reach D next

/-- The frames admitted and not done with: queued, or in tasks that have not run. -/
def queued (p : Peer) : List PendingFrame := p.outbound ++ p.posted.filterMap StrandTask.frame?

def bytesOf (frames : List PendingFrame) : Nat := (frames.map PendingFrame.size).sum

end Peer

end RaftKv.Transport
