import RaftKv.Node.Boot
import RaftKv.Raft.Input
import RaftKv.Store.KVStore

/-! # The two loops of a node

`NodeRuntime` of `app/node_runtime.cpp`. The Raft object is used on one loop and the
store on another; each runs the tasks posted to it one at a time, in the order they
were posted, and all that passes between the two are such tasks and the stop flag.

While `restore_snapshot` waits for the store loop, the Raft loop is inside a handler.
Nothing else looks at the Raft object then, so the model leaves it as it was and runs the
whole handler once the verdict is there.
-/

namespace RaftKv

/-- What a client is told when its request is turned down. -/
inductive Refusal where
  /-- `NOT_LEADER` and the leader's id, or `UNKNOWN` for none. -/
  | notLeader (leader : Nat)
  /-- `TRYAGAIN storage unavailable`. -/
  | storageUnavailable
  /-- `TRYAGAIN write outcome unknown`. -/
  | outcomeUnknown
  /-- `TRYAGAIN read quorum unavailable`. -/
  | quorumUnavailable
  /-- `TRYAGAIN node stopping`. -/
  | stopping
  deriving DecidableEq, Repr

inductive Reply where
  | ok
  | affected (keys : Nat)
  | value (found : Option Bytes)
  | error (refusal : Refusal)
  deriving DecidableEq, Repr

/-- Why a node stops itself. -/
inductive StopReason where
  | walFailed
  | outboundExhausted
  | encodeFailed
  | applyGap
  | applyFailed
  | acknowledgmentOutOfOrder
  | acknowledgmentRejected
  | restoreTimedOut
  deriving DecidableEq, Repr

inductive RaftTask (D : Type) where
  | message (msg : Message D)
  | propose (requestId : Nat) (bytes : Bytes)
  | read (requestId : Nat)
  | acknowledge (index : Nat)
  | cancelRead (requestId : Nat)
  | takeSnapshot (index : Nat) (state : D)
  | stop
  deriving DecidableEq

inductive StoreTask (D : Type) where
  | apply (entry : Entry)
  | rejectWrite (requestId : Nat) (error : Refusal)
  | rejectRead (requestId : Nat) (error : Refusal)
  | completeRead (requestId : Nat)
  | capture
  | restore (index : Nat) (state : D)
  | stop
  deriving DecidableEq

/-- What `Peer::send` does with a message: it is queued, the queue is full, or encoding it
throws. -/
inductive Sending where
  | queued
  | full
  | threw
  deriving DecidableEq, Repr

/-- What the outside decides during one task of the Raft loop: the outcome of each flush,
the random draws, and what becomes of the messages it sends. -/
structure Turn where
  device : List SyncResult := []
  draws : List Nat := []
  sends : List Sending := []
  deriving DecidableEq, Repr

def Turn.env (turn : Turn) (restored : Bool) : Env := ⟨turn.device, turn.draws, some restored⟩

/-- A request as a client made it; its callback is known by its position in the list of
all requests. -/
inductive Request where
  | write (command : Command)
  | read (requestId : Nat) (key : Bytes)
  deriving DecidableEq, Repr

structure PendingRead where
  key : Bytes
  reply : Nat
  deriving DecidableEq, Repr

structure Runtime (D : Type) where
  config : Config
  -- members of the Raft loop
  raft : Raft D
  raftReadIndexes : Table ReadIndexToken := Table.empty
  applyInFlight : Option Nat := none
  snapshotCapturePending : Bool := false
  /-- The snapshot message in whose handler the loop waits for the store. -/
  waiting : Option (Turn × Message D) := none
  raftTasks : List (RaftTask D) := []
  -- members of the store loop
  store : KVStore := ∅
  storeAppliedIndex : Nat := 0
  /-- The callback of each write that has no reply yet. -/
  pendingWrites : Table Nat := Table.empty
  pendingReads : Table PendingRead := Table.empty
  nextRequestId : Nat
  /-- The promise that `restore_snapshot` waits for. -/
  restored : Option Bool := none
  storeTasks : List (StoreTask D) := []
  stopping : Bool := false
  -- what the node has done, for the statements: nothing below is read by it
  stops : List StopReason := []
  requests : List Request := []
  replies : List (Nat × Reply) := []
  /-- Where the store stood at start-up or after the last snapshot it was given. -/
  baseIndex : Nat := 0
  baseStore : KVStore := ∅
  /-- The entries processed into the store since. -/
  processed : List Entry := []

namespace Runtime

variable {D : Type}

def postRaft (n : Runtime D) (task : RaftTask D) : Runtime D :=
  { n with raftTasks := n.raftTasks ++ [task] }

def postStore (n : Runtime D) (task : StoreTask D) : Runtime D :=
  { n with storeTasks := n.storeTasks ++ [task] }

/-- The first request to stop posts the task that ends the loops. -/
def stopOnce (n : Runtime D) : Runtime D :=
  if n.stopping then n else { n with stopping := true }.postRaft .stop

def requestStop (n : Runtime D) (reason : StopReason) : Runtime D :=
  { n with stops := n.stops ++ [reason] }.stopOnce

/-! ## The Raft loop -/

def notLeaderError (n : Runtime D) : Refusal := .notLeader n.raft.lead

def dispatchNextCommittedEntry (n : Runtime D) : Runtime D :=
  if n.applyInFlight.isSome || n.stopping then n
  else
    match n.raft.nextEntryToApply with
    | none => n
    | some entry => { n with applyInFlight := some entry.index }.postStore (.apply entry)

/-- Requests that wait for the given round. -/
def sharing (n : Runtime D) (read : ReadIndexToken) : List Nat :=
  (n.raftReadIndexes.filter (· = read)).keys

def pollReadIndexes (n : Runtime D) : Runtime D :=
  if n.raftReadIndexes.entries.isEmpty then n
  else if n.raft.state ≠ .leader then
    { n with
      raftReadIndexes := Table.empty
      storeTasks := n.storeTasks ++
        n.raftReadIndexes.keys.map (.rejectRead · n.notLeaderError) }
  else
    match n.raftReadIndexes.values.find? n.raft.readIndexReady with
    | none => n
    | some ready =>
        { n with
          raftReadIndexes := n.raftReadIndexes.filter (· ≠ ready)
          raft := n.raft.finishReadIndex ready
          storeTasks := n.storeTasks ++ (n.sharing ready).map .completeRead }

def maybeCaptureSnapshot (n : Runtime D) : Runtime D :=
  if n.snapshotCapturePending || !n.raft.shouldSnapshot then n
  else { n with snapshotCapturePending := true }.postStore .capture

/-- The frames the peers' queues take, and why sending ended early, if it did; messages to
anyone else are skipped. -/
def sendAll (peers : List Nat) :
    List Sending → List (Message D) → List (Message D) × Option StopReason
  | _, [] => ([], none)
  | sends, msg :: rest =>
      if msg.receiver ∉ peers then sendAll peers sends rest
      else
        match sends with
        | .full :: _ => ([], some .outboundExhausted)
        | .threw :: _ => ([], some .encodeFailed)
        | sends =>
            let (sent, failure) := sendAll peers sends.tail rest
            (msg :: sent, failure)

def flushRaftMessages (turn : Turn) (n : Runtime D) : Runtime D × List (Message D) :=
  let (raft, msgs) := n.raft.readMessages
  let (sent, failure) := sendAll (n.config.peers.filter (· ≠ n.config.id)) turn.sends msgs
  let n := { n with raft := raft }
  (match failure with
    | none => n
    | some reason => n.requestStop reason, sent)

def afterRaftActivity (turn : Turn) (n : Runtime D) : Runtime D × List (Message D) :=
  if n.raft.storageFailed then (n.requestStop .walFailed, [])
  else flushRaftMessages turn
    n.dispatchNextCommittedEntry.pollReadIndexes.maybeCaptureSnapshot

def cancelRaftRead (n : Runtime D) (requestId : Nat) : Runtime D :=
  match n.raftReadIndexes.get? requestId with
  | none => n
  | some read =>
      let n := { n with raftReadIndexes := n.raftReadIndexes.erase requestId }
      if n.raftReadIndexes.values.any (· = read) then n
      else { n with raft := n.raft.finishReadIndex read }

variable [Blob D]

/-- A call of the Raft object, with the verdict its restore callback would give. -/
def callRaft (turn : Turn) (restored : Bool) (input : Input D) (n : Runtime D) : Runtime D :=
  { n with raft := (n.raft.arm (turn.env restored)).step input }

/-- Whether `handle_install_snapshot` gets as far as its callback. -/
def asksRestore (turn : Turn) (n : Runtime D) (msg : Message D) : Bool :=
  let (r, ready) := (n.raft.arm (turn.env false)).prepareForLeaderRpc msg
  ready && msg.type = .installSnapshot &&
    !(msg.snapshotIndex = 0 || msg.snapshotTerm = 0 || msg.snapshotTerm > msg.term ||
      Blob.isEmpty msg.snapshotData) &&
    !(r.commitIndex > msg.snapshotIndex || r.lastApplied ≥ msg.snapshotIndex)

/-- The callback refuses while an entry is being applied; otherwise it hands the state to
the store loop and waits. -/
def handleRaftMessage (turn : Turn) (n : Runtime D) (msg : Message D) :
    Runtime D × List (Message D) :=
  match msg.type with
  | .unknown _ => (n, [])
  | _ =>
      if n.asksRestore turn msg && n.applyInFlight.isNone && !n.stopping then
        ({ n with waiting := some (turn, msg), restored := none }.postStore
          (.restore msg.snapshotIndex msg.snapshotData), [])
      else afterRaftActivity turn (n.callRaft turn false (.message msg))

def proposeTask (turn : Turn) (n : Runtime D) (requestId : Nat) (bytes : Bytes) :
    Runtime D × List (Message D) :=
  let (raft, accepted) := (n.raft.arm (turn.env false)).propose bytes
  let n := { n with raft := raft }
  let n :=
    match accepted with
    | some _ => n
    | none => n.postStore (.rejectWrite requestId
        (if n.raft.storageFailed then .storageUnavailable else n.notLeaderError))
  afterRaftActivity turn n

def readTask (turn : Turn) (n : Runtime D) (requestId : Nat) : Runtime D × List (Message D) :=
  let (raft, read) := (n.raft.arm (turn.env false)).readIndex
  let n := { n with raft := raft }
  let n :=
    match read with
    | none => n.postStore (.rejectRead requestId n.notLeaderError)
    | some read => { n with raftReadIndexes := n.raftReadIndexes.insert requestId read }
  afterRaftActivity turn n

/-- The task posted by `acknowledge_applied`. -/
def acknowledgeTask (turn : Turn) (n : Runtime D) (index : Nat) : Runtime D × List (Message D) :=
  if index ≤ n.raft.lastApplied then (n, [])
  else if n.applyInFlight ≠ some index ∨ index ≠ wrap64 (n.raft.lastApplied + 1) then
    (n.requestStop .acknowledgmentOutOfOrder, [])
  else
    let n := n.callRaft turn false (.advance index)
    if n.raft.lastApplied ≠ index then (n.requestStop .acknowledgmentRejected, [])
    else afterRaftActivity turn { n with applyInFlight := none }

def tick (turn : Turn) (n : Runtime D) : Runtime D × List (Message D) :=
  if n.stopping then (n, []) else afterRaftActivity turn (n.callRaft turn false .tick)

def runRaftTask (turn : Turn) (n : Runtime D) : RaftTask D → Runtime D × List (Message D)
  | .message msg => if n.stopping then (n, []) else n.handleRaftMessage turn msg
  | .propose requestId bytes => if n.stopping then (n, []) else n.proposeTask turn requestId bytes
  | .read requestId => if n.stopping then (n, []) else n.readTask turn requestId
  | .acknowledge index => if n.stopping then (n, []) else n.acknowledgeTask turn index
  -- unlike the others this one runs on a stopping node too
  | .cancelRead requestId => (n.cancelRaftRead requestId, [])
  | .takeSnapshot index state =>
      let n := { n with snapshotCapturePending := false }
      if n.stopping then (n, [])
      else afterRaftActivity turn (n.callRaft turn false (.takeSnapshot index state))
  | .stop => (n.postStore .stop, [])

/-- From now on the store builds on the snapshot it has been given. -/
def rebase (n : Runtime D) : Runtime D :=
  { n with baseIndex := n.storeAppliedIndex, baseStore := n.store, processed := [] }

/-- The handler, once `restore_snapshot` has returned. -/
def resume (n : Runtime D) (turn : Turn) (msg : Message D) (verdict : Bool) :
    Runtime D × List (Message D) :=
  let n := if verdict then n.rebase else n
  afterRaftActivity turn ({ n with waiting := none }.callRaft turn verdict (.message msg))

/-! ## The store loop -/

def reply (n : Runtime D) (callback : Nat) (answer : Reply) : Runtime D :=
  { n with replies := n.replies ++ [(callback, answer)] }

/-- Reply to a pending write and forget it. -/
def answerWrite (n : Runtime D) (requestId : Nat) (answer : Reply) : Runtime D :=
  match n.pendingWrites.get? requestId with
  | none => n
  | some callback =>
      { n with pendingWrites := n.pendingWrites.erase requestId }.reply callback answer

def answerRead (n : Runtime D) (requestId : Nat) (answer : PendingRead → Reply) : Runtime D :=
  match n.pendingReads.get? requestId with
  | none => n
  | some pending =>
      { n with pendingReads := n.pendingReads.erase requestId }.reply pending.reply
        (answer pending)

def rejectWrite (n : Runtime D) (requestId : Nat) (error : Refusal) : Runtime D :=
  n.answerWrite requestId (.error error)

def rejectRead (n : Runtime D) (requestId : Nat) (error : Refusal) : Runtime D :=
  n.answerRead requestId fun _ => .error error

def completeRead (n : Runtime D) (requestId : Nat) : Runtime D :=
  n.answerRead requestId fun pending => .value (n.store.get pending.key)

def completeWrite (n : Runtime D) (result : ApplyResult) : Runtime D :=
  n.answerWrite result.requestId (if result.type = .set then .ok else .affected result.affected)

/-- Zero is never given out. -/
def allocateRequestId (n : Runtime D) : Runtime D × Nat :=
  let successor := fun id => if wrap64 (id + 1) = 0 then 1 else wrap64 (id + 1)
  if n.nextRequestId = 0 then ({ n with nextRequestId := 2 }, 1)
  else ({ n with nextRequestId := successor n.nextRequestId }, n.nextRequestId)

/-- `emplace` keeps what is there. -/
def emplace {α : Type} (table : Table α) (key : Nat) (value : α) : Table α :=
  if (table.get? key).isSome then table else table.insert key value

def beginWrite (codec : StoreCodec D) (n : Runtime D) (type : CommandType) (strs : List Bytes) :
    Runtime D :=
  let (n, requestId) := n.allocateRequestId
  let command : Command := ⟨type, strs, n.config.id, requestId⟩
  { n with
    pendingWrites := emplace n.pendingWrites requestId n.requests.length
    requests := n.requests ++ [Request.write command] }.postRaft
      (.propose requestId (codec.packCommand command))

def beginRead (n : Runtime D) (key : Bytes) : Runtime D :=
  let (n, requestId) := n.allocateRequestId
  { n with
    pendingReads := emplace n.pendingReads requestId ⟨key, n.requests.length⟩
    requests := n.requests ++ [Request.read requestId key] }.postRaft (.read requestId)

def acknowledgeApplied (n : Runtime D) (index : Nat) : Runtime D := n.postRaft (.acknowledge index)

/-- The end of `apply_committed_entry`. -/
def applied (n : Runtime D) (entry : Entry) : Runtime D :=
  { n with
    storeAppliedIndex := entry.index
    processed := n.processed ++ [entry] }.acknowledgeApplied entry.index

def applyCommittedEntry (codec : StoreCodec D) (n : Runtime D) (entry : Entry) : Runtime D :=
  if n.stopping then n
  else if entry.index ≤ n.storeAppliedIndex then n.acknowledgeApplied entry.index
  else if entry.index ≠ wrap64 (n.storeAppliedIndex + 1) then n.requestStop .applyGap
  else if KVStore.Carries entry then
    match n.store.apply codec entry with
    | none => n.requestStop .applyFailed
    | some (store, result) =>
        let n := { n with store := store }
        let n := if result.originNode = n.config.id then n.completeWrite result else n
        n.applied entry
  else n.applied entry

/-- The clients whose deadlines have passed; their read rounds are cancelled. -/
def expireClientRequests (n : Runtime D) (writes reads : List Nat) : Runtime D :=
  let n := (n.pendingWrites.keys.filter (· ∈ writes)).foldl
    (fun n requestId => n.rejectWrite requestId .outcomeUnknown) n
  (n.pendingReads.keys.filter (· ∈ reads)).foldl (fun n requestId =>
    (n.rejectRead requestId .quorumUnavailable).postRaft (.cancelRead requestId)) n

/-- The task posted by `stop_on_raft_loop`. -/
def stopClients (n : Runtime D) : Runtime D :=
  { n with
    pendingWrites := Table.empty
    pendingReads := Table.empty
    replies := n.replies ++ n.pendingWrites.values.map (·, .error .stopping) ++
      n.pendingReads.values.map fun pending => (pending.reply, .error .stopping) }

def runStoreTask (codec : StoreCodec D) (n : Runtime D) : StoreTask D → Runtime D
  | .apply entry => n.applyCommittedEntry codec entry
  | .rejectWrite requestId error => n.rejectWrite requestId error
  | .rejectRead requestId error => n.rejectRead requestId error
  | .completeRead requestId => n.completeRead requestId
  | .capture => n.postRaft (.takeSnapshot n.storeAppliedIndex (codec.serialize n.store))
  | .restore index state =>
      match codec.deserialize state with
      | none => { n with restored := some false }
      | some store =>
          { n with store := store, storeAppliedIndex := index, restored := some true }
  | .stop => n.stopClients

/-! ## Start-up -/

/-- The loop of `recover_storage` over the recovered entries; none when it throws. -/
def replayStore (codec : StoreCodec D) (snapshotIndex : Nat) :
    Raft D → KVStore → Nat → List Entry → Option (Raft D × KVStore × Nat)
  | r, store, applied, [] => some (r, store, applied)
  | r, store, applied, e :: rest =>
      if e.index ≤ snapshotIndex then replayStore codec snapshotIndex r store applied rest
      else if e.index > r.commitIndex then some (r, store, applied)
      else if e.index ≠ wrap64 (applied + 1) then none
      else
        (store.process codec e).bind fun store =>
          replayStore codec snapshotIndex (r.advance e.index) store e.index rest

/-- The store that the recovered snapshot holds, and the index it stands for. -/
def storeOf (codec : StoreCodec D) (snap : SnapshotMeta D) : Option (KVStore × Nat) :=
  if snap.isEmpty then some (∅, 0) else (codec.deserialize snap.state).map (·, snap.index)

/-- The Raft object, the store and its applied index, rebuilt from the records of the WAL. -/
def recoverStorage (codec : StoreCodec D) (config : Config) (draws : List Nat)
    (file : List (Record D)) : Option (Raft D × KVStore × Nat) := do
  let r ← Raft.new config draws
  let st := replay file
  let (store, applied) ← storeOf codec st.snapshot
  let r ← r.restore st.hardState st.entries st.snapshot
  let (r, store, applied) ← replayStore codec st.snapshot.index r store applied st.entries
  if applied ≠ r.commitIndex then none else some (r.setWal { file := file }, store, applied)

/-- The constructor of `NodeRuntime`. -/
def new (codec : StoreCodec D) (config : Config) (draws : List Nat) (requestId : Nat)
    (file : List (Record D)) : Option (Runtime D) :=
  (recoverStorage codec config draws file).map fun (raft, store, applied) =>
    { config := config
      raft := raft
      store := store
      storeAppliedIndex := applied
      nextRequestId := requestId
      baseIndex := applied
      baseStore := store }

/-! ## Runs -/

inductive Event (D : Type) where
  /-- The peer server posts a message. -/
  | receive (msg : Message D)
  | tick (turn : Turn)
  /-- The Raft loop runs its first task. -/
  | raft (turn : Turn)
  /-- The store loop runs its first task. -/
  | store
  /-- `restore_snapshot` returns the verdict of the store loop. -/
  | restored
  /-- `restore_snapshot` gives up waiting. -/
  | timeout
  | write (type : CommandType) (strs : List Bytes)
  | read (key : Bytes)
  /-- `expire_client_requests` finds these requests past their deadlines. -/
  | expire (writes reads : List Nat)
  /-- A signal stops the process. -/
  | signal
  deriving DecidableEq

/-- One event; none when it cannot happen now. The messages are those handed to the
transport. -/
def step (codec : StoreCodec D) (n : Runtime D) : Event D → Option (Runtime D × List (Message D))
  | .receive msg => some (n.postRaft (.message msg), [])
  | .tick turn => if n.waiting.isSome then none else some (n.tick turn)
  | .raft turn =>
      match n.waiting, n.raftTasks with
      | none, task :: rest => some ({ n with raftTasks := rest }.runRaftTask turn task)
      | _, _ => none
  | .store =>
      match n.storeTasks with
      | [] => none
      | task :: rest => some ({ n with storeTasks := rest }.runStoreTask codec task, [])
  | .restored =>
      match n.waiting, n.restored with
      | some (turn, msg), some verdict => some (n.resume turn msg verdict)
      | _, _ => none
  | .timeout =>
      match n.waiting, n.restored with
      | some (turn, msg), none => some ((n.requestStop .restoreTimedOut).resume turn msg false)
      | _, _ => none
  | .write type strs => some (n.beginWrite codec type strs, [])
  | .read key => some (n.beginRead key, [])
  | .expire writes reads =>
      if n.stopping then none else some (n.expireClientRequests writes reads, [])
  | .signal => some (n.stopOnce, [])

end Runtime

end RaftKv
