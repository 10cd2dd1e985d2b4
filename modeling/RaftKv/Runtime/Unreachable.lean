import RaftKv.Node.Run
import RaftKv.Raft.Output
import RaftKv.Runtime.State
import RaftKv.Transport.Waiting

/-! # A node and a peer it cannot reach

The Raft object of a node together with the outbound queue of one peer: each call of Raft is
followed by `flush_raft_messages`, whose frames for that peer go through `Peer::send`, while
the strand of the queue runs on its own. As long as the peer cannot be reached the queue
only grows. It keeps one frame for every run of AppendEntries of one term and read round,
and one for every other message. Which calls begin a new run can be told from the call and
from the Raft object before it. A leader that has compacted its log past what the peer needs
begins one with each heartbeat, for it sends a snapshot, and is stopped by the 513th frame.
-/

namespace RaftKv

open Transport Transport.Peer

structure Link (D : Type) where
  raft : Raft D
  peer : Peer := {}
  /-- `request_stop` has been called because a queue refused a frame. -/
  exhausted : Bool := false

namespace Link

variable {D : Type} (pack : Message D → Bytes) (far : Nat)

/-- What `send` answers to the messages of a flush, up to the first refusal, and the queue
then; the queues of the peers that can be reached take everything. -/
def offer : Peer → List (Message D) → List Sending × Peer
  | peer, [] => ([], peer)
  | peer, msg :: rest =>
      if msg.receiver = far then
        match peer.enqueue (.of msg (pack msg)) false with
        | none => ([.full], peer)
        | some peer => (.queued :: (offer peer rest).1, (offer peer rest).2)
      else (.queued :: (offer peer rest).1, (offer peer rest).2)

/-- The frames of messages to the peer. -/
def framesFor (msgs : List (Message D)) : List PendingFrame :=
  (msgs.filter (·.receiver = far)).map fun msg => .of msg (pack msg)

/-- `flush_raft_messages`. -/
def flush (l : Link D) : Link D :=
  let peers := l.raft.others
  let (answers, peer) := offer pack far l.peer (l.raft.msgs.filter (·.receiver ∈ peers))
  { raft := l.raft.readMessages.1
    peer := peer
    exhausted := l.exhausted || (Runtime.sendAll peers answers l.raft.msgs).2.isSome }

inductive Event (D : Type) where
  /-- A call of the Raft object, and the flush that follows it. -/
  | raft (env : Env) (input : Input D)
  /-- The strand of the queue. -/
  | peer (event : Peer.Event D)
  deriving DecidableEq

/-- The streams begun so far, and whether the last call left one that the next may continue. -/
structure Tally where
  begun : Nat := 0
  steady : Bool := false
  deriving DecidableEq

section Model

variable [Blob D]

/-- The Raft object after a call, before the flush. -/
def called (l : Link D) (env : Env) (input : Input D) : Link D :=
  { l with raft := (l.raft.arm env).step input }

def step (l : Link D) : Event D → Option (Link D)
  | .raft env input => if l.exhausted then none else some ((l.called env input).flush pack far)
  | .peer event => (l.peer.step event).map fun peer => { l with peer := peer }

/-- The frames a call gives to the queue. -/
def offered (l : Link D) (env : Env) (input : Input D) : List PendingFrame :=
  let raft := (l.called env input).raft
  framesFor pack far (raft.msgs.filter (·.receiver ∈ raft.others))

/-- The peer is never reached, the storage is healthy and frames are small: those queued and
the new ones fit the byte cap. The strand is at most `lag` tasks behind. -/
def OutOfReach (lag : Nat) (l : Link D) : Event D → Prop
  | .raft env input =>
      l.raft.storageFailed = false ∧ l.peer.posted.length ≤ lag ∧
        l.peer.pendingBytes + bytesOf (l.offered pack far env input) ≤ kMaxPendingBytes
  | .peer (.run late) => late = false
  | .peer (.complete operation ok late) => late = false ∧ (operation = .connect → ok = false)
  | .peer (.enqueue ..) => False
  | .peer .stop => False

end Model

/-- A call begins a stream to the peer, unless it sends nothing or continues the stream that
the calls before it left; `r` is the Raft object before the call. -/
def Tally.note (tally : Tally) (r : Raft D) (input : Input D) : Tally where
  begun := if r.silent input || (tally.steady && r.continues far input) then tally.begun
    else tally.begun + 1
  steady := r.continues far input && (tally.steady || !r.silent input)

def Tally.after (tally : Tally) (l : Link D) : Event D → Tally
  | .raft _ input => tally.note far l.raft input
  | .peer _ => tally

/-- From one link to another by steps that meet a condition. -/
inductive Steps [Blob D] (Ok : Link D → Event D → Prop) (first : Link D) :
    Tally → Link D → Prop
  | refl : Steps Ok first {} first
  | step (tally : Tally) (l next : Link D) (event : Event D) (hl : Steps Ok first tally l)
      (hok : Ok l event) (hstep : l.step pack far event = some next) :
      Steps Ok first (tally.after far l event) next

/-! ## One flush -/

/-- A flush for which there is room. -/
theorem offer_room {p : Peer} {msgs : List (Message D)} (hrunning : p.stopRequested = false)
    (hframes : p.pendingFrames + (framesFor pack far msgs).length ≤ kMaxPendingFrames)
    (hbytes : p.pendingBytes + bytesOf (framesFor pack far msgs) ≤ kMaxPendingBytes) :
    (∀ answer ∈ (offer pack far p msgs).1, answer = .queued) ∧
      (offer pack far p msgs).2 = { p with
        pendingFrames := p.pendingFrames + (framesFor pack far msgs).length
        pendingBytes := p.pendingBytes + bytesOf (framesFor pack far msgs)
        posted := p.posted ++ (framesFor pack far msgs).map .push
        accepted := p.accepted ++ framesFor pack far msgs } := by
  induction msgs generalizing p with
  | nil => simp [offer, framesFor, bytesOf]
  | cons msg msgs ih =>
      unfold offer
      split
      next hfar =>
        have hsplit : framesFor pack far (msg :: msgs) =
            .of msg (pack msg) :: framesFor pack far msgs := by
          simp [framesFor, hfar]
        have hsum : bytesOf (framesFor pack far (msg :: msgs)) =
            (pack msg).length + bytesOf (framesFor pack far msgs) := by
          rw [hsplit]
          rfl
        rw [hsplit, List.length_cons] at hframes
        rw [hsum] at hbytes
        have hsize : PendingFrame.size (.of msg (pack msg)) = (pack msg).length := rfl
        have henqueue := @enqueue_room p (.of msg (pack msg)) hrunning (by omega) (by omega)
        obtain ⟨hanswers, hpeer⟩ := @ih { p with
            pendingFrames := p.pendingFrames + 1
            pendingBytes := p.pendingBytes + (pack msg).length
            posted := p.posted ++ [.push (.of msg (pack msg))]
            accepted := p.accepted ++ [.of msg (pack msg)] } hrunning
          (by dsimp only; omega) (by dsimp only; omega)
        rw [henqueue]
        refine ⟨List.forall_mem_cons.mpr ⟨rfl, hanswers⟩, hpeer.trans ?_⟩
        rw [hsum, hsplit]
        simp only [List.length_cons, List.map_cons, List.append_assoc, List.singleton_append,
          Nat.add_assoc, Nat.add_comm 1]
      next hnear =>
        have hsplit : framesFor pack far (msg :: msgs) = framesFor pack far msgs := by
          simp [framesFor, hnear]
        rw [hsplit] at hframes hbytes ⊢
        obtain ⟨hanswers, hpeer⟩ := ih hrunning hframes hbytes
        exact ⟨List.forall_mem_cons.mpr ⟨rfl, hanswers⟩, hpeer⟩

theorem reach_offer {p : Peer} (hreach : Peer.Reach D p) (msgs : List (Message D)) :
    Peer.Reach D (offer pack far p msgs).2 := by
  induction msgs generalizing p with
  | nil => exact hreach
  | cons msg msgs ih =>
      unfold offer
      split
      · split
        · exact hreach
        next next henqueue => exact ih (reach_enqueue hreach henqueue)
      · exact ih hreach

theorem sendAll_queued (peers : List Nat) {answers : List Sending}
    (hanswers : ∀ answer ∈ answers, answer = .queued) (msgs : List (Message D)) :
    (Runtime.sendAll peers answers msgs).2 = none := by
  induction msgs generalizing answers with
  | nil => rfl
  | cons msg msgs ih =>
      unfold Runtime.sendAll
      split
      · exact ih hanswers
      · split
        next rest => exact absurd (hanswers .full List.mem_cons_self) (by decide)
        next rest => exact absurd (hanswers .threw List.mem_cons_self) (by decide)
        · exact ih fun answer hanswer => hanswers answer (List.mem_of_mem_tail hanswer)

/-- A flush that finds room. -/
theorem flush_room {l : Link D} (hwaiting : Waiting l.peer) {frames : List PendingFrame}
    (hframes : frames = framesFor pack far (l.raft.msgs.filter (·.receiver ∈ l.raft.others)))
    (hroom : l.peer.pendingFrames + frames.length ≤ kMaxPendingFrames)
    (hbytes : l.peer.pendingBytes + bytesOf frames ≤ kMaxPendingBytes) :
    (l.flush pack far).exhausted = l.exhausted ∧ Waiting (l.flush pack far).peer ∧
      (l.flush pack far).peer.accepted = l.peer.accepted ++ frames := by
  obtain ⟨hconnected, hwriting, hrunning, base, haccepted, hmerged⟩ := hwaiting
  subst hframes
  obtain ⟨hanswers, hpeer⟩ := offer_room pack far hrunning hroom hbytes
  simp only [Link.flush, sendAll_queued _ hanswers, hpeer, Option.isSome_none, Bool.or_false,
    true_and, and_true]
  refine ⟨hconnected, hwriting, hrunning, base, ?_, hmerged⟩
  simp only [haccepted, List.filterMap_append, List.filterMap_map, List.append_assoc]
  exact congrArg (fun frames => base ++ (_ ++ frames)) (List.filterMap_some).symm

/-! ## Streams -/

theorem Tally.begun_le_note (tally : Tally) (r : Raft D) (input : Input D) :
    tally.begun ≤ (tally.note far r input).begun := by
  unfold note
  dsimp only
  split <;> omega

variable [Blob D]

/-- The frame is an AppendEntries to the peer of the node's term and read round. -/
structure InStream (r : Raft D) (frame : PendingFrame) : Prop where
  append : frame.replaceableAppend = true
  sender : frame.sender = r.id
  receiver : frame.receiver = far
  term : frame.term = r.term
  context : frame.readContext = (r.makeAppendEntries far).readContext

theorem InStream.replaces {r : Raft D} {previous frame : PendingFrame}
    (hprevious : InStream far r previous) (hframe : InStream far r frame) :
    SameAppendStream previous frame :=
  ⟨hframe.append, hprevious.append, hprevious.sender.trans hframe.sender.symm,
    hprevious.receiver.trans hframe.receiver.symm, hprevious.term.trans hframe.term.symm,
    hprevious.context.trans hframe.context.symm⟩

/-- The frames taken so far are accounted for: each stream but the last has been counted, and
the last one has been, unless the next call of a leader continues it. -/
structure Accounted (tally : Tally) (r : Raft D) (accepted : List PendingFrame) : Prop where
  few : (coalesce SameAppendStream accepted).length ≤ tally.begun
  stream : tally.steady = true → r.state = .leader →
    (∃ last, (coalesce SameAppendStream accepted).getLast? = some last ∧ InStream far r last) ∨
      (coalesce SameAppendStream accepted).length < tally.begun

/-- A call gives the queue no frame, or one. -/
theorem offered_cases {l : Link D} (hmsgs : l.raft.msgs = []) (hpeers : l.raft.peers.Nodup)
    (env : Env) (input : Input D) :
    l.offered pack far env input = [] ∨
      ∃ msg ∈ ((l.raft.arm env).step input).msgs, msg.receiver = far ∧
        l.offered pack far env input = [.of msg (pack msg)] := by
  have hone := ((l.raft.arm env).step_output input hmsgs).one hpeers far
  generalize hraft : (l.raft.arm env).step input = raft at hone
  have hsub := (List.filter_sublist (p := (·.receiver ∈ raft.others)) (l := raft.msgs)).filter
    (·.receiver = far)
  have hoffered : l.offered pack far env input =
      ((raft.msgs.filter (·.receiver ∈ raft.others)).filter (·.receiver = far)).map
        fun msg => .of msg (pack msg) := by
    rw [← hraft]
    rfl
  rw [hoffered]
  cases hkept : (raft.msgs.filter (·.receiver ∈ raft.others)).filter (·.receiver = far) with
  | nil => exact .inl rfl
  | cons msg rest =>
      rw [hkept] at hsub
      obtain rfl : rest = [] := by
        have hlength := hsub.length_le.trans hone
        simpa using hlength
      obtain ⟨hmem, hfar⟩ := List.mem_filter.mp (hsub.subset List.mem_cons_self)
      exact .inr ⟨msg, hmem, of_decide_eq_true hfar, rfl⟩

/-- A call that continues a stream leaves it one of the leader. -/
theorem InStream.step {r : Raft D} {input : Input D} {frame : PendingFrame}
    (hframe : InStream far r frame) (hhealthy : r.storageFailed = false)
    (hcontinues : r.continues far input = true) (hleads : (r.step input).state = .leader) :
    InStream far (r.step input) frame := by
  have hid := (Raft.step_moves hhealthy (Raft.heard_allows input)).same_config.1
  obtain ⟨hterm, hpending, hcontext⟩ := Raft.continues_role hcontinues hleads
  refine ⟨hframe.append, hframe.sender.trans hid.symm, hframe.receiver,
    hframe.term.trans hterm.symm, hframe.context.trans ?_⟩
  simp only [Raft.makeAppendEntries, hpending, hcontext]

/-- The account reads little of the Raft object. -/
theorem Accounted.same {tally : Tally} {r q : Raft D} {accepted : List PendingFrame}
    (haccounted : Accounted far tally r accepted) (hstate : q.state = r.state) (hid : q.id = r.id)
    (hterm : q.term = r.term) (hcontext : (q.makeAppendEntries far).readContext =
      (r.makeAppendEntries far).readContext) : Accounted far tally q accepted := by
  refine ⟨haccounted.few, fun hsteady hleads => ?_⟩
  rcases haccounted.stream hsteady (hstate.symm.trans hleads) with ⟨last, hlast, hin⟩ | hlt
  · exact .inl ⟨last, hlast, hin.append, hin.sender.trans hid.symm, hin.receiver,
      hin.term.trans hterm.symm, hin.context.trans hcontext.symm⟩
  · exact .inr hlt

/-- The account after a call that sends the peer nothing. -/
theorem Accounted.quiet {tally : Tally} {r : Raft D} {input : Input D}
    {accepted : List PendingFrame} (haccounted : Accounted far tally r accepted)
    (hhealthy : r.storageFailed = false) :
    Accounted far (tally.note far r input) (r.step input) accepted := by
  obtain ⟨hfew, hstream⟩ := haccounted
  refine ⟨hfew.trans (tally.begun_le_note far r input), fun hsteady hleads => ?_⟩
  simp only [Tally.note, Bool.and_eq_true, Bool.or_eq_true, Bool.not_eq_true'] at hsteady
  obtain ⟨hcontinues, hor⟩ := hsteady
  cases hbefore : tally.steady with
  | true =>
      simp only [Tally.note, hbefore, hcontinues, Bool.and_self, Bool.or_true, if_true]
      rcases hstream hbefore (Raft.leader_of_continues hcontinues) with ⟨last, hlast, hin⟩ | hlt
      · exact .inl ⟨last, hlast, hin.step far hhealthy hcontinues hleads⟩
      · exact .inr hlt
  | false =>
      have hspeaks : r.silent input = false := by simpa [hbefore] using hor
      refine .inr ?_
      simp only [Tally.note, hbefore, hspeaks, Bool.false_and, Bool.or_false,
        Bool.false_eq_true, if_false]
      omega

/-- The account after a call that sends the peer one message. -/
theorem Accounted.sent {tally : Tally} {r : Raft D} {input : Input D}
    {accepted : List PendingFrame} (haccounted : Accounted far tally r accepted)
    (hhealthy : r.storageFailed = false) (hmsgs : r.msgs = []) {msg : Message D}
    (hmsg : msg ∈ (r.step input).msgs) (hfar : msg.receiver = far) :
    Accounted far (tally.note far r input) (r.step input)
      (accepted ++ [.of msg (pack msg)]) := by
  obtain ⟨hfew, hstream⟩ := haccounted
  have hspeaks : r.silent input = false := by
    rw [← Bool.not_eq_true]
    intro hsilent
    rw [Raft.silent_output hmsgs hsilent] at hmsg
    cases hmsg
  have hin (hcontinues : r.continues far input = true) :
      InStream far r (.of msg (pack msg)) := by
    obtain ⟨htype, hsender, hterm, hcontext⟩ :=
      (r.step_output input hmsgs).stream hcontinues msg hmsg hfar
    exact ⟨decide_eq_true htype, hsender, hfar, hterm, hcontext⟩
  have hlength := length_absorb SameAppendStream (coalesce SameAppendStream accepted)
    (.of msg (pack msg))
  refine ⟨?_, fun hsteady hleads => .inl ⟨.of msg (pack msg), ?_, ?_⟩⟩
  · simp only [Tally.note, hspeaks, Bool.false_or, Bool.and_eq_true, coalesce_concat]
    split
    next hon =>
      rcases hstream hon.1 (Raft.leader_of_continues hon.2) with ⟨last, hlast, hlastIn⟩ | hlt
      · rw [length_absorb_of_replaces SameAppendStream hlast (hlastIn.replaces far (hin hon.2))]
        exact hfew
      · omega
    · omega
  · rw [coalesce_concat, getLast?_absorb]
  · have hcontinues : r.continues far input = true := by
      simp only [Tally.note, Bool.and_eq_true] at hsteady
      exact hsteady.1
    exact (hin hcontinues).step far hhealthy hcontinues hleads

/-! ## Runs -/

/-- What holds in every run in which the peer is not reached and few streams are begun. -/
structure Held (tally : Tally) (l : Link D) : Prop where
  fine : l.exhausted = false
  waiting : Waiting l.peer
  reach : Peer.Reach D l.peer
  sent : l.raft.msgs = []
  peers : l.raft.peers.Nodup
  accounted : Accounted far tally l.raft l.peer.accepted

/-- A call of the Raft object, and its flush. -/
theorem Held.call {tally : Tally} {l : Link D} (hheld : Held far tally l) {lag : Nat} {env : Env}
    {input : Input D} (hok : l.OutOfReach pack far lag (.raft env input))
    (hfew : tally.begun + lag < kMaxPendingFrames) :
    Held far (tally.note far l.raft input) ((l.called env input).flush pack far) := by
  obtain ⟨hfine, hwaiting, hreach, hsent, hpeers, haccounted⟩ := hheld
  obtain ⟨hhealthy, hlag, hbytes⟩ := hok
  have hsame := (Raft.step_moves (r := l.raft.arm env) hhealthy
    (Raft.heard_allows input)).same_config
  have hcount := hwaiting.frames_le hreach.sound.1
  have hle := haccounted.few
  have hone := offered_cases pack far hsent hpeers env input
  have hshort : (l.offered pack far env input).length ≤ 1 := by
    rcases hone with hnone | ⟨msg, -, -, hmsg⟩
    · rw [hnone]
      exact Nat.zero_le 1
    · rw [hmsg]
      exact Nat.le_refl 1
  have hroom : l.peer.pendingFrames + (l.offered pack far env input).length ≤
      kMaxPendingFrames := by omega
  obtain ⟨hstill, hwaits, haccepted⟩ := @flush_room D pack far (l.called env input) hwaiting
    (l.offered pack far env input) rfl hroom hbytes
  refine ⟨hstill.trans hfine, hwaits, reach_offer pack far hreach _, rfl, ?_, ?_⟩
  · exact (congrArg List.Nodup hsame.2.1).mpr hpeers
  · rw [haccepted]
    have harmed : Accounted far tally (l.raft.arm env) l.peer.accepted :=
      haccounted.same far rfl rfl rfl rfl
    refine Accounted.same far ?_ rfl rfl rfl rfl (r := (l.raft.arm env).step input)
    rcases hone with hnone | ⟨msg, hmem, hfar, hmsg⟩
    · rw [hnone, List.append_nil]
      exact harmed.quiet far hhealthy
    · rw [hmsg]
      exact harmed.sent pack far hhealthy hsent hmem hfar

instance instDecidableOutOfReach (lag : Nat) (l : Link D) (event : Event D) :
    Decidable (l.OutOfReach pack far lag event) :=
  match event with
  | .raft _ _ => inferInstanceAs (Decidable (_ ∧ _))
  | .peer (.run late) => inferInstanceAs (Decidable (late = false))
  | .peer (.complete _ _ _) => inferInstanceAs (Decidable (_ ∧ _))
  | .peer (.enqueue ..) => inferInstanceAs (Decidable False)
  | .peer .stop => inferInstanceAs (Decidable False)

/-- A fixed run, checked against a condition. -/
def play (Ok : Link D → Event D → Prop) [∀ l event, Decidable (Ok l event)] (tally : Tally)
    (l : Link D) : List (Event D) → Option (Tally × Link D)
  | [] => some (tally, l)
  | event :: rest =>
      if Ok l event then
        (l.step pack far event).bind fun next => play Ok (tally.after far l event) next rest
      else none

/-- Every message takes one byte. -/
def small (_ : Message Bytes) : Bytes := [0]

def strandRuns : Event Bytes := .peer (.run false)

/-- Node 2 has the first entry. -/
def ackFromTwo : Event Bytes :=
  .raft .calm (.message { fromTwo .appendEntriesResponse 1 with success := true, matchIndex := 1 })

/-- Node 1 is elected by node 2, has one entry committed, applies it and takes a snapshot. -/
def compactionOfOne : List (Event Bytes) :=
  [.raft .calm .tick, strandRuns,
    .raft .calm (.message
      { fromTwo .preVoteResponse 0 with preVoteTerm := 1, voteGranted := true }), strandRuns,
    .raft .calm (.message { fromTwo .requestVoteResponse 1 with voteGranted := true }), strandRuns,
    .raft .calm (.propose [7]), strandRuns, ackFromTwo, .raft .calm (.advance 1),
    .raft .calm (.takeSnapshot 1 [0])]

theorem compactionOfOne_plays :
    (play small 3 (OutOfReach small 3 0) {} { raft := freshOne } compactionOfOne).isSome := by
  decide +kernel

/-- Node 1 leads and has compacted its log past what node 3 needs. -/
def compactedOne : Link Bytes :=
  ((play small 3 (OutOfReach small 3 0) {} { raft := freshOne } compactionOfOne).get
    compactionOfOne_plays).2

/-- The snapshot node 1 sends to node 3 with each heartbeat. -/
def snapshotForThree : Message Bytes := compactedOne.raft.makeInstallSnapshot 3

/-- That many frames wait for node 3, and the strand has nothing to do. -/
structure Filled (count : Nat) (l : Link Bytes) : Prop where
  raft : l.raft = compactedOne.raft
  fine : l.exhausted = false
  posted : l.peer.posted = []
  running : l.peer.stopRequested = false
  stopped : l.peer.stopped = false
  connected : l.peer.connected = false
  frames : l.peer.pendingFrames = count
  bytes : l.peer.pendingBytes = count

deriving instance DecidableEq for Raft

/-- A heartbeat sends the snapshot and changes nothing else. -/
theorem ticked_compactedOne :
    let ticked := (compactedOne.raft.arm .calm).step .tick
    ticked.readMessages.1 = compactedOne.raft ∧ ticked.others = [2, 3] ∧
      ticked.msgs = [compactedOne.raft.makeAppendEntries 2, snapshotForThree] := by
  decide +kernel

theorem acked_compactedOne :
    let acked := (compactedOne.raft.arm .calm).step
      (.message { fromTwo .appendEntriesResponse 1 with success := true, matchIndex := 1 })
    acked = compactedOne.raft := by
  decide +kernel

theorem compactedOne_leads :
    compactedOne.raft.state = .leader ∧ compactedOne.raft.storageFailed = false ∧
      compactedOne.raft.msgs = [] := by
  decide +kernel

theorem snapshotForThree_receiver : snapshotForThree.receiver = 3 := rfl

def snapshotFrame : PendingFrame := .of snapshotForThree [0]

/-- The steps of a run in which node 1 leads with healthy storage. -/
def Leads (l : Link Bytes) (event : Event Bytes) : Prop :=
  l.OutOfReach small 3 0 event ∧ l.raft.state = .leader ∧ l.raft.storageFailed = false

theorem Filled.leads {count : Nat} {l : Link Bytes} (hfilled : Filled count l) :
    l.raft.state = .leader ∧ l.raft.storageFailed = false := by
  rw [hfilled.raft]
  exact ⟨compactedOne_leads.1, compactedOne_leads.2.1⟩

theorem Filled.offered {count : Nat} {l : Link Bytes} (hfilled : Filled count l) :
    l.offered small 3 .calm .tick = [snapshotFrame] := by
  obtain ⟨-, hothers, hmsgs⟩ := ticked_compactedOne
  simp only [Link.offered, called, hfilled.raft, hothers, hmsgs]
  decide +kernel

theorem Filled.tick_ok {count : Nat} {l : Link Bytes} (hfilled : Filled count l)
    (hcount : count ≤ kMaxPendingFrames) : Leads l (.raft .calm .tick) := by
  refine ⟨⟨hfilled.leads.2, (congrArg List.length hfilled.posted).le, ?_⟩, hfilled.leads⟩
  have hsize : bytesOf [snapshotFrame] = 1 := rfl
  have hcap : kMaxPendingFrames + 1 ≤ kMaxPendingBytes := by decide
  rw [hfilled.offered, hfilled.bytes, hsize]
  omega

/-- What the flush after a heartbeat does. -/
theorem Filled.flush {count : Nat} {l : Link Bytes} (hfilled : Filled count l) :
    l.step small 3 (.raft .calm .tick) = some (match l.peer.enqueue snapshotFrame false with
      | none => { l with exhausted := true }
      | some peer => { l with peer := peer }) := by
  obtain ⟨raft, peer, exhausted⟩ := l
  obtain rfl : raft = compactedOne.raft := hfilled.raft
  obtain rfl : exhausted = false := hfilled.fine
  obtain ⟨hback, hothers, hmsgs⟩ := ticked_compactedOne
  have hfilter : [compactedOne.raft.makeAppendEntries 2, snapshotForThree].filter
      (·.receiver ∈ [2, 3]) = [compactedOne.raft.makeAppendEntries 2, snapshotForThree] := by
    decide +kernel
  have hqueued : (Runtime.sendAll [2, 3] [.queued, .queued]
      [compactedOne.raft.makeAppendEntries 2, snapshotForThree]).2 = none := by
    decide +kernel
  have hfull : (Runtime.sendAll [2, 3] [.queued, .full]
      [compactedOne.raft.makeAppendEntries 2, snapshotForThree]).2 = some .outboundExhausted := by
    decide +kernel
  have hoffer : offer small 3 peer [compactedOne.raft.makeAppendEntries 2, snapshotForThree] =
      match peer.enqueue snapshotFrame false with
      | none => ([.queued, .full], peer)
      | some next => ([.queued, .queued], next) := by
    have htwo : (compactedOne.raft.makeAppendEntries 2).receiver ≠ 3 := by decide +kernel
    rw [offer, if_neg htwo, offer, if_pos snapshotForThree_receiver]
    cases henqueue : peer.enqueue snapshotFrame false with
    | none => rw [show peer.enqueue (.of snapshotForThree (small snapshotForThree)) false = none
        from henqueue]
    | some next => rw [show peer.enqueue (.of snapshotForThree (small snapshotForThree)) false =
        some next from henqueue]; rfl
  simp only [step, Bool.false_eq_true, if_false, Link.flush, called, hothers, hmsgs, hback,
    hfilter, hoffer]
  cases henqueue : peer.enqueue snapshotFrame false with
  | none => simp [hfull]
  | some next => simp [hqueued]

/-- The strand queues the snapshot. -/
theorem Filled.push {count : Nat} {l : Link Bytes} (hfilled : Filled count l) :
    ∃ peer, Peer.push { l.peer with
        pendingFrames := count + 1
        pendingBytes := count + 1
        posted := []
        accepted := l.peer.accepted ++ [snapshotFrame] } snapshotFrame false = peer ∧
      Filled (count + 1) { l with peer := peer } := by
  obtain ⟨hraft, hfine, hposted, hrunning, hstopped, hconnected, hframes, hbytes⟩ := hfilled
  refine ⟨_, rfl, ?_⟩
  have hnone : ∀ p : Peer, p.replaced? snapshotFrame = none := by
    intro p
    cases hreplaced : p.replaced? snapshotFrame with
    | none => rfl
    | some previous =>
        obtain ⟨⟨happend, -⟩, -, -⟩ := replaced?_eq_some hreplaced
        exact absurd happend (by decide +kernel)
  unfold Peer.push
  rw [if_neg (by simp [stopping, hstopped, hrunning]), hnone]
  simp only [raced, Bool.false_eq_true, if_false]
  rw [if_neg (by rw [hconnected]; decide)]
  have hsame := sameQueue_connect { l.peer with
    pendingFrames := count + 1
    pendingBytes := count + 1
    posted := []
    accepted := l.peer.accepted ++ [snapshotFrame]
    outbound := l.peer.outbound ++ [snapshotFrame] }
  have hflags := connect_flags { l.peer with
    pendingFrames := count + 1
    pendingBytes := count + 1
    posted := []
    accepted := l.peer.accepted ++ [snapshotFrame]
    outbound := l.peer.outbound ++ [snapshotFrame] }
  exact ⟨hraft, hfine, hflags.2.2.2, hflags.2.2.1.trans hrunning, hsame.stopped.trans hstopped,
    hflags.1.trans hconnected, hsame.frames, hsame.bytes⟩

/-- An answer of node 2 changes nothing. -/
theorem Filled.ack {count : Nat} {l : Link Bytes} (hfilled : Filled count l)
    (hcount : count ≤ kMaxPendingFrames) :
    Leads l ackFromTwo ∧ l.step small 3 ackFromTwo = some l := by
  obtain ⟨raft, peer, exhausted⟩ := l
  have hleads := hfilled.leads
  have hbytes : peer.pendingBytes = count := hfilled.bytes
  have hposted : peer.posted = [] := hfilled.posted
  obtain rfl : raft = compactedOne.raft := hfilled.raft
  obtain rfl : exhausted = false := hfilled.fine
  have hacked := acked_compactedOne
  obtain ⟨-, -, hmsgs⟩ := compactedOne_leads
  have hcap : kMaxPendingFrames ≤ kMaxPendingBytes := by decide
  dsimp only at hacked
  refine ⟨⟨⟨hleads.2, (congrArg List.length hposted).le, ?_⟩, hleads⟩, ?_⟩
  · simp only [Link.offered, called, hacked, hmsgs, List.filter_nil]
    exact hbytes.trans_le (hcount.trans hcap)
  · simp only [ackFromTwo, step, Bool.false_eq_true, if_false, Link.flush, called, hacked, hmsgs,
      List.filter_nil, offer, Runtime.sendAll, Raft.readMessages]
    rw [← hmsgs]
    rfl

/-- One round: a heartbeat, the strand, an answer of node 2. -/
theorem Filled.round {count : Nat} {first l : Link Bytes} {tally : Tally}
    (hsteps : Steps small 3 Leads first tally l) (hfilled : Filled count l)
    (hcount : count < kMaxPendingFrames) :
    ∃ tally next, Steps small 3 Leads first tally next ∧ Filled (count + 1) next := by
  have hcap : kMaxPendingFrames ≤ kMaxPendingBytes := by decide
  have hsize : snapshotFrame.size = 1 := rfl
  have henqueue := @enqueue_room l.peer snapshotFrame hfilled.running
    (by rw [hfilled.frames]; exact hcount) (by rw [hfilled.bytes, hsize]; omega)
  rw [hfilled.frames, hfilled.bytes, hfilled.posted, hsize] at henqueue
  have htick := hfilled.flush
  rw [henqueue] at htick
  have hticked := Steps.step tally l _ _ hsteps (hfilled.tick_ok (Nat.le_of_lt hcount)) htick
  obtain ⟨peer, hpush, hmore⟩ := hfilled.push
  have hqueued := Steps.step _ _ { l with peer := peer } strandRuns hticked
    ⟨rfl, hfilled.leads⟩ (by rw [← hpush]; rfl)
  obtain ⟨hok, hacked⟩ := hmore.ack hcount
  exact ⟨_, { l with peer := peer }, .step _ _ _ ackFromTwo hqueued hok hacked, hmore⟩

/-- Round after round until the queue is full. -/
theorem Filled.rounds {count : Nat} {l : Link Bytes} (hfilled : Filled count l) (more : Nat)
    (hroom : count + more ≤ kMaxPendingFrames) :
    ∃ tally next, Steps small 3 Leads l tally next ∧ Filled (count + more) next := by
  induction more with
  | zero => exact ⟨_, l, .refl, hfilled⟩
  | succ more ih =>
      obtain ⟨tally, mid, hsteps, hmid⟩ := ih (by omega)
      exact hmid.round hsteps (show count + more < kMaxPendingFrames by omega)

end Link

end RaftKv
