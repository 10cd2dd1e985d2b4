import RaftKv.Node.Boot
import RaftKv.Raft.Ballot
import RaftKv.Wal.Written

/-! # Runs of one node

A node is called with inputs, one at a time, and after each call hands its
messages to the transport, unless storage has failed, which stops it. It may
crash at any point and restart from any prefix of the records it has written,
which is what a file cut at an arbitrary byte amounts to.
-/

namespace RaftKv

variable {D : Type}

namespace Raft

/-- Everything that was written to the file, including what a failing flush may have left. -/
def written (r : Raft D) : List (Record D) := (r.wal.map (fun w => w.file ++ w.lost)).getD []

theorem synced_isPrefix_written (r : Raft D) : r.synced <+: r.written := by
  cases hwal : r.wal with
  | none => simp [synced, written, hwal]
  | some w => simp [synced, written, hwal]

variable [Blob D]

/-- One call followed by `after_raft_activity`; the messages handed to the transport. -/
def act (r : Raft D) (env : Env) (input : Input D) : Raft D × List (Message D) :=
  if r.storageFailed then (r, [])
  else if ((r.arm env).step input).storageFailed then ((r.arm env).step input, [])
  else ((r.arm env).step input).readMessages

/-- Inputs that keep every log index below the last 64-bit value. -/
def InRange (r : Raft D) : Input D → Prop
  | .message msg => msg.InRange
  | .propose _ => r.lastLogIndex + 2 < 2 ^ 64
  | .readIndex => r.lastLogIndex + 2 < 2 ^ 64
  | _ => True

end Raft

section

variable [Blob D]

instance (msg : Message D) : Decidable msg.InRange :=
  decidable_of_iff (msg.term < 2 ^ 64 ∧
      (msg.type = .appendEntries → ∀ k : Fin msg.entries.length,
        (msg.entries.get k).index = msg.prevLogIndex + k + 1) ∧
      (msg.type = .appendEntries → msg.prevLogIndex + msg.entries.length + 1 < 2 ^ 64) ∧
      (msg.type = .installSnapshot → msg.snapshotIndex + 1 < 2 ^ 64))
    ⟨fun ⟨hterm, hindexed, hentries, hsnapshot⟩ => ⟨hterm, fun htype k e he => by
          obtain ⟨hk, rfl⟩ := List.getElem?_eq_some_iff.mp he
          exact hindexed htype ⟨k, hk⟩, hentries, hsnapshot⟩,
      fun ⟨hterm, hindexed, hentries, hsnapshot⟩ =>
        ⟨hterm, fun htype k => hindexed htype k _ (List.getElem?_eq_getElem k.2), hentries,
          hsnapshot⟩⟩

instance (r : Raft D) (input : Input D) : Decidable (r.InRange input) :=
  match input with
  | .message msg => inferInstanceAs (Decidable msg.InRange)
  | .propose _ | .readIndex => inferInstanceAs (Decidable (r.lastLogIndex + 2 < 2 ^ 64))
  | .tick | .finishRead _ | .advance _ | .takeSnapshot _ _ => .isTrue trivial

/-- Inputs without further restriction. -/
def OnWire (_ : Raft D) (input : Input D) : Prop := input.Wire

instance (r : Raft D) (input : Input D) : Decidable (OnWire r input) :=
  inferInstanceAs (Decidable input.Wire)

/-- The states a node reaches when each of its inputs satisfies `Ok`. -/
inductive Reach (config : Config) (Ok : Raft D → Input D → Prop) : Raft D → Prop
  | start (draws : List Nat) (r : Raft D) (hboot : boot config draws [] = some r) :
      Reach config Ok r
  | act (r : Raft D) (env : Env) (input : Input D) (hr : Reach config Ok r) (hok : Ok r input) :
      Reach config Ok (r.act env input).1
  | crash (r : Raft D) (n : Nat) (draws : List Nat) (next : Raft D) (hr : Reach config Ok r)
      (hboot : boot config draws (r.written.take n) = some next) : Reach config Ok next

end

variable {config : Config} {r : Raft D}

/-- Everything in range. -/
def inRangeOutside : Outside D where
  message := Message.InRange
  snapshot _ _ _ := True
  room last := last + 2 < 2 ^ 64
  install _ _ := True

theorem inRangeOutside_inRange : (inRangeOutside : Outside D).InRange :=
  ⟨fun _ h => h, fun _ h => h⟩

variable [Blob D]

theorem Raft.InRange.allows {input : Input D} {env : Env} (hrange : r.InRange input) :
    (r.arm env).Allows inRangeOutside input := by
  cases input with
  | message msg => exact ⟨hrange, fun _ _ _ _ => trivial⟩
  | propose data => exact hrange
  | readIndex => exact hrange
  | _ => trivial

theorem Raft.Mirrors.arm (hmirrors : r.Mirrors) (env : Env) : (r.arm env).Mirrors := by
  obtain ⟨⟨hlt, hpending, hid, hcandidate⟩, hsane, w, hwal, hmarked, haccepts, hclean⟩ := hmirrors
  refine ⟨⟨hlt, hpending, hid, hcandidate⟩, ⟨hsane.valid, hsane.offset_le, hsane.applied_le⟩,
    { w with device := env.device }, ?_, hmarked, haccepts, fun h => ?_⟩
  · simp [Raft.arm, hwal]
  · obtain ⟨⟨hbuffer, hfailed, hlost⟩, hdurable⟩ := hclean h
    exact ⟨⟨hbuffer, hfailed, hlost⟩, hdurable⟩

theorem Raft.Mirrors.readMessages (hmirrors : r.Mirrors) : r.readMessages.1.Mirrors :=
  ⟨⟨hmirrors.inTerm.term_lt, hmirrors.inTerm.pending, hmirrors.inTerm.id_ne_zero,
    hmirrors.inTerm.candidate⟩, ⟨hmirrors.sane.valid, hmirrors.sane.offset_le,
    hmirrors.sane.applied_le⟩, hmirrors.stored⟩

theorem Raft.Mirrors.finishReadIndex (hmirrors : r.Mirrors) (read : ReadIndexToken) :
    (r.finishReadIndex read).Mirrors :=
  Raft.finishReadIndex_moves.mirrors inRangeOutside_inRange hmirrors

theorem Raft.Mirrors.call {env : Env} {input : Input D} (hmirrors : r.Mirrors)
    (hhealthy : r.storageFailed = false) (hrange : r.InRange input) :
    ((r.arm env).step input).Mirrors :=
  (Raft.step_moves (r := r.arm env) hhealthy hrange.allows).mirrors inRangeOutside_inRange
    (hmirrors.arm env)

theorem Raft.Mirrors.act {env : Env} {input : Input D} (hmirrors : r.Mirrors)
    (hrange : r.InRange input) : (r.act env input).1.Mirrors := by
  unfold Raft.act
  split
  · exact hmirrors
  next hhealthy =>
    have hstep : ((r.arm env).step input).Mirrors :=
      hmirrors.call (Bool.not_eq_true _ ▸ hhealthy) hrange
    split
    · exact hstep
    · exact hstep.readMessages

theorem Raft.Mirrors.written_accepts (hmirrors : r.Mirrors) :
    (Durable.start : Durable D).Accepts r.written := by
  obtain ⟨w, hwal, _, haccepts, _⟩ := hmirrors.stored
  simpa [Raft.written, hwal] using haccepts

theorem Raft.Mirrors.synced_accepts (hmirrors : r.Mirrors) :
    (Durable.start : Durable D).Accepts r.synced := by
  obtain ⟨w, hwal, _, haccepts, _⟩ := hmirrors.stored
  have hsynced : r.synced = w.file := by simp [Raft.synced, hwal]
  rw [hsynced]
  exact haccepts.of_isPrefix (List.prefix_append _ _)

/-- The invariant holds in every state of every run in range. -/
theorem Reach.mirrors (hreach : Reach config Raft.InRange r) : r.Mirrors := by
  induction hreach with
  | start draws r hboot =>
      have hnothing : (Durable.start : Durable D).Accepts [] := trivial
      exact boot_mirrors hnothing hboot
  | act r env input _ hok ih => exact ih.act hok
  | crash r n draws next _ hboot ih =>
      exact boot_mirrors (ih.written_accepts.of_isPrefix (List.take_prefix n _)) hboot

/-- A sequence of calls. -/
def Raft.actAll (r : Raft D) (inputs : List (Env × Input D)) : Raft D :=
  inputs.foldl (fun r i => (r.act i.1 i.2).1) r

/-- Each call meets `Ok` in the state it is made in. -/
def Raft.ActsOk (Ok : Raft D → Input D → Prop) (r : Raft D) : List (Env × Input D) → Prop
  | [] => True
  | i :: rest => Ok r i.2 ∧ (r.act i.1 i.2).1.ActsOk Ok rest

instance Raft.decidableActsOk (Ok : Raft D → Input D → Prop) [∀ r input, Decidable (Ok r input)]
    (r : Raft D) : (inputs : List (Env × Input D)) → Decidable (r.ActsOk Ok inputs)
  | [] => .isTrue trivial
  | i :: rest =>
      have := Raft.decidableActsOk Ok (r.act i.1 i.2).1 rest
      inferInstanceAs (Decidable (Ok r i.2 ∧ (r.act i.1 i.2).1.ActsOk Ok rest))

theorem Reach.actAll {Ok : Raft D → Input D → Prop} {inputs : List (Env × Input D)}
    (hreach : Reach config Ok r) (hok : r.ActsOk Ok inputs) :
    Reach config Ok (r.actAll inputs) := by
  induction inputs generalizing r with
  | nil => exact hreach
  | cons i rest ih => exact ih (.act r i.1 i.2 hreach hok.1) hok.2

/-! ## A node among three

Fixed inputs for the statements about particular runs below: node 1 of the cluster
{1, 2, 3}, whose election timeout is one tick. -/

def nodeOne : Config := { id := 1, peers := [1, 2, 3], electionTick := 1, snapshotThreshold := 1 }

theorem nodeOne_boots : (boot nodeOne [] ([] : List (Record Bytes))).isSome := by
  decide +kernel

def freshOne : Raft Bytes := (boot nodeOne [] []).get nodeOne_boots

theorem freshOne_reach (Ok : Raft Bytes → Input Bytes → Prop) : Reach nodeOne Ok freshOne :=
  .start [] freshOne (Option.some_get nodeOne_boots).symm

/-- A message from node 2 to node 1. -/
def fromTwo (type : MessageType) (term : Nat) : Message Bytes :=
  { (Message.default : Message Bytes) with type := type, sender := 2, receiver := 1, term := term }

/-- Node 2 sends a snapshot of the given index. -/
def snapshotFromTwo (index : Nat) : Input Bytes :=
  .message { fromTwo .installSnapshot 1 with
    snapshotIndex := index
    snapshotTerm := 1
    snapshotData := [0] }

/-- Node 2 replicates two committed entries. -/
def committedFromTwo : Input Bytes :=
  .message { fromTwo .appendEntries 1 with
    entries := [{ term := 1, index := 1 }, { term := 1, index := 2 }]
    leaderCommit := 2 }

/-- Node 2 supports node 1 in its pre-vote and its election of term 2. -/
def electionOfOne : List (Env × Input Bytes) :=
  [(.calm, .tick),
    (.calm, .message { fromTwo .preVoteResponse 1 with preVoteTerm := 2, voteGranted := true }),
    (.calm, .message { fromTwo .requestVoteResponse 2 with voteGranted := true })]

/-- Node 1 takes a snapshot from node 2, is elected and proposes. -/
def ledOne : Raft Bytes :=
  freshOne.actAll ([(.calm, snapshotFromTwo 5)] ++ electionOfOne ++ [(.calm, .propose [7])])

theorem ledOne_reach : Reach nodeOne Raft.InRange ledOne :=
  (freshOne_reach _).actAll (by decide +kernel)

/-! ## The file recovers to the node -/

/-- What `restore` makes of the recovered content of a file, seen from a fresh node. -/
def restored (codec : Codec D) (fresh : Raft D) (data : Bytes) : Option (Raft D) :=
  let st := (codec.recover data).1
  fresh.restore st.hardState st.entries st.snapshot

theorem restored_whole (codec : Codec D) (fresh : Raft D) {records : List (Record D)}
    (hfits : ∀ record ∈ records, codec.Fits record) :
    restored codec fresh (codec.framing.encodeAll records) =
      fresh.restore (replay records).hardState (replay records).entries
        (replay records).snapshot := by
  have hwhole : codec.framing.whole records (codec.framing.encodeAll records).length = records := by
    simpa [Framing.whole] using codec.framing.whole_append records [] 0
  have hrecover := codec.recover_take hfits (codec.framing.encodeAll records).length
  rw [List.take_length, hwhole] at hrecover
  simp only [restored, hrecover]

/-- On a run in range, with every flush so far successful, recovering the file and
restoring a fresh node gives back the durable state of the node. -/
theorem recovered_eq_memory (codec : Codec D) (fresh : Raft D)
    (hreach : Reach config Raft.InRange r) (hhealthy : r.storageFailed = false)
    (hfits : ∀ record ∈ r.synced, codec.Fits record) :
    (restored codec fresh (codec.framing.encodeAll r.synced)).map Raft.durable =
      some r.durable := by
  obtain ⟨w, hwal, _, haccepts, hclean⟩ := hreach.mirrors.stored
  obtain ⟨hclean, hdurable⟩ := hclean hhealthy
  have hsynced : r.synced = w.file := by simp [Raft.synced, hwal]
  rw [hsynced] at hfits ⊢
  rw [hclean.lost, List.append_nil] at haccepts
  have hreplay := durable_replay haccepts
  have hvalid : (replay w.file).durable.Valid := by
    rw [hreplay]
    exact haccepts.valid Durable.valid_start
  rw [restored_whole codec fresh hfits, Raft.restore_of_valid fresh hvalid, hdurable, ← hreplay]
  rfl

theorem recovered_eq_memory_ledOne :
    ledOne.storageFailed = false ∧ ledOne.log.length = 1 ∧
      (restored msgpack.codec freshOne (msgpack.codec.framing.encodeAll ledOne.synced)).map
        Raft.durable = some ledOne.durable :=
  ⟨by decide +kernel, by decide +kernel, recovered_eq_memory msgpack.codec freshOne ledOne_reach
    (by decide +kernel) (by decide +kernel)⟩

/-- After a snapshot of the last 64-bit index, the next proposal gets index zero. -/
def wrappedProposal : List (Env × Input Bytes) :=
  [(.calm, snapshotFromTwo (2 ^ 64 - 1))] ++ electionOfOne ++ [(.calm, .propose [7])]

/-- Out of range the file forgets an entry the node holds: index zero is not above the
snapshot, so `restore` leaves it out. -/
theorem wrapped_entry_lost :
    ∃ r : Raft Bytes, Reach nodeOne OnWire r ∧ r.storageFailed = false ∧
      (∀ record ∈ r.synced, msgpack.codec.Fits record) ∧
      (restored msgpack.codec freshOne (msgpack.codec.framing.encodeAll r.synced)).map
        Raft.durable ≠
        some r.durable := by
  have hfits : ∀ record ∈ (freshOne.actAll wrappedProposal).synced, msgpack.codec.Fits record := by
    decide +kernel
  refine ⟨freshOne.actAll wrappedProposal, (freshOne_reach OnWire).actAll (by decide +kernel),
    by decide +kernel, hfits, ?_⟩
  rw [restored_whole msgpack.codec freshOne hfits]
  decide +kernel

/-! ## Every cut of the file is a restart point -/

/-- Number of records wholly contained in the first `n` bytes of the written file. -/
def wholeCount (codec : Codec D) (r : Raft D) (n : Nat) : Nat :=
  (codec.framing.whole r.written n).length

/-- Whatever the byte at which the written file is cut, recovery returns the fold of the
records it wholly contains, cuts the file behind the last of them, and the node restarts. -/
theorem recover_cut (codec : Codec D) (fresh : Raft D) (hreach : Reach config Raft.InRange r)
    (hfits : ∀ record ∈ r.written, codec.Fits record) (n : Nat) :
    codec.recover ((codec.framing.encodeAll r.written).take n) =
        (replay (r.written.take (wholeCount codec r n)),
          (codec.framing.encodeAll (r.written.take (wholeCount codec r n))).length) ∧
      (codec.framing.encodeAll (r.written.take (wholeCount codec r n))).length ≤ n ∧
      (∀ k ≤ r.written.length, (codec.framing.encodeAll (r.written.take k)).length ≤ n →
        k ≤ wholeCount codec r n) ∧
      (restored codec fresh ((codec.framing.encodeAll r.written).take n)).isSome := by
  have htake : r.written.take (wholeCount codec r n) = codec.framing.whole r.written n :=
    (List.prefix_iff_eq_take.mp (codec.framing.whole_isPrefix r.written n)).symm
  have hrecover := codec.recover_take hfits n
  have haccepts :=
    hreach.mirrors.written_accepts.of_isPrefix (codec.framing.whole_isPrefix r.written n)
  have hvalid : (replay (codec.framing.whole r.written n)).durable.Valid := by
    rw [durable_replay haccepts]
    exact haccepts.valid Durable.valid_start
  rw [htake]
  refine ⟨hrecover, codec.framing.length_whole_le _ n, fun k hk hlen => ?_, ?_⟩
  · have hpre := codec.framing.whole_maximal (List.take_prefix k r.written) hlen
    have := hpre.length_le
    rwa [List.length_take, min_eq_left hk] at this
  · simp [restored, hrecover, Raft.restore_of_valid fresh hvalid]

theorem recover_cut_ledOne :
    (∀ record ∈ ledOne.written, msgpack.codec.Fits record) ∧ ledOne.written.length = 5 ∧
      (restored msgpack.codec freshOne
        ((msgpack.codec.framing.encodeAll ledOne.written).take 40)).isSome :=
  ⟨by decide +kernel, by decide +kernel, (recover_cut msgpack.codec freshOne ledOne_reach
    (by decide +kernel) 40).2.2.2⟩

/-- The entry of the last 64-bit index is committed; the next proposal gets index zero. -/
def wrappedCommit : List (Env × Input Bytes) :=
  [(.calm, snapshotFromTwo (2 ^ 64 - 2)),
    (.calm, .message { fromTwo .appendEntries 1 with
      prevLogIndex := 2 ^ 64 - 2
      prevLogTerm := 1
      entries := [{ term := 1, index := 2 ^ 64 - 1 }]
      leaderCommit := 2 ^ 64 - 1 })] ++ electionOfOne ++ [(.calm, .propose [7])]

/-- Out of range a node can leave a file it cannot restart from: the record of index zero
replaces a committed entry. -/
theorem wrapped_commit_unrestorable :
    ∃ r : Raft Bytes, Reach nodeOne OnWire r ∧
      (∀ record ∈ r.written, msgpack.codec.Fits record) ∧
      restored msgpack.codec freshOne (msgpack.codec.framing.encodeAll r.written) = none := by
  have hfits : ∀ record ∈ (freshOne.actAll wrappedCommit).written, msgpack.codec.Fits record := by
    decide +kernel
  refine ⟨freshOne.actAll wrappedCommit, (freshOne_reach OnWire).actAll (by decide +kernel),
    hfits, ?_⟩
  rw [restored_whole msgpack.codec freshOne hfits, ← Option.isNone_iff_eq_none]
  decide +kernel

end RaftKv
