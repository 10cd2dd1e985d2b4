import Mathlib.Data.List.Induction
import RaftKv.Raft.Storage

/-! # Votes on disk

The hard-state records of a file are a history of the node's terms and votes:
the term only goes up, and within a term a vote is given once. This needs no
assumption about what the node receives; it rests on every change of term or vote
being flushed before anything else happens.
-/

namespace RaftKv

variable {D : Type}

/-- Terms and votes of the hard-state records. -/
def votesIn (file : List (Record D)) : List (Nat × Nat) :=
  file.filterMap fun record =>
    match record with
    | .hardState hs => some (hs.term, hs.vote)
    | _ => none

/-- When one term and vote may come after another. -/
def Follows (p q : Nat × Nat) : Prop := p.1 < q.1 ∨ p.1 = q.1 ∧ (p.2 = 0 ∨ q.2 = p.2)

theorem Follows.refl (p : Nat × Nat) : Follows p p := .inr ⟨rfl, .inr rfl⟩

theorem Follows.trans {p q s : Nat × Nat} (hpq : Follows p q) (hqs : Follows q s) :
    Follows p s := by
  unfold Follows at *
  omega

/-- The term and vote a file ends with. -/
def lastVote (file : List (Record D)) : Nat × Nat := (votesIn file).getLast?.getD (0, 0)

/-- Each record of a file may come after all earlier ones. -/
def Ordered (file : List (Record D)) : Prop := (votesIn file).Pairwise Follows

/-- The file records a vote for `candidate` in `term`. -/
def Voted (file : List (Record D)) (term candidate : Nat) : Prop :=
  candidate ≠ 0 ∧ (term, candidate) ∈ votesIn file

@[simp] theorem votesIn_append (file more : List (Record D)) :
    votesIn (file ++ more) = votesIn file ++ votesIn more := by
  simp [votesIn]

theorem Voted.mono {file more : List (Record D)} {term candidate : Nat} (hpre : file <+: more)
    (hvoted : Voted file term candidate) : Voted more term candidate := by
  obtain ⟨rest, rfl⟩ := hpre
  exact ⟨hvoted.1, by rw [votesIn_append]; exact List.mem_append_left _ hvoted.2⟩

/-- One vote a term. -/
theorem Ordered.voted_unique {file : List (Record D)} {term a b : Nat} (hordered : Ordered file)
    (ha : Voted file term a) (hb : Voted file term b) : a = b := by
  let Agree (p q : Nat × Nat) : Prop := p.1 = q.1 → p.2 ≠ 0 → q.2 ≠ 0 → p.2 = q.2
  have hagree : ∀ {p q}, Follows p q → Agree p q ∧ Agree q p := by
    intro p q h
    simp only [Follows, Agree] at *
    omega
  have hall : ∀ ⦃p⦄, p ∈ votesIn file → ∀ ⦃q⦄, q ∈ votesIn file → Agree p q :=
    List.Pairwise.forall_of_forall_of_flip (fun p _ => (hagree (.refl p)).1)
      (hordered.imp fun h => (hagree h).1) (hordered.imp fun h => (hagree h).2)
  exact hall ha.2 hb.2 rfl ha.1 hb.1

/-- The last record comes after all of them. -/
theorem Ordered.follows_last {file : List (Record D)} (hordered : Ordered file) {p : Nat × Nat}
    (hp : p ∈ votesIn file) : Follows p (lastVote file) := by
  have hne : votesIn file ≠ [] := List.ne_nil_of_mem hp
  unfold lastVote
  unfold Ordered at hordered
  rw [List.getLast?_eq_some_getLast hne, Option.getD_some]
  rw [← List.dropLast_append_getLast hne] at hordered hp
  rcases List.mem_append.mp hp with hearlier | hlast
  · exact (List.pairwise_append.mp hordered).2.2 p hearlier _ (by simp)
  · rw [List.mem_singleton.mp hlast]
    exact .refl _

theorem lastVote_append (file more : List (Record D)) :
    lastVote (file ++ more) = (votesIn more).getLast?.getD (lastVote file) := by
  simp only [lastVote, votesIn_append, List.getLast?_append]
  cases (votesIn more).getLast? <;> rfl

/-- Records of one and the same term and vote may follow the last. -/
theorem Ordered.append {file more : List (Record D)} {p : Nat × Nat} (hordered : Ordered file)
    (hfollows : Follows (lastVote file) p) (hmore : ∀ q ∈ votesIn more, q = p) :
    Ordered (file ++ more) := by
  unfold Ordered
  rw [votesIn_append, List.pairwise_append]
  refine ⟨hordered, ?_, fun a ha b hb => ?_⟩
  · exact List.pairwise_of_forall_mem_list fun a ha b hb => by
      rw [hmore a ha, hmore b hb]
      exact .refl p
  · rw [hmore b hb]
    exact (hordered.follows_last ha).trans hfollows

theorem lastVote_append_same {file more : List (Record D)} {p : Nat × Nat}
    (hmore : ∀ q ∈ votesIn more, q = p) :
    lastVote (file ++ more) = lastVote file ∨ lastVote (file ++ more) = p := by
  rw [lastVote_append]
  cases hlast : (votesIn more).getLast? with
  | none => exact .inl rfl
  | some q => exact .inr (hmore q (List.mem_of_getLast? hlast))

theorem Ordered.of_isPrefix {file more : List (Record D)} (hpre : file <+: more)
    (hordered : Ordered more) : Ordered file := by
  obtain ⟨rest, rfl⟩ := hpre
  unfold Ordered at *
  rw [votesIn_append] at hordered
  exact (List.pairwise_append.mp hordered).1

/-- The last term of a file does not go down as the file grows. -/
theorem Ordered.lastVote_mono {file more : List (Record D)} (hordered : Ordered more)
    (hpre : file <+: more) : (lastVote file).1 ≤ (lastVote more).1 := by
  obtain ⟨rest, rfl⟩ := hpre
  cases hlast : (votesIn file).getLast? with
  | none => simp [lastVote, hlast]
  | some p =>
      have hmem : p ∈ votesIn (file ++ rest) := by
        rw [votesIn_append]
        exact List.mem_append_left _ (List.mem_of_getLast? hlast)
      have hfollows := hordered.follows_last hmem
      have hp : lastVote file = p := by rw [lastVote, hlast]; rfl
      unfold Follows at hfollows
      rw [hp]
      omega

theorem lastVote_replay [Blob D] (file : List (Record D)) :
    ((replay file).hardState.term, (replay file).hardState.vote) = lastVote file := by
  induction file using List.reverseRecOn with
  | nil => rfl
  | append_singleton file record ih =>
      rw [replay_append, lastVote_append]
      cases record with
      | hardState hs => rfl
      | entry e => exact ih
      | snapshot snap => exact ih

namespace Raft

/-! ## Storage operations that keep term and vote -/

/-- The file ends with the node's term and vote, and so does everything still buffered. -/
def Cast (r : Raft D) : Prop :=
  ∃ w, r.wal = some w ∧ w.failed = r.storageFailed ∧ Ordered w.file ∧
    lastVote w.file = (r.term, r.votedFor) ∧ ∀ q ∈ votesIn w.buffer, q = (r.term, r.votedFor)

/-- Records known to be in the file. -/
def synced (r : Raft D) : List (Record D) := (r.wal.map (·.file)).getD []

/-- The node keeps its term and vote, and the file only grows. -/
structure Continues (r next : Raft D) : Prop where
  cast : r.Cast → next.Cast
  grows : r.synced <+: next.synced
  term : next.term = r.term
  vote : next.votedFor = r.votedFor

namespace Continues

variable {r mid next : Raft D}

theorem of_eq (hwal : next.wal = r.wal) (hfailed : next.storageFailed = r.storageFailed)
    (hterm : next.term = r.term) (hvote : next.votedFor = r.votedFor) : Continues r next where
  cast := by
    rintro ⟨w, h⟩
    exact ⟨w, by rwa [hwal, hfailed, hterm, hvote]⟩
  grows := by simp [synced, hwal]
  term := hterm
  vote := hvote

theorem refl (r : Raft D) : Continues r r := of_eq rfl rfl rfl rfl

theorem trans (hfirst : Continues r mid) (hsecond : Continues mid next) : Continues r next where
  cast h := hsecond.cast (hfirst.cast h)
  grows := hfirst.grows.trans hsecond.grows
  term := hsecond.term.trans hfirst.term
  vote := hsecond.vote.trans hfirst.vote

/-- Further changes outside storage make no difference. -/
theorem congr (hfirst : Continues r mid) (hwal : next.wal = mid.wal)
    (hfailed : next.storageFailed = mid.storageFailed) (hterm : next.term = mid.term)
    (hvote : next.votedFor = mid.votedFor) : Continues r next :=
  hfirst.trans (of_eq hwal hfailed hterm hvote)

/-- Saving any records, as long as they do not carry another vote. -/
theorem save (records : List (Record D))
    (hrecords : ∀ q ∈ votesIn records, q = (r.term, r.votedFor))
    (hnext : next = { r with
      wal := r.wal.map fun w => { w with buffer := w.buffer ++ records } }) : Continues r next := by
  subst hnext
  refine ⟨?_, ?_, rfl, rfl⟩
  · rintro ⟨w, hwal, hfailed, hordered, hlast, hbuffer⟩
    refine ⟨{ w with buffer := w.buffer ++ records }, by simp [hwal], hfailed, hordered, hlast,
      fun q hq => ?_⟩
    rw [votesIn_append] at hq
    rcases List.mem_append.mp hq with hq | hq
    · exact hbuffer q hq
    · exact hrecords q hq
  · cases hwal : r.wal <;> simp [synced, hwal]

theorem syncWal (r : Raft D) : Continues r r.syncWal.1 := by
  refine ⟨?_, ?_, rfl, rfl⟩
  · rintro ⟨w, hwal, hfailed, hordered, hlast, hbuffer⟩
    have hpart : ∀ kept, kept <+: w.buffer → Ordered (w.file ++ kept) ∧
        lastVote (w.file ++ kept) = (r.term, r.votedFor) := by
      intro kept hkept
      have hsame : ∀ q ∈ votesIn kept, q = (r.term, r.votedFor) := fun q hq =>
        hbuffer q (by
          obtain ⟨rest, hrest⟩ := hkept
          rw [← hrest, votesIn_append]
          exact List.mem_append_left _ hq)
      exact ⟨hordered.append (hlast ▸ .refl _) hsame,
        (lastVote_append_same hsame).elim (fun h => h.trans hlast) (fun h => h)⟩
    refine ⟨w.sync.1, by simp [Raft.syncWal, hwal], ?_, ?_⟩
    · show w.sync.1.failed = (r.storageFailed || !((r.wal.map Wal.sync).map Prod.snd).getD true)
      rw [hwal, ← hfailed]
      unfold Wal.sync
      cases hmarked : w.failed with
      | true => simp [hmarked]
      | false =>
          simp only [hmarked, Bool.false_eq_true, if_false, Option.map_some, Option.getD_some,
            Bool.false_or]
          split
          · simp [hmarked]
          · split <;> simp
    · show Ordered w.sync.1.file ∧ lastVote w.sync.1.file = (r.term, r.votedFor) ∧
        ∀ q ∈ votesIn w.sync.1.buffer, q = (r.term, r.votedFor)
      unfold Wal.sync
      split
      · exact ⟨hordered, hlast, hbuffer⟩
      · split
        · exact ⟨hordered, hlast, hbuffer⟩
        · split
          · exact ⟨(hpart _ List.prefix_rfl).1, (hpart _ List.prefix_rfl).2, by simp [votesIn]⟩
          · exact ⟨(hpart _ (List.take_prefix _ _)).1, (hpart _ (List.take_prefix _ _)).2,
              by simp [votesIn]⟩
  · cases hwal : r.wal with
    | none => simp [synced, Raft.syncWal, hwal]
    | some w =>
        have hgrows : w.file <+: w.sync.1.file := by
          unfold Wal.sync
          split
          · exact List.prefix_rfl
          · split
            · exact List.prefix_rfl
            · split <;> exact List.prefix_append _ _
        simpa [synced, Raft.syncWal, hwal] using hgrows

end Continues

/-! ## Bodies that keep term and vote -/

section Bodies

variable {r : Raft D}

theorem continues_saveEntry (e : Entry) : Continues r (r.saveEntry e) :=
  .save [.entry e] (by simp [votesIn]) rfl

theorem continues_saveHardState : Continues r r.saveHardState := by
  by_cases hempty : HardState.isEmpty ⟨r.term, r.votedFor, r.commitIndex⟩ = true
  · refine .of_eq ?_ rfl rfl rfl
    simp [saveHardState, Wal.saveHardState, hempty]
  · refine .save [.hardState ⟨r.term, r.votedFor, r.commitIndex⟩]
      (by simp [votesIn]) ?_
    simp only [saveHardState, Wal.saveHardState, hempty, if_false, Bool.false_eq_true]
    rfl

theorem Continues.hardState {next : Raft D} (hfirst : Continues r next) :
    Continues r next.saveHardState.syncWal.1 :=
  (hfirst.trans continues_saveHardState).trans (.syncWal _)

theorem continues_saveSnapshot [Blob D] (snap : SnapshotMeta D) :
    Continues r (r.saveSnapshot snap) := by
  by_cases hempty : snap.isEmpty = true
  · refine .of_eq ?_ rfl rfl rfl
    simp [saveSnapshot, Wal.saveSnapshot, hempty]
  · refine .save [.snapshot snap] (by simp [votesIn]) ?_
    simp only [saveSnapshot, Wal.saveSnapshot, hempty, if_false, Bool.false_eq_true]
    rfl

theorem continues_appendEntry {next : Raft D} {index : Nat} {e : Entry}
    (hstep : r.appendEntry index e = some next) : Continues r next := by
  have htake : ∀ log, Continues r (saveEntry { r with log := log } e) := fun log =>
    (continues_saveEntry e).congr rfl rfl rfl rfl
  unfold appendEntry at hstep
  split at hstep
  · exact Option.some.inj hstep ▸ .refl r
  · split at hstep
    · split at hstep
      · split at hstep
        · cases hstep
        · exact Option.some.inj hstep ▸ htake _
      · exact Option.some.inj hstep ▸ .refl r
    · exact Option.some.inj hstep ▸ htake _

theorem continues_appendLoop (prev i : Nat) (entries : List Entry) :
    Continues r (r.appendLoop prev i entries).1 := by
  induction entries generalizing r i with
  | nil => exact .refl r
  | cons e rest ih =>
      rw [appendLoop]
      split
      · exact .refl r
      next next hstep => exact (continues_appendEntry hstep).trans (ih (i + 1))

theorem continues_acceptEntries [Blob D] (msg : Message D) :
    Continues r (r.acceptEntries msg).1 := by
  refine acceptEntries_rule (P := Continues r) (continues_appendLoop _ _ _)
    (fun mid hmid => hmid.trans (.syncWal _)) fun mid hmid _ => ?_
  have hlearned : Continues r { mid with
      commitIndex := min msg.leaderCommit mid.lastLogIndex } := hmid.congr rfl rfl rfl rfl
  exact hlearned.hardState

theorem continues_chooseCommit : Continues r r.chooseCommit := by
  obtain ⟨c, heq⟩ := r.advanceCommit_frame
  have hadvance : Continues r r.advanceCommit := by
    rw [heq]
    exact .of_eq rfl rfl rfl rfl
  unfold chooseCommit
  split
  · exact hadvance.hardState
  · exact hadvance

theorem continues_appendOwn (e : Entry) : Continues r (r.appendOwn e).1 := by
  have hsaved : Continues r (saveEntry { r with log := r.log ++ [e] } e) :=
    (continues_saveEntry e).congr rfl rfl rfl rfl
  have hsync := hsaved.trans (.syncWal _)
  unfold appendOwn
  dsimp only
  split
  · exact hsync.congr rfl rfl rfl rfl
  · exact hsync

theorem continues_takeSnapshot [Blob D] (index : Nat) (state : D) :
    Continues r (r.takeSnapshot index state) := by
  have hsync : Continues r (r.saveSnapshot ⟨index, r.termAt index, state, false⟩).syncWal.1 :=
    (continues_saveSnapshot _).trans (.syncWal _)
  unfold takeSnapshot
  split
  · exact .refl r
  · dsimp only
    split
    · exact hsync
    · exact hsync.congr rfl rfl rfl rfl

theorem continues_installSnapshot [Blob D] (msg : Message D) :
    Continues r (r.installSnapshot msg).1 := by
  have hsync : Continues r (r.saveSnapshot
      ⟨msg.snapshotIndex, msg.snapshotTerm, msg.snapshotData, true⟩).syncWal.1 :=
    (continues_saveSnapshot _).trans (.syncWal _)
  unfold installSnapshot
  dsimp only
  split
  · exact hsync
  · have hadopted : Continues r ((r.saveSnapshot
        ⟨msg.snapshotIndex, msg.snapshotTerm, msg.snapshotData, true⟩).syncWal.1.adoptSnapshot
        msg) :=
      hsync.congr rfl rfl rfl rfl
    split <;> exact hadopted.hardState

end Bodies

/-! ## Terms and candidacies -/

/-- The pre-vote term, when set, is the next term, so a node never stands for a term
beyond the 64-bit range; a candidate has voted for itself. -/
structure InTerm (r : Raft D) : Prop where
  term_lt : r.term < 2 ^ 64
  pending : r.pendingPreVoteTerm = 0 ∨ r.pendingPreVoteTerm = wrap64 (r.term + 1)
  id_ne_zero : r.id ≠ 0
  candidate : r.state = .candidate → r.votedFor = r.id

section Moves

variable {o : Outside D} {r next : Raft D} {msg : Message D}

theorem InTerm.term_succ (hterms : r.InTerm) (hpending : r.pendingPreVoteTerm ≠ 0) :
    r.term + 1 < 2 ^ 64 := by
  have hlt := hterms.term_lt
  rcases hterms.pending with hzero | hnext
  · exact absurd hzero hpending
  · by_contra hwrap
    have : r.term + 1 = 2 ^ 64 := by omega
    rw [hnext, this] at hpending
    exact hpending (by decide)

theorem sender_ne_zero (haddressed : r.rejects msg = false) : msg.sender ≠ 0 := by
  intro hzero
  simp [rejects, isMember, hzero] at haddressed

section

variable [Blob D]

theorem Move.inTerm (hmsgs : ∀ msg, o.message msg → msg.term < 2 ^ 64) (hterms : r.InTerm)
    (hmove : Move o r next) : next.InTerm := by
  obtain ⟨hlt, hpending, hid, hcandidate⟩ := hterms
  have hstored (hsaves : Saves r next) : next.InTerm := by
    obtain ⟨_, _, _, _, _, _, _, _, _, _, rfl⟩ := hsaves.frame
    exact ⟨hlt, hpending, hid, hcandidate⟩
  cases hmove with
  | raise msg lead hmsg _ haddressed hterm =>
      rw [becomeFollower_of_lt hterm]
      exact ⟨hmsgs msg hmsg, .inl rfl, hid, fun h => by cases h⟩
  | demote msg hmsg _ _ hleader hterm =>
      rw [becomeFollower_of_eq hterm]
      exact ⟨hlt, .inl rfl, hid, fun h => by cases h⟩
  | withdraw => exact ⟨hlt, .inl rfl, hid, fun h => by cases h⟩
  | sound =>
      unfold preCampaign
      split
      · exact ⟨hlt, hpending, hid, hcandidate⟩
      · exact ⟨hlt, .inr rfl, hid, hcandidate⟩
  | stand => exact ⟨wrap64_lt _, .inl rfl, hid, fun _ => rfl⟩
  | grant msg hmsg htype haddressed _ _ hvote =>
      refine ⟨hlt, hpending, hid, fun h => ?_⟩
      -- a candidate's vote is taken
      have hself := hcandidate h
      rcases hvote with hzero | hsender
      · exact absurd (hself.symm.trans hzero) hid
      · exact hsender.symm.trans hself
  | crown => exact ⟨hlt, hpending, hid, fun h => by cases h⟩
  | canvass =>
      unfold campaign
      split <;> exact ⟨hlt, hpending, hid, hcandidate⟩
  | accept | choose | extend | apply | compact => exact hstored (by constructor)
  | install => exact hstored (.install _)
  | _ => exact ⟨hlt, hpending, hid, hcandidate⟩

/-- Terms go up, and within a term a vote is only cast once. -/
theorem Move.follows (hterms : r.InTerm) (hmove : Move o r next) :
    Follows (r.term, r.votedFor) (next.term, next.votedFor) := by
  have hstored (hsaves : Saves r next) :
      Follows (r.term, r.votedFor) (next.term, next.votedFor) := by
    obtain ⟨_, _, _, _, _, _, _, _, _, _, rfl⟩ := hsaves.frame
    exact .refl _
  cases hmove with
  | raise msg lead _ _ _ hterm =>
      rw [becomeFollower_of_lt hterm]
      exact .inl hterm
  | demote msg _ _ _ _ hterm =>
      rw [becomeFollower_of_eq hterm]
      exact .refl _
  | sound =>
      unfold preCampaign
      split <;> exact .refl _
  | stand _ _ hpending =>
      have hnext : wrap64 (r.term + 1) = r.term + 1 := wrap64_of_lt (hterms.term_succ hpending)
      exact .inl (show r.term < wrap64 (r.term + 1) by omega)
  | grant msg _ _ _ _ _ hvote => exact .inr ⟨rfl, hvote.imp_right Eq.symm⟩
  | canvass =>
      unfold campaign
      split <;> exact .refl _
  | accept | choose | extend | apply | compact => exact hstored (by constructor)
  | install => exact hstored (.install _)
  | _ => exact .refl _

theorem Moves.follows (hmsgs : ∀ msg, o.message msg → msg.term < 2 ^ 64) (hterms : r.InTerm)
    (hmoves : Moves o r next) :
    next.InTerm ∧ Follows (r.term, r.votedFor) (next.term, next.votedFor) := by
  induction hmoves with
  | refl => exact ⟨hterms, .refl _⟩
  | tail _ hmove ih => exact ⟨hmove.inTerm hmsgs ih.1, ih.2.trans (hmove.follows ih.1)⟩

end

/-! ## What a move adds to the history of votes -/

/-- After a move the file still is a history of votes, and a healthy node is at its end. -/
structure Ballots (r next : Raft D) : Prop where
  grows : r.synced <+: next.synced
  ordered : Ordered next.synced
  bounded : ∀ p ∈ votesIn next.synced, p.1 < 2 ^ 64
  cast : next.storageFailed = false → next.Cast

theorem Cast.ordered (hcast : r.Cast) : Ordered r.synced := by
  obtain ⟨w, hwal, _, hordered, _⟩ := hcast
  simpa [synced, hwal] using hordered

theorem Cast.lastVote_synced (hcast : r.Cast) : lastVote r.synced = (r.term, r.votedFor) := by
  obtain ⟨w, hwal, -, -, hlast, -⟩ := hcast
  simpa [synced, hwal] using hlast

theorem Cast.bounded (hcast : r.Cast) (hlt : r.term < 2 ^ 64) :
    ∀ p ∈ votesIn r.synced, p.1 < 2 ^ 64 := by
  obtain ⟨w, hwal, _, hordered, hlast, _⟩ := hcast
  intro p hp
  have hsynced : r.synced = w.file := by simp [synced, hwal]
  have hfollows := hordered.follows_last (hsynced ▸ hp)
  rw [hlast] at hfollows
  simp only [Follows] at hfollows
  omega

theorem Continues.ballots (hcontinues : Continues r next) (hterms : r.InTerm) (hcast : r.Cast) :
    Ballots r next where
  grows := hcontinues.grows
  ordered := (hcontinues.cast hcast).ordered
  bounded := (hcontinues.cast hcast).bounded (hcontinues.term ▸ hterms.term_lt)
  cast _ := hcontinues.cast hcast

/-- A new term or vote, flushed at once. -/
theorem Cast.change {mid : Raft D} (hcast : r.Cast) (hhealthy : r.storageFailed = false)
    (hwal : mid.wal = r.wal) (hmid : mid.storageFailed = false)
    (hfollows : Follows (r.term, r.votedFor) (mid.term, mid.votedFor)) (hlt : mid.term < 2 ^ 64)
    (hne : mid.term ≠ 0 ∨ mid.votedFor ≠ 0) : Ballots r mid.saveHardState.syncWal.1 := by
  obtain ⟨w, hw, hfailed, hordered, hlast, hbuffer⟩ := hcast
  rw [hhealthy] at hfailed
  let hs : HardState := ⟨mid.term, mid.votedFor, mid.commitIndex⟩
  have hsave : w.saveHardState hs = { w with buffer := w.buffer ++ [.hardState hs] } := by
    have hempty : hs.isEmpty = false := by
      rcases hne with h | h <;> simp [HardState.isEmpty, hs, h]
    simp [Wal.saveHardState, hempty, Wal.appendRecord]
  have hnew : votesIn [(.hardState hs : Record D)] = [(mid.term, mid.votedFor)] := rfl
  have hall : Ordered (w.file ++ (w.buffer ++ [.hardState hs])) := by
    rw [← List.append_assoc]
    have hold : lastVote (w.file ++ w.buffer) = (r.term, r.votedFor) :=
      (lastVote_append_same hbuffer).elim (fun h => h.trans hlast) (fun h => h)
    refine (hordered.append (hlast ▸ .refl _) hbuffer).append (p := (mid.term, mid.votedFor)) ?_ ?_
    · rw [hold]
      exact hfollows
    · simp [hnew]
  have hend : lastVote (w.file ++ (w.buffer ++ [.hardState hs])) = (mid.term, mid.votedFor) := by
    rw [← List.append_assoc, lastVote_append, hnew]
    rfl
  have hbound : ∀ p ∈ votesIn (w.file ++ (w.buffer ++ [.hardState hs])), p.1 < 2 ^ 64 := by
    intro p hp
    have hp' := hall.follows_last hp
    rw [hend] at hp'
    simp only [Follows] at hp'
    omega
  have hsynced : r.synced = w.file := by simp [synced, hw]
  have hsync : mid.saveHardState.syncWal.1 = { mid with
      wal := some (Wal.sync { w with buffer := w.buffer ++ [.hardState hs] }).1
      storageFailed := !(Wal.sync { w with buffer := w.buffer ++ [.hardState hs] }).2 } := by
    simp only [syncWal, saveHardState, hwal, hw, Option.map_some, Option.getD_some, hmid,
      Bool.false_or]
    rw [hsave]
  rw [hsync]
  rcases Wal.sync_of_running (w := { w with buffer := w.buffer ++ [.hardState hs] }) hfailed
    (by simp) with heq | ⟨kept, heq⟩
  · rw [heq]
    refine ⟨?_, hall, hbound, fun _ => ⟨_, rfl, hfailed, hall, hend, by simp [votesIn]⟩⟩
    rw [hsynced]
    exact List.prefix_append _ _
  · rw [heq]
    have hkept : w.file ++ (w.buffer ++ [Record.hardState hs]).take kept <+:
        w.file ++ (w.buffer ++ [.hardState hs]) :=
      (List.prefix_append_right_inj _).mpr (List.take_prefix _ _)
    refine ⟨?_, hall.of_isPrefix hkept, fun p hp => hbound p ?_, fun h => by cases h⟩
    · rw [hsynced]
      exact List.prefix_append _ _
    · exact (hkept.filterMap _).subset hp

theorem Ballots.trans {mid : Raft D} (hfirst : Ballots r mid) (hsecond : Ballots mid next) :
    Ballots r next :=
  ⟨hfirst.grows.trans hsecond.grows, hsecond.ordered, hsecond.bounded, hsecond.cast⟩

variable [Blob D]

theorem Move.ballots (hmsgs : ∀ msg, o.message msg → msg.term < 2 ^ 64) (hterms : r.InTerm)
    (hcast : r.Cast) (hhealthy : r.storageFailed = false) (hmove : Move o r next) :
    Ballots r next := by
  cases hmove with
  | raise msg lead hmsg _ haddressed hterm =>
      rw [becomeFollower_of_lt hterm]
      exact hcast.change hhealthy rfl hhealthy (.inl hterm) (hmsgs msg hmsg)
        (.inl (by simp only [resetRandomizedElectionTimeout]; omega))
  | demote msg hmsg _ _ hleader hterm =>
      rw [becomeFollower_of_eq hterm]
      exact Continues.ballots (.of_eq rfl rfl rfl rfl) hterms hcast
  | stand hstate _ hpending =>
      have hterm := hterms.term_succ hpending
      refine hcast.change hhealthy rfl hhealthy (.inl ?_) (wrap64_lt _) (.inr hterms.id_ne_zero)
      simp only [resetRandomizedElectionTimeout]
      rw [wrap64_of_lt hterm]
      omega
  | grant msg hmsg htype haddressed _ _ hvote =>
      have hchange : Ballots r (r.grantVote msg).1 :=
        hcast.change hhealthy rfl hhealthy (.inr ⟨rfl, hvote.imp_right Eq.symm⟩)
          hterms.term_lt (.inr (sender_ne_zero haddressed))
      exact ⟨hchange.grows, hchange.ordered, hchange.bounded, hchange.cast⟩
  | accept msg =>
      exact Continues.ballots ((continues_acceptEntries msg).congr rfl rfl rfl rfl) hterms hcast
  | choose => exact continues_chooseCommit.ballots hterms hcast
  | extend data => exact (continues_appendOwn _).ballots hterms hcast
  | compact index state => exact (continues_takeSnapshot index state).ballots hterms hcast
  | install msg =>
      exact Continues.ballots ((continues_installSnapshot msg).congr rfl rfl rfl rfl) hterms hcast
  | sound =>
      refine Continues.ballots ?_ hterms hcast
      unfold preCampaign
      split <;> exact .of_eq rfl rfl rfl rfl
  | canvass =>
      refine Continues.ballots ?_ hterms hcast
      unfold campaign
      split <;> exact .of_eq rfl rfl rfl rfl
  | apply index =>
      refine Continues.ballots ?_ hterms hcast
      unfold advance
      split <;> exact .of_eq rfl rfl rfl rfl
  | _ => exact Continues.ballots (.of_eq rfl rfl rfl rfl) hterms hcast

theorem Moves.ballots (hmsgs : ∀ msg, o.message msg → msg.term < 2 ^ 64) (hterms : r.InTerm)
    (hcast : r.Cast) (hmoves : Moves o r next) : next.InTerm ∧ Ballots r next := by
  induction hmoves with
  | refl =>
      exact ⟨hterms, List.prefix_rfl, hcast.ordered, hcast.bounded hterms.term_lt, fun _ => hcast⟩
  | @tail mid next _ hmove ih =>
      obtain ⟨hterms', hballots⟩ := ih
      refine ⟨hmove.inTerm hmsgs hterms', ?_⟩
      cases hfailed : mid.storageFailed with
      | false => exact hballots.trans (hmove.ballots hmsgs hterms' (hballots.cast hfailed) hfailed)
      | true =>
          obtain ⟨hwal, hfailed', -⟩ := hmove.of_failed hfailed
          have hsame : next.synced = mid.synced := by simp [synced, hwal]
          exact ⟨hsame ▸ hballots.grows, hsame ▸ hballots.ordered, hsame ▸ hballots.bounded,
            fun h => by simp [hfailed'] at h⟩

end Moves

end Raft

end RaftKv
