import RaftKv.Cluster.Stream

/-! # Who has committed what

A commit index spreads: a leader finds an index replicated in its own term, tells its
followers, and they tell whoever they lead later. The ledger names the leaders that found
something. Every commit index of a cluster without snapshots, in memory, in a file or in a
message, is covered by the ledger, and a leader that is in it still knows what it found as
long as it leads that term.
-/

namespace RaftKv

open TermLog

variable {setup : Setup} {a a' : Sys Nat Entry} {i : Nat} {r next : Raft Capture}
  {o : Outside Capture} {w : Wal Capture}

/-! ## The commit index of one node -/

/-- Records that raise neither the term nor the commit index above the given ones. -/
def Record.AtMost (term commit : Nat) : Record Capture → Prop
  | .hardState hs => hs.term ≤ term ∧ hs.commit ≤ commit
  | .entry _ => True
  | .snapshot _ => False

theorem Durable.foldl_atMost {term commit : Nat} {records : List (Record Capture)}
    {d : Durable Capture} (hrecords : ∀ record ∈ records, record.AtMost term commit)
    (hterm : d.term ≤ term) (hcommit : d.commit ≤ commit) (hoffset : d.offset ≤ commit) :
    (records.foldl Durable.apply d).term ≤ term ∧
      (records.foldl Durable.apply d).commit ≤ commit := by
  induction records generalizing d with
  | nil => exact ⟨hterm, hcommit⟩
  | cons record rest ih =>
      obtain ⟨hrecord, hrest⟩ := List.forall_mem_cons.mp hrecords
      rw [List.foldl_cons]
      cases record with
      | hardState hs => exact ih hrest hrecord.1 (max_le hoffset hrecord.2) hoffset
      | entry e => exact ih hrest hterm hcommit hoffset
      | snapshot snap => exact hrecord.elim

namespace Raft

/-- What a move can do to the commit index. -/
inductive Commits (o : Outside Capture) (r next : Raft Capture) (bound : Nat) : Prop
  | kept (hbound : bound = r.commitIndex)
  | learned (msg : Message Capture) (hmsg : o.message msg) (htype : msg.type = .appendEntries)
      (hbound : bound = msg.leaderCommit)
  | chose (hstate : r.state = .leader) (hleads : next.state = .leader)
      (hterm : next.term = r.term) (hnew : r.commitIndex < bound)
      (hle : bound ≤ r.logOffset + r.log.length) (hreplicated : r.Replicated bound)
      (hnext : next.storageFailed = false → next.commitIndex = bound)

theorem Writes.atMost {term commit : Nat} {records : List (Record Capture)}
    (hwrites : Writes r w records next)
    (hdurable : r.durable = w.file.foldl Durable.apply Durable.start)
    (hrecords : ∀ record ∈ records, record.AtMost term commit) (hterm : r.term ≤ term)
    (hcommit : r.commitIndex ≤ commit) (hoffset : r.logOffset ≤ commit) :
    next.commitIndex ≤ commit ∧ next.onDisk.commit ≤ commit ∧ next.onDisk.term ≤ term := by
  have hsome : ∀ done, done <+: records →
      (done.foldl Durable.apply r.durable).term ≤ term ∧
        (done.foldl Durable.apply r.durable).commit ≤ commit := fun done hdone =>
    Durable.foldl_atMost (fun record h => hrecords record (hdone.subset h)) hterm hcommit hoffset
  have hdisk : ∀ (w' : Wal Capture) done, next.wal = some w' → w'.file = w.file ++ done →
      next.onDisk = done.foldl Durable.apply r.durable := by
    intro w' done hwal' hfile
    rw [onDisk, Raft.synced, hwal', Option.map_some, Option.getD_some, hfile, List.foldl_append,
      ← hdurable]
  cases hwrites with
  | synced w' _ hwal' _ _ hfile hnext =>
      have hall := hsome records List.prefix_rfl
      rw [hdisk w' records hwal' hfile]
      refine ⟨?_, hall.2, hall.1⟩
      rw [← hnext] at hall
      exact hall.2
  | failed w' kept rest seen _ hsplit hseen hwal' _ _ hfile _ hnext =>
      have hkept := hsome kept ((List.prefix_append _ _).trans hsplit)
      have hshown := hsome seen (hseen.trans hsplit)
      rw [hdisk w' kept hwal' hfile]
      refine ⟨?_, hkept.2, hkept.1⟩
      rw [← hnext] at hshown
      exact hshown.2

theorem hardStateRecord_atMost {term commit : Nat} (hterm : r.term ≤ term)
    (hcommit : r.commitIndex ≤ commit) :
    ∀ record ∈ r.hardStateRecord, record.AtMost term commit := by
  unfold hardStateRecord
  split
  · simp
  · simpa [Record.AtMost] using ⟨hterm, hcommit⟩

/-- The commit index moves in one of three ways, and neither the file nor the memory goes
beyond. -/
def CommitsWithin (o : Outside Capture) (r next : Raft Capture) : Prop :=
  ∃ bound, Commits o r next bound ∧ next.commitIndex ≤ bound ∧ next.onDisk.commit ≤ bound ∧
    next.onDisk.term ≤ next.term

theorem CommitsWithin.of_same (hdisk : r.onDisk = r.durable) (hwal : next.wal = r.wal)
    (hdurable : next.durable = r.durable) : CommitsWithin o r next := by
  have hnext : next.onDisk = r.durable := by
    rw [← hdisk, onDisk, Raft.synced, hwal]
    rfl
  refine ⟨r.commitIndex, .kept rfl, (congrArg Durable.commit hdurable).le, ?_, ?_⟩
  · rw [hnext]
    exact le_rfl
  · rw [hnext]
    exact (congrArg Durable.term hdurable).ge

/-- A healthy node and its WAL, between two calls. -/
structure Writable (r : Raft Capture) (w : Wal Capture) : Prop where
  wal : r.wal = some w
  clean : w.Clean
  healthy : r.storageFailed = false
  valid : r.durable.Valid
  durable : r.durable = w.file.foldl Durable.apply .start

namespace Writable

theorem offset_le (hw : Writable r w) : r.logOffset ≤ r.commitIndex := hw.valid.offset_le

/-- A hard state with the old commit index. -/
theorem hardState (hw : Writable r w) {hs : HardState} (hwrites : Writes r w [.hardState hs] next)
    (hcommit : hs.commit = r.commitIndex) (hterm : hs.term = next.term)
    (hle : r.term ≤ next.term) : CommitsWithin o r next :=
  ⟨r.commitIndex, .kept rfl, hwrites.atMost hw.durable (by simp [Record.AtMost, hcommit, hterm])
    hle le_rfl hw.offset_le⟩

theorem acceptEntries (hw : Writable r w) {msg : Message Capture} (hmsg : o.message msg)
    (hrange : msg.InRange) (htype : msg.type = .appendEntries) (hlog : r.logOk msg = true) :
    CommitsWithin o r ((r.acceptEntries msg).1.send (r.acceptEntries msg).2) := by
  obtain ⟨added, log, more, haccepted⟩ :=
    acceptEntries_spec hw.valid hw.wal hw.clean hw.healthy hrange htype hlog
  have hterm : ((r.acceptEntries msg).1.send (r.acceptEntries msg).2).term = r.term := by
    obtain ⟨log', commit, wal, failed, heq⟩ := r.acceptEntries_frame msg
    rw [heq]
    rfl
  have hadded : ∀ commit, ∀ record ∈ added.map Record.entry, record.AtMost r.term commit := by
    intro commit record hrecord
    obtain ⟨e, -, rfl⟩ := List.mem_map.mp hrecord
    trivial
  rw [CommitsWithin, hterm]
  rcases haccepted.learned with rfl | ⟨-, hbehind, rfl⟩
  · refine ⟨r.commitIndex, .kept rfl, (haccepted.writes.congr rfl rfl rfl).atMost hw.durable ?_
      le_rfl le_rfl hw.offset_le⟩
    rw [List.append_nil]
    exact hadded _
  · refine ⟨msg.leaderCommit, .learned msg hmsg htype rfl, (haccepted.writes.congr rfl rfl
      rfl).atMost hw.durable ?_ le_rfl hbehind.le (hw.offset_le.trans hbehind.le)⟩
    intro record hrecord
    rcases List.mem_append.mp hrecord with hentry | hhard
    · exact hadded _ record hentry
    · exact hardStateRecord_atMost (r := { r with
        log := log
        commitIndex := min msg.leaderCommit (r.logOffset + log.length) })
        le_rfl (min_le_left _ _) record hhard

theorem chooseCommit (hw : Writable r w) (hdisk : r.onDisk = r.durable)
    (hstate : r.state = .leader) : CommitsWithin o r r.chooseCommit := by
  rcases chooseCommit_writes hw.valid hw.wal hw.clean hw.healthy with
    heq | ⟨c, hlt, hle, hreplicated, hwrites⟩
  · rw [heq]
    exact .of_same hdisk rfl rfl
  have hrole : r.chooseCommit.state = r.state ∧ r.chooseCommit.term = r.term := by
    obtain ⟨commit, wal, failed, heq⟩ := r.chooseCommit_frame
    rw [heq]
    exact ⟨rfl, rfl⟩
  obtain ⟨hleads, hterm⟩ := hrole
  refine ⟨c, .chose hstate (hleads.trans hstate) hterm hlt hle hreplicated fun hrunning => ?_, ?_⟩
  · cases hwrites with
    | synced w' _ _ _ _ _ hnext =>
        have hcommit := congrArg Durable.commit hnext
        exact hcommit.trans (max_eq_right (hw.offset_le.trans hlt.le))
    | failed _ _ _ _ _ _ _ _ hfailed => cases hrunning.symm.trans hfailed
  · rw [hterm]
    exact hwrites.atMost hw.durable (by simp [Record.AtMost]) le_rfl hlt.le
      (hw.offset_le.trans hlt.le)

theorem appendOwn (hw : Writable r w) (hroom : r.lastLogIndex + 2 < 2 ^ 64) (data : Bytes) :
    CommitsWithin o r (r.appendOwn (r.nextEntry data)).1 := by
  have hterm : (r.appendOwn (r.nextEntry data)).1.term = r.term := by
    obtain ⟨log, wal, failed, heq⟩ := r.appendOwn_frame (r.nextEntry data)
    rw [heq]
  rw [CommitsWithin, hterm]
  exact ⟨r.commitIndex, .kept rfl, (appendOwn_writes hw.valid hw.wal hw.clean hw.healthy hroom
    data).atMost hw.durable (by simp [Record.AtMost]) le_rfl le_rfl hw.offset_le⟩

theorem becomeFollower (hw : Writable r w) {term lead : Nat} (hlt : r.term < term)
    (hfits : term < 2 ^ 64) : CommitsWithin o r (r.becomeFollower term lead) := by
  have hterm : (r.becomeFollower term lead).term = term := becomeFollower_term hlt.le
  refine hw.hardState (becomeFollower_writes hw.valid hw.wal hw.clean hw.healthy hlt hfits) rfl
    hterm.symm ?_
  rw [hterm]
  exact hlt.le

theorem becomeCandidate (hw : Writable r w) (hlt : r.term + 1 < 2 ^ 64) :
    CommitsWithin o r r.becomeCandidate := by
  have hterm : r.becomeCandidate.term = r.term + 1 := wrap64_of_lt hlt
  refine hw.hardState (becomeCandidate_writes hw.valid hw.wal hw.clean hw.healthy hlt) rfl
    hterm.symm ?_
  rw [hterm]
  exact Nat.le_succ _

end Writable

/-- Every move of a healthy node without snapshots. -/
theorem Move.commits (ho : o.InRange) (hno : ¬ o.Compacts r) (hmirrors : r.Mirrors)
    (hhealthy : r.storageFailed = false) (hmove : Move o r next) : CommitsWithin o r next := by
  have hdisk := hmirrors.onDisk_eq hhealthy
  obtain ⟨hterms, hsane, w, hwal, -, -, hstored⟩ := hmirrors
  obtain ⟨hclean, hdurable⟩ := hstored hhealthy
  have hw : Writable r w := ⟨hwal, hclean, hhealthy, hsane.valid, hdurable⟩
  cases hmove with
  | raise msg lead hmsg _ haddressed hterm =>
      exact hw.becomeFollower hterm (ho.message msg hmsg).term
  | demote msg hmsg _ _ hleader hterm =>
      rw [becomeFollower_of_eq hterm]
      exact .of_same hdisk rfl rfl
  | stand hstate _ hpending => exact hw.becomeCandidate (hterms.term_succ hpending)
  | grant msg hmsg htype haddressed =>
      have hwrites := grantVote_writes hw.valid hwal hclean hhealthy (sender_ne_zero haddressed)
      exact hw.hardState (hwrites.congr rfl rfl rfl) rfl rfl le_rfl
  | accept msg hmsg htype hready hlog =>
      exact hw.acceptEntries hmsg (ho.message msg hmsg) htype hlog
  | choose hstate => exact hw.chooseCommit hdisk hstate
  | extend data _ _ hroom => exact hw.appendOwn (ho.room _ hroom) data
  | compact index state hstate => exact absurd (.inl ⟨index, state, hstate⟩) hno
  | install msg hmsg htype => exact absurd (.inr ⟨msg, hmsg, htype⟩) hno
  | sound =>
      refine .of_same hdisk ?_ ?_ <;>
        · unfold preCampaign
          split <;> rfl
  | canvass =>
      refine .of_same hdisk ?_ ?_ <;>
        · unfold campaign
          split <;> rfl
  | apply index =>
      refine .of_same hdisk ?_ ?_ <;>
        · unfold advance
          split <;> rfl
  | _ => exact .of_same hdisk rfl rfl

end Raft

/-! ## The ledger -/

/-- A leader has found an index replicated in its term. -/
structure Decision where
  leader : Nat
  term : Nat
  index : Nat

/-- It led the term, and a majority has acknowledged the index to it. -/
structure Decision.Valid (setup : Setup) (a : Sys Nat Entry) (d : Decision) : Prop where
  positive : 0 < d.index
  leads : a.leader d.term = some d.leader
  chosen : setup.protocol.Chosen a d.term (d.index - 1)

theorem Decision.Valid.grow {d : Decision} (hgrow : Grows a a') (hvalid : d.Valid setup a) :
    d.Valid setup a' :=
  ⟨hvalid.positive, hgrow.leader _ _ hvalid.leads, hvalid.chosen.grow _ hgrow⟩

/-- Some decision of the ledger reaches as far. -/
def Decided (ledger : List Decision) (index : Nat) : Prop :=
  index = 0 ∨ ∃ d ∈ ledger, index ≤ d.index

theorem Decided.le {ledger : List Decision} {index bound : Nat} (hle : index ≤ bound)
    (hdecided : Decided ledger bound) : Decided ledger index := by
  rcases hdecided with rfl | ⟨d, hd, hbound⟩
  · exact .inl (Nat.le_zero.mp hle)
  · exact .inr ⟨d, hd, hle.trans hbound⟩

theorem Decided.append {ledger : List Decision} {index : Nat} (more : List Decision)
    (hdecided : Decided ledger index) : Decided (more ++ ledger) index :=
  hdecided.imp_right fun ⟨d, hd, hle⟩ => ⟨d, List.mem_append_right _ hd, hle⟩

namespace Raft

/-- A running node of the term of a decision is not its candidate any more, and if it leads
the term it knows what it found. -/
def Upholds (r : Raft Capture) (d : Decision) : Prop :=
  r.storageFailed = false → r.term = d.term →
    r.state ≠ .candidate ∧ (r.state = .leader → d.index ≤ r.commitIndex)

structure Accounts (ledger : List Decision) (i : Nat) (r : Raft Capture) : Prop where
  commit : Decided ledger r.commitIndex
  disk : Decided ledger r.onDisk.commit
  behind : r.onDisk.term ≤ r.term
  upholds : ∀ d ∈ ledger, d.leader = i → r.Upholds d
  spoken : r.storageFailed = false → ∀ msg ∈ r.msgs, msg.type = .appendEntries →
    Decided ledger msg.leaderCommit

theorem Upholds.move {d : Decision} (hrun : Running setup a i r w) (hvalid : d.Valid setup a)
    (hleader : d.leader = i) (hupholds : r.Upholds d) (hmove : Move o r next) : next.Upholds d := by
  obtain ⟨l, hbid⟩ := hrun.inv.leaderBid _ _ hvalid.leads
  have hreached : d.term ≤ r.term := by
    rw [← hrun.term, ← hleader]
    exact (hrun.inv.bidTerm _ _ _ hbid).2.1
  intro hhealthy' hterm'
  refine ⟨fun hcandidate => ?_, fun hleads => ?_⟩
  · rcases hmove.was_candidate_or hcandidate with ⟨hwas, hterm⟩ | ⟨hpending, rfl⟩
    · exact (hupholds hrun.healthy (hterm.symm.trans hterm')).1 hwas
    · have hterm : r.becomeCandidate.term = r.term + 1 :=
        wrap64_of_lt (hrun.mirrors.inTerm.term_succ hpending)
      omega
  · cases hmove.leads hrun.valid hleads with
    | crowned hwas hnext =>
        subst hnext
        exact absurd hwas (hupholds hrun.healthy hterm').1
    | kept hstate hterm hcommit =>
        exact ((hupholds hrun.healthy (hterm.symm.trans hterm')).2 hstate).trans hcommit
    | noted msg _ _ _ _ hstate hnext =>
        subst hnext
        exact (hupholds hrun.healthy hterm').2 hstate
    | backedOff peer _ hstate hnext =>
        subst hnext
        exact (hupholds hrun.healthy hterm').2 hstate

/-- A running node may be taken to have acknowledged all it can. -/
theorem Simulated.fullyAcked (hinv : setup.protocol.Inv a) (hsim : r.Simulated setup a i)
    (hhealthy : r.storageFailed = false) :
    ∃ a', setup.protocol.Steps i a a' ∧ r.Simulated setup a' i ∧ Protocol.FullyAcked a' i := by
  obtain ⟨w, hrun⟩ := hsim.stores.running hinv hsim.mirrors hhealthy hsim.id
  obtain ⟨k, hsteps, hrun', hfull⟩ := hrun.fullyAcked
  have hgrow := (hsteps.evolves hinv).grows
  exact ⟨_, hsteps, ⟨hsim.mirrors, hsim.id, hsim.peers, hrun'.stores,
    hsim.plays.of_same hgrow (fun h => h) rfl rfl rfl rfl rfl rfl,
    fun h msg hmsg => (hsim.honest h msg hmsg).grow hgrow⟩, hfull⟩

/-- What a move finds replicated is decided, and in the protocol it may have been so before. -/
theorem Commits.decided {bound : Nat} (hmember : i ∈ setup.members) (hinv : setup.protocol.Inv a)
    (hsim : r.Simulated setup a i) (hhealthy : r.storageFailed = false)
    (hcommits : Commits o r next bound) :
    ∃ a' more, setup.protocol.Steps i a a' ∧ r.Simulated setup a' i ∧
      (∀ d ∈ more, d.leader = i ∧ d.Valid setup a' ∧ next.Upholds d) ∧
      (bound = r.commitIndex ∨
        (∃ msg, o.message msg ∧ msg.type = .appendEntries ∧ bound = msg.leaderCommit) ∨
        Decided more bound) := by
  cases hcommits with
  | kept hbound => exact ⟨a, [], .refl, hsim, by simp, .inl hbound⟩
  | learned msg hmsg htype hbound =>
      exact ⟨a, [], .refl, hsim, by simp, .inr (.inl ⟨msg, hmsg, htype, hbound⟩)⟩
  | chose hstate hleads hterm hnew hle hreplicated hnext =>
      obtain ⟨a', hsteps, hsim', hfull⟩ := hsim.fullyAcked hinv hhealthy
      obtain ⟨w, hrun⟩ := hsim'.stores.running (hsteps.evolves hinv).inv hsim'.mirrors hhealthy
        hsim'.id
      have hlead := (hsim'.plays.leader hstate).1
      have hchosen : setup.protocol.Chosen a' r.term (bound - 1) :=
        hrun.chosen hmember hsim'.peers hlead (fun j pr hj => by
            have htracks := hsim'.plays.tracks hhealthy hstate j pr hj
            exact ⟨htracks.member, htracks.other, htracks.acked⟩)
          hfull (hrun.offset_le.trans_lt hnew) (by rwa [length_history hrun.grounded]) hreplicated
      refine ⟨a', [⟨i, r.term, bound⟩], hsteps, hsim', ?_,
        .inr (.inr (.inr ⟨_, List.mem_singleton_self _, le_rfl⟩))⟩
      intro d hd
      obtain rfl := List.mem_singleton.mp hd
      exact ⟨rfl, ⟨Nat.zero_lt_of_lt hnew, hlead, hchosen⟩, fun hrunning _ =>
        ⟨by simp [hleads], fun _ => (hnext hrunning).ge⟩⟩

variable {ledger : List Decision}

theorem Accounts.spoken_move (hinv : setup.protocol.Inv a) (hsim : next.Simulated setup a i)
    (haccounts : r.Accounts ledger i) (more : List Decision)
    (hcommit : Decided (more ++ ledger) next.commitIndex) (hmove : Move o r next)
    (hhealthy : next.storageFailed = false) :
    ∀ msg ∈ next.msgs, msg.type = .appendEntries → Decided (more ++ ledger) msg.leaderCommit := by
  intro msg hmsg htype
  obtain ⟨w, hrun⟩ := hsim.stores.running hinv hsim.mirrors hhealthy hsim.id
  obtain ⟨new, hnew, hsent⟩ := hmove.sends
  rw [hnew] at hmsg
  rcases List.mem_append.mp hmsg with hold | hadded
  · exact (haccounts.spoken (hmove.healthy_of hhealthy) msg hold htype).append more
  · rw [((hsent msg hadded).fresh hrun hsim.plays htype).commit]
    exact hcommit

theorem Move.accounts {a₀ : Sys Nat Entry} (ho : o.Honest setup a₀) (hno : ∀ r, ¬ o.Compacts r)
    (hmsgs : ∀ msg, o.message msg → msg.type = .appendEntries → Decided ledger msg.leaderCommit)
    (hmember : i ∈ setup.members) (hinv : setup.protocol.Inv a) (hgrow : Grows a₀ a)
    (hsim : r.Simulated setup a i) (hvalid : ∀ d ∈ ledger, d.Valid setup a)
    (haccounts : r.Accounts ledger i) (hmove : Move o r next) :
    ∃ a' more, setup.protocol.Steps i a a' ∧ next.Simulated setup a' i ∧
      (∀ d ∈ more, d.leader = i ∧ d.Valid setup a') ∧ next.Accounts (more ++ ledger) i := by
  cases hfailed : r.storageFailed with
  | true =>
      obtain ⟨hwal, hfailed', hdurable⟩ := hmove.of_failed hfailed
      have hdisk : next.onDisk = r.onDisk := by rw [onDisk, Raft.synced, hwal]; rfl
      have hcommit : next.commitIndex = r.commitIndex := congrArg Durable.commit hdurable
      have hterm : next.term = r.term := congrArg Durable.term hdurable
      have hnot : next.storageFailed ≠ false := by simp [hfailed']
      refine ⟨a, [], .refl, hmove.simulated_of_failed ho.inRange hfailed hsim, by simp, ?_⟩
      exact ⟨hcommit ▸ haccounts.commit, hdisk ▸ haccounts.disk,
        by rw [hdisk, hterm]; exact haccounts.behind, fun d _ _ h => absurd h hnot,
        fun h => absurd h hnot⟩
  | false =>
      obtain ⟨bound, hcommits, hle, hdisk, hbehind⟩ :=
        hmove.commits ho.inRange (hno r) hsim.mirrors hfailed
      obtain ⟨mid, more, hsteps, hsimMid, hmore, hbound⟩ :=
        hcommits.decided hmember hinv hsim hfailed
      have hevolves := hsteps.evolves hinv
      obtain ⟨a', hsteps', hnext⟩ := hmove.simulated ho hmember hevolves.inv
        (hgrow.trans hevolves.grows) hsimMid
      have hevolves' := hsteps'.evolves hevolves.inv
      obtain ⟨w, hrun⟩ := hsim.stores.running hinv hsim.mirrors hfailed hsim.id
      have hdecided : Decided (more ++ ledger) bound := by
        rcases hbound with rfl | ⟨msg, hmsg, htype, rfl⟩ | hnew
        · exact haccounts.commit.append more
        · exact (hmsgs msg hmsg htype).append more
        · rcases hnew with hzero | ⟨d, hd, hle⟩
          · exact .inl hzero
          · exact .inr ⟨d, List.mem_append_left _ hd, hle⟩
      refine ⟨a', more, hsteps.trans hsteps', hnext,
        fun d hd => ⟨(hmore d hd).1, (hmore d hd).2.1.grow hevolves'.grows⟩, hdecided.le hle,
        hdecided.le hdisk, hbehind, fun d hd hleader => ?_,
        haccounts.spoken_move hevolves'.inv hnext more (hdecided.le hle) hmove⟩
      rcases List.mem_append.mp hd with hadded | hold
      · exact (hmore d hadded).2.2
      · exact (haccounts.upholds d hold hleader).move hrun (hvalid d hold) hleader hmove

theorem Moves.accounts (ho : o.Honest setup a) (hno : ∀ r, ¬ o.Compacts r)
    (hmsgs : ∀ msg, o.message msg → msg.type = .appendEntries → Decided ledger msg.leaderCommit)
    (hmember : i ∈ setup.members) (hinv : setup.protocol.Inv a) (hsim : r.Simulated setup a i)
    (hvalid : ∀ d ∈ ledger, d.Valid setup a) (haccounts : r.Accounts ledger i)
    (hmoves : Moves o r next) :
    ∃ a' more, setup.protocol.Steps i a a' ∧ next.Simulated setup a' i ∧
      (∀ d ∈ more, d.leader = i ∧ d.Valid setup a') ∧ next.Accounts (more ++ ledger) i := by
  induction hmoves with
  | refl => exact ⟨a, [], .refl, hsim, by simp, haccounts⟩
  | tail _ hmove ih =>
      obtain ⟨mid, more, hsteps, hsimMid, hmore, haccountsMid⟩ := ih
      have hevolves := hsteps.evolves hinv
      obtain ⟨a', added, hsteps', hnext, hadded, hfinal⟩ := hmove.accounts ho hno
        (fun msg hmsg htype => (hmsgs msg hmsg htype).append more) hmember hevolves.inv
        hevolves.grows hsimMid (fun d hd => (List.mem_append.mp hd).elim (fun h => (hmore d h).2)
          fun h => (hvalid d h).grow hevolves.grows) haccountsMid
      have hgrow := (hsteps'.evolves hevolves.inv).grows
      refine ⟨a', added ++ more, hsteps.trans hsteps', hnext, fun d hd => ?_, ?_⟩
      · rcases List.mem_append.mp hd with h | h
        · exact hadded d h
        · exact ⟨(hmore d h).1, (hmore d h).2.grow hgrow⟩
      · rw [List.append_assoc]
        exact hfinal

/-- A call adds to the ledger what it finds, and says nothing that is not covered. -/
theorem Accounts.act (env : Env) {input : Input Capture} (ho : o.Honest setup a)
    (hno : ∀ r, ¬ o.Compacts r)
    (hmsgs : ∀ msg, o.message msg → msg.type = .appendEntries → Decided ledger msg.leaderCommit)
    (hmember : i ∈ setup.members) (hinv : setup.protocol.Inv a) (hsim : r.Simulated setup a i)
    (hvalid : ∀ d ∈ ledger, d.Valid setup a) (haccounts : r.Accounts ledger i)
    (hallows : (r.arm env).Allows o input) :
    ∃ a' more, setup.protocol.Steps i a a' ∧ (r.act env input).1.Simulated setup a' i ∧
      (∀ d ∈ more, d.leader = i ∧ d.Valid setup a') ∧
      (r.act env input).1.Accounts (more ++ ledger) i ∧
      ∀ msg ∈ (r.act env input).2, msg.Honest setup a' ∧
        (msg.type = .appendEntries → Decided (more ++ ledger) msg.leaderCommit) := by
  have harmed : (r.arm env).Accounts ledger i := by
    have hdisk : (r.arm env).onDisk = r.onDisk := by rw [onDisk, synced_arm, onDisk]
    exact ⟨haccounts.commit, hdisk ▸ haccounts.disk, hdisk ▸ haccounts.behind,
      fun d hd hleader => haccounts.upholds d hd hleader, haccounts.spoken⟩
  unfold Raft.act
  split
  · exact ⟨a, [], .refl, hsim, by simp, haccounts, by simp⟩
  next hhealthy =>
    have hmoves := step_moves (r := r.arm env) (Bool.not_eq_true _ ▸ hhealthy) hallows
    obtain ⟨a', more, hsteps, hnext, hmore, hfinal⟩ :=
      hmoves.accounts ho hno hmsgs hmember hinv (hsim.arm env) hvalid harmed
    split
    · exact ⟨a', more, hsteps, hnext, hmore, hfinal, by simp⟩
    next hrunning =>
      rw [Bool.not_eq_true] at hrunning
      exact ⟨a', more, hsteps, ⟨hnext.mirrors.readMessages, hnext.id, hnext.peers,
        hnext.stores.congr rfl rfl,
        hnext.plays.of_same (.refl a') (fun h => h) rfl rfl rfl rfl rfl rfl,
        fun _ msg hmsg => by cases hmsg⟩, hmore,
        ⟨hfinal.commit, hfinal.disk, hfinal.behind, fun d hd hleader => hfinal.upholds d hd hleader,
          fun _ msg hmsg => by cases hmsg⟩,
        fun msg hmsg => ⟨hnext.honest hrunning msg hmsg, hfinal.spoken hrunning msg hmsg⟩⟩

end Raft

/-! ## The cluster -/

/-- A started node has what its file says, and no role. -/
theorem Booted.accounts {ledger : List Decision} {config : Config} {file : List (Record Capture)}
    (hbooted : Booted config file r) (hmirrors : r.Mirrors)
    (hcommit : Decided ledger (file.foldl Durable.apply Durable.start).commit) :
    r.Accounts ledger i := by
  have hdisk : r.onDisk = file.foldl Durable.apply Durable.start := by
    simp [Raft.onDisk, Raft.synced, hbooted.wal]
  have hmemory := hmirrors.onDisk_eq hbooted.healthy
  refine ⟨?_, hdisk ▸ hcommit, ?_, fun d _ _ _ _ => ⟨by simp [hbooted.state], fun h => ?_⟩,
    fun _ msg hmsg => ?_⟩
  · rw [← hdisk, hmemory] at hcommit
    exact hcommit
  · rw [hmemory]
    exact le_rfl
  · cases hbooted.state.symm.trans h
  · rw [hbooted.msgs] at hmsg
    cases hmsg

/-- What a node of a cluster with a ledger meets. -/
def ledgerOutside (setup : Setup) (a : Sys Nat Entry) (ledger : List Decision) :
    Outside Capture where
  message msg := (msg.Honest setup a ∧ msg.type ≠ .installSnapshot) ∧
    (msg.type = .appendEntries → Decided ledger msg.leaderCommit)
  snapshot _ _ _ := False
  room last := last + 2 < 2 ^ 64
  install _ _ := False

namespace Cluster

variable {c next : Cluster} {ledger : List Decision}

structure Ledgered (setup : Setup) (a : Sys Nat Entry) (ledger : List Decision) (c : Cluster) :
    Prop where
  refines : c.Refines setup a
  whole : c.Whole setup
  valid : ∀ d ∈ ledger, d.Valid setup a
  node : ∀ i ∈ setup.members, (c.node i).Accounts ledger i
  net : ∀ msg ∈ c.net, msg.type = .appendEntries → Decided ledger msg.leaderCommit

theorem Initial.ledgered (hno : ∀ i ∈ setup.members, setup.snapshotThreshold i = 0)
    (hinitial : c.Initial setup) : c.Ledgered setup Sys.start [] where
  refines := hinitial.refines
  whole := hinitial.whole hno
  valid := by simp
  node i hi := by
    obtain ⟨draws, hboot⟩ := hinitial.2 i hi
    have hnothing : (Durable.start : Durable Capture).Accepts [] := trivial
    exact (boot_booted hboot).accounts (boot_mirrors hnothing hboot) (.inl rfl)
  net msg hmsg := by simp [hinitial.1] at hmsg

theorem Ledgered.step {action : Action} (hno : ∀ i ∈ setup.members, setup.snapshotThreshold i = 0)
    (hledgered : c.Ledgered setup a ledger) (hstep : c.step setup action = some next) :
    ∃ a' more, Grows a a' ∧ next.Ledgered setup a' (more ++ ledger) := by
  have hrefines := hledgered.refines
  have hwhole := hledgered.whole.step hno hrefines hstep
  cases action with
  | call n env input =>
      obtain ⟨hmember, hmay, rfl⟩ := step_call hstep
      have hallows : ((c.node n).arm env).Allows (ledgerOutside setup a ledger) input := by
        have hplain := hledgered.whole.allows hmember hrefines hmay (step_call_fits hstep)
        cases input with
        | message msg =>
            exact ⟨⟨hplain.1, hledgered.net msg (mem_net_of_mayCall hmay).1⟩,
              fun htype => absurd htype hplain.1.2⟩
        | takeSnapshot index state => exact hplain
        | propose data => exact hplain
        | readIndex => exact hplain
        | _ => trivial
      have hhonest : (ledgerOutside setup a ledger).Honest setup a :=
        ⟨fun _ h => h.1.1, fun _ _ _ h => h.elim, fun _ h => h, fun _ _ h => h.elim⟩
      have hcompacts : ∀ r, ¬ (ledgerOutside setup a ledger).Compacts r := by
        rintro r (⟨_, _, h⟩ | ⟨_, ⟨⟨_, hne⟩, _⟩, htype⟩)
        · exact h
        · exact hne htype
      obtain ⟨a', more, hsteps, hsim, hmore, haccounts, hsent⟩ := (hledgered.node n hmember).act env
        hhonest hcompacts (fun _ h => h.2) hmember hrefines.inv (hrefines.node n hmember)
        hledgered.valid hallows
      have hevolves := hsteps.evolves hrefines.inv
      refine ⟨a', more, hevolves.grows, ⟨hevolves.inv, ?_, fun msg hmsg => ?_⟩, hwhole,
        fun d hd => ?_, ?_, fun msg hmsg htype => ?_⟩
      · exact forall_setNode (P := fun i r => i ∈ setup.members → r.Simulated setup a' i)
          (fun _ => hsim) (fun i hne hi => (hrefines.node i hi).grow hne hevolves)
      · rcases List.mem_append.mp hmsg with hold | hnew
        · exact (hrefines.net msg hold).grow hevolves.grows
        · exact (hsent msg hnew).1
      · rcases List.mem_append.mp hd with hnew | hold
        · exact (hmore d hnew).2
        · exact (hledgered.valid d hold).grow hevolves.grows
      · refine forall_setNode (P := fun i r => i ∈ setup.members → r.Accounts (more ++ ledger) i)
          (fun _ => haccounts) fun i hne hi => ?_
        -- what is new was found by the node that was called
        have hold := hledgered.node i hi
        refine ⟨hold.commit.append more, hold.disk.append more, hold.behind, fun d hd hleader => ?_,
          fun h msg hmsg htype => (hold.spoken h msg hmsg htype).append more⟩
        rcases List.mem_append.mp hd with hnew | hd
        · exact absurd (hleader.symm.trans (hmore d hnew).1) hne
        · exact hold.upholds d hd hleader
      · rcases List.mem_append.mp hmsg with hold | hnew
        · exact (hledgered.net msg hold htype).append more
        · exact (hsent msg hnew).2 htype
  | restart n draws =>
      obtain ⟨hmember, r, hboot, rfl⟩ := step_restart hstep
      have hold := hrefines.node n hmember
      have hmirrors := boot_mirrors hold.mirrors.synced_accepts hboot
      have hsim := (boot_booted hboot).simulated hmirrors rfl rfl hold.stores.located
        hold.stores.disk
      refine ⟨a, [], .refl a, ⟨hrefines.inv, ?_, hrefines.net⟩, hwhole, hledgered.valid, ?_,
        hledgered.net⟩
      · exact forall_setNode (P := fun i r => i ∈ setup.members → r.Simulated setup a i)
          (fun _ => hsim) (fun i _ hi => hrefines.node i hi)
      · exact forall_setNode (P := fun i r => i ∈ setup.members → r.Accounts ledger i)
          (fun _ => (boot_booted hboot).accounts hmirrors (hledgered.node n hmember).disk)
          (fun i _ hi => hledgered.node i hi)

end Cluster

end RaftKv
