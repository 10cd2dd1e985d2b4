import RaftKv.Cluster.Merge

/-! # What a node writes is what it does

The records a move writes are steps of the node in the abstract protocol, each of them.
So whatever a failing flush leaves in the file is a state of the protocol, and what the
node already shows in memory is true in it.
-/

namespace RaftKv

open TermLog

variable {setup : Setup} {a a' : Sys Nat Entry} {i : Nat} {r next mid : Raft Capture}
  {w : Wal Capture} {records : List (Record Capture)} {msg : Message Capture}

namespace Raft

/-- The file of the node is the abstract state, and its memory is true of it. -/
structure Stores (setup : Setup) (a : Sys Nat Entry) (i : Nat) (r : Raft Capture) : Prop where
  located : r.onDisk.Located a i
  disk : r.onDisk.Grounded setup a
  memory : r.durable.Grounded setup a

theorem Mirrors.onDisk_eq (hmirrors : r.Mirrors) (hhealthy : r.storageFailed = false) :
    r.onDisk = r.durable := by
  obtain ⟨w, hwal, -, -, hclean⟩ := hmirrors.stored
  rw [(hclean hhealthy).2, onDisk, synced, hwal]
  rfl

/-- Moves that change neither file nor durable memory. -/
theorem Stores.congr (hstores : r.Stores setup a i) (hwal : next.wal = r.wal)
    (hdurable : next.durable = r.durable) : next.Stores setup a i := by
  have hdisk : next.onDisk = r.onDisk := by rw [onDisk, synced, hwal, onDisk, synced]
  exact ⟨hdisk ▸ hstores.located, hdisk ▸ hstores.disk, hdurable ▸ hstores.memory⟩

/-- If each of the records is a step and true beforehand, so is what a flush of them leaves. -/
theorem Writes.stores (hwrites : Writes r w records next) (Result : Sys Nat Entry → Prop)
    (hdurable : r.durable = w.file.foldl Durable.apply Durable.start)
    (hinv : setup.protocol.Inv a)
    (hrecords : ∀ done, done <+: records → (done.foldl Durable.apply r.durable).Grounded setup a ∧
      ∃ a', setup.protocol.Steps i a a' ∧ (done.foldl Durable.apply r.durable).Located a' i ∧
        (done = records → Result a')) :
    ∃ a', setup.protocol.Steps i a a' ∧ next.Stores setup a' i ∧
      (next.storageFailed = false → Result a') := by
  have hdisk : ∀ (w' : Wal Capture) (done : List (Record Capture)), next.wal = some w' →
      w'.file = w.file ++ done → next.onDisk = done.foldl Durable.apply r.durable := by
    intro w' done hwal' hfile
    rw [hdurable, onDisk, Raft.synced, hwal', Option.map_some, Option.getD_some, hfile,
      List.foldl_append]
  cases hwrites with
  | synced w' _ hwal' hhealthy _ hfile hnext =>
      obtain ⟨hground, a', hsteps, hlocated, hresult⟩ := hrecords records List.prefix_rfl
      have hgrow := (hsteps.evolves hinv).grows
      rw [← hdisk w' records hwal' hfile] at hlocated
      refine ⟨a', hsteps, ⟨hlocated, ?_, ?_⟩, fun _ => hresult rfl⟩
      · rw [hdisk w' records hwal' hfile]
        exact hground.grow hgrow
      · rw [hnext]
        exact hground.grow hgrow
  | failed w' kept rest seen _ hsplit hseen hwal' hfailed _ hfile _ hnext =>
      obtain ⟨hground, a', hsteps, hlocated, -⟩ :=
        hrecords kept ((List.prefix_append _ _).trans hsplit)
      have hgrow := (hsteps.evolves hinv).grows
      rw [← hdisk w' kept hwal' hfile] at hlocated
      refine ⟨a', hsteps, ⟨hlocated, ?_, ?_⟩, fun h => by rw [h] at hfailed; cases hfailed⟩
      · rw [hdisk w' kept hwal' hfile]
        exact hground.grow hgrow
      · rw [hnext]
        exact (hrecords seen (hseen.trans hsplit)).1.grow hgrow

/-- The same for one record. -/
theorem Writes.stores_one {record : Record Capture} (hwrites : Writes r w [record] next)
    (hdurable : r.durable = w.file.foldl Durable.apply Durable.start)
    (hinv : setup.protocol.Inv a) (hstores : r.Stores setup a i)
    (hhealthy : r.onDisk = r.durable) {Result : Sys Nat Entry → Prop}
    (hground : (r.durable.apply record).Grounded setup a)
    (hstep : ∃ a', setup.protocol.Steps i a a' ∧ (r.durable.apply record).Located a' i ∧
      Result a') :
    ∃ a', setup.protocol.Steps i a a' ∧ next.Stores setup a' i ∧
      (next.storageFailed = false → Result a') := by
  refine hwrites.stores Result hdurable hinv fun done hdone => ?_
  rcases List.prefix_cons_iff.mp hdone with rfl | ⟨more, rfl, hmore⟩
  · exact ⟨hstores.memory, a, .refl, hhealthy ▸ hstores.located, fun h => by cases h⟩
  · obtain rfl := List.prefix_nil.mp hmore
    obtain ⟨a', hsteps, hlocated, hresult⟩ := hstep
    exact ⟨hground, a', hsteps, hlocated, fun _ => hresult⟩

/-- A node that runs: its memory is its file, and both are the abstract state. -/
structure Running (setup : Setup) (a : Sys Nat Entry) (i : Nat) (r : Raft Capture)
    (w : Wal Capture) : Prop where
  inv : setup.protocol.Inv a
  mirrors : r.Mirrors
  healthy : r.storageFailed = false
  wal : r.wal = some w
  clean : w.Clean
  durable : r.durable = w.file.foldl Durable.apply Durable.start
  stores : r.Stores setup a i
  id : r.id = i

theorem Stores.running (hinv : setup.protocol.Inv a) (hmirrors : r.Mirrors)
    (hhealthy : r.storageFailed = false) (hstores : r.Stores setup a i) (hid : r.id = i) :
    ∃ w, Running setup a i r w := by
  obtain ⟨w, hwal, _, _, hclean⟩ := hmirrors.stored
  exact ⟨w, hinv, hmirrors, hhealthy, hwal, (hclean hhealthy).1, (hclean hhealthy).2, hstores, hid⟩

namespace Running

theorem onDisk (hrun : Running setup a i r w) : r.onDisk = r.durable :=
  hrun.mirrors.onDisk_eq hrun.healthy

theorem valid (hrun : Running setup a i r w) : r.durable.Valid := hrun.mirrors.sane.valid

theorem grounded (hrun : Running setup a i r w) : r.durable.Grounded setup a := hrun.stores.memory

theorem located (hrun : Running setup a i r w) : r.durable.Located a i :=
  hrun.onDisk ▸ hrun.stores.located

theorem term (hrun : Running setup a i r w) : a.term i = r.term := hrun.located.term

theorem log (hrun : Running setup a i r w) : a.log i = r.history := hrun.located.log

theorem offset_le (hrun : Running setup a i r w) : r.logOffset ≤ r.commitIndex :=
  hrun.valid.offset_le

theorem commit_le (hrun : Running setup a i r w) : r.commitIndex ≤ r.history.length := by
  rw [length_history hrun.grounded]
  exact hrun.valid.commit_le

theorem one {record : Record Capture} (hrun : Running setup a i r w)
    (Result : Sys Nat Entry → Prop) (hwrites : Writes r w [record] next)
    (hground : (r.durable.apply record).Grounded setup a)
    (hstep : ∃ a', setup.protocol.Steps i a a' ∧ (r.durable.apply record).Located a' i ∧
      Result a') :
    ∃ a', setup.protocol.Steps i a a' ∧ next.Stores setup a' i ∧
      (next.storageFailed = false → Result a') :=
  hwrites.stores_one hrun.durable hrun.inv hrun.stores hrun.onDisk hground hstep

end Running

end Raft

/-- A hard state over a log whose first part is committed. -/
theorem Durable.Grounded.hardState {d : Durable Capture} (hground : d.Grounded setup a)
    {term vote commit : Nat} (hoffset : d.offset ≤ commit)
    (hcommitted : setup.protocol.Committed a term (d.history.take commit)) :
    (d.apply (.hardState ⟨term, vote, commit⟩)).Grounded setup a := by
  refine ⟨hground.rooted, ?_, hground.covered, hground.boundary⟩
  simp only [Durable.apply, max_eq_right hoffset]
  exact hcommitted

namespace Raft.Running

/-! ## Terms and votes -/

theorem raise (hrun : Running setup a i r w) {term : Nat} (lead : Nat) (hterm : r.term < term)
    (hlt : term < 2 ^ 64) :
    ∃ a', setup.protocol.Steps i a a' ∧ (r.becomeFollower term lead).Stores setup a' i := by
  have hwrites : Writes r w _ (r.becomeFollower term lead) :=
    becomeFollower_writes hrun.valid hrun.wal hrun.clean hrun.healthy hterm hlt
  have hnone : a.vote i term = none := by
    by_contra hsome
    obtain ⟨c, hc⟩ := Option.ne_none_iff_exists'.mp hsome
    have hle := hrun.inv.voteTerm i term c hc
    rw [hrun.term] at hle
    omega
  obtain ⟨a', hsteps, hstores, -⟩ := hrun.one (fun _ => True) hwrites
    (hrun.grounded.hardState hrun.offset_le
      (hrun.grounded.committed.grow _ (.refl a) hterm.le))
    ⟨a.setTerm i term, .single (.advance a term (by rw [hrun.term]; exact hterm)),
      ⟨by simp [Sys.setTerm, Durable.apply], hrun.log, hnone⟩, trivial⟩
  exact ⟨a', hsteps, hstores⟩

theorem stand (hrun : Running setup a i r w) (hterm : r.term + 1 < 2 ^ 64) :
    ∃ a', setup.protocol.Steps i a a' ∧ r.becomeCandidate.Stores setup a' i ∧
      (r.becomeCandidate.storageFailed = false → a'.bid (r.term + 1) i = some r.history) := by
  have hwrites := becomeCandidate_writes hrun.valid hrun.wal hrun.clean hrun.healthy hterm
  have hid := hrun.mirrors.inTerm.id_ne_zero
  refine hrun.one _ hwrites (hrun.grounded.hardState hrun.offset_le
      (hrun.grounded.committed.grow _ (.refl a) (Nat.le_succ _)))
    ⟨_, .single (.stand a), ⟨?_, ?_, ?_⟩, ?_⟩
  · simp [Sys.setBid, Sys.setVote, Sys.setTerm, Durable.apply, hrun.term]
  · exact hrun.log
  · show (if i = i ∧ r.term + 1 = a.term i + 1 then some i else a.vote i (r.term + 1)) =
      if r.id = 0 then none else some r.id
    rw [if_pos ⟨rfl, by rw [hrun.term]⟩, if_neg hid, hrun.id]
  · simp [Sys.setBid, hrun.term, hrun.log]

theorem grant (hrun : Running setup a i r w) (hhonest : msg.Honest setup a)
    (htype : msg.type = .requestVote) (haddressed : r.rejects msg = false)
    (hterm : msg.term = r.term) (hvote : r.votedFor = 0 ∨ r.votedFor = msg.sender)
    (hlog : r.isLogUpToDate msg.lastLogIndex msg.lastLogTerm = true) :
    ∃ a', setup.protocol.Steps i a a' ∧ (r.grantVote msg).1.Stores setup a' i := by
  have hsender := sender_ne_zero haddressed
  have hwrites := grantVote_writes hrun.valid hrun.wal hrun.clean hrun.healthy hsender
  obtain ⟨l, hbid, hindex, hlast⟩ := hhonest.candidacy htype
  rw [hterm, ← hrun.term] at hbid
  have hfree : a.vote i (a.term i) = none ∨ a.vote i (a.term i) = some msg.sender := by
    rw [hrun.term, show a.vote i r.term = _ from hrun.located.vote]
    rcases hvote with hzero | hsame
    · exact .inl (if_pos hzero)
    · refine .inr ?_
      rw [show r.durable.vote = msg.sender from hsame, if_neg hsender]
  have hupToDate : setup.protocol.UpToDate l (a.log i) := by
    rw [hrun.log]
    unfold isLogUpToDate at hlog
    rw [hlast, hindex, lastLogTerm_eq hrun.grounded,
      lastLogIndex_eq hrun.valid hrun.grounded] at hlog
    split at hlog
    · exact .inl (by simpa using hlog)
    next hsame => exact .inr ⟨not_not.mp hsame, by simpa using hlog⟩
  have hlocated : (r.durable.apply (.hardState ⟨r.term, msg.sender, r.commitIndex⟩)).Located
      (a.setVote i (a.term i) msg.sender) i := by
    refine ⟨hrun.term, hrun.log, ?_⟩
    show (if i = i ∧ r.term = a.term i then some msg.sender else a.vote i r.term) =
      if msg.sender = 0 then none else some msg.sender
    rw [if_pos ⟨rfl, hrun.term.symm⟩, if_neg hsender]
  obtain ⟨a', hsteps, hstores, -⟩ := hrun.one (fun _ => True) hwrites
    (hrun.grounded.hardState hrun.offset_le hrun.grounded.committed)
    ⟨_, .single (.grant a msg.sender l hbid hfree hupToDate), hlocated, trivial⟩
  exact ⟨a', hsteps, hstores⟩

/-! ## The leader's log -/

/-- A running node may acknowledge all it holds of its leader's log. -/
theorem fullyAcked (hrun : Running setup a i r w) :
    ∃ k, setup.protocol.Steps i a (a.setAck i (a.term i) k) ∧
      Running setup (a.setAck i (a.term i) k) i r w ∧
      Protocol.FullyAcked (a.setAck i (a.term i) k) i := by
  obtain ⟨k, hsteps, hfull⟩ := Protocol.exists_fullyAcked setup.protocol a i
  have hevolves := hsteps.evolves hrun.inv
  have hlocated := hrun.stores.located
  exact ⟨k, hsteps, { hrun with
    inv := hevolves.inv
    stores := ⟨⟨hlocated.term, hlocated.log, hlocated.vote⟩, hrun.stores.disk.grow hevolves.grows,
      hrun.stores.memory.grow hevolves.grows⟩ }, hfull⟩

theorem history_eq (hrun : Running setup a i r w) (hleader : a.leader r.term = some i) :
    r.history = a.termLog r.term :=
  hrun.log.symm.trans (hrun.inv.ownLog r.term i hleader hrun.term)

theorem getElem?_history (hrun : Running setup a i r w) {index : Nat} (hlt : r.logOffset < index)
    (hle : index ≤ r.history.length) : r.history[index - 1]? = some (r.logEntry index) := by
  rw [length_history hrun.grounded] at hle
  rw [← logEntry_of_valid hrun.valid hlt hle]
  have hsplit : r.history[index - 1]? = r.log[index - 1 - r.logOffset]? :=
    Durable.history_getElem? hrun.grounded (show r.logOffset ≤ index - 1 by omega)
  rw [hsplit, show index - 1 - r.logOffset = index - r.logOffset - 1 by omega]

/-- What the commit loop counts is chosen. -/
theorem chosen (hrun : Running setup a i r w) (hmember : i ∈ setup.members)
    (hpeers : r.peers = setup.members) (hleader : a.leader r.term = some i)
    (hprogress : ∀ j pr, r.progress.get? j = some pr →
      j ∈ setup.members ∧ j ≠ i ∧ pr.matchIndex ≤ a.ack j r.term)
    (hfull : Protocol.FullyAcked a i) {c : Nat} (hlt : r.logOffset < c)
    (hle : c ≤ r.history.length) (hreplicated : r.Replicated c) :
    setup.protocol.Chosen a r.term (c - 1) := by
  have hhistory := hrun.history_eq hleader
  refine ⟨⟨r.logEntry c, ?_, hreplicated.1⟩, { v | c - 1 < a.ack v r.term }, ?_, fun v hv => hv⟩
  · rw [← hhistory]
    exact hrun.getElem?_history hlt hle
  · have hcount : 0 < r.progress.count (fun p => p.matchIndex ≥ c) := by
      have hmany := hreplicated.2
      rw [hpeers, setup.three] at hmany
      unfold replicas at hmany
      omega
    obtain ⟨j, pr, hj, hmatch⟩ := Table.exists_of_count_pos hcount
    obtain ⟨hmem, hne, hack⟩ := hprogress j pr hj
    have hmatch' : c ≤ pr.matchIndex := of_decide_eq_true hmatch
    have hown : c ≤ a.ack i r.term := by
      have hall := hfull (by rw [hrun.term, hleader]; simp) c
      rw [hrun.term, ← hhistory, hrun.log] at hall
      exact hall hle (List.take_prefix _ _)
    exact ⟨i, j, hne.symm, hmember, hmem, show c - 1 < a.ack i r.term by omega,
      show c - 1 < a.ack j r.term by omega⟩

theorem choose (hrun : Running setup a i r w) (hmember : i ∈ setup.members)
    (hpeers : r.peers = setup.members) (hleader : a.leader r.term = some i)
    (hprogress : ∀ j pr, r.progress.get? j = some pr →
      j ∈ setup.members ∧ j ≠ i ∧ pr.matchIndex ≤ a.ack j r.term) :
    ∃ a', setup.protocol.Steps i a a' ∧ r.chooseCommit.Stores setup a' i := by
  rcases chooseCommit_writes hrun.valid hrun.wal hrun.clean hrun.healthy with
    heq | ⟨c, hlt, hle, hreplicated, hwrites⟩
  · rw [heq]
    exact ⟨a, .refl, hrun.stores⟩
  · obtain ⟨k, hsteps, hrun', hfull⟩ := hrun.fullyAcked
    have hgrow := (hsteps.evolves hrun.inv).grows
    have hoffset : r.logOffset < c := lt_of_le_of_lt hrun.offset_le hlt
    rw [← length_history hrun.grounded] at hle
    have hchosen := hrun'.chosen hmember hpeers hleader (fun j pr hj =>
      ⟨(hprogress j pr hj).1, (hprogress j pr hj).2.1,
        (hprogress j pr hj).2.2.trans (hgrow.ack j r.term)⟩) hfull hoffset hle hreplicated
    have hcommitted : setup.protocol.Committed (a.setAck i (a.term i) k) r.term
        (r.history.take c) := by
      refine .inr ⟨r.term, c - 1, le_rfl, hchosen, ?_, ?_⟩
      · rw [List.length_take]
        omega
      · rw [hrun'.history_eq hleader]
        exact List.take_prefix _ _
    obtain ⟨a', hmore, hstores, -⟩ := hrun'.one (fun _ => True) hwrites
      (hrun'.grounded.hardState hoffset.le hcommitted)
      ⟨_, .refl, ⟨hrun'.term, hrun'.log, hrun'.located.vote⟩, trivial⟩
    exact ⟨a', hsteps.trans hmore, hstores⟩

/-- The record of the leader's own entry. -/
theorem extended (hrun : Running setup a i r w) (hleader : a.leader r.term = some i)
    (hroom : r.lastLogIndex + 2 < 2 ^ 64) (data : Bytes) :
    ∃ a', setup.protocol.Step i a a' ∧
      (r.durable.apply (.entry (r.nextEntry data))).Located a' i ∧
      (r.durable.apply (.entry (r.nextEntry data))).Grounded setup a' ∧
      (r.durable.apply (.entry (r.nextEntry data))).history = r.history ++ [r.nextEntry data] ∧
      a'.termLog r.term = r.history ++ [r.nextEntry data] := by
  have hlast := lastLogIndex_of_valid hrun.valid
  have hindex : (r.nextEntry data).index = r.logOffset + r.log.length + 1 := by
    simp only [nextEntry]
    rw [wrap64_of_lt (by omega), hlast]
  have hhistory : (r.durable.apply (.entry (r.nextEntry data))).history =
      r.history ++ [r.nextEntry data] := by
    have htake : r.log.takeWhile (fun x => x.index < (r.nextEntry data).index) = r.log := by
      rw [takeWhile_log hrun.valid, List.take_of_length_le (by omega)]
    show r.lastSnapshotData.entries ++ (r.log.takeWhile _ ++ [r.nextEntry data]) = _
    rw [htake, ← List.append_assoc]
    rfl
  have hlead : a.leader (a.term i) = some i := by rw [hrun.term, hleader]
  have hstep : setup.protocol.Step i a _ :=
    .extend a (r.nextEntry data) hlead (show r.term = a.term i from hrun.term.symm)
  have htermLog : (Protocol.Inv.extendState a i (r.nextEntry data)).termLog r.term =
      r.history ++ [r.nextEntry data] := by
    simp [Protocol.Inv.extendState, Sys.setTermLog, Sys.setLog, hrun.term,
      hrun.history_eq hleader]
  refine ⟨_, hstep, ⟨hrun.term, ?_, hrun.located.vote⟩, ⟨?_, ?_, hrun.grounded.covered,
    hrun.grounded.boundary⟩, hhistory, htermLog⟩
  · rw [hhistory, ← hrun.log]
    simp [Sys.setLog, Sys.setTermLog]
  · rw [hhistory, ← htermLog]
    exact (hstep.inv hrun.inv).termLogRooted r.term
  · have hsame : (r.durable.apply (.entry (r.nextEntry data))).history.take r.commitIndex =
        r.history.take r.commitIndex := by
      rw [hhistory, List.take_append_of_le_length hrun.commit_le]
    have hcommitted := hrun.grounded.committed.grow _ (hstep.grows hrun.inv) le_rfl
    show setup.protocol.Committed _ r.term
      ((r.durable.apply (.entry (r.nextEntry data))).history.take r.commitIndex)
    rw [hsame]
    exact hcommitted

theorem extend (hrun : Running setup a i r w) (hleader : a.leader r.term = some i)
    (hroom : r.lastLogIndex + 2 < 2 ^ 64) (data : Bytes) :
    ∃ a', setup.protocol.Steps i a a' ∧ (r.appendOwn (r.nextEntry data)).1.Stores setup a' i ∧
      r.history <+: (r.appendOwn (r.nextEntry data)).1.history ∧
      (r.appendOwn (r.nextEntry data)).1.history <+: a'.termLog r.term := by
  have hwrites := appendOwn_writes hrun.valid hrun.wal hrun.clean hrun.healthy hroom data
  obtain ⟨a', hstep, hlocated, hground, hhistory, htermLog⟩ := hrun.extended hleader hroom data
  have hgrow := hstep.grows hrun.inv
  have hdisk : ∀ (w' : Wal Capture) (done : List (Record Capture)),
      (r.appendOwn (r.nextEntry data)).1.wal = some w' → w'.file = w.file ++ done →
      (r.appendOwn (r.nextEntry data)).1.onDisk = done.foldl Durable.apply r.durable := by
    intro w' done hwal' hfile
    rw [hrun.durable, Raft.onDisk, Raft.synced, hwal', Option.map_some, Option.getD_some, hfile,
      List.foldl_append]
  cases hwrites with
  | synced w' _ hwal' _ _ hfile hnext =>
      have hnext' := congrArg Durable.history hnext
      rw [durable_history] at hnext'
      rw [show ([Record.entry (r.nextEntry data)].foldl Durable.apply r.durable).history = _ from
        hhistory] at hnext'
      refine ⟨a', .single hstep, ⟨?_, ?_, ?_⟩, ?_, ?_⟩
      · rw [hdisk w' _ hwal' hfile]
        exact hlocated
      · rw [hdisk w' _ hwal' hfile]
        exact hground
      · rw [hnext]
        exact hground
      · rw [hnext']
        exact List.prefix_append _ _
      · rw [hnext', htermLog]
  | failed w' kept rest seen _ hsplit _ hwal' hfailed _ hfile =>
      -- in memory the append is undone, whatever is left of it in the file
      have hsame := appendOwn_failed hrun.healthy hfailed
      have hhistory' : (r.appendOwn (r.nextEntry data)).1.history = r.history :=
        congrArg Durable.history hsame
      rw [hhistory']
      rcases List.prefix_cons_iff.mp ((List.prefix_append _ _).trans hsplit) with
        rfl | ⟨more, rfl, hmore⟩
      · refine ⟨a, .refl, ⟨?_, ?_, hsame ▸ hrun.grounded⟩, List.prefix_rfl, ?_⟩
        · rw [hdisk w' _ hwal' hfile]
          exact hrun.located
        · rw [hdisk w' _ hwal' hfile]
          exact hrun.grounded
        · rw [hrun.history_eq hleader]
      · obtain rfl := List.prefix_nil.mp hmore
        refine ⟨a', .single hstep, ⟨?_, ?_, hsame ▸ hrun.grounded.grow hgrow⟩, List.prefix_rfl, ?_⟩
        · rw [hdisk w' _ hwal' hfile]
          exact hlocated
        · rw [hdisk w' _ hwal' hfile]
          exact hground
        · rw [htermLog]
          exact List.prefix_append _ _

end Raft.Running

end RaftKv
