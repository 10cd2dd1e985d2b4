import RaftKv.Cluster.Durability
import RaftKv.Cluster.Ledger
import RaftKv.Cluster.Read
import RaftKv.Raft.Round

/-! # What a confirmed read covers

A read round that was opened after something had been decided waits for an index that
covers the decision, or it is never confirmed: if the decision belongs to a later term,
whoever confirms the round and whoever acknowledged the decision have a node in common.
-/

namespace RaftKv

open TermLog

variable {setup : Setup} {Ok : Cluster → Action → Prop} {a : Sys Nat Entry} {c₀ mid c : Cluster}
  {later earlier more : List Event} {ledger : List Decision} {n m : Nat} {d : Decision}

/-! ## Continuations of a run -/

/-- The events, the latest first, that lead from one state to another. -/
inductive Path (setup : Setup) (Ok : Cluster → Action → Prop) (c₀ : Cluster) :
    List Event → Cluster → Prop
  | nil : Path setup Ok c₀ [] c₀
  | cons (c next : Cluster) (later : List Event) (action : Action)
      (hpath : Path setup Ok c₀ later c)
      (hok : Ok c action) (hstep : c.step setup action = some next) :
      Path setup Ok c₀ ((c, action) :: later) next

theorem Trace.extend (htrace : Trace setup Ok earlier c₀) (hpath : Path setup Ok c₀ later c) :
    Trace setup Ok (later ++ earlier) c := by
  induction hpath with
  | nil => exact htrace
  | cons c next later action _ hok hstep ih => exact .step c next _ action ih hok hstep

theorem Path.trans (hfirst : Path setup Ok c₀ later mid) (hmore : Path setup Ok mid more c) :
    Path setup Ok c₀ (more ++ later) c := by
  induction hmore with
  | nil => exact hfirst
  | cons c next more action _ hok hstep ih => exact .cons c next _ action ih hok hstep

/-- A path that is not empty leaves from its first state. -/
theorem Path.first (hpath : Path setup Ok c₀ later c) (hsome : later ≠ []) :
    ∃ event ∈ later, event.1 = c₀ := by
  induction hpath with
  | nil => exact absurd rfl hsome
  | cons mid next later action hpath _ _ ih =>
      cases hpath with
      | nil => exact ⟨(c₀, action), List.mem_cons_self, rfl⟩
      | cons =>
          obtain ⟨event, hevent, heq⟩ := ih (by simp)
          exact ⟨event, List.mem_cons_of_mem _ hevent, heq⟩

theorem Path.split (hpath : Path setup Ok c₀ (more ++ later) c) :
    ∃ mid, Path setup Ok c₀ later mid ∧ Path setup Ok mid more c := by
  induction more generalizing c with
  | nil => exact ⟨c, hpath, .nil⟩
  | cons event more ih =>
      cases hpath with
      | cons before _ _ action hpath hok hstep =>
          obtain ⟨mid, hfirst, hmore⟩ := ih hpath
          exact ⟨mid, hfirst, .cons before c more action hmore hok hstep⟩

theorem Path.ledgered (hno : ∀ i ∈ setup.members, setup.snapshotThreshold i = 0)
    (hledgered : c₀.Ledgered setup a ledger) (hpath : Path setup Ok c₀ later c) :
    ∃ a' added, Grows a a' ∧ c.Ledgered setup a' (added ++ ledger) := by
  induction hpath with
  | nil => exact ⟨a, [], .refl a, hledgered⟩
  | cons c next later action _ _ hstep ih =>
      obtain ⟨a', added, hgrow, hmid⟩ := ih
      obtain ⟨a'', found, hgrow', hnext⟩ := hmid.step hno hstep
      refine ⟨a'', found ++ added, hgrow.trans hgrow', ?_⟩
      rw [List.append_assoc]
      exact hnext

/-! ## The index of a round -/

namespace Raft

variable {D : Type} {r : Raft D} {env : Env} {input : Input D}

theorem lastApplied_of_ready {read : ReadIndexToken} (hready : r.readIndexReady read = true) :
    r.round = read ∧ r.pendingReadIndex ≤ r.lastApplied := by
  unfold readIndexReady at hready
  split at hready
  · cases hready
  · split at hready
    · cases hready
    next hround =>
      split at hready
      · cases hready
      · split at hready
        · cases hready
        next happlied =>
          simp only [not_or, not_not] at hround
          obtain ⟨hcontext, hindex⟩ := hround
          exact ⟨by rw [round, ← hcontext, ← hindex], by rw [← hindex]; exact not_lt.mp happlied⟩

variable [Blob D]

/-- The call that opens a round waits for what is committed, or for an entry of its own. -/
theorem act_opens (hidle : r.readIndexPending = false)
    (hopen : (r.act env .readIndex).1.readIndexPending = true) :
    r.storageFailed = false ∧ (r.act env .readIndex).1.pendingReadIndex =
      if r.hasCommittedEntryInCurrentTerm then r.commitIndex else wrap64 (r.lastLogIndex + 1) := by
  unfold act at hopen ⊢
  split at hopen
  · cases hidle.symm.trans hopen
  next hhealthy =>
    rw [if_neg hhealthy]
    suffices hround : ((r.arm env).step .readIndex).readIndexPending = true →
        ((r.arm env).step .readIndex).pendingReadIndex =
          if r.hasCommittedEntryInCurrentTerm then r.commitIndex
          else wrap64 (r.lastLogIndex + 1) by
      refine ⟨(Bool.not_eq_true _).mp hhealthy, ?_⟩
      split at hopen
      next hfailed =>
        rw [if_pos hfailed]
        exact hround hopen
      next hrunning =>
        rw [if_neg hrunning]
        exact hround hopen
    have hidle' : (r.arm env).readIndexPending = false := hidle
    simp only [step, readIndex]
    split
    · exact fun h => absurd h (by simp [hidle'])
    · rw [if_neg (by simp [hidle'])]
      by_cases hcommitted : r.hasCommittedEntryInCurrentTerm
      · have hsame : (r.arm env).startReadRound.hasCommittedEntryInCurrentTerm = true := hcommitted
        rw [if_neg (by simp [hsame]), if_pos hcommitted]
        exact fun _ => rfl
      · have hsame : (r.arm env).startReadRound.hasCommittedEntryInCurrentTerm = false :=
          (Bool.not_eq_true _).mp hcommitted
        rw [if_pos (by simp [hsame]), if_neg hcommitted]
        split
        next hnone =>
          intro hopen
          simp only [finishReadIndex, ne_eq, not_true_eq_false, or_self, if_false] at hopen
          cases hopen
        next own index hsome =>
          intro _
          have hround := propose_round (r := { (r.arm env).startReadRound with
            pendingReadIndex := wrap64 ((r.arm env).startReadRound.lastLogIndex + 1) }) []
          rw [hsome] at hround
          exact congrArg ReadIndexToken.safeIndex hround

/-- While a round is open no call changes what it waits for. -/
theorem act_round (hpending : r.readIndexPending = true)
    (hopen : (r.act env input).1.readIndexPending = true) :
    (r.act env input).1.round = r.round := by
  have hstep : ((r.arm env).step input).readIndexPending = true →
      ((r.arm env).step input).round = r.round := by
    intro hstill
    by_cases hread : input = .readIndex
    · subst hread
      have hjoins : (r.arm env).readIndex.1 = r.arm env := by
        have harmed : (r.arm env).readIndexPending = true := hpending
        unfold readIndex
        rw [if_pos harmed]
        split <;> rfl
      simp only [step, hjoins]
      rfl
    · rcases step_keepsRound (r := r.arm env) hread with ⟨-, hround⟩ | hclosed
      · exact hround
      · cases hclosed.symm.trans hstill
  unfold act at hopen ⊢
  split at hopen
  next hfailed => rw [if_pos hfailed]
  next hhealthy =>
    rw [if_neg hhealthy]
    split at hopen
    next hfailed =>
      rw [if_pos hfailed]
      exact hstep hopen
    next hrunning =>
      rw [if_neg hrunning]
      exact hstep hopen

/-- Terms never decrease. -/
theorem term_le_act (hterms : r.InTerm) : r.term ≤ (r.act env input).1.term := by
  have hrole := act_role r env input
  generalize hnext : (r.act env input).1.role = role at hrole
  have hterm : (r.act env input).1.term = role.term := congrArg Role.term hnext
  rw [hterm]
  cases hrole with
  | follow msg _ hle => exact hle
  | stand msg _ hcounts =>
      have hlt : r.term + 1 < 2 ^ 64 := hterms.term_succ hcounts.asked
      show r.term ≤ wrap64 (r.term + 1)
      rw [wrap64_of_lt hlt]
      exact Nat.le_succ _
  | _ => exact le_rfl

end Raft

/-! ## Rounds opened after a decision -/

/-- The round that is open now is the one that was open at the beginning. -/
theorem Path.round_eq (hpath : Path setup Ok c₀ later c)
    (hevents : ∀ event ∈ later, (event.1.node n).readIndexPending = true ∧
      ∀ draws, event.2 ≠ .restart n draws) (hopen : (c.node n).readIndexPending = true) :
    (c.node n).round = (c₀.node n).round := by
  induction hpath with
  | nil => rfl
  | cons c next later action _ _ hstep ih =>
      obtain ⟨⟨hpending, hlives⟩, hlater⟩ := List.forall_mem_cons.mp hevents
      rw [← ih hlater hpending]
      cases action with
      | call i env input =>
          obtain ⟨-, -, rfl⟩ := Cluster.step_call hstep
          by_cases hin : n = i
          · subst hin
            rw [show ({ c.setNode n _ with net := _ } : Cluster).node n = _ from
              c.setNode_node_self n _] at hopen ⊢
            exact Raft.act_round hpending hopen
          · rw [show ({ c.setNode i _ with net := _ } : Cluster).node n = c.node n from
              c.setNode_node_of_ne _ hin]
      | restart i draws =>
          obtain ⟨-, r, -, rfl⟩ := Cluster.step_restart hstep
          have hin : n ≠ i := fun h => hlives draws (h ▸ rfl)
          rw [c.setNode_node_of_ne r hin]

/-- A leader that opens a round waits for everything decided up to its term. -/
theorem Cluster.Ledgered.index_le (hledgered : c.Ledgered setup a ledger) (hn : n ∈ setup.members)
    (hstate : (c.node n).state = .leader) (hhealthy : (c.node n).storageFailed = false)
    (hd : d ∈ ledger) (hterm : d.term ≤ (c.node n).term) :
    d.index ≤ if (c.node n).hasCommittedEntryInCurrentTerm then (c.node n).commitIndex
      else wrap64 ((c.node n).lastLogIndex + 1) := by
  have hinv := hledgered.refines.inv
  have hsim := hledgered.refines.node n hn
  have hvalid := hledgered.valid d hd
  obtain ⟨w, hrun⟩ := hsim.stores.running hinv hsim.mirrors hhealthy hsim.id
  obtain ⟨hlead, l, hbid, hl, -⟩ := hsim.plays.leader hstate
  have hlast := Raft.lastLogIndex_eq hrun.valid hrun.grounded
  have hwrap : wrap64 ((c.node n).lastLogIndex + 1) = (c.node n).history.length + 1 := by
    have hbound := hrun.valid.bound
    have hlength := Raft.length_history hrun.grounded
    simp only [Durable.last, Raft.durable] at hbound
    rw [hlast, wrap64_of_lt (by omega)]
  have hcommit := hrun.commit_le
  rcases Nat.eq_or_lt_of_le hterm with heq | hlt
  · -- the decision is its own, and it has not forgotten
    have hleader : d.leader = n := Option.some.inj (hvalid.leads.symm.trans (heq ▸ hlead))
    have hknown := (((hledgered.node n hn).upholds d hd hleader) hhealthy heq.symm).2 hstate
    split
    · exact hknown
    · omega
  · -- it stood with the entries of the decision, and all it added carries its own term
    obtain ⟨e, he, hstamp⟩ := hvalid.chosen.1
    have hpre := (hinv.chosen_bid hlt hlead hbid hvalid.chosen).trans hl
    rw [Nat.sub_add_cancel hvalid.positive] at hpre
    have hheld : (c.node n).history[d.index - 1]? = some e := by
      obtain ⟨rest, hrest⟩ := hpre
      have hpos := hvalid.positive
      have hk := (List.getElem?_eq_some_iff.mp he).1
      rw [← hrest, List.getElem?_append_left (by rw [List.length_take]; omega),
        List.getElem?_take_of_lt (by omega), he]
    have hlength := (List.getElem?_eq_some_iff.mp hheld).1
    split
    next hcommitted =>
      simp only [Raft.hasCommittedEntryInCurrentTerm, Bool.and_eq_true, decide_eq_true_eq,
        beq_iff_eq] at hcommitted
      obtain ⟨hpos, hown⟩ := hcommitted
      by_contra hbeyond
      obtain ⟨x, hx⟩ : ∃ x, (c.node n).history[(c.node n).commitIndex - 1]? = some x :=
        ⟨_, List.getElem?_eq_getElem (by omega)⟩
      have hlastStamp := setup.protocol.lastStamp_take_succ hx
      rw [Nat.sub_add_cancel hpos, ← Raft.termAt_eq hrun.valid hrun.grounded hrun.offset_le hcommit,
        hown] at hlastStamp
      have hle := hinv.stamp_le hrun.grounded.rooted
        (show (c.node n).commitIndex - 1 ≤ d.index - 1 by
        omega) hx hheld
      omega
    · omega

/-- A majority had reached the term of a decision when it was made. -/
theorem Decision.Valid.reached (hinv : setup.protocol.Inv a) (hvalid : d.Valid setup a) {x y : Nat}
    (hne : x ≠ y) (hx : x ∈ setup.members) (hy : y ∈ setup.members) :
    d.term ≤ a.term x ∨ d.term ≤ a.term y := by
  obtain ⟨S, ⟨p, q, hpq, hp, hq, hpS, hqS⟩, hacks⟩ := hvalid.chosen.2
  have hin : ∀ v ∈ S, d.term ≤ a.term v := fun v hv =>
    hinv.ackTerm v d.term (Nat.zero_lt_of_lt (hacks v hv))
  rcases two_of_three setup.three hne hpq hx hy hp hq with rfl | rfl | rfl | rfl
  · exact .inl (hin _ hpS)
  · exact .inl (hin _ hqS)
  · exact .inr (hin _ hpS)
  · exact .inr (hin _ hqS)

theorem Cluster.Ledgered.term_le (hledgered : c.Ledgered setup a ledger) (hn : n ∈ setup.members) :
    a.term n ≤ (c.node n).term :=
  (hledgered.refines.node n hn).stores.located.term.trans_le (hledgered.node n hn).behind

/-- Whoever confirms a round of term `t` has not gone beyond that term when the round was
opened. -/
theorem Confirms.term_le (hno : ∀ i ∈ setup.members, setup.snapshotThreshold i = 0) {t : Nat}
    (hledgered : c₀.Ledgered setup a ledger) (hpath : Path setup Ok c₀ later c)
    (hm : m ∈ setup.members) (hconfirms : Confirms later m n t) : a.term m ≤ t := by
  obtain ⟨before, env, msg, hmem, -, -, -, -, hterm, -⟩ := hconfirms
  obtain ⟨after, first, rfl⟩ := List.append_of_mem hmem
  obtain ⟨mid, hfirst, -⟩ := hpath.split
  cases hfirst with
  | cons _ _ _ _ hfirst =>
      obtain ⟨a', added, hgrow, hbefore⟩ := hfirst.ledgered hno hledgered
      have hterms := (hbefore.refines.node m hm).mirrors.inTerm
      calc a.term m ≤ a'.term m := hgrow.term m
        _ ≤ (before.node m).term := hbefore.term_le hm
        _ ≤ ((before.node m).act env (.message msg)).1.term := Raft.term_le_act hterms
        _ = t := hterm

/-- The call that opened the round comes after any state in which no round was open. -/
theorem Opened.isSuffix {events past : List Event} {t context : Nat}
    (hopened : Opened events n t context) (hsplit : later ++ past = events ++ earlier)
    (hidle : ∃ event ∈ later, (event.1.node n).readIndexPending = false) :
    ∃ rest, later = events ++ rest := by
  obtain ⟨since, c, env, rfl, -, -, -, -, -, hunbroken⟩ := hopened
  rcases List.append_eq_append_iff.mp hsplit with ⟨rest, hevents, -⟩ | ⟨rest, hlater, -⟩
  · -- the whole of `later` would have the round open
    obtain ⟨event, hevent, hclosed⟩ := hidle
    rcases List.eq_nil_or_concat rest with rfl | ⟨front, last, rfl⟩
    · rw [List.append_nil] at hevents
      exact ⟨[], by rw [List.append_nil, hevents]⟩
    · rw [List.concat_eq_append, ← List.append_assoc] at hevents
      obtain ⟨hsince, -⟩ := List.append_inj' hevents rfl
      have hopen := (hunbroken event (hsince ▸ List.mem_append_left _ hevent)).1
      cases hclosed.symm.trans hopen
  · exact ⟨rest, hlater⟩

/-- A read that is ready has applied all that was decided before its round was opened. -/
theorem ready_covers (hno : ∀ i ∈ setup.members, setup.snapshotThreshold i = 0)
    (htrace : Trace setup Counted earlier c₀) (hpath : Path setup Counted c₀ later c)
    (hledgered : c₀.Ledgered setup a ledger) (hn : n ∈ setup.members)
    (hidle : ∃ event ∈ later, (event.1.node n).readIndexPending = false) {read : ReadIndexToken}
    (hready : (c.node n).readIndexReady read = true) (hd : d ∈ ledger) :
    d.index ≤ (c.node n).lastApplied := by
  have hfull := htrace.extend hpath
  obtain ⟨events, past, hsplit, hopened, ⟨m, hm⟩, hacks⟩ :=
    read_confirmed_since_opened hfull hn hready
  obtain ⟨hmember, hother, hconfirms⟩ := hacks m hm
  obtain ⟨hhealthy, -, -⟩ := Raft.acked_of_readIndexReady (hfull.elections.peers n hn) setup.three
    hready
  have hpending : (c.node n).readIndexPending = true := by
    by_contra hclosed
    exact (hfull.reads.rounds n hn hhealthy).idle ((Bool.not_eq_true _).mp hclosed) m hm
  obtain ⟨rest, rfl⟩ := hopened.isSuffix hsplit hidle
  obtain ⟨since, opening, env, rfl, hstate, hterm, hclosed, hopen, -, hunbroken⟩ := hopened
  obtain ⟨mid, hrest, hevents⟩ := hpath.split
  obtain ⟨opened, hcall, hsince⟩ := hevents.split
  cases hcall with
  | cons _ _ _ _ hnil hok hstep =>
      cases hnil with
      | nil =>
          obtain ⟨a', added, hgrow, hledgered'⟩ := hrest.ledgered hno hledgered
          obtain ⟨hhealthy', hindex⟩ := Raft.act_opens hclosed hopen
          have hnode : opened.node n = ((opening.node n).act env .readIndex).1 := by
            obtain ⟨-, -, rfl⟩ := Cluster.step_call hstep
            exact opening.setNode_node_self n _
          have hround := hsince.round_eq hunbroken hpending
          have hwaits : (c.node n).pendingReadIndex =
              if (opening.node n).hasCommittedEntryInCurrentTerm then (opening.node n).commitIndex
              else wrap64 ((opening.node n).lastLogIndex + 1) := by
            rw [← hindex, ← hnode]
            exact congrArg ReadIndexToken.safeIndex hround
          have hreached : d.term ≤ (opening.node n).term := by
            have hvalid := (hledgered.valid d hd).grow hgrow
            rcases hvalid.reached hledgered'.refines.inv hother.symm hn hmember with hleft | hright
            · exact hleft.trans (hledgered'.term_le hn)
            · rw [hterm]
              exact hright.trans (hconfirms.term_le hno hledgered' hevents hmember)
          have hle :=
            hledgered'.index_le hn hstate hhealthy' (List.mem_append_right added hd) hreached
          rw [← hwaits] at hle
          exact hle.trans (Raft.lastApplied_of_ready hready).2

/-! ## Decisions and logs -/

/-- What was decided, up to the index of the decision. -/
def Decision.entries (a : Sys Nat Entry) (d : Decision) : List Entry :=
  (a.termLog d.term).take d.index

theorem Decision.Valid.length_entries (hvalid : d.Valid setup a) :
    (d.entries a).length = d.index := by
  obtain ⟨e, he, -⟩ := hvalid.chosen.1
  have hpos := hvalid.positive
  have hlen := (List.getElem?_eq_some_iff.mp he).1
  rw [Decision.entries, List.length_take]
  omega

theorem Decision.Valid.committed (hvalid : d.Valid setup a) :
    setup.protocol.Committed a d.term (d.entries a) := by
  have hpos := hvalid.positive
  refine .inr ⟨d.term, d.index - 1, le_rfl, hvalid.chosen, ?_, List.take_prefix _ _⟩
  rw [hvalid.length_entries]
  omega

theorem Decision.Valid.entries_grow {a' : Sys Nat Entry} (hvalid : d.Valid setup a)
    (hgrow : Grows a a') : d.entries a' = d.entries a := by
  refine hgrow.termLog_take ?_
  have hlength := hvalid.length_entries
  rw [Decision.entries, List.length_take] at hlength
  omega

theorem Cluster.Ledgered.history_eq (hledgered : c.Ledgered setup a ledger)
    (hn : n ∈ setup.members) : (c.node n).history = (c.node n).log := by
  have hlength := Raft.length_history (hledgered.refines.node n hn).stores.memory
  have hwhole := (hledgered.whole.node n hn).memory
  rw [Raft.history, List.length_append] at hlength
  have hnone : (c.node n).lastSnapshotData.entries = [] := List.length_eq_zero_iff.mp (by omega)
  rw [Raft.history, hnone, List.nil_append]

/-- The committed part of a log and a decision never contradict each other. -/
theorem Cluster.Ledgered.comparable (hledgered : c.Ledgered setup a ledger)
    (hn : n ∈ setup.members) (hd : d ∈ ledger) :
    (c.node n).log.take (c.node n).commitIndex <+: d.entries a ∨
      d.entries a <+: (c.node n).log.take (c.node n).commitIndex := by
  obtain ⟨hcommitted, -⟩ := hledgered.refines.committed hn
  rw [hledgered.history_eq hn] at hcommitted
  exact hledgered.refines.inv.committed_comparable hcommitted (hledgered.valid d hd).committed

/-- A node that has committed as much has the decided entries. -/
theorem Cluster.Ledgered.entries_isPrefix (hledgered : c.Ledgered setup a ledger)
    (hn : n ∈ setup.members) (hd : d ∈ ledger) (hle : d.index ≤ (c.node n).commitIndex) :
    d.entries a <+: (c.node n).log := by
  have hlength := (hledgered.valid d hd).length_entries
  have hcommit := (hledgered.refines.committed hn).2
  rw [hledgered.history_eq hn] at hcommit
  rcases hledgered.comparable hn hd with hpre | hpre
  · have heq := hpre.eq_of_length_le (by rw [hlength, List.length_take]; omega)
    rw [← heq]
    exact List.take_prefix _ _
  · exact hpre.trans (List.take_prefix _ _)

/-- Every committed entry belongs to a decision. -/
theorem Cluster.Ledgered.exists_decision (hledgered : c.Ledgered setup a ledger)
    (hn : n ∈ setup.members) {e : Entry}
    (he : e ∈ (c.node n).log.take (c.node n).commitIndex) : ∃ d ∈ ledger, e ∈ d.entries a := by
  rcases (hledgered.node n hn).commit with hzero | ⟨d, hd, hle⟩
  · rw [hzero] at he
    cases he
  · refine ⟨d, hd, ?_⟩
    rcases hledgered.comparable hn hd with hpre | hpre
    · exact hpre.subset he
    · have heq := hpre.eq_of_length_le
        (by rw [(hledgered.valid d hd).length_entries, List.length_take]; omega)
      rwa [heq]

end RaftKv
