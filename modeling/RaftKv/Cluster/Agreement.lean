import RaftKv.Cluster.Durability
import RaftKv.Cluster.Whole

/-! # Agreement

Two nodes never disagree about what they have committed, a later leader has whatever an
earlier one committed, and logs that agree in one entry agree in everything before it.
-/

namespace RaftKv

open TermLog

variable {setup : Setup} {a : Sys Nat Entry} {c c' : Cluster} {states : List Cluster}
  {n m : Nat}

/-- One abstract state above all states of a run. -/
theorem Run.above (hrun : Run setup Cluster.Safe states) :
    ∃ a, setup.protocol.Inv a ∧ ∀ c ∈ states, ∃ b, c.Refines setup b ∧ Grows b a := by
  cases states with
  | nil => cases hrun
  | cons c past =>
      obtain ⟨a, hrefines, hpast⟩ := hrun.refines
      refine ⟨a, hrefines.inv, fun c' hc' => ?_⟩
      rcases List.mem_cons.mp hc' with rfl | hc'
      · exact ⟨a, hrefines, .refl a⟩
      · exact hpast c' hc'

/-! ## Committed entries -/

theorem getElem?_of_comparable {l l' : List Entry} {k : Nat} (h : l <+: l' ∨ l' <+: l)
    (hk : k < l.length) (hk' : k < l'.length) : l[k]? = l'[k]? := by
  rcases h with ⟨rest, rfl⟩ | ⟨rest, rfl⟩
  · rw [List.getElem?_append_left hk]
  · rw [List.getElem?_append_left hk']

namespace Cluster.Refines

variable {b b' : Sys Nat Entry}

/-- Below both commit indices two nodes hold the same. -/
theorem committed_agree (hinv : setup.protocol.Inv a) (hc : c.Refines setup b)
    (hc' : c'.Refines setup b') (hgrow : Grows b a) (hgrow' : Grows b' a)
    (hn : n ∈ setup.members) (hm : m ∈ setup.members) {k : Nat}
    (hk : k < (c.node n).commitIndex) (hk' : k < (c'.node m).commitIndex) :
    (c.node n).history[k]? = (c'.node m).history[k]? := by
  obtain ⟨hcommitted, hlen⟩ := hc.committed hn
  obtain ⟨hcommitted', hlen'⟩ := hc'.committed hm
  have hcomparable := hinv.committed_comparable (hcommitted.grow _ hgrow le_rfl)
    (hcommitted'.grow _ hgrow' le_rfl)
  have hsame := getElem?_of_comparable (k := k) hcomparable
    (by rw [List.length_take]; omega) (by rw [List.length_take]; omega)
  rwa [List.getElem?_take_of_lt hk, List.getElem?_take_of_lt hk'] at hsame

/-- A leader has what a leader of an earlier term has committed, whichever of the two states
comes first. -/
theorem leader_complete (hinv : setup.protocol.Inv a) (hc : c.Refines setup b)
    (hc' : c'.Refines setup b') (hgrow : Grows b a) (hgrow' : Grows b' a)
    (hn : n ∈ setup.members) (hm : m ∈ setup.members) (hleader : (c'.node m).state = .leader)
    (hterm : (c.node n).term < (c'.node m).term) :
    (c.node n).history.take (c.node n).commitIndex <+: (c'.node m).history := by
  obtain ⟨hlead, l, hbid, hl, -⟩ := (hc'.node m hm).plays.leader hleader
  rcases (hc.committed hn).1.grow _ hgrow le_rfl with hnil | ⟨u, k, hu, hchosen, hlen, hpre⟩
  · rw [hnil]
    exact List.nil_prefix
  · have hstood := hinv.chosen_bid (hu.trans_lt hterm) (hgrow'.leader _ _ hlead)
      (hgrow'.bid _ _ _ hbid) hchosen
    exact (List.prefix_take_iff.mpr ⟨hpre, hlen⟩).trans (hstood.trans hl)

end Cluster.Refines

theorem Cluster.Whole.entryAt {b : Sys Nat Entry} (hwhole : c.Whole setup)
    (hrefines : c.Refines setup b) (hn : n ∈ setup.members) {index : Nat} (hpos : 0 < index) :
    (c.node n).entryAt index = (c.node n).history[index - 1]? :=
  Raft.entryAt_eq (hrefines.node n hn).stores.memory (by rw [(hwhole.node n hn).memory]; exact hpos)

/-- Without snapshots: logs start at their first entry, committed entries are the same
everywhere, and leaders of later terms have what leaders of earlier terms committed. -/
theorem committed_entries_agree (hno : ∀ i ∈ setup.members, setup.snapshotThreshold i = 0)
    (hrun : Run setup Anything states) :
    (∀ c ∈ states, (∀ i ∈ setup.members, (c.node i).logOffset = 0) ∧
      ∀ msg ∈ c.net, msg.type ≠ .installSnapshot) ∧
    (∀ c ∈ states, ∀ c' ∈ states, ∀ n ∈ setup.members, ∀ m ∈ setup.members,
      ∀ index, 0 < index → index ≤ (c.node n).commitIndex → index ≤ (c'.node m).commitIndex →
        ∃ e, (c.node n).entryAt index = some e ∧ (c'.node m).entryAt index = some e) ∧
    ∀ c ∈ states, ∀ c' ∈ states, ∀ n ∈ setup.members, ∀ m ∈ setup.members,
      (c.node n).state = .leader → (c'.node m).state = .leader →
      (c.node n).term < (c'.node m).term → ∀ index, 0 < index → index ≤ (c.node n).commitIndex →
        ∃ e, (c.node n).entryAt index = some e ∧ (c'.node m).entryAt index = some e := by
  obtain ⟨c₀, past, rfl⟩ : ∃ c₀ past, states = c₀ :: past := by
    cases hrun <;> exact ⟨_, _, rfl⟩
  obtain ⟨hsafe, hwhole⟩ := hrun.whole hno
  obtain ⟨a, hinv, habove⟩ := hsafe.above
  refine ⟨fun c hc => ⟨fun i hi => ((hwhole c hc).node i hi).memory, (hwhole c hc).net⟩, ?_, ?_⟩
  · intro c hc c' hc' n hn m hm index hpos hle hle'
    obtain ⟨b, hb, hgrow⟩ := habove c hc
    obtain ⟨b', hb', hgrow'⟩ := habove c' hc'
    have hlen := (hb.committed hn).2
    rw [(hwhole c hc).entryAt hb hn hpos, (hwhole c' hc').entryAt hb' hm hpos,
      ← hb.committed_agree hinv hb' hgrow hgrow' hn hm (by omega) (by omega)]
    exact ⟨_, List.getElem?_eq_getElem (by omega), List.getElem?_eq_getElem (by omega)⟩
  · intro c hc c' hc' n hn m hm _ hleader hterm index hpos hle
    obtain ⟨b, hb, hgrow⟩ := habove c hc
    obtain ⟨b', hb', hgrow'⟩ := habove c' hc'
    have hlen := (hb.committed hn).2
    have hpre := hb.leader_complete hinv hb' hgrow hgrow' hn hm hleader hterm
    have hin : index - 1 < ((c.node n).history.take (c.node n).commitIndex).length := by
      rw [List.length_take]
      omega
    have hsame := getElem?_of_comparable (.inl hpre) hin (hin.trans_le hpre.length_le)
    rw [List.getElem?_take_of_lt (by omega)] at hsame
    rw [(hwhole c hc).entryAt hb hn hpos, (hwhole c' hc').entryAt hb' hm hpos, ← hsame]
    exact ⟨_, List.getElem?_eq_getElem (by omega), List.getElem?_eq_getElem (by omega)⟩

/-- Node 1 commits an entry with node 2, and node 2 leads term 2 with node 3. -/
def handsOver : List (Cluster → Action) :=
  electsOne ++ [Cluster.propose 1 [1], Cluster.deliver 8, Cluster.deliver 10, Cluster.deliver 7,
    Cluster.tick 2, Cluster.tick 3, Cluster.deliver 13, Cluster.deliver 16, Cluster.deliver 18,
    Cluster.deliver 19]

theorem handedOver_records :
    (Cluster.record (trio 0) Anything [] (Cluster.fresh 0) handsOver).isSome := by
  decide +kernel

def handedOver : List Event × Cluster :=
  (Cluster.record (trio 0) Anything [] (Cluster.fresh 0) handsOver).get handedOver_records

theorem handedOver_trace : Trace (trio 0) Anything handedOver.1 handedOver.2 :=
  Trace.record (.start _ (Cluster.fresh_initial 0)) (Option.some_get handedOver_records).symm

theorem committed_entries_agree_handedOver :
    (handedOver.2.node 1).term = 1 ∧ (handedOver.2.node 2).term = 2 ∧
      ∃ e, (handedOver.2.node 1).entryAt 1 = some e ∧ (handedOver.2.node 2).entryAt 1 = some e :=
  ⟨by decide +kernel, by decide +kernel,
    (@committed_entries_agree (trio 0) _ (fun _ _ => rfl) handedOver_trace.run).2.2
      handedOver.2 List.mem_cons_self handedOver.2 List.mem_cons_self 1 (by decide) 2 (by decide)
      (by decide +kernel) (by decide +kernel) (by decide +kernel) 1 (by decide) (by decide +kernel)⟩

/-! ## Log matching -/

/-- The entry a message carries for an index. -/
def Message.entryAt {D : Type} (msg : Message D) (index : Nat) : Option Entry :=
  if index ≤ msg.prevLogIndex then none else msg.entries[index - msg.prevLogIndex - 1]?

/-- Rooted logs with the same term at one index have the same entries up to it. -/
theorem getElem?_of_rooted {l l' : List Entry} (hl : setup.protocol.Rooted a l)
    (hl' : setup.protocol.Rooted a l') {i j : Nat} {e e' : Entry} (he : l[i - 1]? = some e)
    (he' : l'[i - 1]? = some e') (hterm : e.term = e'.term) (hpos : 0 < j) (hle : j ≤ i) :
    l[j - 1]? = l'[j - 1]? := by
  have htake := Protocol.Inv.take_eq_of_stamp hl hl' he he' hterm
  have hget := congrArg (fun x : List Entry => x[j - 1]?) htake
  rwa [List.getElem?_take_of_lt (by omega), List.getElem?_take_of_lt (by omega)] at hget

/-- The entries of a message are a piece of a rooted log. -/
theorem Message.Honest.rooted {msg : Message Capture} (hinv : setup.protocol.Inv a)
    (hhonest : msg.Honest setup a) (htype : msg.type = .appendEntries) :
    ∃ l, setup.protocol.Rooted a l ∧
      ∀ index, msg.prevLogIndex < index → msg.entryAt index = l[index - 1]? := by
  obtain ⟨before, hlen, -, hpre, -⟩ := hhonest.entries htype
  refine ⟨before ++ msg.entries, (hinv.termLogRooted _).of_isPrefix _ hpre, fun index hlt => ?_⟩
  rw [entryAt, if_neg (by omega), List.getElem?_append_right (by omega), hlen,
    show index - msg.prevLogIndex - 1 = index - 1 - msg.prevLogIndex by omega]

/-- Logs, and the entries under way to them, that agree in the term at one index agree in every
entry they both have up to it. -/
theorem log_matching (hrun : Run setup Cluster.Safe states) (hc : c ∈ states) :
    (∀ n ∈ setup.members, ∀ m ∈ setup.members, ∀ i e e', (c.node n).entryAt i = some e →
      (c.node m).entryAt i = some e' → e.term = e'.term → ∀ j ≤ i, (c.node n).logOffset < j →
        (c.node m).logOffset < j → (c.node n).entryAt j = (c.node m).entryAt j) ∧
    ∀ msg ∈ c.net, msg.type = .appendEntries → ∀ m ∈ setup.members, ∀ i e e',
      msg.entryAt i = some e → (c.node m).entryAt i = some e' → e.term = e'.term →
        ∀ j ≤ i, msg.prevLogIndex < j → (c.node m).logOffset < j →
          msg.entryAt j = (c.node m).entryAt j := by
  obtain ⟨_, _, habove⟩ := hrun.above
  obtain ⟨b, hb, -⟩ := habove c hc
  have hnode : ∀ n ∈ setup.members, setup.protocol.Rooted b (c.node n).history ∧
      ∀ index, (c.node n).logOffset < index →
        (c.node n).entryAt index = (c.node n).history[index - 1]? := by
    intro n hn
    have hground := (hb.node n hn).stores.memory
    exact ⟨hground.rooted, fun index => Raft.entryAt_eq hground⟩
  refine ⟨fun n hn m hm i e e' he he' hterm j hle hj hj' => ?_,
    fun msg hmsg htype m hm i e e' he he' hterm j hle hj hj' => ?_⟩
  · obtain ⟨hroot, hentry⟩ := hnode n hn
    obtain ⟨hroot', hentry'⟩ := hnode m hm
    rw [hentry i (by omega)] at he
    rw [hentry' i (by omega)] at he'
    rw [hentry j hj, hentry' j hj']
    exact getElem?_of_rooted hroot hroot' he he' hterm (by omega) hle
  · obtain ⟨l, hroot, hentry⟩ := (hb.net msg hmsg).rooted hb.inv htype
    obtain ⟨hroot', hentry'⟩ := hnode m hm
    rw [hentry i (by omega)] at he
    rw [hentry' i (by omega)] at he'
    rw [hentry j hj, hentry' j hj']
    exact getElem?_of_rooted hroot hroot' he he' hterm (by omega) hle

/-- Node 1 brings two entries to both of the others. -/
def spreads : List (Cluster → Action) :=
  electsOne ++ [Cluster.propose 1 [1], Cluster.propose 1 [2], Cluster.deliver 10,
    Cluster.deliver 11]

theorem spread_records :
    (Cluster.record (trio 1) Cluster.Safe [] (Cluster.fresh 1) spreads).isSome := by
  decide +kernel

def spread : List Event × Cluster :=
  (Cluster.record (trio 1) Cluster.Safe [] (Cluster.fresh 1) spreads).get spread_records

theorem spread_trace : Trace (trio 1) Cluster.Safe spread.1 spread.2 :=
  Trace.record (.start _ (Cluster.fresh_initial 1)) (Option.some_get spread_records).symm

theorem log_matching_spread :
    (spread.2.node 2).entryAt 1 = some { index := 1, term := 1, data := [1] } ∧
      (spread.2.node 2).entryAt 1 = (spread.2.node 3).entryAt 1 :=
  ⟨by decide +kernel,
    (log_matching spread_trace.run List.mem_cons_self).1 2 (by decide) 3 (by decide) 2
      { index := 2, term := 1, data := [2] } { index := 2, term := 1, data := [2] }
      (by decide +kernel) (by decide +kernel) rfl 1 (by decide) (by decide +kernel)
      (by decide +kernel)⟩

/-- After the snapshot has crossed the acknowledgement, node 2 leads term 2 without the committed
entry 2 and appends two entries of its own, node 1 leads term 3 and brings node 3 its entry 2
again, node 2 leads term 4 and overwrites node 1 past its snapshot, and node 1 leads term 5 and
continues the log of node 3 from the snapshot. -/
def diverges : List (Cluster → Action) :=
  crosses ++
    [Cluster.tick 2, Cluster.tick 3, Cluster.deliver 18, Cluster.deliver 21, Cluster.deliver 23,
      Cluster.deliver 24, Cluster.propose 2 [3], Cluster.propose 2 [4], Cluster.deliver 22] ++
    [Cluster.tick 1, Cluster.tick 3, Cluster.deliver 33, Cluster.deliver 36, Cluster.deliver 38,
      Cluster.deliver 39, Cluster.deliver 41, Cluster.deliver 42, Cluster.deliver 44,
      Cluster.deliver 40] ++
    [Cluster.tick 2, Cluster.tick 3, Cluster.deliver 48, Cluster.deliver 51, Cluster.deliver 53,
      Cluster.deliver 54, Cluster.apply 1 2, Cluster.capture 1 2, Cluster.deliver 55,
      Cluster.deliver 57, Cluster.deliver 58, Cluster.deliver 60, Cluster.deliver 61,
      Cluster.deliver 63, Cluster.deliver 64] ++
    [Cluster.tick 1, Cluster.tick 3, Cluster.deliver 68, Cluster.deliver 71, Cluster.deliver 73,
      Cluster.deliver 74, Cluster.deliver 76, Cluster.deliver 77, Cluster.deliver 79]

theorem diverged_records :
    (Cluster.record (trio 1) Anything [] (Cluster.fresh 1) diverges).isSome := by
  decide +kernel

def diverged : List Event × Cluster :=
  (Cluster.record (trio 1) Anything [] (Cluster.fresh 1) diverges).get diverged_records

theorem diverged_trace : Trace (trio 1) Anything diverged.1 diverged.2 :=
  Trace.record (.start _ (Cluster.fresh_initial 1)) (Option.some_get diverged_records).symm

/-- Nodes 2 and 3 have the same entry 3 and different entries 2. -/
theorem diverged_logs_share_entry :
    ∃ c states e, Run (trio 1) Anything states ∧ c ∈ states ∧ (c.node 2).entryAt 3 = some e ∧
      (c.node 3).entryAt 3 = some e ∧ (c.node 2).logOffset < 2 ∧ (c.node 3).logOffset < 2 ∧
      (c.node 2).entryAt 2 ≠ (c.node 3).entryAt 2 :=
  ⟨diverged.2, _, { index := 3, term := 2, data := [4] }, diverged_trace.run, List.mem_cons_self,
    by decide +kernel, by decide +kernel, by decide +kernel, by decide +kernel, by decide +kernel⟩

end RaftKv
