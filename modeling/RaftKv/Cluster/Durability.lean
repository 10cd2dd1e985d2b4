import RaftKv.Cluster.Simulation

/-! # Committed entries stay with a majority

Whatever a node has committed, two of the three files hold in every later state of a run
in which no snapshot replaces a log that goes on from it. Without that condition a snapshot
that crosses an acknowledgement takes the acknowledged entries away.
-/

namespace RaftKv

open TermLog

variable {setup : Setup} {a a' : Sys Nat Entry} {c c' : Cluster} {past : List Cluster}
  {r : Raft Capture} {n index : Nat} {e : Entry}

/-- The entry a node retains at an index. -/
def Raft.entryAt {D : Type} (r : Raft D) (index : Nat) : Option Entry :=
  if index ≤ r.logOffset then none else r.log[index - r.logOffset - 1]?

/-- The node holds the entry, in its log or under a snapshot of a history with it. -/
def Raft.Holds (r : Raft Capture) (index : Nat) (e : Entry) : Prop :=
  r.entryAt index = some e ∨
    index ≤ r.logOffset ∧ r.lastSnapshotData.entries[index - 1]? = some e

instance (r : Raft Capture) (index : Nat) (e : Entry) : Decidable (r.Holds index e) :=
  inferInstanceAs (Decidable (_ ∨ _ ∧ _))

/-- The node that starts on this file holds the entry. -/
def Cluster.Recovers (setup : Setup) (c : Cluster) (n index : Nat) (e : Entry) : Prop :=
  ∀ draws, ∃ r, boot (setup.config n) draws (c.node n).synced = some r ∧ r.Holds index e

namespace Raft

theorem entryAt_eq (hground : r.durable.Grounded setup a) (hlt : r.logOffset < index) :
    r.entryAt index = r.history[index - 1]? := by
  have hget : r.history[index - 1]? = r.log[index - 1 - r.logOffset]? :=
    Durable.history_getElem? hground (show r.logOffset ≤ index - 1 by omega)
  rw [entryAt, if_neg (by omega), hget, show index - 1 - r.logOffset = index - r.logOffset - 1
    by omega]

theorem holds_iff (hground : r.durable.Grounded setup a) (hpos : 0 < index) :
    r.Holds index e ↔ r.history[index - 1]? = some e := by
  rcases Nat.lt_or_ge r.logOffset index with hlt | hle
  · rw [Holds, entryAt_eq hground hlt]
    exact or_iff_left fun h => absurd h.1 (by omega)
  · have hcovered : r.lastSnapshotData.entries.length = r.logOffset := hground.covered
    rw [Holds, entryAt, if_pos hle, history, List.getElem?_append_left (by omega)]
    simp [hle]

end Raft

theorem Run.config_valid {Ok : Cluster → Action → Prop} {states : List Cluster}
    (hrun : Run setup Ok states) (hn : n ∈ setup.members) : (setup.config n).valid = true := by
  induction hrun with
  | start c hinitial =>
      obtain ⟨draws, hboot⟩ := hinitial.2 n hn
      exact (boot_booted hboot).valid
  | step _ _ _ _ _ _ _ ih => exact ih

namespace Cluster.Refines

/-- What the abstract log of a node has, its file recovers. -/
theorem recovers (hrefines : c.Refines setup a) (hconfig : (setup.config n).valid = true)
    (hn : n ∈ setup.members) (hpos : 0 < index) (hget : (a.log n)[index - 1]? = some e) :
    c.Recovers setup n index e := by
  intro draws
  have hsim := hrefines.node n hn
  have haccepts := hsim.mirrors.synced_accepts
  have hreplay : (replay (c.node n).synced).durable = (c.node n).onDisk := durable_replay haccepts
  obtain ⟨r, hboot, hdurable, -⟩ := boot_of_valid draws hconfig
    (durable_replay haccepts ▸ haccepts.valid Durable.valid_start)
  rw [hreplay] at hdurable
  refine ⟨r, hboot, (Raft.holds_iff (hdurable ▸ hsim.stores.disk) hpos).mpr ?_⟩
  rw [← Raft.durable_history, hdurable, ← hsim.stores.located.log]
  exact hget

/-- What a node calls committed is, and it has all of it. -/
theorem committed (hrefines : c.Refines setup a) (hn : n ∈ setup.members) :
    setup.protocol.Committed a (c.node n).term
        ((c.node n).history.take (c.node n).commitIndex) ∧
      (c.node n).commitIndex ≤ (c.node n).history.length := by
  have hsim := hrefines.node n hn
  refine ⟨hsim.stores.memory.committed, ?_⟩
  rw [Raft.length_history hsim.stores.memory]
  exact hsim.mirrors.sane.valid.commit_le

end Cluster.Refines

/-- An entry that any node has committed is held by two of the files from then on, and by
each follower that its leader has counted. -/
theorem committed_entry_held (hrun : Run setup Cluster.Safe (c :: past)) (hc' : c' ∈ c :: past)
    (hn : n ∈ setup.members) (hpos : 0 < index) (hcommit : index ≤ (c'.node n).commitIndex)
    (hholds : (c'.node n).Holds index e) :
    (∃ x y, x ≠ y ∧ x ∈ setup.members ∧ y ∈ setup.members ∧ c.Recovers setup x index e ∧
        c.Recovers setup y index e) ∧
      ((c'.node n).state = .leader → (c'.node n).storageFailed = false →
        ∀ j pr, (c'.node n).progress.get? j = some pr → index ≤ pr.matchIndex →
          c.Recovers setup j index e) := by
  obtain ⟨a, hrefines, hpast⟩ := hrun.refines
  obtain ⟨a', hrefines', hgrow⟩ : ∃ a', c'.Refines setup a' ∧ Grows a' a := by
    rcases List.mem_cons.mp hc' with rfl | hc'
    · exact ⟨a, hrefines, .refl a⟩
    · exact hpast c' hc'
  have hsim := hrefines'.node n hn
  obtain ⟨hcommitted, hlen⟩ := hrefines'.committed hn
  rw [Raft.holds_iff hsim.stores.memory hpos] at hholds
  have htake : ((c'.node n).history.take (c'.node n).commitIndex)[index - 1]? = some e := by
    rw [List.getElem?_take_of_lt (by omega), hholds]
  rcases hcommitted.grow _ hgrow le_rfl with hnil | ⟨u, k, hu, hchosen, hlast, hpre⟩
  · rw [hnil] at htake
    cases htake
  have hindex : index ≤ k + 1 := by
    rw [List.length_take] at hlast
    omega
  have hget : (a.termLog u)[index - 1]? = some e := by
    obtain ⟨rest, hrest⟩ := hpre
    rw [← hrest, List.getElem?_append_left (List.getElem?_eq_some_iff.mp htake).1, htake]
  -- whoever acknowledged the position, in its term or later, still has it
  have hheld : ∀ v t, v ∈ setup.members → u ≤ t → index ≤ a.ack v t →
      c.Recovers setup v index e := by
    intro v t hv ht hack
    have hsame := hrefines.inv.chosen_held hchosen ht hack hindex
    refine hrefines.recovers (hrun.config_valid hv) hv hpos ?_
    obtain ⟨rest, hrest⟩ := hsame
    have hin : ((a.termLog u).take index)[index - 1]? = some e := by
      rw [List.getElem?_take_of_lt (by omega), hget]
    rw [← hrest, List.getElem?_append_left (List.getElem?_eq_some_iff.mp hin).1, hin]
  refine ⟨?_, fun hleader hhealthy j pr hj hmatch => ?_⟩
  · obtain ⟨S, ⟨x, y, hne, hx, hy, hxS, hyS⟩, hacks⟩ := hchosen.2
    have hxa := hacks x hxS
    have hya := hacks y hyS
    exact ⟨x, y, hne, hx, hy, hheld x u hx le_rfl (by omega), hheld y u hy le_rfl (by omega)⟩
  · have htracks := hsim.plays.tracks hhealthy hleader j pr hj
    exact hheld j _ htracks.member hu (hmatch.trans (htracks.acked.trans (hgrow.ack _ _)))

/-- Node 1 commits entry 1 with node 2 and brings node 3 there by a snapshot. -/
def catchesUp : List (Cluster → Action) :=
  electsOne ++ [Cluster.propose 1 [1], Cluster.deliver 8, Cluster.deliver 10, Cluster.apply 1 1,
    Cluster.capture 1 1, Cluster.tick 1, Cluster.deliver 12]

theorem caughtUp_records :
    (Cluster.record (trio 1) Cluster.Safe [] (Cluster.fresh 1) catchesUp).isSome := by
  decide +kernel

def caughtUp : List Event × Cluster :=
  (Cluster.record (trio 1) Cluster.Safe [] (Cluster.fresh 1) catchesUp).get caughtUp_records

theorem caughtUp_trace : Trace (trio 1) Cluster.Safe caughtUp.1 caughtUp.2 :=
  Trace.record (.start _ (Cluster.fresh_initial 1)) (Option.some_get caughtUp_records).symm

theorem committed_entry_held_caughtUp :
    (caughtUp.2.node 3).logOffset = 1 ∧
      ∃ x y, x ≠ y ∧ x ∈ (trio 1).members ∧ y ∈ (trio 1).members ∧
        caughtUp.2.Recovers (trio 1) x 1 { index := 1, term := 1, data := [1] } ∧
        caughtUp.2.Recovers (trio 1) y 1 { index := 1, term := 1, data := [1] } :=
  ⟨by decide +kernel, (committed_entry_held (n := 1) caughtUp_trace.run List.mem_cons_self
    (by decide) (by decide) (by decide +kernel) (by decide +kernel)).1⟩

/-! ## A snapshot that crosses an acknowledgement -/

/-- Node 3 acknowledges two entries while a snapshot of the first is under way to it. It has
been told of no commit, so its state machine has nothing to apply and takes the snapshot. -/
def crosses : List (Cluster → Action) :=
  electsOne ++ [Cluster.propose 1 [1], Cluster.propose 1 [2], Cluster.deliver 8,
    Cluster.deliver 11, Cluster.deliver 12, Cluster.apply 1 1, Cluster.capture 1 1,
    Cluster.tick 1, Cluster.deliver 13, Cluster.deliver 15]

theorem crossed_records :
    (Cluster.record (trio 1) Anything [] (Cluster.fresh 1) crosses).isSome := by
  decide +kernel

def crossed : List Event × Cluster :=
  (Cluster.record (trio 1) Anything [] (Cluster.fresh 1) crosses).get crossed_records

theorem crossed_trace : Trace (trio 1) Anything crossed.1 crossed.2 :=
  Trace.record (.start _ (Cluster.fresh_initial 1)) (Option.some_get crossed_records).symm

theorem Cluster.not_recovers {c : Cluster}
    (hmissing : (boot (setup.config n) [] (c.node n).synced).all (fun r => ¬ r.Holds index e)) :
    ¬ c.Recovers setup n index e := by
  intro hrecovers
  obtain ⟨r, hboot, hholds⟩ := hrecovers []
  rw [hboot] at hmissing
  simp [hholds] at hmissing

/-- The leader has committed an entry with the acknowledgement of node 3, and no other file
holds it any more. -/
theorem crossing_snapshot_drops_committed :
    ∃ c past e, Run (trio 1) Anything (c :: past) ∧ (c.node 1).state = .leader ∧
      (c.node 1).commitIndex = 2 ∧ (c.node 1).entryAt 2 = some e ∧
      (c.node 1).progress.get? 3 = some ⟨2, 3⟩ ∧
      ¬ c.Recovers (trio 1) 2 2 e ∧ ¬ c.Recovers (trio 1) 3 2 e :=
  ⟨crossed.2, crossed.1.map Prod.fst, { index := 2, term := 1, data := [2] }, crossed_trace.run,
    by decide +kernel, by decide +kernel, by decide +kernel, by decide +kernel,
    Cluster.not_recovers (by decide +kernel), Cluster.not_recovers (by decide +kernel)⟩

end RaftKv
