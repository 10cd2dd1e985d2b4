import RaftKv.Cluster.Cover

/-! # Files without snapshots

A node that neither takes snapshots nor is sent any has none in its file, so a restart
begins with the empty state machine and the first entry.
-/

namespace RaftKv

namespace Raft

variable {D : Type} [Blob D] {o : Outside D} {r next : Raft D}

def PlainFile (r : Raft D) : Prop := ∀ record ∈ r.synced, record.KeepsStart

theorem Move.plainFile (ho : o.InRange) (hno : ¬ o.Compacts r) (hmirrors : r.Mirrors)
    (hplain : r.PlainFile) (hmove : Move o r next) : next.PlainFile := by
  cases hfailed : r.storageFailed with
  | true =>
      obtain ⟨hwal, -, -⟩ := hmove.of_failed hfailed
      rwa [PlainFile, synced, hwal]
  | false =>
      obtain ⟨hterms, hsane, w, hwal, _, _, hclean⟩ := hmirrors
      obtain ⟨records, hwrites, hkeeps⟩ :=
        hmove.writes ho hterms hsane hwal (hclean hfailed).1 hfailed
      have hrecords := hkeeps.resolve_left hno
      have hold : ∀ record ∈ w.file, record.KeepsStart := fun record hrecord =>
        hplain record (by simpa [synced, hwal] using hrecord)
      suffices hfile : ∃ w' done, next.wal = some w' ∧ w'.file = w.file ++ done ∧
          done <+: records by
        obtain ⟨w', done, hwal', hfile, hpre⟩ := hfile
        intro record hrecord
        simp only [synced, hwal', Option.map_some, Option.getD_some, hfile] at hrecord
        rcases List.mem_append.mp hrecord with hfirst | hdone
        · exact hold record hfirst
        · exact hrecords record (hpre.subset hdone)
      cases hwrites with
      | synced w' _ hwal' _ _ hfile => exact ⟨w', _, hwal', hfile, List.prefix_rfl⟩
      | failed w' kept rest seen _ hsplit _ hwal' _ _ hfile =>
          exact ⟨w', _, hwal', hfile, (List.prefix_append _ _).trans hsplit⟩

theorem Moves.plainFile (ho : o.InRange) (hno : ∀ r, ¬ o.Compacts r) (hmirrors : r.Mirrors)
    (hplain : r.PlainFile) (hmoves : Moves o r next) : next.PlainFile := by
  induction hmoves with
  | refl => exact hplain
  | tail hmoves hmove ih => exact hmove.plainFile ho (hno _) (Moves.mirrors ho hmirrors hmoves) ih

theorem PlainFile.act {env : Env} {input : Input D} (ho : o.InRange) (hno : ∀ r, ¬ o.Compacts r)
    (hmirrors : r.Mirrors) (hplain : r.PlainFile) (hallows : (r.arm env).Allows o input) :
    (r.act env input).1.PlainFile := by
  unfold Raft.act
  split
  · exact hplain
  next hhealthy =>
    have harmed : (r.arm env).PlainFile := by rwa [PlainFile, synced_arm]
    have hstep := Moves.plainFile ho hno (hmirrors.arm env) harmed
      (step_moves (r := r.arm env) ((Bool.not_eq_true _).mp hhealthy) hallows)
    split <;> exact hstep

end Raft

variable {setup : Setup} {Ok : Cluster → Action → Prop} {a : TermLog.Sys Nat Entry}
  {c₀ c : Cluster} {later : List Event} {ledger : List Decision}

theorem Cluster.Initial.plainFile (hinitial : c.Initial setup) :
    ∀ i ∈ setup.members, (c.node i).PlainFile := by
  intro i hi
  obtain ⟨draws, hboot⟩ := hinitial.2 i hi
  simp [Raft.PlainFile, Raft.synced, (boot_booted hboot).wal]

theorem Path.plainFile (hno : ∀ i ∈ setup.members, setup.snapshotThreshold i = 0)
    (hledgered : c₀.Ledgered setup a ledger) (hplain : ∀ i ∈ setup.members, (c₀.node i).PlainFile)
    (hpath : Path setup Ok c₀ later c) : ∀ i ∈ setup.members, (c.node i).PlainFile := by
  induction hpath with
  | nil => exact hplain
  | cons c next later action hpath _ hstep ih =>
      obtain ⟨a', added, -, hmid⟩ := hpath.ledgered hno hledgered
      cases action with
      | call n env input =>
          have hfits := Cluster.step_call_fits hstep
          obtain ⟨hmember, hmay, rfl⟩ := Cluster.step_call hstep
          have hallows := hmid.whole.allows hmember hmid.refines hmay hfits
          exact fun i => Cluster.forall_setNode
            (P := fun i r => i ∈ setup.members → r.PlainFile)
            (fun hi => (ih n hi).act wholeOutside_honest.inRange not_compacts_wholeOutside
              (hmid.refines.node n hmember).mirrors hallows)
            (fun i _ hi => ih i hi) i
      | restart n draws =>
          obtain ⟨hmember, r, hboot, rfl⟩ := Cluster.step_restart hstep
          refine fun i => Cluster.forall_setNode (P := fun i r => i ∈ setup.members → r.PlainFile)
            (fun hi => ?_) (fun i _ hi => ih i hi) i
          have hold := ih n hi
          rwa [Raft.PlainFile, Raft.synced, (boot_booted hboot).wal]

end RaftKv
