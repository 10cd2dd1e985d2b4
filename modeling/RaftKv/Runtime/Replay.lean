import RaftKv.Node.Send
import RaftKv.Runtime.Run

/-! # What a restart rebuilds

`recover_storage` starts from the store of the last snapshot in the WAL and applies the
entries behind it up to the recovered commit index. On records that a node has written it
neither skips nor misses one.
-/

namespace RaftKv

variable {D : Type} [Blob D] {codec : StoreCodec D}

/-- The store of a snapshot at this index, as start-up reads it. -/
def Durable.snapshotStore (codec : StoreCodec D) (d : Durable D) : Option KVStore :=
  (Runtime.storeOf codec ⟨d.offset, d.offsetTerm, d.data, false⟩).map Prod.fst

/-- The store after the committed entries behind the snapshot. -/
def Durable.rebuilt (codec : StoreCodec D) (d : Durable D) : Option KVStore :=
  (d.snapshotStore codec).bind fun store =>
    KVStore.processAll codec store (d.log.take (d.commit - d.offset))

theorem Durable.snapshotStore_of_pos {d : Durable D} (hoffset : 0 < d.offset) :
    d.snapshotStore codec = codec.deserialize d.data := by
  have hfull : (⟨d.offset, d.offsetTerm, d.data, false⟩ : SnapshotMeta D).isEmpty = false := by
    simp only [SnapshotMeta.isEmpty, Bool.and_eq_false_iff, beq_eq_false_iff_ne]
    exact .inl (.inl hoffset.ne')
  rw [snapshotStore, Runtime.storeOf, hfull, if_neg (by simp), Option.map_map]
  exact Option.map_id'

namespace Runtime

/-- The replay stops exactly at the commit index, and the store has all that is committed. -/
theorem replayStore_eq {r : Raft D} {store : KVStore} {snapshotIndex applied : Nat}
    {entries : List Entry}
    (hindexed : ∀ k e, entries[k]? = some e → e.index = applied + k + 1)
    (hsnapshot : snapshotIndex ≤ applied) (happlied : r.lastApplied = applied)
    (hge : applied ≤ r.commitIndex) (hle : r.commitIndex ≤ applied + entries.length)
    (hbound : applied + entries.length + 1 < 2 ^ 64) :
    replayStore codec snapshotIndex r store applied entries =
      (KVStore.processAll codec store (entries.take (r.commitIndex - applied))).map
        fun store => ({ r with lastApplied := r.commitIndex }, store, r.commitIndex) := by
  have hdone : ∀ r : Raft D, r.lastApplied = r.commitIndex →
      { r with lastApplied := r.commitIndex } = r := fun r h =>
    congrArg (fun n => { r with lastApplied := n }) h.symm
  induction entries generalizing r store applied with
  | nil =>
      obtain rfl : applied = r.commitIndex := by simp at hle; omega
      rw [List.take_nil, hdone r happlied]
      rfl
  | cons e rest ih =>
      simp only [List.length_cons] at hle hbound
      have hhead : e.index = applied + 1 := by simpa using hindexed 0 e rfl
      have hwrap : wrap64 (applied + 1) = applied + 1 := wrap64_of_lt (by omega)
      have hrest : ∀ k x, rest[k]? = some x → x.index = e.index + k + 1 := by
        intro k x hx
        have := hindexed (k + 1) x (by simpa using hx)
        omega
      rw [replayStore, if_neg (by omega)]
      by_cases hcommit : e.index > r.commitIndex
      · obtain rfl : applied = r.commitIndex := by omega
        rw [if_pos hcommit, Nat.sub_self, List.take_zero, hdone r happlied]
        rfl
      · have hadvance : r.advance e.index = { r with lastApplied := e.index } := by
          have : ¬ (e.index > r.commitIndex ∨ e.index ≠ wrap64 (r.lastApplied + 1)) := by
            rw [happlied, hwrap]
            omega
          simp [Raft.advance, this]
        obtain ⟨count, hcount⟩ : ∃ count, r.commitIndex - applied = count + 1 :=
          ⟨r.commitIndex - applied - 1, by omega⟩
        have hcount' : r.commitIndex - e.index = count := by omega
        rw [if_neg hcommit, if_neg (by omega), hadvance, hcount, List.take_succ_cons,
          KVStore.processAll_cons, Option.map_bind]
        congr 1
        funext store
        have hnext := @ih { r with lastApplied := e.index } store e.index hrest (by omega) rfl
          (by simp only; omega) (by simp only; omega) (by omega)
        rw [hnext, ← hcount']
        rfl

/-- Start-up on records that describe a valid state builds the store they describe. -/
theorem recoverStorage_store {config : Config} {file : List (Record D)} (draws : List Nat)
    (hconfig : config.valid = true) (hvalid : (replay file).durable.Valid) :
    (recoverStorage codec config draws file).map (fun recovered => recovered.2.1) =
      (replay file).durable.rebuilt codec := by
  obtain ⟨fresh, hfresh⟩ : ∃ fresh : Raft D, Raft.new config draws = some fresh := by
    simp [Raft.new, hconfig]
  have hrestore := Raft.restore_of_valid fresh hvalid
  obtain ⟨-, hindexed, hge, hle, hbound⟩ := hvalid
  simp only [Recovered.durable, Durable.last] at hindexed hge hle hbound
  have hsame : (replay file).durable.snapshotStore codec =
      (storeOf codec (replay file).snapshot).map Prod.fst := rfl
  unfold recoverStorage
  rw [hfresh, Durable.rebuilt, hsame]
  cases hstore : storeOf codec (replay file).snapshot with
  | none => simp [hstore]
  | some found =>
      obtain ⟨store, applied⟩ := found
      obtain rfl := storeOf_index hstore
      simp only [Option.bind_eq_bind, Option.bind_some, hstore, hrestore, Option.map_some]
      rw [replayStore_eq hindexed le_rfl rfl hge hle hbound, Option.bind_map, Option.map_bind]
      simp only [Recovered.durable]
      cases KVStore.processAll codec store ((replay file).entries.take _) with
      | none => rfl
      | some last => simp

end Runtime

end RaftKv
