import Mathlib.Data.List.Induction
import RaftKv.Proto

/-! # WAL records and what they recover to

`WAL::recover` folds the records of the file into a hard state, a list of log
entries and the latest snapshot. Truncation is never logged: an entry record
replaces every recovered entry from its index on, a snapshot record drops the
entries it covers, and one that was installed from a leader drops them all.
-/

namespace RaftKv

/-- `HardStateProto`: the Raft state that must survive a crash. -/
structure HardState where
  term : Nat := 0
  vote : Nat := 0
  commit : Nat := 0
  deriving DecidableEq, Repr

def HardState.isEmpty (hs : HardState) : Bool :=
  hs.term == 0 && hs.vote == 0 && hs.commit == 0

structure SnapshotMeta (D : Type) where
  index : Nat
  term : Nat
  state : D
  discardSuffix : Bool
  deriving DecidableEq, Repr

namespace SnapshotMeta

variable {D : Type} [Blob D]

def none : SnapshotMeta D := ⟨0, 0, Blob.empty, false⟩

def isEmpty (snap : SnapshotMeta D) : Bool :=
  snap.index == 0 && snap.term == 0 && Blob.isEmpty snap.state

end SnapshotMeta

inductive Record (D : Type) where
  | hardState (hs : HardState)
  | entry (e : Entry)
  | snapshot (snap : SnapshotMeta D)
  deriving DecidableEq, Repr

/-- Records that leave the start of the log where it is. -/
def Record.KeepsStart {D : Type} : Record D → Prop
  | .snapshot _ => False
  | _ => True

/-- Result of `WAL::recover`. -/
structure Recovered (D : Type) where
  hardState : HardState
  entries : List Entry
  snapshot : SnapshotMeta D
  deriving DecidableEq, Repr

namespace Recovered

variable {D : Type}

/-- Effect of one record. The entries stay sorted by index, so `std::lower_bound`
and `std::upper_bound` split them at the first entry that fails the comparison. -/
def apply (st : Recovered D) : Record D → Recovered D
  | .hardState hs => { st with hardState := hs }
  | .entry e => { st with entries := st.entries.takeWhile (fun x => x.index < e.index) ++ [e] }
  | .snapshot snap =>
      { st with
        entries := if snap.discardSuffix then []
          else st.entries.dropWhile (fun x => x.index ≤ snap.index)
        snapshot := snap }

def start [Blob D] : Recovered D := ⟨{}, [], SnapshotMeta.none⟩

end Recovered

/-- The fold `WAL::recover` computes over the records it accepts. -/
def replay {D : Type} [Blob D] (records : List (Record D)) : Recovered D :=
  records.foldl Recovered.apply Recovered.start

@[simp] theorem replay_nil {D : Type} [Blob D] :
    replay ([] : List (Record D)) = Recovered.start := rfl

@[simp] theorem replay_append {D : Type} [Blob D] (records more : List (Record D)) :
    replay (records ++ more) = more.foldl Recovered.apply (replay records) := by
  simp [replay]

/-- Every part of a recovered state was written by a record of the file. -/
structure Recovered.Traced {D : Type} [Blob D] (file : List (Record D)) (st : Recovered D) :
    Prop where
  hardState : st.hardState = {} ∨ .hardState st.hardState ∈ file
  entry : ∀ e ∈ st.entries, .entry e ∈ file
  snapshot : st.snapshot = SnapshotMeta.none ∨ .snapshot st.snapshot ∈ file

theorem replay_traced {D : Type} [Blob D] (file : List (Record D)) :
    (replay file).Traced file := by
  induction file using List.reverseRecOn with
  | nil => exact ⟨.inl rfl, by simp [Recovered.start], .inl rfl⟩
  | append_singleton file record ih =>
      have hmem : ∀ {x : Record D}, x ∈ file → x ∈ file ++ [record] := fun hx =>
        List.mem_append_left _ hx
      have hrecord : record ∈ file ++ [record] := by simp
      have hentry := fun e he => hmem (ih.entry e he)
      rw [replay_append]
      cases record with
      | hardState hs => exact ⟨.inr hrecord, hentry, ih.snapshot.imp_right hmem⟩
      | entry e =>
          refine ⟨ih.hardState.imp_right hmem, fun x hx => ?_, ih.snapshot.imp_right hmem⟩
          rcases List.mem_append.mp hx with hx | hx
          · exact hentry x (List.takeWhile_subset _ hx)
          · rwa [List.mem_singleton.mp hx]
      | snapshot snap =>
          refine ⟨ih.hardState.imp_right hmem, fun x hx => ?_, .inr hrecord⟩
          simp only [List.foldl_cons, List.foldl_nil, Recovered.apply] at hx
          split at hx
          · simp at hx
          · exact hentry x ((List.dropWhile_suffix _).subset hx)

end RaftKv
