import RaftKv.Raft.Indices
import RaftKv.Runtime.Run

/-! # Handing committed entries to the store

The Raft loop gives the store one committed entry at a time and waits for the
acknowledgment; while none is on its way it may give it a whole snapshot instead. What is
on its way lies in the task queues of the two loops. The exchange between the loops is
always in one of a few phases, and everything else follows from the phase it is in.
-/

namespace RaftKv.Runtime

variable {D : Type}

/-- The tasks by which the Raft loop changes the store. -/
def handsOver : StoreTask D → Bool
  | .apply _ | .restore _ _ => true
  | _ => false

def acknowledges : RaftTask D → Option Nat
  | .acknowledge index => some index
  | _ => none

/-- What the two loops know of each other, and what is on its way between them. -/
structure Exchange (D : Type) where
  flight : Option Nat
  waiting : Option (Message D)
  restored : Option Bool
  handed : List (StoreTask D)
  acknowledged : List Nat
  applied : Nat
  /-- The index that the entries processed so far lead up to. -/
  reached : Nat

def exchange (n : Runtime D) : Exchange D where
  flight := n.applyInFlight
  waiting := n.waiting.map Prod.snd
  restored := n.restored
  handed := n.storeTasks.filter handsOver
  acknowledged := n.raftTasks.filterMap acknowledges
  applied := n.storeAppliedIndex
  reached := n.baseIndex + n.processed.length

/-- The phases of the exchange, for a node with the given indices. -/
inductive Phase (x : Indices) (stopping : Bool) (timedOut : Prop) : Exchange D → Prop
  | idle (restored : Option Bool) :
      Phase x stopping timedOut ⟨none, none, restored, [], [], x.applied, x.applied⟩
  /-- The next entry waits in the queue of the store loop. -/
  | sent (restored : Option Bool) (e : Entry) (hcommit : x.applied < x.commit)
      (hentry : x.entryAt? (x.applied + 1) = some e) :
      Phase x stopping timedOut
        ⟨some (x.applied + 1), none, restored, [.apply e], [], x.applied, x.applied⟩
  /-- Its acknowledgment waits in the queue of the Raft loop. -/
  | processed (restored : Option Bool) (hcommit : x.applied < x.commit) :
      Phase x stopping timedOut
        ⟨some (x.applied + 1), none, restored, [], [x.applied + 1], x.applied + 1, x.applied + 1⟩
  /-- A node that stops drops the entry or its acknowledgment. -/
  | dropped (restored : Option Bool) (i : Nat) (hcommit : x.applied < x.commit)
      (hi : i = x.applied ∨ i = x.applied + 1) (hstopping : stopping = true) :
      Phase x stopping timedOut ⟨some (x.applied + 1), none, restored, [], [], i, i⟩
  /-- The Raft loop waits for the store to take a snapshot. -/
  | asked (msg : Message D) (hfresh : x.applied < msg.snapshotIndex) :
      Phase x stopping timedOut ⟨none, some msg, none,
        [.restore msg.snapshotIndex msg.snapshotData], [], x.applied, x.applied⟩
  | answered (msg : Message D) (verdict : Bool) (hfresh : x.applied < msg.snapshotIndex) :
      Phase x stopping timedOut ⟨none, some msg, some verdict, [], [],
        if verdict then msg.snapshotIndex else x.applied, x.applied⟩
  /-- The Raft loop did not wait any longer. -/
  | abandoned (restored : Option Bool) (handed : List (StoreTask D)) (applied : Nat)
      (hhanded : ∀ task ∈ handed, ∃ index state, task = .restore index state ∧ x.applied < index)
      (hle : x.applied ≤ applied) (hstopping : stopping = true) (htimedOut : timedOut) :
      Phase x stopping timedOut ⟨none, none, restored, handed, [], applied, x.applied⟩

namespace Phase

variable {x y : Indices} {stopping stopped : Bool} {timedOut late : Prop} {c : Exchange D}

theorem mono (hphase : Phase x stopping timedOut c) (hstop : stopping = true → stopped = true)
    (hlate : timedOut → late) : Phase x stopped late c := by
  cases hphase with
  | idle restored => exact .idle restored
  | sent restored e hcommit hentry => exact .sent restored e hcommit hentry
  | processed restored hcommit => exact .processed restored hcommit
  | dropped restored i hcommit hi hstopping =>
      exact .dropped restored i hcommit hi (hstop hstopping)
  | asked msg hfresh => exact .asked msg hfresh
  | answered msg verdict hfresh => exact .answered msg verdict hfresh
  | abandoned restored handed applied hhanded hle hstopping htimedOut =>
      exact .abandoned restored handed applied hhanded hle (hstop hstopping) (hlate htimedOut)

/-- The entry on its way stays where it is as long as nothing else is applied. -/
theorem keeps (hphase : Phase x stopping timedOut c) (hkeeps : x.Keeps y) (hordered : y.Ordered)
    (happlied : y.applied = x.applied) : Phase y stopping timedOut c := by
  have hcommitted : x.applied < x.commit → y.applied < y.commit := fun h =>
    happlied ▸ h.trans_le hkeeps.commit_le
  cases hphase with
  | idle restored =>
      rw [← happlied]
      exact .idle restored
  | sent restored e hcommit hentry =>
      have hsame := hkeeps.entries (x.applied + 1)
        (Nat.lt_succ_of_le (happlied ▸ hordered.offset_le)) hcommit
      have hnext := hcommitted hcommit
      rw [← hsame] at hentry
      rw [← happlied] at hentry ⊢
      exact .sent restored e hnext hentry
  | processed restored hcommit =>
      have hnext := hcommitted hcommit
      rw [← happlied]
      exact .processed restored hnext
  | dropped restored i hcommit hi hstopping =>
      have hnext := hcommitted hcommit
      rw [← happlied] at hi ⊢
      exact .dropped restored i hnext hi hstopping
  | asked msg hfresh =>
      rw [← happlied] at hfresh ⊢
      exact .asked msg hfresh
  | answered msg verdict hfresh =>
      rw [← happlied] at hfresh ⊢
      exact .answered msg verdict hfresh
  | abandoned restored handed applied hhanded hle hstopping htimedOut =>
      rw [← happlied] at hhanded hle ⊢
      exact .abandoned restored handed applied hhanded hle hstopping htimedOut

/-- The processed entries are committed. -/
theorem reached_le (hphase : Phase x stopping timedOut c) (hordered : x.Ordered) :
    x.applied ≤ c.reached ∧ c.reached ≤ x.commit := by
  have happlied := hordered.applied_le
  cases hphase with
  | idle restored => exact ⟨le_rfl, happlied⟩
  | sent restored e hcommit hentry => exact ⟨le_rfl, happlied⟩
  | processed restored hcommit => exact ⟨Nat.le_succ _, hcommit⟩
  | dropped restored i hcommit hi hstopping =>
      dsimp only
      omega
  | asked msg => exact ⟨le_rfl, happlied⟩
  | answered msg verdict => exact ⟨le_rfl, happlied⟩
  | abandoned restored handed applied hhanded hle hstopping htimedOut => exact ⟨le_rfl, happlied⟩

/-- The store is never behind what it has processed. -/
theorem reached_le_applied (hphase : Phase x stopping timedOut c) : c.reached ≤ c.applied := by
  cases hphase with
  | answered msg verdict hfresh =>
      cases verdict with
      | true => exact hfresh.le
      | false => exact le_rfl
  | abandoned restored handed applied hhanded hle => exact hle
  | _ => exact le_rfl

theorem applied_eq (hphase : Phase x stopping timedOut c) (hidle : c.waiting = none)
    (hrunning : stopping = false) : c.applied = c.reached := by
  cases hphase with
  | asked => cases hidle
  | answered => cases hidle
  | abandoned restored handed applied hhanded hle hstopping =>
      rw [hrunning] at hstopping
      cases hstopping
  | _ => rfl

/-- What a node that does not wait knows of its store. -/
theorem settled (hphase : Phase x stopping timedOut c) (hidle : c.waiting = none)
    (htime : ¬ timedOut) :
    c.applied = c.reached ∧
      (∀ k, c.flight = some k → x.applied + 1 = k ∧ (c.applied + 1 = k ∨ c.applied = k)) ∧
      (c.flight = none → c.applied = x.applied) := by
  cases hphase with
  | idle restored => exact ⟨rfl, nofun, fun _ => rfl⟩
  | sent restored e hcommit hentry =>
      refine ⟨rfl, fun k hk => ?_, nofun⟩
      cases hk
      exact ⟨rfl, .inl rfl⟩
  | processed restored hcommit =>
      refine ⟨rfl, fun k hk => ?_, nofun⟩
      cases hk
      exact ⟨rfl, .inr rfl⟩
  | dropped restored i hcommit hi hstopping =>
      refine ⟨rfl, fun k hk => ?_, nofun⟩
      cases hk
      refine ⟨rfl, ?_⟩
      rcases hi with rfl | rfl
      · exact .inl rfl
      · exact .inr rfl
  | asked msg => cases hidle
  | answered msg verdict => cases hidle
  | abandoned restored handed applied hhanded hle hstopping htimedOut =>
      exact absurd htimedOut htime

end Phase

/-! ## The invariant -/

/-- Reasons that only a broken hand-off can give. -/
def disorder : StopReason → Bool
  | .applyGap | .acknowledgmentOutOfOrder | .acknowledgmentRejected => true
  | _ => false

variable {n m : Runtime D}

/-- Nothing of the exchange is touched, and the store is as it was. -/
structure Beside (n m : Runtime D) : Prop where
  exchange : m.exchange = n.exchange
  baseIndex : m.baseIndex = n.baseIndex
  baseStore : m.baseStore = n.baseStore
  processed : m.processed = n.processed
  store : m.store = n.store
  stopping : n.stopping = true → m.stopping = true
  stops : n.stops ⊆ m.stops
  order : ∀ reason ∈ m.stops, reason ∈ n.stops ∨ disorder reason = false

theorem Beside.refl (n : Runtime D) : Beside n n :=
  ⟨rfl, rfl, rfl, rfl, rfl, id, List.Subset.refl _, fun _ => .inl⟩

theorem Beside.trans {a b c : Runtime D} (hab : Beside a b) (hbc : Beside b c) : Beside a c where
  exchange := hbc.exchange.trans hab.exchange
  baseIndex := hbc.baseIndex.trans hab.baseIndex
  baseStore := hbc.baseStore.trans hab.baseStore
  processed := hbc.processed.trans hab.processed
  store := hbc.store.trans hab.store
  stopping h := hbc.stopping (hab.stopping h)
  stops := List.Subset.trans hab.stops hbc.stops
  order reason hreason := (hbc.order reason hreason).elim (hab.order reason) .inr

theorem Beside.of_stopOnce (n : Runtime D) : Beside n n.stopOnce := by
  obtain ⟨ended, hended, heq⟩ := n.stopOnce_frame
  have hnone : ended.filterMap acknowledges = [] := by
    rw [List.filterMap_eq_nil_iff]
    intro task htask
    rw [hended task htask]
    rfl
  rw [heq]
  refine ⟨?_, rfl, rfl, rfl, rfl, fun _ => rfl, List.Subset.refl _, fun _ => .inl⟩
  simp only [Runtime.exchange, List.filterMap_append, hnone, List.append_nil]

theorem Beside.of_requestStop (n : Runtime D) {reason : StopReason}
    (horder : disorder reason = false) : Beside n (n.requestStop reason) := by
  have hstop : Beside n { n with stops := n.stops ++ [reason] } := by
    refine ⟨rfl, rfl, rfl, rfl, rfl, id, List.subset_append_left _ _, fun other hother => ?_⟩
    rcases List.mem_append.mp hother with hold | hnew
    · exact .inl hold
    · exact .inr (List.mem_singleton.mp hnew ▸ horder)
  exact hstop.trans (.of_stopOnce _)

theorem Beside.of_answerWrite (n : Runtime D) (requestId : Nat) (answer : Reply) :
    Beside n (n.answerWrite requestId answer) := by
  obtain ⟨pending, replies, heq⟩ := n.answerWrite_frame requestId answer
  rw [heq]
  exact ⟨rfl, rfl, rfl, rfl, rfl, id, List.Subset.refl _, fun _ => .inl⟩

theorem Beside.of_answerRead (n : Runtime D) (requestId : Nat) (answer : PendingRead → Reply) :
    Beside n (n.answerRead requestId answer) := by
  obtain ⟨pending, replies, heq⟩ := n.answerRead_frame requestId answer
  rw [heq]
  exact ⟨rfl, rfl, rfl, rfl, rfl, id, List.Subset.refl _, fun _ => .inl⟩

theorem Beside.of_postRaft (n : Runtime D) {task : RaftTask D} (hother : acknowledges task = none) :
    Beside n (n.postRaft task) := by
  refine ⟨?_, rfl, rfl, rfl, rfl, id, List.Subset.refl _, fun _ => .inl⟩
  simp [Runtime.exchange, postRaft, hother]

theorem Beside.of_expireClientRequests (n : Runtime D) (writes reads : List Nat) :
    Beside n (n.expireClientRequests writes reads) := by
  have hfold : ∀ (f : Runtime D → Nat → Runtime D), (∀ n id, Beside n (f n id)) →
      ∀ (ids : List Nat) (n : Runtime D), Beside n (ids.foldl f n) := by
    intro f hf ids
    induction ids with
    | nil => exact fun n => .refl n
    | cons id ids ih => exact fun n => (hf n id).trans (ih (f n id))
  refine (hfold _ (fun n id => ?_) _ n).trans (hfold _ (fun n id => ?_) _ _)
  · exact .of_answerWrite n id _
  · exact (Beside.of_answerRead n id _).trans (.of_postRaft _ rfl)

theorem Beside.of_cancelRaftRead (n : Runtime D) (requestId : Nat) :
    Beside n (n.cancelRaftRead requestId) := by
  unfold cancelRaftRead
  split
  · exact ⟨rfl, rfl, rfl, rfl, rfl, id, List.Subset.refl _, fun _ => .inl⟩
  · dsimp only
    split <;> exact ⟨rfl, rfl, rfl, rfl, rfl, id, List.Subset.refl _, fun _ => .inl⟩

variable [Blob D] {codec : StoreCodec D}

structure Handoff (codec : StoreCodec D) (n : Runtime D) : Prop where
  phase : Phase n.raft.indices n.stopping (.restoreTimedOut ∈ n.stops) n.exchange
  indexed : ∀ k e, n.processed[k]? = some e → e.index = n.baseIndex + k + 1
  /-- Processed entries that the log still has are those of the log. -/
  retained : ∀ e ∈ n.processed, n.raft.logOffset < e.index →
    n.raft.indices.entryAt? e.index = some e
  /-- The store is what the entries make of the state it started from, unless it has been
  given a snapshot that the Raft loop does not know about yet. -/
  store : n.storeAppliedIndex = n.baseIndex + n.processed.length →
    KVStore.processAll codec n.baseStore n.processed = some n.store
  order : ∀ reason ∈ n.stops, disorder reason = false

theorem Handoff.beside (hhandoff : Handoff codec n) (hbeside : Beside n m)
    (hkeeps : n.raft.indices.Keeps m.raft.indices) (hordered : n.raft.indices.Ordered)
    (hnext : m.raft.indices.Ordered) (happlied : m.raft.lastApplied = n.raft.lastApplied) :
    Handoff codec m where
  phase := by
    rw [hbeside.exchange]
    exact (hhandoff.phase.keeps hkeeps hnext happlied).mono hbeside.stopping
      (fun h => hbeside.stops h)
  indexed := by
    rw [hbeside.processed, hbeside.baseIndex]
    exact hhandoff.indexed
  retained e he hoffset := by
    rw [hbeside.processed] at he
    obtain ⟨k, hk⟩ := List.mem_iff_getElem?.mp he
    have hindex := hhandoff.indexed k e hk
    have hlength := (List.getElem?_eq_some_iff.mp hk).1
    have hreached := (hhandoff.phase.reached_le hordered).2
    simp only [Runtime.exchange] at hreached
    rw [hkeeps.entries e.index hoffset (by omega)]
    exact hhandoff.retained e he (lt_of_le_of_lt hkeeps.offset_le hoffset)
  store h := by
    have happlied : m.storeAppliedIndex = n.storeAppliedIndex :=
      congrArg Exchange.applied hbeside.exchange
    rw [happlied, hbeside.baseIndex, hbeside.processed] at h
    rw [hbeside.baseStore, hbeside.processed, hbeside.store]
    exact hhandoff.store h
  order reason hreason := (hbeside.order reason hreason).elim (hhandoff.order reason) id

theorem Beside.of_callRaft (n : Runtime D) (turn : Turn) (verdict : Bool) (input : Input D) :
    Beside n (n.callRaft turn verdict input) :=
  ⟨rfl, rfl, rfl, rfl, rfl, id, List.Subset.refl _, fun _ => .inl⟩

/-- The only acknowledgment that can come is the one the loop waits for. -/
theorem Handoff.acknowledged {index : Nat} {rest : List (RaftTask D)}
    (hhandoff : Handoff codec n) (hqueue : n.raftTasks = .acknowledge index :: rest) :
    index = n.raft.lastApplied + 1 ∧ n.applyInFlight = some (n.raft.lastApplied + 1) ∧
      n.raft.lastApplied < n.raft.commitIndex ∧ n.storeTasks.filter handsOver = [] ∧
      rest.filterMap acknowledges = [] ∧ n.storeAppliedIndex = n.raft.lastApplied + 1 ∧
      n.baseIndex + n.processed.length = n.raft.lastApplied + 1 := by
  have hphase := hhandoff.phase
  generalize hexchange : n.exchange = exchange at hphase
  have hacks : exchange.acknowledged = index :: rest.filterMap acknowledges := by
    rw [← hexchange]
    simp [Runtime.exchange, hqueue, acknowledges]
  cases hphase with
  | processed restored hcommit =>
      simp only [Runtime.exchange, Exchange.mk.injEq] at hexchange
      obtain ⟨hflight, -, -, hhanded, -, happlied, hreached⟩ := hexchange
      obtain ⟨hindex, hnil⟩ := List.cons.inj hacks
      exact ⟨hindex.symm, hflight, hcommit, hhanded, hnil.symm, happlied, hreached⟩
  | idle => cases hacks
  | sent => cases hacks
  | dropped => cases hacks
  | asked => cases hacks
  | answered => cases hacks
  | abandoned => cases hacks

/-- The entry that the store is given is the one after the last applied. -/
theorem Handoff.handedEntry {e : Entry} {rest : List (StoreTask D)} (hhandoff : Handoff codec n)
    (hordered : n.raft.indices.Ordered) (hqueue : n.storeTasks = .apply e :: rest) :
    e.index = n.raft.lastApplied + 1 ∧
      n.raft.indices.entryAt? (n.raft.lastApplied + 1) = some e ∧
      n.applyInFlight = some (n.raft.lastApplied + 1) ∧ n.waiting = none ∧
      n.raft.lastApplied < n.raft.commitIndex ∧ rest.filter handsOver = [] ∧
      n.raftTasks.filterMap acknowledges = [] ∧ n.storeAppliedIndex = n.raft.lastApplied ∧
      n.baseIndex + n.processed.length = n.raft.lastApplied := by
  have hphase := hhandoff.phase
  generalize hexchange : n.exchange = exchange at hphase
  have hhanded : exchange.handed = .apply e :: rest.filter handsOver := by
    simp only [← hexchange, Runtime.exchange, hqueue]
    rfl
  cases hphase with
  | sent restored entry hcommit hentry =>
      simp only [Runtime.exchange, Exchange.mk.injEq, Option.map_eq_none_iff] at hexchange
      obtain ⟨hflight, hwaiting, -, -, hacknowledged, happlied, hreached⟩ := hexchange
      obtain ⟨htask, hnil⟩ := List.cons.inj hhanded
      obtain rfl : entry = e := by simpa using htask
      have hindex := hordered.indexed _ entry hentry
      have hoffset := hordered.offset_le
      refine ⟨?_, hentry, hflight, hwaiting, hcommit, hnil.symm, hacknowledged, happlied, hreached⟩
      simp only [Raft.indices] at hindex hoffset
      omega
  | idle => cases hhanded
  | processed => cases hhanded
  | dropped => cases hhanded
  | asked => cases hhanded
  | answered => cases hhanded
  | abandoned restored handed applied hrestores =>
      dsimp only at hhanded
      obtain ⟨index, state, htask, -⟩ := hrestores (.apply e) (hhanded ▸ List.mem_cons_self)
      cases htask

/-- The snapshot that the store is given is the one the Raft loop waits for, unless the loop
has given up. -/
theorem Handoff.handedSnapshot {index : Nat} {state : D} {rest : List (StoreTask D)}
    (hhandoff : Handoff codec n) (hqueue : n.storeTasks = .restore index state :: rest) :
    (∃ msg, n.waiting.map Prod.snd = some msg ∧ index = msg.snapshotIndex ∧
        state = msg.snapshotData ∧ n.storeAppliedIndex = n.baseIndex + n.processed.length) ∨
      n.waiting = none ∧ n.stopping = true := by
  have hphase := hhandoff.phase
  generalize hexchange : n.exchange = exchange at hphase
  have hhanded : exchange.handed = .restore index state :: rest.filter handsOver := by
    simp only [← hexchange, Runtime.exchange, hqueue]
    rfl
  simp only [Runtime.exchange] at hexchange
  cases hphase with
  | asked msg hfresh =>
      simp only [Exchange.mk.injEq] at hexchange
      obtain ⟨-, hwaiting, -, -, -, happlied, hreached⟩ := hexchange
      obtain ⟨rfl, rfl⟩ := StoreTask.restore.inj (List.cons.inj hhanded).1
      exact .inl ⟨msg, hwaiting, rfl, rfl, happlied.trans hreached.symm⟩
  | abandoned restored handed applied hrestores hle hstopping =>
      simp only [Exchange.mk.injEq, Option.map_eq_none_iff] at hexchange
      exact .inr ⟨hexchange.2.1, hstopping⟩
  | idle => cases hhanded
  | sent => cases hhanded
  | processed => cases hhanded
  | dropped => cases hhanded
  | answered => cases hhanded

/-- An accepted snapshot is the one the store has loaded, and nothing is on its way. -/
theorem Handoff.loadedSnapshot {turn : Turn} {msg : Message D} (hhandoff : Handoff codec n)
    (hwaiting : n.waiting = some (turn, msg)) (hverdict : n.restored = some true) :
    n.storeAppliedIndex = msg.snapshotIndex ∧
      n.baseIndex + n.processed.length = n.raft.lastApplied := by
  have hphase := hhandoff.phase
  have hasked : n.exchange.waiting = some msg := by simp [Runtime.exchange, hwaiting]
  have hanswer : n.exchange.restored = some true := hverdict
  have happlied : n.exchange.applied = n.storeAppliedIndex := rfl
  have hreached : n.exchange.reached = n.baseIndex + n.processed.length := rfl
  generalize n.exchange = exchange at *
  cases hphase with
  | answered asked verdict hfresh =>
      obtain rfl : asked = msg := by simpa using hasked
      obtain rfl : verdict = true := by simpa using hanswer
      exact ⟨happlied.symm, hreached.symm⟩
  | idle => cases hasked
  | sent => cases hasked
  | processed => cases hasked
  | dropped => cases hasked
  | asked => cases hanswer
  | abandoned => cases hasked

end RaftKv.Runtime
