import RaftKv.Raft.Role

/-! # The open read round

A read round is known by its context and the index it waits for. Only `read_index` opens
one; every other operation leaves the open round as it is or closes it.
-/

namespace RaftKv.Raft

variable {D : Type}

/-- The token every caller of `read_index` gets while the round is open. -/
def round (r : Raft D) : ReadIndexToken := ⟨r.pendingReadContext, r.pendingReadIndex⟩

/-- The round is the same, or it has been closed. -/
def KeepsRound (r next : Raft D) : Prop :=
  next.readIndexPending = r.readIndexPending ∧ next.round = r.round ∨
    next.readIndexPending = false

section Handlers

variable {r : Raft D} [Blob D]

theorem propose_round (data : Bytes) : (r.propose data).1.round = r.round :=
  congrArg (fun role : Role => (⟨role.pendingReadContext, role.pendingReadIndex⟩ : ReadIndexToken))
    (role_propose r data)

/-- Only `read_index` opens a round. -/
theorem step_keepsRound {input : Input D} (hread : input ≠ .readIndex) :
    KeepsRound r (r.step input) := by
  have hrole := r.step_role input
  generalize r.step input = next at hrole ⊢
  generalize hnext : next.role = role at hrole
  have hpending : next.readIndexPending = role.readIndexPending :=
    congrArg Role.readIndexPending hnext
  have hround : next.round = ⟨role.pendingReadContext, role.pendingReadIndex⟩ :=
    hnext ▸ rfl
  cases hrole with
  | follow | finish => exact .inr hpending
  | start hinput | give hinput => exact absurd hinput hread
  | _ => exact .inl ⟨hpending, hround⟩

/-- While storage works, only a node that does not lead refuses, and it changes nothing. -/
theorem propose_none {data : Bytes} (hnone : (r.propose data).2 = none)
    (hhealthy : (r.propose data).1.storageFailed = false) :
    r.state ≠ .leader ∧ (r.propose data).1 = r := by
  unfold propose at hnone hhealthy ⊢
  split at hnone
  next hrefused =>
    rw [if_pos hrefused] at hhealthy ⊢
    dsimp only at hhealthy
    exact ⟨hrefused.resolve_right (by simp [hhealthy]), rfl⟩
  next hleader =>
    rw [if_neg hleader] at hhealthy
    dsimp only at hnone hhealthy
    split at hnone
    next hlost =>
      rw [if_pos hlost] at hhealthy
      have hfailed : (r.appendOwn (r.nextEntry data)).1.storageFailed = true := by
        unfold appendOwn at hlost ⊢
        dsimp only at hlost ⊢
        split at hlost
        next hsync =>
          rw [if_pos hsync]
          exact syncWal_failed (by simpa using hsync)
        · cases hlost
      rw [hfailed] at hhealthy
      cases hhealthy
    · cases hnone

/-- A refused read changes nothing as long as storage works. -/
theorem readIndex_none (hread : r.readIndex.2 = none)
    (hhealthy : r.readIndex.1.storageFailed = false) : r.readIndex.1 = r := by
  unfold readIndex at hread hhealthy ⊢
  split at hread
  next hrefused => rw [if_pos hrefused]
  next hleader =>
    rw [if_neg hleader] at hhealthy
    split at hread
    · cases hread
    next hidle =>
      rw [if_neg hidle] at hhealthy
      dsimp only at hread hhealthy
      split at hread
      next hfresh =>
        rw [if_pos hfresh] at hhealthy
        split at hread
        next next hpropose =>
          -- the round's own entry was not stored, so storage has failed
          have hnext : next.storageFailed = false := by
            rw [hpropose] at hhealthy
            dsimp only at hhealthy
            unfold finishReadIndex at hhealthy
            split at hhealthy <;> exact hhealthy
          have hnone := @propose_none _ _ _ [] (congrArg Prod.snd hpropose)
            ((congrArg (fun p => p.1.storageFailed) hpropose).trans hnext)
          exact absurd hnone.1 (by simpa [startReadRound] using (not_or.mp hleader).1)
        · cases hread
      · cases hread

/-- Whoever gets a token has the round that is open now, and an open round is joined. -/
theorem readIndex_some {read : ReadIndexToken} (hread : r.readIndex.2 = some read) :
    r.readIndex.1.state = .leader ∧ r.readIndex.1.readIndexPending = true ∧
      r.readIndex.1.round = read ∧ (r.readIndexPending = true → r.round = read) := by
  unfold readIndex at hread ⊢
  split at hread
  · cases hread
  next hleader =>
    simp only [not_or, not_not] at hleader
    rw [if_neg (by simp [hleader])]
    split at hread
    next hopen =>
      rw [if_pos hopen]
      exact ⟨hleader.1, hopen, Option.some.inj hread, fun _ => Option.some.inj hread⟩
    next hidle =>
      rw [if_neg hidle]
      have hjoin : r.readIndexPending = true → r.round = read := fun hopen => absurd hopen hidle
      dsimp only at hread ⊢
      split at hread
      next hfresh =>
        rw [if_pos hfresh]
        split at hread
        · cases hread
        next next index hpropose =>
          have hrole := role_propose { r.startReadRound with
            pendingReadIndex := wrap64 (r.startReadRound.lastLogIndex + 1) } []
          rw [hpropose] at hrole
          exact ⟨(congrArg Role.state hrole).trans hleader.1, congrArg Role.readIndexPending hrole,
            Option.some.inj hread, hjoin⟩
      next hcommitted =>
        rw [if_neg hcommitted]
        exact ⟨hleader.1, rfl, Option.some.inj hread, hjoin⟩

end Handlers

end RaftKv.Raft
