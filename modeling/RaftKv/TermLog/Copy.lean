import Mathlib.Data.List.Infix
import RaftKv.TermLog.Replication

/-! # Copies of a leader's log

A node that copies the first entries of its leader's log keeps its own log if that has
all of them, and otherwise ends up with the copy. Copies of one log therefore absorb each
other, in whatever order they are made; and what a node has acknowledged in its current
term it still has.
-/

namespace TermLog

variable {N E : Type}

section Overwrite

variable [DecidableEq E] {log short long pre l : List E}

/-- The log of a node that copies `l`. -/
def overwrite (log l : List E) : List E := if l <+: log then log else l

theorem overwrite_of_isPrefix (h : l <+: log) : overwrite log l = log := if_pos h

theorem overwrite_of_not_isPrefix (h : ¬ l <+: log) : overwrite log l = l := if_neg h

theorem isPrefix_overwrite (log l : List E) : l <+: overwrite log l := by
  unfold overwrite
  split
  next h => exact h
  · exact List.prefix_rfl

/-- A copy leaves what the node already has of the same log. -/
theorem isPrefix_overwrite_of_isPrefix (hpre : pre <+: log) (hlong : pre <+: long)
    (hl : l <+: long) : pre <+: overwrite log l := by
  unfold overwrite
  split
  · exact hpre
  next hnot =>
    rcases List.prefix_or_prefix_of_prefix hlong hl with h | h
    · exact h
    · exact absurd (h.trans hpre) hnot

/-- A longer copy makes up for a shorter one. -/
theorem overwrite_overwrite_of_isPrefix (hshort : short <+: long) :
    overwrite (overwrite log short) long = overwrite log long := by
  by_cases h : short <+: log
  · rw [overwrite_of_isPrefix h]
  · have hlong : ¬ long <+: log := fun hlog => h (hshort.trans hlog)
    rw [overwrite_of_not_isPrefix h, overwrite_of_not_isPrefix hlong]
    by_cases heq : long <+: short
    · rw [overwrite_of_isPrefix heq, hshort.eq_of_length_le heq.length_le]
    · rw [overwrite_of_not_isPrefix heq]

/-- A shorter copy changes nothing after a longer one. -/
theorem overwrite_overwrite_self (hshort : short <+: long) :
    overwrite (overwrite log long) short = overwrite log long :=
  overwrite_of_isPrefix (hshort.trans (isPrefix_overwrite log long))

end Overwrite

/-- Every node has what it acknowledged in its current term. -/
def Holding (s : Sys N E) : Prop :=
  ∀ v i, i ≤ s.ack v (s.term v) → (s.termLog (s.term v)).take i <+: s.log v

theorem holding_start : Holding (Sys.start : Sys N E) := by
  intro v i _
  simp [Sys.start]

namespace Protocol

variable {p : Protocol N E} {s s' : Sys N E} {n : N}

/-- Nothing has been acknowledged in a term that a node has not reached. -/
theorem Inv.ack_eq_zero (hinv : p.Inv s) {v : N} {t : Nat} (hlater : s.term v < t) :
    s.ack v t = 0 := by
  by_contra hne
  have := hinv.ackTerm v t (Nat.pos_of_ne_zero hne)
  omega

variable [DecidableEq N]

theorem Step.holding (hinv : p.Inv s) (hholding : Holding s) (hstep : p.Step n s s') :
    Holding s' := by
  intro v i hi
  have hgrow := hstep.grows hinv
  by_cases hv : v = n
  · subst hv
    have hzero : i = 0 → (s'.termLog (s'.term v)).take i <+: s'.log v := by
      rintro rfl
      exact List.nil_prefix
    cases hstep with
    | advance t hterm =>
        refine hzero (Nat.le_zero.mp (hi.trans_eq ?_))
        simpa [Sys.setTerm] using hinv.ack_eq_zero hterm
    | stand =>
        refine hzero (Nat.le_zero.mp (hi.trans_eq ?_))
        simpa [Sys.setTerm, Sys.setVote, Sys.setBid] using hinv.ack_eq_zero (Nat.lt_succ_self _)
    | grant c l hbid hfree hlog => exact hholding v i hi
    | elect S hnone =>
        have hempty := hinv.noLeader _ hnone
        have hack := hinv.ackLength v (s.term v)
        rw [hempty] at hack
        exact hzero (Nat.le_zero.mp (hi.trans hack))
    | extend e hlead hstamp =>
        have htake : (_ : List E) = (s.termLog (s.term v)).take i :=
          hgrow.termLog_take (hi.trans (hinv.ackLength _ _))
        refine (htake ▸ hholding v i hi).trans ?_
        simp [Sys.setTermLog, Sys.setLog]
    | accept m k hlead hother hnew =>
        rw [Sys.log_setLog]
        show (s.termLog (s.term v)).take i <+: _
        exact Inv.prefix_of_accept (hholding v i hi) (List.take_prefix _ _) hnew
    | adopt h hlead hcommitted hkeep =>
        rw [Sys.log_setLog]
        show (s.termLog (s.term v)).take i <+: h
        cases hleader : s.leader (s.term v) with
        | none => simp [hinv.noLeader _ hleader]
        | some m =>
            refine Inv.prefix_of_adopt (hholding v i hi) hkeep ?_
            exact List.prefix_or_prefix_of_prefix (List.take_prefix _ _)
              (hinv.committed_isPrefix le_rfl (by simp [hleader]) hcommitted)
    | acknowledge k hlead hlen hholds =>
        have hmax : i ≤ max (s.ack v (s.term v)) k := by simpa [Sys.setAck] using hi
        by_cases hold : i ≤ s.ack v (s.term v)
        · exact hholding v i hold
        · exact (List.take_prefix_take_left (by omega)).trans hholds
  · have hothers := hstep.sameOthers
    rw [hothers.term v hv, hothers.ack v hv] at hi
    rw [hothers.term v hv, hothers.log v hv, hgrow.termLog_take (hi.trans (hinv.ackLength _ _))]
    exact hholding v i hi

theorem Steps.holding (hinv : p.Inv s) (hholding : Holding s) (hsteps : p.Steps n s s') :
    Holding s' := by
  induction hsteps with
  | refl => exact hholding
  | tail hsteps hstep ih => exact hstep.holding (Steps.evolves hinv hsteps).inv ih

end Protocol

end TermLog
