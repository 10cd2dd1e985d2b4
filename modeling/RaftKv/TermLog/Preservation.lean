import RaftKv.TermLog.Invariant

/-! # Terms, votes and elections preserve the invariant

One section per kind of step that leaves the logs alone: the step only adds
recorded facts, and the invariant holds after it.
-/

namespace TermLog

variable {N E : Type} {p : Protocol N E} {s : Sys N E} {n : N}

namespace Protocol.Inv

/-- A longer log, or a log that stays as it was, still has what was acknowledged. -/
theorem left_grow (hinv : p.Inv s) {s' : Sys N E} (hgrow : Grows s s') {v : N} {t i : Nat}
    (hlog : s.log v <+: s'.log v) (hi : i ≤ s.ack v t) :
    (s'.termLog t).take i <+: s'.log v ∨ ∃ u, t < u ∧ s'.leader u ≠ none := by
  rcases hinv.left v t i hi with hkept | ⟨u, hu, hleader⟩
  · refine Or.inl ?_
    rw [hgrow.termLog_take (hi.trans (hinv.ackLength v t))]
    exact hkept.trans hlog
  · exact Or.inr ⟨u, hu, hgrow.leader_ne_none hleader⟩

theorem held_grow (hinv : p.Inv s) {s' : Sys N E} (hgrow : Grows s s') {v : N} {t u k i : Nat}
    (hu : u ≤ t) (hi : i ≤ s.ack v t) (hk : i ≤ k + 1) (hown : p.Own s u k) :
    p.Kept s' u k i (s.log v) :=
  (hinv.held v t u k i hu hi hk hown).grow p hgrow (hk.trans (hown.lt_length p))

theorem backed_grow (hinv : p.Inv s) {s' : Sys N E} (hgrow : Grows s s') {v c : N} {t u k : Nat}
    {l : List E} (hvote : s.vote v u = some c) (hbid : s.bid u c = some l) (ht : t < u)
    (hk : k < s.ack v t) (hown : p.Own s t k) : p.Kept s' t k (k + 1) l :=
  (hinv.backed v u c l hvote hbid t k ht hk hown).grow p hgrow (hown.lt_length p)

theorem complete_grow (hinv : p.Inv s) {s' : Sys N E} (hgrow : Grows s s') {t u k : Nat}
    (ht : t < u) (hlead : s.leader u ≠ none) (hown : p.Own s t k) :
    p.Kept s' t k (k + 1) (s.termLog u) :=
  (hinv.complete t u k ht hlead hown).grow p hgrow (hown.lt_length p)

/-! ## Hearing of a later term -/

section

variable [DecidableEq N]

theorem grows_setTerm {t : Nat} (hterm : s.term n ≤ t) : Grows s (s.setTerm n t) where
  term v := by
    by_cases hv : v = n
    · subst v; simpa [Sys.setTerm] using hterm
    · simp [Sys.setTerm, hv]
  vote _ _ _ h := h
  bid _ _ _ h := h
  leader _ _ h := h
  termLog _ := List.prefix_rfl
  ack _ _ := le_rfl
  frozen _ _ _ := rfl

theorem advance (hinv : p.Inv s) {t : Nat} (hterm : s.term n < t) : p.Inv (s.setTerm n t) := by
  have hgrow := grows_setTerm (s := s) hterm.le
  refine { hinv with
    voteTerm := fun v u c h => (hinv.voteTerm v u c h).trans (hgrow.term v)
    bidTerm := fun u v l h =>
      (hinv.bidTerm u v l h).imp_right (And.imp_left (·.trans (hgrow.term v)))
    logStamp := fun v e he => (hinv.logStamp v e he).trans (hgrow.term v)
    ownLog := ?ownLog
    ackTerm := fun v t h => (hinv.ackTerm v t h).trans (hgrow.term v)
    held := fun v t u k i hu hi hk hown => hinv.held_grow hgrow hu hi hk hown
    backed := fun v u c l hvote hbid w k hw hk hown => hinv.backed_grow hgrow hvote hbid hw hk hown
    complete := fun w u k hw hlead hown => hinv.complete_grow hgrow hw hlead hown }
  case ownLog =>
      intro u m hlead hm
      by_cases hmn : m = n
      · -- the new term has no leader that is still in an older one
        subst m
        obtain ⟨l, hl⟩ := hinv.leaderBid u n hlead
        have hle := (hinv.bidTerm u n l hl).2.1
        simp [Sys.setTerm] at hm
        omega
      · exact hinv.ownLog u m hlead (by simpa [Sys.setTerm, hmn] using hm)

/-! ## Votes -/

theorem grows_setVote {c : N}
    (hfree : s.vote n (s.term n) = none ∨ s.vote n (s.term n) = some c) :
    Grows s (s.setVote n (s.term n) c) where
  term _ := le_rfl
  vote v t m h := by
    by_cases hv : v = n ∧ t = s.term n
    · obtain ⟨rfl, rfl⟩ := hv
      rcases hfree with hnone | hsome
      · rw [hnone] at h; cases h
      · rw [hsome] at h; simpa [Sys.setVote] using h
    · simpa [Sys.setVote, hv] using h
  bid _ _ _ h := h
  leader _ _ h := h
  termLog _ := List.prefix_rfl
  ack _ _ := le_rfl
  frozen _ _ _ := rfl

theorem grant (hinv : p.Inv s) {c : N} {l : List E} (hbid : s.bid (s.term n) c = some l)
    (hfree : s.vote n (s.term n) = none ∨ s.vote n (s.term n) = some c)
    (hlog : p.UpToDate l (s.log n)) : p.Inv (s.setVote n (s.term n) c) := by
  have hgrow := grows_setVote hfree
  have hvotes : ∀ v t m, (s.setVote n (s.term n) c).vote v t = some m →
      v = n ∧ t = s.term n ∧ m = c ∨ s.vote v t = some m := by
    intro v t m h
    by_cases hv : v = n ∧ t = s.term n
    · simp [Sys.setVote, hv] at h
      exact .inl ⟨hv.1, hv.2, h.symm⟩
    · exact .inr (by simpa [Sys.setVote, hv] using h)
  refine { hinv with
    voteTerm := ?voteTerm
    voteBid := ?voteBid
    leaderVotes := ?leaderVotes
    backed := ?backed }
  case voteTerm =>
      intro v t m h
      rcases hvotes v t m h with ⟨rfl, rfl, rfl⟩ | h
      · exact le_rfl
      · exact hinv.voteTerm v t m h
  case voteBid =>
      intro v t m h
      rcases hvotes v t m h with ⟨rfl, rfl, rfl⟩ | h
      · exact ⟨l, hbid⟩
      · exact hinv.voteBid v t m h
  case leaderVotes =>
      intro t m hm
      obtain ⟨S, hS, hvotes⟩ := hinv.leaderVotes t m hm
      exact ⟨S, hS, fun v hv => hgrow.vote v t m (hvotes v hv)⟩
  case backed =>
      intro v u m l' hvote hbid' t k ht hk hown
      rcases hvotes v u m hvote with ⟨rfl, rfl, rfl⟩ | hvote
      · obtain rfl : l = l' := Option.some.inj (hbid.symm.trans hbid')
        have hkept := hinv.held v t t k (k + 1) le_rfl hk le_rfl hown
        exact hinv.kept_of_upToDate (hinv.bidRooted _ _ _ hbid) hown hkept hlog
      · exact hinv.backed v u m l' hvote hbid' t k ht hk hown

/-! ## Candidacies -/

/-- The state after `n` opens the next term and stands in it. -/
def standState (s : Sys N E) (n : N) : Sys N E :=
  ((s.setTerm n (s.term n + 1)).setVote n (s.term n + 1) n).setBid (s.term n + 1) n (s.log n)

theorem grows_stand (hinv : p.Inv s) : Grows s (standState s n) where
  term v := by
    by_cases hv : v = n
    · subst v; simp [standState, Sys.setTerm, Sys.setVote, Sys.setBid]
    · simp [standState, Sys.setTerm, Sys.setVote, Sys.setBid, hv]
  vote v t m h := by
    have hne : ¬ (v = n ∧ t = s.term n + 1) := by
      rintro ⟨rfl, rfl⟩
      have := hinv.voteTerm v _ m h
      omega
    simpa [standState, Sys.setTerm, Sys.setVote, Sys.setBid, hne] using h
  bid t v l h := by
    have hne : ¬ (t = s.term n + 1 ∧ v = n) := by
      rintro ⟨rfl, rfl⟩
      have := (hinv.bidTerm _ v l h).2.1
      omega
    simpa [standState, Sys.setTerm, Sys.setVote, Sys.setBid, hne] using h
  leader _ _ h := h
  termLog _ := List.prefix_rfl
  ack _ _ := le_rfl
  frozen _ _ _ := rfl

theorem standState_term_self : (standState s n).term n = s.term n + 1 := by
  simp [standState, Sys.setTerm, Sys.setVote, Sys.setBid]

theorem standState_term_other {v : N} (hv : v ≠ n) : (standState s n).term v = s.term v := by
  simp [standState, Sys.setTerm, Sys.setVote, Sys.setBid, hv]

/-- The one new vote is the candidate's for itself. -/
theorem vote_of_standState {v m : N} {t : Nat} (hvote : (standState s n).vote v t = some m) :
    v = n ∧ t = s.term n + 1 ∧ m = n ∨ s.vote v t = some m := by
  by_cases hv : v = n ∧ t = s.term n + 1
  · left
    simp [standState, Sys.setTerm, Sys.setVote, Sys.setBid, hv] at hvote
    exact ⟨hv.1, hv.2, hvote.symm⟩
  · right
    simpa [standState, Sys.setTerm, Sys.setVote, Sys.setBid, hv] using hvote

theorem bid_of_standState {v : N} {t : Nat} {l : List E}
    (hbid : (standState s n).bid t v = some l) :
    t = s.term n + 1 ∧ v = n ∧ l = s.log n ∨ s.bid t v = some l := by
  by_cases hv : t = s.term n + 1 ∧ v = n
  · left
    simp [standState, Sys.setTerm, Sys.setVote, Sys.setBid, hv] at hbid
    exact ⟨hv.1, hv.2, hbid.symm⟩
  · right
    simpa [standState, Sys.setTerm, Sys.setVote, Sys.setBid, hv] using hbid

theorem stand_backed (hinv : p.Inv s) {v m : N} {u t k : Nat} {l : List E}
    (hvote : (standState s n).vote v u = some m) (hbid : (standState s n).bid u m = some l)
    (ht : t < u) (hk : k < s.ack v t) (hown : p.Own s t k) :
    p.Kept (standState s n) t k (k + 1) l := by
  have hgrow := grows_stand (n := n) hinv
  -- a vote in the new term is the candidate's own, and it keeps its own log
  rcases vote_of_standState hvote with ⟨rfl, rfl, rfl⟩ | hvote
  · rcases bid_of_standState hbid with ⟨_, _, rfl⟩ | hbid
    · exact hinv.held_grow hgrow le_rfl hk le_rfl hown
    · have := (hinv.bidTerm _ m l hbid).2.1
      omega
  · obtain ⟨l', hl'⟩ := hinv.voteBid v u m hvote
    obtain rfl : l' = l := Option.some.inj ((hgrow.bid u m l' hl').symm.trans hbid)
    exact hinv.backed_grow hgrow hvote hl' ht hk hown

theorem stand (hinv : p.Inv s) : p.Inv (standState s n) := by
  have hgrow := grows_stand (n := n) hinv
  refine { hinv with
    voteTerm := ?voteTerm
    voteBid := ?voteBid
    bidTerm := ?bidTerm
    bidRooted := ?bidRooted
    leaderBid := ?leaderBid
    leaderVotes := ?leaderVotes
    bidPart := ?bidPart
    logStamp := fun v e he => (hinv.logStamp v e he).trans (hgrow.term v)
    ownLog := ?ownLog
    ackTerm := fun v t h => (hinv.ackTerm v t h).trans (hgrow.term v)
    held := fun v t u k i hu hi hk hown => hinv.held_grow hgrow hu hi hk hown
    backed := fun v u m l hvote hbid t k ht hk hown => hinv.stand_backed hvote hbid ht hk hown
    complete := fun t u k ht hlead hown => hinv.complete_grow hgrow ht hlead hown }
  case voteTerm =>
      intro v t m h
      rcases vote_of_standState h with ⟨rfl, rfl, rfl⟩ | h
      · exact standState_term_self.ge
      · exact (hinv.voteTerm v t m h).trans (hgrow.term v)
  case voteBid =>
      intro v t m h
      rcases vote_of_standState h with ⟨rfl, rfl, rfl⟩ | h
      · exact ⟨s.log m, by simp [standState, Sys.setTerm, Sys.setVote, Sys.setBid]⟩
      · obtain ⟨l, hl⟩ := hinv.voteBid v t m h
        exact ⟨l, hgrow.bid t m l hl⟩
  case bidTerm =>
      intro t v l h
      rcases bid_of_standState h with ⟨rfl, rfl, rfl⟩ | h
      · exact ⟨by omega, standState_term_self.ge,
          fun e he => Nat.lt_succ_of_le (hinv.logStamp v e he)⟩
      · exact (hinv.bidTerm t v l h).imp_right (And.imp_left (·.trans (hgrow.term v)))
  case bidRooted =>
      intro t v l h
      rcases bid_of_standState h with ⟨rfl, rfl, rfl⟩ | h
      · exact (hinv.logRooted v).grow p hgrow
      · exact (hinv.bidRooted t v l h).grow p hgrow
  case leaderBid =>
      intro t m hm
      obtain ⟨l, hl⟩ := hinv.leaderBid t m hm
      exact ⟨l, hgrow.bid t m l hl⟩
  case leaderVotes =>
      intro t m hm
      obtain ⟨S, hS, hvotes⟩ := hinv.leaderVotes t m hm
      exact ⟨S, hS, fun v hv => hgrow.vote v t m (hvotes v hv)⟩
  case bidPart =>
      intro t m l hlead hbid
      obtain ⟨l', hl'⟩ := hinv.leaderBid t m hlead
      obtain rfl : l' = l := Option.some.inj ((hgrow.bid t m l' hl').symm.trans hbid)
      exact hinv.bidPart t m l' hlead hl'
  case ownLog =>
      intro t m hlead hm
      by_cases hmn : m = n
      · subst m
        obtain ⟨l, hl⟩ := hinv.leaderBid t n hlead
        have hle := (hinv.bidTerm t n l hl).2.1
        rw [standState_term_self] at hm
        omega
      · exact hinv.ownLog t m hlead ((standState_term_other hmn).symm.trans hm)

end

/-! ## Elections -/

theorem grows_setLeader (hinv : p.Inv s) {l : List E} {t : Nat} (hnone : s.leader t = none) :
    Grows s (s.setLeader t n l) where
  term _ := le_rfl
  vote _ _ _ h := h
  bid _ _ _ h := h
  leader u v h := by
    have hne : u ≠ t := by
      rintro rfl
      rw [hnone] at h
      cases h
    simpa [Sys.setLeader, hne] using h
  termLog u := by
    by_cases hu : u = t
    · subst u
      simp [Sys.setLeader, hinv.noLeader t hnone]
    · simp [Sys.setLeader, hu]
  ack _ _ := le_rfl
  frozen _ _ _ := rfl

/-- The state after `n` is elected in its term with its own log. -/
def electState (s : Sys N E) (n : N) : Sys N E := s.setLeader (s.term n) n (s.log n)

section Elect

theorem grows_elect (hinv : p.Inv s) (hnone : s.leader (s.term n) = none) :
    Grows s (electState s n) :=
  grows_setLeader hinv hnone

theorem elect_termLog : (electState s n).termLog (s.term n) = s.log n := by
  simp [electState, Sys.setLeader]

theorem elect_termLog_of_ne {t : Nat} (ht : t ≠ s.term n) :
    (electState s n).termLog t = s.termLog t := by
  simp [electState, Sys.setLeader, ht]

theorem elect_leader {t : Nat} {m : N} (hm : (electState s n).leader t = some m) :
    t = s.term n ∧ m = n ∨ t ≠ s.term n ∧ s.leader t = some m := by
  by_cases ht : t = s.term n
  · subst t
    exact .inl ⟨rfl, by simpa [electState, Sys.setLeader, eq_comm] using hm⟩
  · exact .inr ⟨ht, by simpa [electState, Sys.setLeader, ht] using hm⟩

/-- The new leader's log has no entry of its own term yet. -/
theorem elect_own (hinv : p.Inv s) (hbid : s.bid (s.term n) n = some (s.log n)) {t k : Nat}
    (hown : p.Own (electState s n) t k) : p.Own s t k := by
  obtain ⟨e, he, hstamp⟩ := hown
  by_cases ht : t = s.term n
  · rw [ht, elect_termLog] at he
    have := (hinv.bidTerm _ _ _ hbid).2.2 e (List.mem_of_getElem? he)
    omega
  · exact ⟨e, by rwa [elect_termLog_of_ne ht] at he, hstamp⟩

theorem elect_bidPart (hinv : p.Inv s) (hbid : s.bid (s.term n) n = some (s.log n)) {t : Nat}
    {m : N} {l : List E} (hm : (electState s n).leader t = some m) (hl : s.bid t m = some l) :
    l <+: (electState s n).termLog t ∧
      ∀ k e, l.length ≤ k → ((electState s n).termLog t)[k]? = some e → p.stamp e = t := by
  rcases elect_leader hm with ⟨rfl, rfl⟩ | ⟨hne, hm⟩
  · obtain rfl : s.log m = l := Option.some.inj (hbid.symm.trans hl)
    rw [elect_termLog]
    refine ⟨List.prefix_rfl, fun k e hk he => ?_⟩
    have := (List.getElem?_eq_some_iff.mp he).1
    omega
  · rw [elect_termLog_of_ne hne]
    exact hinv.bidPart t m l hm hl

theorem elect_noLeader (hinv : p.Inv s) {t : Nat} (ht : (electState s n).leader t = none) :
    (electState s n).termLog t = [] := by
  have hne : t ≠ s.term n := by
    rintro rfl
    simp [electState, Sys.setLeader] at ht
  rw [elect_termLog_of_ne hne]
  exact hinv.noLeader t (by simpa [electState, Sys.setLeader, hne] using ht)

theorem elect_termLogs (hinv : p.Inv s) (hnone : s.leader (s.term n) = none)
    (hbid : s.bid (s.term n) n = some (s.log n)) (t : Nat) :
    (∀ e ∈ (electState s n).termLog t, p.stamp e ≤ t) ∧
      p.Rooted (electState s n) ((electState s n).termLog t) := by
  by_cases ht : t = s.term n
  · subst t
    rw [elect_termLog]
    exact ⟨fun e he => ((hinv.bidTerm _ _ _ hbid).2.2 e he).le,
      (hinv.logRooted n).grow p (hinv.grows_elect hnone)⟩
  · rw [elect_termLog_of_ne ht]
    exact ⟨hinv.termLogStamp t, (hinv.termLogRooted t).grow p (hinv.grows_elect hnone)⟩

theorem elect_ownLog (hinv : p.Inv s) {t : Nat} {m : N}
    (hlead : (electState s n).leader t = some m) (hm : s.term m = t) :
    s.log m = (electState s n).termLog t := by
  rcases elect_leader hlead with ⟨rfl, rfl⟩ | ⟨hne, hlead⟩
  · exact elect_termLog.symm
  · rw [elect_termLog_of_ne hne]
    exact hinv.ownLog t m hlead hm

variable {S : Set N}

theorem elect_complete (hinv : p.Inv s) (hnone : s.leader (s.term n) = none)
    (hbid : s.bid (s.term n) n = some (s.log n)) (hquorum : p.quorum S)
    (hvotes : ∀ v ∈ S, s.vote v (s.term n) = some n) {t u k : Nat} (ht : t < u)
    (hlead : (electState s n).leader u ≠ none) (hown : p.Own (electState s n) t k) :
    p.Kept (electState s n) t k (k + 1) ((electState s n).termLog u) := by
  have hgrow := hinv.grows_elect hnone
  replace hown := hinv.elect_own hbid hown
  obtain ⟨m, hm⟩ := Option.ne_none_iff_exists'.mp hlead
  rcases elect_leader hm with ⟨rfl, rfl⟩ | ⟨hne, hm⟩
  · rw [elect_termLog]
    exact (hinv.kept_of_votes hquorum hvotes hbid ht hown).grow p hgrow (hown.lt_length p)
  · rw [elect_termLog_of_ne hne]
    exact hinv.complete_grow hgrow ht (by simp [hm]) hown

theorem elect (hinv : p.Inv s) (hnone : s.leader (s.term n) = none)
    (hbid : s.bid (s.term n) n = some (s.log n)) (hquorum : p.quorum S)
    (hvotes : ∀ v ∈ S, s.vote v (s.term n) = some n) : p.Inv (electState s n) := by
  have hgrow := hinv.grows_elect hnone
  refine { hinv with
    bidRooted := fun t v l h => (hinv.bidRooted t v l h).grow p hgrow
    leaderBid := ?leaderBid
    leaderVotes := ?leaderVotes
    bidPart := fun t m l => hinv.elect_bidPart hbid
    noLeader := fun t => hinv.elect_noLeader
    termLogStamp := fun t => (hinv.elect_termLogs hnone hbid t).1
    termLogRooted := fun t => (hinv.elect_termLogs hnone hbid t).2
    logRooted := fun v => (hinv.logRooted v).grow p hgrow
    ownLog := fun t m => hinv.elect_ownLog
    ackLength := fun v t => (hinv.ackLength v t).trans (hgrow.termLog t).length_le
    left := fun v t i hi => hinv.left_grow hgrow List.prefix_rfl hi
    held := fun v t u k i hu hi hk hown =>
      hinv.held_grow hgrow hu hi hk (hinv.elect_own hbid hown)
    backed := fun v u c l hvote hbid' t k ht hk hown =>
      hinv.backed_grow hgrow hvote hbid' ht hk (hinv.elect_own hbid hown)
    complete := fun t u k => hinv.elect_complete hnone hbid hquorum hvotes }
  case leaderBid =>
      intro t m hm
      rcases elect_leader hm with ⟨rfl, rfl⟩ | ⟨-, hm⟩
      · exact ⟨_, hbid⟩
      · exact hinv.leaderBid t m hm
  case leaderVotes =>
      intro t m hm
      rcases elect_leader hm with ⟨rfl, rfl⟩ | ⟨-, hm⟩
      · exact ⟨S, hquorum, hvotes⟩
      · exact hinv.leaderVotes t m hm

end Elect

end Protocol.Inv

end TermLog
