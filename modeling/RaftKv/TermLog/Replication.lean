import Mathlib.Data.Nat.Find
import RaftKv.TermLog.Preservation

/-! # Every step preserves the invariant

The steps that change logs or acknowledge them, and the summary over all steps:
finitely many steps of one node keep the invariant, only add recorded facts and
leave the other nodes as they were.
-/

namespace TermLog

variable {N E : Type} {p : Protocol N E} {s : Sys N E} {n : N}

namespace Protocol.Inv

/-! ## The leader's appends -/

theorem extend_stamp {e : E} (hinv : p.Inv s) (hstamp : p.stamp e = s.term n) {a : E}
    (ha : a ∈ s.termLog (s.term n) ++ [e]) :
    p.stamp a ≤ s.term n := by
  rcases List.mem_append.mp ha with hold | hnew
  · exact hinv.termLogStamp _ a hold
  · exact (List.mem_singleton.mp hnew) ▸ hstamp.le

section

variable [DecidableEq N]

/-- The state after the leader `n` of its term appends `e`. -/
def extendState (s : Sys N E) (n : N) (e : E) : Sys N E :=
  (s.setTermLog (s.term n) (s.termLog (s.term n) ++ [e])).setLog n (s.log n ++ [e])

theorem grows_extend {e : E} : Grows s (extendState s n e) where
  term _ := le_rfl
  vote _ _ _ h := h
  bid _ _ _ h := h
  leader _ _ h := h
  termLog t := by
    by_cases ht : t = s.term n
    · subst t
      simp [extendState, Sys.setTermLog, Sys.setLog]
    · simp [extendState, Sys.setTermLog, Sys.setLog, ht]
  ack _ _ := le_rfl
  frozen _ _ _ := rfl

section Extend

variable {e : E}

theorem extend_termLog :
    (extendState s n e).termLog (s.term n) = s.termLog (s.term n) ++ [e] := by
  simp [extendState, Sys.setTermLog, Sys.setLog]

theorem extend_termLog_of_ne {t : Nat} (ht : t ≠ s.term n) :
    (extendState s n e).termLog t = s.termLog t := by
  simp [extendState, Sys.setTermLog, Sys.setLog, ht]

theorem extend_log_of_ne {v : N} (hv : v ≠ n) : (extendState s n e).log v = s.log v := by
  simp [extendState, Sys.setTermLog, Sys.setLog, hv]

theorem log_isPrefix_extend (v : N) : s.log v <+: (extendState s n e).log v := by
  by_cases hv : v = n
  · subst v
    simp [extendState, Sys.setTermLog, Sys.setLog]
  · rw [extend_log_of_ne hv]

theorem extend_log (hinv : p.Inv s) (hlead : s.leader (s.term n) = some n) :
    (extendState s n e).log n = s.termLog (s.term n) ++ [e] := by
  simp [extendState, Sys.setLog, hinv.ownLog _ _ hlead rfl]

theorem extend_rooted (hinv : p.Inv s) (hlead : s.leader (s.term n) = some n)
    (hstamp : p.stamp e = s.term n) :
    p.Rooted (extendState s n e) (s.termLog (s.term n) ++ [e]) := by
  intro k a ha
  rcases Nat.lt_or_ge k (s.termLog (s.term n)).length with hk | hk
  · have hold := ((hinv.termLogRooted (s.term n)).grow p (grows_extend (n := n) (e := e))) k a
      (by rwa [List.getElem?_append_left hk] at ha)
    rwa [List.take_append_of_le_length hk]
  · obtain rfl : k = (s.termLog (s.term n)).length := by
      have := (List.getElem?_eq_some_iff.mp ha).1
      simp at this
      omega
    obtain rfl : e = a := by simpa using ha
    rw [hstamp, extend_termLog]
    exact ⟨by simp [extendState, Sys.setTermLog, Sys.setLog, hlead], List.take_prefix _ _⟩

/-- Nobody who voted in a later term has acknowledged a position that is not there yet. -/
theorem extend_blocked (hinv : p.Inv s) {t u k : Nat} (htu : t < u) (hleader : s.leader u ≠ none)
    (hk : (s.termLog t).length ≤ k) : p.Blocked (extendState s n e) t k := by
  obtain ⟨m, hm⟩ := Option.ne_none_iff_exists'.mp hleader
  obtain ⟨S, hS, hvotes⟩ := hinv.leaderVotes u m hm
  refine ⟨S, hS, fun v hv => ⟨?_, ?_⟩⟩
  · exact htu.trans_le (hinv.voteTerm v u m (hvotes v hv))
  · exact (hinv.ackLength v t).trans hk

theorem extend_bidPart (hinv : p.Inv s) (hstamp : p.stamp e = s.term n) {t : Nat} {m : N}
    {l : List E} (hm : s.leader t = some m)
    (hbid : s.bid t m = some l) : l <+: (extendState s n e).termLog t ∧
      ∀ k a, l.length ≤ k → ((extendState s n e).termLog t)[k]? = some a → p.stamp a = t := by
  have hgrow := grows_extend (s := s) (n := n) (e := e)
  obtain ⟨hpre, hown⟩ := hinv.bidPart t m l hm hbid
  refine ⟨hpre.trans (hgrow.termLog t), fun k a hk ha => ?_⟩
  rcases Nat.lt_or_ge k (s.termLog t).length with hold | hnew
  · exact hown k a hk (by rwa [hgrow.termLog_getElem? hold] at ha)
  · have ht : t = s.term n := by
      by_contra ht
      rw [extend_termLog_of_ne ht] at ha
      have := (List.getElem?_eq_some_iff.mp ha).1
      omega
    subst ht
    rw [extend_termLog, List.getElem?_append_right hnew, List.getElem?_singleton] at ha
    split at ha
    · exact (Option.some.inj ha) ▸ hstamp
    · cases ha

theorem extend_held (hinv : p.Inv s) {v : N} {t u k i : Nat} (hu : u ≤ t) (hi : i ≤ s.ack v t)
    (hk : i ≤ k + 1) (hown : p.Own (extendState s n e) u k) :
    p.Kept (extendState s n e) u k i ((extendState s n e).log v) := by
  have hgrow := grows_extend (s := s) (n := n) (e := e)
  rcases Nat.lt_or_ge k (s.termLog u).length with hold | hnew
  · exact ((hinv.held v t u k i hu hi hk (hown.of_grow p hgrow hold)).of_isPrefix p
      (log_isPrefix_extend v)).grow p hgrow (hk.trans hold)
  -- the position is new: whoever acknowledged in a later term, or dropped the entries, has
  -- seen a later leader, whose voters have left the term without it
  rcases Nat.eq_zero_or_pos i with rfl | hpos
  · exact Or.inr List.nil_prefix
  have hlen : i ≤ (s.termLog t).length := hi.trans (hinv.ackLength v t)
  have hleader : s.leader t ≠ none := by
    intro hnone
    rw [hinv.noLeader t hnone, List.length_nil] at hlen
    omega
  rcases hu.lt_or_eq with hlt | rfl
  · exact Or.inl (hinv.extend_blocked hlt hleader hnew)
  · rcases hinv.left v u i hi with hkept | ⟨w, hw, hlater⟩
    · refine Or.inr ?_
      rw [hgrow.termLog_take hlen]
      exact hkept.trans (log_isPrefix_extend v)
    · exact Or.inl (hinv.extend_blocked hw hlater hnew)

theorem extend_complete (hinv : p.Inv s) {t u k : Nat} (ht : t < u) (hleader : s.leader u ≠ none)
    (hown : p.Own (extendState s n e) t k) :
    p.Kept (extendState s n e) t k (k + 1) ((extendState s n e).termLog u) := by
  have hgrow := grows_extend (s := s) (n := n) (e := e)
  rcases Nat.lt_or_ge k (s.termLog t).length with hlen | hlen
  · exact ((hinv.complete t u k ht hleader (hown.of_grow p hgrow hlen)).of_isPrefix p
      (hgrow.termLog u)).grow p hgrow hlen
  · exact Or.inl (hinv.extend_blocked ht hleader hlen)

theorem extend_ownLog (hinv : p.Inv s) (hlead : s.leader (s.term n) = some n) {t : Nat} {m : N}
    (hm : s.leader t = some m)
    (hterm : s.term m = t) : (extendState s n e).log m = (extendState s n e).termLog t := by
  by_cases hmn : m = n
  · subst m
    subst hterm
    rw [hinv.extend_log hlead, extend_termLog]
  · have hne : t ≠ s.term n := by
      rintro rfl
      exact hmn (Option.some.inj (hm.symm.trans hlead))
    rw [extend_log_of_ne hmn, extend_termLog_of_ne hne]
    exact hinv.ownLog t m hm hterm

theorem extend_logs (hinv : p.Inv s) (hlead : s.leader (s.term n) = some n)
    (hstamp : p.stamp e = s.term n) (v : N) :
    (∀ a ∈ (extendState s n e).log v, p.stamp a ≤ s.term v) ∧
      p.Rooted (extendState s n e) ((extendState s n e).log v) := by
  by_cases hv : v = n
  · subst v
    rw [hinv.extend_log hlead]
    exact ⟨fun a ha => hinv.extend_stamp hstamp ha, hinv.extend_rooted hlead hstamp⟩
  · rw [extend_log_of_ne hv]
    exact ⟨hinv.logStamp v, (hinv.logRooted v).grow p grows_extend⟩

theorem extend_termLogs (hinv : p.Inv s) (hlead : s.leader (s.term n) = some n)
    (hstamp : p.stamp e = s.term n) (t : Nat) :
    (∀ a ∈ (extendState s n e).termLog t, p.stamp a ≤ t) ∧
      p.Rooted (extendState s n e) ((extendState s n e).termLog t) := by
  by_cases ht : t = s.term n
  · subst t
    rw [extend_termLog]
    exact ⟨fun a ha => hinv.extend_stamp hstamp ha, hinv.extend_rooted hlead hstamp⟩
  · rw [extend_termLog_of_ne ht]
    exact ⟨hinv.termLogStamp t, (hinv.termLogRooted t).grow p grows_extend⟩

theorem extend_noLeader (hinv : p.Inv s) (hlead : s.leader (s.term n) = some n) {t : Nat}
    (ht : s.leader t = none) :
    (extendState s n e).termLog t = [] := by
  have hne : t ≠ s.term n := by
    rintro rfl
    exact absurd ht (by simp [hlead])
  rw [extend_termLog_of_ne hne]
  exact hinv.noLeader t ht

theorem extend (hinv : p.Inv s) (hlead : s.leader (s.term n) = some n)
    (hstamp : p.stamp e = s.term n) : p.Inv (extendState s n e) :=
  { hinv with
    bidRooted := fun t v l h => (hinv.bidRooted t v l h).grow p grows_extend
    bidPart := fun _ _ _ => hinv.extend_bidPart hstamp
    noLeader := fun _ => hinv.extend_noLeader hlead
    termLogStamp := fun t => (hinv.extend_termLogs hlead hstamp t).1
    termLogRooted := fun t => (hinv.extend_termLogs hlead hstamp t).2
    logStamp := fun v => (hinv.extend_logs hlead hstamp v).1
    logRooted := fun v => (hinv.extend_logs hlead hstamp v).2
    ownLog := fun _ _ => hinv.extend_ownLog hlead
    ackLength := fun v t => (hinv.ackLength v t).trans (grows_extend.termLog t).length_le
    left := fun v _ _ hi => hinv.left_grow grows_extend (log_isPrefix_extend v) hi
    held := fun _ _ _ _ _ => hinv.extend_held
    backed := fun v _ _ _ hvote hbid t _ ht hk hown =>
      hinv.backed_grow grows_extend hvote hbid ht hk
        (hown.of_grow p grows_extend (hk.trans_le (hinv.ackLength v t)))
    complete := fun _ _ _ => hinv.extend_complete }

end Extend

end

/-! ## Replacing a follower's log -/

/-- Copying a position it does not hold cannot cost a node what it acknowledged: if the
leader has the acknowledged entries too, they reach no further than the copy. -/
theorem prefix_of_accept {t k i : Nat} (hlog : (s.termLog t).take i <+: s.log n)
    (hterm : (s.termLog t).take i <+: s.termLog (s.term n))
    (hnew : ¬ (s.termLog (s.term n)).take (k + 1) <+: s.log n) :
    (s.termLog t).take i <+: (s.termLog (s.term n)).take (k + 1) := by
  refine List.prefix_take_iff.mpr ⟨hterm, ?_⟩
  by_contra hlong
  apply hnew
  have hcommon : (s.termLog (s.term n)).take (k + 1) <+: (s.termLog t).take i :=
    List.prefix_of_prefix_length_le (List.take_prefix _ _) hterm (by
      simp only [List.length_take] at hlong ⊢
      omega)
  exact hcommon.trans hlog

/-- A log that is not cut by its replacement keeps whatever is comparable with it. -/
theorem prefix_of_adopt {h part : List E} (hlog : part <+: s.log n)
    (hkeep : ¬ (h <+: s.log n ∧ h.length < (s.log n).length))
    (hcomparable : part <+: h ∨ h <+: part) : part <+: h := by
  rcases hcomparable with hpart | hpart
  · exact hpart
  · have hlt : ¬ h.length < part.length := fun hlt =>
      hkeep ⟨hpart.trans hlog, hlt.trans_le hlog.length_le⟩
    rw [hpart.eq_of_length_le (not_lt.mp hlt)]

variable [DecidableEq N]

theorem grows_setLog {l : List E} : Grows s (s.setLog n l) where
  term _ := le_rfl
  vote _ _ _ h := h
  bid _ _ _ h := h
  leader _ _ h := h
  termLog _ := List.prefix_rfl
  ack _ _ := le_rfl
  frozen _ _ _ := rfl

/-- A node that does not lead its term may replace its log by any rooted log that
keeps what it acknowledged. -/
theorem setLog (hinv : p.Inv s) {l : List E} (hlead : s.leader (s.term n) ≠ some n)
    (hroot : p.Rooted s l) (hstamp : ∀ e ∈ l, p.stamp e ≤ s.term n)
    (hleft : ∀ t i, i ≤ s.ack n t →
      (s.termLog t).take i <+: l ∨ ∃ u, t < u ∧ s.leader u ≠ none)
    (hheld : ∀ t u k i, u ≤ t → i ≤ s.ack n t → i ≤ k + 1 → p.Own s u k → p.Kept s u k i l) :
    p.Inv (s.setLog n l) := by
  have hself : (s.setLog n l).log n = l := by simp [Sys.setLog]
  have hother : ∀ v, v ≠ n → (s.setLog n l).log v = s.log v := fun v hv => by
    simp [Sys.setLog, hv]
  refine { hinv with
    logStamp := ?logStamp
    logRooted := ?logRooted
    ownLog := ?ownLog
    left := ?left
    held := ?held }
  case logStamp =>
      intro v e he
      by_cases hv : v = n
      · subst v
        exact hstamp e (hself ▸ he)
      · exact hinv.logStamp v e (hother v hv ▸ he)
  case logRooted =>
      intro v
      by_cases hv : v = n
      · subst v
        exact hself.symm ▸ hroot
      · rw [hother v hv]
        exact hinv.logRooted v
  case ownLog =>
      intro t m hm hterm
      by_cases hmn : m = n
      · subst m
        obtain rfl : s.term n = t := hterm
        exact absurd hm hlead
      · rw [hother m hmn]
        exact hinv.ownLog t m hm hterm
  case left =>
      intro v t i hi
      by_cases hv : v = n
      · subst v
        rw [hself]
        exact hleft t i hi
      · rw [hother v hv]
        exact hinv.left v t i hi
  case held =>
      intro v t u k i hu hi hk hown
      by_cases hv : v = n
      · subst v
        rw [hself]
        exact hheld t u k i hu hi hk hown
      · rw [hother v hv]
        exact hinv.held v t u k i hu hi hk hown

theorem accept (hinv : p.Inv s) {m : N} {k : Nat} (hlead : s.leader (s.term n) = some m)
    (hother : m ≠ n) (hnew : ¬ (s.termLog (s.term n)).take (k + 1) <+: s.log n) :
    p.Inv (s.setLog n ((s.termLog (s.term n)).take (k + 1))) := by
  apply hinv.setLog
  · rw [hlead]
    exact fun h => hother (Option.some.inj h)
  · exact (hinv.termLogRooted _).of_isPrefix p (List.take_prefix _ _)
  · exact fun e he => hinv.termLogStamp _ e (List.mem_of_mem_take he)
  · intro t i hi
    rcases hinv.left n t i hi with hlog | hlater
    · rcases Nat.eq_zero_or_pos i with rfl | hpos
      · exact Or.inl List.nil_prefix
      · rcases (hinv.ackTerm n t (by omega)).lt_or_eq with ht | rfl
        · exact Or.inr ⟨s.term n, ht, by simp [hlead]⟩
        · exact Or.inl (prefix_of_accept hlog (List.take_prefix _ _) hnew)
    · exact Or.inr hlater
  · intro t u j i hu hi hj hown
    rcases hinv.held n t u j i hu hi hj hown with hblocked | hlog
    · exact Or.inl hblocked
    rcases Nat.eq_zero_or_pos i with rfl | hpos
    · exact Or.inr List.nil_prefix
    rcases (hu.trans (hinv.ackTerm n t (by omega))).lt_or_eq with ht | rfl
    · rcases hinv.complete u _ j ht (by simp [hlead]) hown with hblocked | hterm
      · exact Or.inl hblocked
      · have hpart : (s.termLog u).take i <+: s.termLog (s.term n) :=
          (List.take_prefix_take_left hj).trans hterm
        exact Or.inr (prefix_of_accept hlog hpart hnew)
    · exact Or.inr (prefix_of_accept hlog (List.take_prefix _ _) hnew)

/-- Replacing a log by a committed one keeps every acknowledged position, as long as
it does not cut a log that already extends it. -/
theorem adopt (hinv : p.Inv s) {h : List E} (hlead : s.leader (s.term n) ≠ some n)
    (hcommitted : p.Committed s (s.term n) h)
    (hkeep : ¬ (h <+: s.log n ∧ h.length < (s.log n).length)) : p.Inv (s.setLog n h) := by
  have hroot : p.Rooted s h ∧ ∀ e ∈ h, p.stamp e ≤ s.term n := by
    rcases hcommitted with rfl | ⟨u, k, hu, _, _, hpre⟩
    · exact ⟨p.rooted_nil, by simp⟩
    · exact ⟨(hinv.termLogRooted u).of_isPrefix p hpre,
        fun e he => (hinv.termLogStamp u e (hpre.subset he)).trans hu⟩
  -- unless a later leader chose it, the committed log is a prefix of the acknowledged leader's
  have hsource : ∀ t, s.leader t ≠ none →
      h <+: s.termLog t ∨ ∃ u k, t < u ∧ p.Chosen s u k ∧ h <+: s.termLog u := by
    intro t hleader
    rcases hcommitted with rfl | ⟨u, k, _, hchosen, hlen, hpre⟩
    · exact Or.inl List.nil_prefix
    · rcases Nat.lt_or_ge t u with htu | htu
      · exact Or.inr ⟨u, k, htu, hchosen, hpre⟩
      · exact Or.inl (hinv.committed_isPrefix htu hleader
          (Or.inr ⟨u, k, le_rfl, hchosen, hlen, hpre⟩))
  refine hinv.setLog hlead hroot.1 hroot.2 (fun t i hi => ?_) (fun t w j i hw hi hj hown => ?_)
  · rcases hinv.left n t i hi with hlog | hlater
    · by_cases hleader : s.leader t = none
      · rw [hinv.noLeader t hleader, List.take_nil]
        exact Or.inl List.nil_prefix
      · rcases hsource t hleader with hterm | ⟨u, k, hu, hchosen, _⟩
        · exact Or.inl (prefix_of_adopt hlog hkeep
            (List.prefix_or_prefix_of_prefix (List.take_prefix _ _) hterm))
        · exact Or.inr ⟨u, hu, hinv.own_leader hchosen.1⟩
    · exact Or.inr hlater
  · rcases hinv.held n t w j i hw hi hj hown with hblocked | hlog
    · exact Or.inl hblocked
    rcases hsource w (hinv.own_leader hown) with hterm | ⟨u, k, hu, hchosen, hpre⟩
    · exact Or.inr (prefix_of_adopt hlog hkeep
        (List.prefix_or_prefix_of_prefix (List.take_prefix _ _) hterm))
    · rcases hinv.complete w u j hu (hinv.own_leader hchosen.1) hown with hblocked | hterm
      · exact Or.inl hblocked
      · have hpart : (s.termLog w).take i <+: s.termLog u :=
          (List.take_prefix_take_left hj).trans hterm
        exact Or.inr (prefix_of_adopt hlog hkeep
          (List.prefix_or_prefix_of_prefix hpart hpre))

/-! ## Acknowledgements -/

theorem grows_setAck {k : Nat} : Grows s (s.setAck n (s.term n) k) where
  term _ := le_rfl
  vote _ _ _ h := h
  bid _ _ _ h := h
  leader _ _ h := h
  termLog _ := List.prefix_rfl
  ack v t := by
    by_cases hv : v = n ∧ t = s.term n
    · obtain ⟨rfl, rfl⟩ := hv
      simp [Sys.setAck]
    · simp [Sys.setAck, hv]
  frozen v t ht := by
    have hne : ¬ (v = n ∧ t = s.term n) := by
      rintro ⟨rfl, rfl⟩
      omega
    simp [Sys.setAck, hne]

theorem acknowledge (hinv : p.Inv s) {k : Nat} (hlead : s.leader (s.term n) ≠ none)
    (hlen : k ≤ (s.termLog (s.term n)).length)
    (hholds : (s.termLog (s.term n)).take k <+: s.log n) :
    p.Inv (s.setAck n (s.term n) k) := by
  have hgrow := grows_setAck (s := s) (n := n) (k := k)
  have hackCases : ∀ v t j, j ≤ (s.setAck n (s.term n) k).ack v t →
      v = n ∧ t = s.term n ∧ j ≤ k ∨ j ≤ s.ack v t := by
    intro v t j hj
    by_cases hv : v = n ∧ t = s.term n
    · obtain ⟨rfl, rfl⟩ := hv
      simp only [Sys.setAck, and_self, if_true] at hj
      rcases Nat.lt_or_ge k j with hjk | hjk
      · exact Or.inr (by omega)
      · exact Or.inl ⟨rfl, rfl, hjk⟩
    · exact Or.inr (by simpa [Sys.setAck, hv] using hj)
  refine { hinv with
    ackLength := ?ackLength
    ackTerm := ?ackTerm
    left := ?left
    held := ?held
    backed := ?backed
    complete := fun t u j ht hlead hown => hinv.complete_grow hgrow ht hlead hown }
  case ackLength =>
      intro v t
      by_cases hv : v = n ∧ t = s.term n
      · obtain ⟨rfl, rfl⟩ := hv
        simpa [Sys.setAck, hlen] using hinv.ackLength v (s.term v)
      · simpa [Sys.setAck, hv] using hinv.ackLength v t
  case ackTerm =>
      intro v t h
      rcases hackCases v t 1 h with ⟨rfl, rfl, _⟩ | h
      · exact le_rfl
      · exact hinv.ackTerm v t h
  case left =>
      intro v t i hi
      rcases hackCases v t i hi with ⟨rfl, rfl, hle⟩ | hi
      · exact Or.inl ((List.take_prefix_take_left hle).trans hholds)
      · exact hinv.left v t i hi
  case held =>
      intro v t u j i hu hi hj hown
      rcases hackCases v t i hi with ⟨rfl, rfl, hle⟩ | hi
      · have hlog := (List.take_prefix_take_left hle).trans hholds
        rcases hu.lt_or_eq with hlt | rfl
        · rcases hinv.complete u _ j hlt hlead hown with hblocked | hterm
          · exact Or.inl (hblocked.grow p hgrow)
          · have hpart : (s.termLog u).take i <+: (s.termLog (s.term v)).take i :=
              List.prefix_take_iff.mpr ⟨(List.take_prefix_take_left hj).trans hterm,
                List.length_take_le _ _⟩
            exact Or.inr (hpart.trans hlog)
        · exact Or.inr hlog
      · exact hinv.held_grow hgrow hu hi hj hown
  case backed =>
      intro v u c l hvote hbid t j ht hj hown
      rcases hackCases v t (j + 1) hj with ⟨rfl, rfl, _⟩ | hj
      · have := hinv.voteTerm v u c hvote
        omega
      · exact hinv.backed_grow hgrow hvote hbid ht hj hown

end Protocol.Inv

/-! ## Runs -/

namespace Protocol

/-- Steps of one node leave the other nodes' terms, logs, votes and
acknowledgements alone and make no other node a leader. -/
structure SameOthers (n : N) (s s' : Sys N E) : Prop where
  term : ∀ v, v ≠ n → s'.term v = s.term v
  log : ∀ v, v ≠ n → s'.log v = s.log v
  vote : ∀ v, v ≠ n → ∀ t, s'.vote v t = s.vote v t
  ack : ∀ v, v ≠ n → ∀ t, s'.ack v t = s.ack v t
  leader : ∀ v, v ≠ n → ∀ t, s'.leader t = some v → s.leader t = some v

theorem SameOthers.trans {a b c : Sys N E} (hab : SameOthers n a b) (hbc : SameOthers n b c) :
    SameOthers n a c where
  term v hv := (hbc.term v hv).trans (hab.term v hv)
  log v hv := (hbc.log v hv).trans (hab.log v hv)
  vote v hv t := (hbc.vote v hv t).trans (hab.vote v hv t)
  ack v hv t := (hbc.ack v hv t).trans (hab.ack v hv t)
  leader v hv t h := hab.leader v hv t (hbc.leader v hv t h)

/-- What finitely many steps of one node do to a state satisfying the invariant. -/
structure Evolves (p : Protocol N E) (n : N) (s s' : Sys N E) : Prop where
  inv : p.Inv s'
  grows : Grows s s'
  others : SameOthers n s s'

theorem Evolves.refl (hinv : p.Inv s) : p.Evolves n s s :=
  ⟨hinv, Grows.refl s, ⟨fun _ _ => rfl, fun _ _ => rfl, fun _ _ _ => rfl, fun _ _ _ => rfl,
    fun _ _ _ h => h⟩⟩

theorem Evolves.trans {a b c : Sys N E} (hab : p.Evolves n a b) (hbc : p.Evolves n b c) :
    p.Evolves n a c :=
  ⟨hbc.inv, hab.grows.trans hbc.grows, hab.others.trans hbc.others⟩

variable [DecidableEq N]

theorem Step.grows {s' : Sys N E} (hinv : p.Inv s) (hstep : p.Step n s s') : Grows s s' := by
  cases hstep with
  | advance t hterm => exact Inv.grows_setTerm hterm.le
  | stand => exact Inv.grows_stand hinv
  | grant c l hbid hfree hlog => exact Inv.grows_setVote hfree
  | elect S hnone hbid hquorum hvotes => exact Inv.grows_setLeader hinv hnone
  | extend e hlead hstamp => exact Inv.grows_extend
  | accept m k hlead hother hnew => exact Inv.grows_setLog
  | adopt h hlead hcommitted hkeep => exact Inv.grows_setLog
  | acknowledge k hlead hlen hholds => exact Inv.grows_setAck

theorem Step.inv {s' : Sys N E} (hinv : p.Inv s) (hstep : p.Step n s s') : p.Inv s' := by
  cases hstep with
  | advance t hterm => exact hinv.advance hterm
  | stand => exact hinv.stand
  | grant c l hbid hfree hlog => exact hinv.grant hbid hfree hlog
  | elect S hnone hbid hquorum hvotes => exact hinv.elect hnone hbid hquorum hvotes
  | extend e hlead hstamp => exact hinv.extend hlead hstamp
  | accept m k hlead hother hnew => exact hinv.accept hlead hother hnew
  | adopt h hlead hcommitted hkeep => exact hinv.adopt hlead hcommitted hkeep
  | acknowledge k hlead hlen hholds => exact hinv.acknowledge hlead hlen hholds

theorem Step.sameOthers {s' : Sys N E} (hstep : p.Step n s s') : SameOthers n s s' := by
  cases hstep with
  | elect S =>
      refine ⟨fun _ _ => rfl, fun _ _ => rfl, fun _ _ _ => rfl, fun _ _ _ => rfl, ?_⟩
      intro v hv t hlead
      by_cases ht : t = s.term n
      · subst ht
        exact absurd (by simpa [Sys.setLeader] using hlead) hv.symm
      · simpa [Sys.setLeader, ht] using hlead
  | _ =>
      constructor <;> intro v hv <;>
        simp [Sys.setTerm, Sys.setVote, Sys.setBid, Sys.setTermLog, Sys.setLog, Sys.setAck, hv]

theorem Step.evolves {s' : Sys N E} (hinv : p.Inv s) (hstep : p.Step n s s') :
    p.Evolves n s s' :=
  ⟨hstep.inv hinv, hstep.grows hinv, hstep.sameOthers⟩

theorem Steps.evolves {s' : Sys N E} (hinv : p.Inv s) (hsteps : p.Steps n s s') :
    p.Evolves n s s' := by
  induction hsteps with
  | refl => exact Evolves.refl hinv
  | tail _ hstep ih => exact ih.trans (hstep.evolves ih.inv)

/-- `n` has acknowledged all it holds of its leader's log. -/
def FullyAcked (s : Sys N E) (n : N) : Prop :=
  s.leader (s.term n) ≠ none → ∀ k ≤ (s.termLog (s.term n)).length,
    (s.termLog (s.term n)).take k <+: s.log n → k ≤ s.ack n (s.term n)

/-- A node can always catch up with its acknowledgements. -/
theorem exists_fullyAcked (p : Protocol N E) (s : Sys N E) (n : N) :
    ∃ k, p.Steps n s (s.setAck n (s.term n) k) ∧ FullyAcked (s.setAck n (s.term n) k) n := by
  classical
  by_cases hlead : s.leader (s.term n) = none
  · refine ⟨0, ?_, fun h => absurd hlead h⟩
    have hsame : s.setAck n (s.term n) 0 = s := by
      have hack : (s.setAck n (s.term n) 0).ack = s.ack := by
        funext v t
        simp only [Sys.setAck, Nat.max_zero]
        split
        next h => rw [h.1, h.2]
        · rfl
      exact congrArg (fun ack => { s with ack := ack }) hack
    rw [hsame]
    exact .refl
  · let k := Nat.findGreatest (fun k => (s.termLog (s.term n)).take k <+: s.log n)
      (s.termLog (s.term n)).length
    have hholds : (s.termLog (s.term n)).take k <+: s.log n :=
      Nat.findGreatest_spec (P := fun k => (s.termLog (s.term n)).take k <+: s.log n)
        (Nat.zero_le _) (by simp)
    refine ⟨k, .single (.acknowledge s k hlead (Nat.findGreatest_le _) hholds),
      fun _ j hj hpre => ?_⟩
    have hjk : j ≤ k := Nat.le_findGreatest hj hpre
    simp only [Sys.setAck, and_self, if_true]
    omega

end Protocol

end TermLog
