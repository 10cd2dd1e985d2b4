import RaftKv.TermLog.Growth

/-! # The invariant of term-ordered replication

An entry acknowledged by a quorum in its own term reaches every later leader.
The argument is inductive in the steps, not in the terms: whatever position a
node acknowledged in a term is still in its log, in every candidate log it voted
for afterwards and in every later leader's log, unless a quorum has already left
that term without acknowledging it.
-/

namespace TermLog

variable {N E : Type} (p : Protocol N E)

namespace Protocol

/-- Facts that hold in every state the protocol reaches. -/
structure Inv (s : Sys N E) : Prop where
  voteTerm : ∀ v t c, s.vote v t = some c → t ≤ s.term v
  voteBid : ∀ v t c, s.vote v t = some c → ∃ l, s.bid t c = some l
  bidTerm : ∀ t v l, s.bid t v = some l → 0 < t ∧ t ≤ s.term v ∧ ∀ e ∈ l, p.stamp e < t
  bidRooted : ∀ t v l, s.bid t v = some l → p.Rooted s l
  leaderBid : ∀ t n, s.leader t = some n → ∃ l, s.bid t n = some l
  leaderVotes : ∀ t n, s.leader t = some n → ∃ S, p.quorum S ∧ ∀ v ∈ S, s.vote v t = some n
  bidPart : ∀ t n l, s.leader t = some n → s.bid t n = some l →
    l <+: s.termLog t ∧ ∀ k e, l.length ≤ k → (s.termLog t)[k]? = some e → p.stamp e = t
  noLeader : ∀ t, s.leader t = none → s.termLog t = []
  termLogStamp : ∀ t, ∀ e ∈ s.termLog t, p.stamp e ≤ t
  termLogRooted : ∀ t, p.Rooted s (s.termLog t)
  logStamp : ∀ v, ∀ e ∈ s.log v, p.stamp e ≤ s.term v
  logRooted : ∀ v, p.Rooted s (s.log v)
  ownLog : ∀ t n, s.leader t = some n → s.term n = t → s.log n = s.termLog t
  ackLength : ∀ v t, s.ack v t ≤ (s.termLog t).length
  ackTerm : ∀ v t, 0 < s.ack v t → t ≤ s.term v
  left : ∀ v t i, i ≤ s.ack v t →
    (s.termLog t).take i <+: s.log v ∨ ∃ u, t < u ∧ s.leader u ≠ none
  held : ∀ v t u k i, u ≤ t → i ≤ s.ack v t → i ≤ k + 1 → p.Own s u k →
    p.Kept s u k i (s.log v)
  backed : ∀ v u c l, s.vote v u = some c → s.bid u c = some l →
    ∀ t k, t < u → k < s.ack v t → p.Own s t k → p.Kept s t k (k + 1) l
  complete : ∀ t u k, t < u → s.leader u ≠ none → p.Own s t k →
    p.Kept s t k (k + 1) (s.termLog u)

theorem inv_start : p.Inv (Sys.start : Sys N E) where
  voteTerm := by simp [Sys.start]
  voteBid := by simp [Sys.start]
  bidTerm := by simp [Sys.start]
  bidRooted := by simp [Sys.start]
  leaderBid := by simp [Sys.start]
  leaderVotes := by simp [Sys.start]
  bidPart := by simp [Sys.start]
  noLeader := by simp [Sys.start]
  termLogStamp := by simp [Sys.start]
  termLogRooted _ := p.rooted_nil
  logStamp := by simp [Sys.start]
  logRooted _ := p.rooted_nil
  ownLog := by simp [Sys.start]
  ackLength := by simp [Sys.start]
  ackTerm := by simp [Sys.start]
  left := by simp [Sys.start]
  held v t u k i _ hi _ _ := by
    obtain rfl : i = 0 := Nat.le_zero.mp hi
    exact Or.inr List.nil_prefix
  backed := by simp [Sys.start]
  complete := by simp [Sys.start]

variable {p} {s : Sys N E}

namespace Inv

/-! ## Rooted logs -/

/-- Stamps do not decrease along a rooted log. -/
theorem stamp_le (hinv : p.Inv s) {l : List E} (hl : p.Rooted s l) {i j : Nat} {a b : E}
    (hij : i ≤ j) (ha : l[i]? = some a) (hb : l[j]? = some b) : p.stamp a ≤ p.stamp b := by
  obtain ⟨_, hpre⟩ := hl j b hb
  have hmem : a ∈ l.take (j + 1) := by
    refine List.mem_iff_getElem?.mpr ⟨i, ?_⟩
    rw [List.getElem?_take_of_lt (by omega), ha]
  exact hinv.termLogStamp _ a (hpre.subset hmem)

/-- A nonempty rooted log is a prefix of the log of its last entry's leader. -/
theorem prefix_lastStamp {l : List E} (hl : p.Rooted s l) (hne : l ≠ []) :
    s.leader (p.lastStamp l) ≠ none ∧ l <+: s.termLog (p.lastStamp l) := by
  have hlast := List.getLast?_eq_some_getLast hne
  have hget : l[l.length - 1]? = some (l.getLast hne) := by
    rw [← List.getLast?_eq_getElem?, hlast]
  have hpos : l.length - 1 + 1 = l.length := by
    have := List.length_pos_iff.mpr hne
    omega
  have hroot := hl _ _ hget
  rw [hpos, List.take_length] at hroot
  simpa [Protocol.lastStamp, hlast] using hroot

/-- Rooted logs of one length that end in the same term are equal. -/
theorem eq_of_lastStamp {l l' : List E} (hl : p.Rooted s l) (hl' : p.Rooted s l')
    (hlen : l.length = l'.length) (hstamp : p.lastStamp l = p.lastStamp l') : l = l' := by
  rcases List.eq_nil_or_concat l with rfl | ⟨front, last, rfl⟩
  · exact (List.eq_nil_of_length_eq_zero hlen.symm).symm
  · have hne : l' ≠ [] := List.ne_nil_of_length_pos (by rw [← hlen]; simp)
    obtain ⟨_, hpre⟩ := prefix_lastStamp hl (by simp)
    obtain ⟨_, hpre'⟩ := prefix_lastStamp hl' hne
    rw [← hstamp] at hpre'
    exact (List.prefix_of_prefix_length_le hpre hpre' hlen.le).eq_of_length hlen

/-- Rooted logs with an entry of one term in the same place agree up to there. -/
theorem take_eq_of_stamp {l l' : List E} (hl : p.Rooted s l) (hl' : p.Rooted s l') {k : Nat}
    {e e' : E} (he : l[k]? = some e) (he' : l'[k]? = some e') (hstamp : p.stamp e = p.stamp e') :
    l.take (k + 1) = l'.take (k + 1) := by
  have hk := (List.getElem?_eq_some_iff.mp he).1
  have hk' := (List.getElem?_eq_some_iff.mp he').1
  refine eq_of_lastStamp (hl.of_isPrefix p (List.take_prefix _ _))
    (hl'.of_isPrefix p (List.take_prefix _ _)) ?_ ?_
  · rw [List.length_take, List.length_take]
    omega
  · rw [p.lastStamp_take_succ he, p.lastStamp_take_succ he', hstamp]

theorem rooted_of_committed (hinv : p.Inv s) {t : Nat} {l : List E} (hl : p.Committed s t l) :
    p.Rooted s l := by
  rcases hl with rfl | ⟨u, _, _, _, _, hpre⟩
  · exact p.rooted_nil
  · exact (hinv.termLogRooted u).of_isPrefix p hpre

theorem stamp_le_lastStamp (hinv : p.Inv s) {l : List E} (hl : p.Rooted s l) {k : Nat} {e : E}
    (he : l[k]? = some e) : p.stamp e ≤ p.lastStamp l := by
  have hk := (List.getElem?_eq_some_iff.mp he).1
  have hne : l ≠ [] := List.ne_nil_of_length_pos (by omega)
  have hlast := List.getLast?_eq_some_getLast hne
  have hget : l[l.length - 1]? = some (l.getLast hne) := by
    rw [← List.getLast?_eq_getElem?, hlast]
  have := hinv.stamp_le hl (by omega : k ≤ l.length - 1) he hget
  simpa [Protocol.lastStamp, hlast] using this

theorem own_leader (hinv : p.Inv s) {t k : Nat} (hown : p.Own s t k) : s.leader t ≠ none := by
  intro hnone
  have := hown.lt_length p
  simp [hinv.noLeader t hnone] at this

/-! ## Chosen positions -/

/-- A quorum that left a term meets every quorum that acknowledged in it. -/
theorem not_blocked_of_chosen {t k : Nat} (hchosen : p.Chosen s t k) : ¬ p.Blocked s t k := by
  rintro ⟨A, hA, hleft⟩
  obtain ⟨_, B, hB, hack⟩ := hchosen
  obtain ⟨v, hvA, hvB⟩ := p.meet A B hA hB
  have := (hleft v hvA).2
  have := hack v hvB
  omega

/-- Chosen entries that a node acknowledged, in their term or later, stay in its log. -/
theorem chosen_held (hinv : p.Inv s) {v : N} {t u k i : Nat} (hchosen : p.Chosen s u k)
    (hu : u ≤ t) (hack : i ≤ s.ack v t) (hi : i ≤ k + 1) : (s.termLog u).take i <+: s.log v :=
  (hinv.held v t u k i hu hack hi hchosen.1).resolve_left (not_blocked_of_chosen hchosen)

/-- Every later leader has what an earlier term chose. -/
theorem chosen_isPrefix (hinv : p.Inv s) {t u k : Nat} (htu : t < u) (hlead : s.leader u ≠ none)
    (hchosen : p.Chosen s t k) : (s.termLog t).take (k + 1) <+: s.termLog u :=
  (hinv.complete t u k htu hlead hchosen.1).resolve_left (not_blocked_of_chosen hchosen)

/-- It even stood with it: what the leader appended itself carries its own term. -/
theorem chosen_bid (hinv : p.Inv s) {t u k : Nat} {n : N} {l : List E} (htu : t < u)
    (hlead : s.leader u = some n) (hbid : s.bid u n = some l) (hchosen : p.Chosen s t k) :
    (s.termLog t).take (k + 1) <+: l := by
  obtain ⟨hpre, hstamp⟩ := hinv.bidPart u n l hlead hbid
  have hlater := hinv.chosen_isPrefix htu (by simp [hlead]) hchosen
  obtain ⟨e, he, hown⟩ := hchosen.1
  have hk := (List.getElem?_eq_some_iff.mp he).1
  refine List.prefix_of_prefix_length_le hlater hpre ?_
  by_contra hlong
  simp only [List.length_take] at hlong
  have hget : (s.termLog u)[k]? = some e := by
    obtain ⟨rest, hrest⟩ := hlater
    rw [← hrest, List.getElem?_append_left (by simp; omega), List.getElem?_take_of_lt (by omega),
      he]
  have := hstamp k e (by omega) hget
  omega

/-- A committed log is a prefix of every leader's log from that term on. -/
theorem committed_isPrefix (hinv : p.Inv s) {t u : Nat} (htu : t ≤ u) (hlead : s.leader u ≠ none)
    {l : List E} (hl : p.Committed s t l) : l <+: s.termLog u := by
  rcases hl with rfl | ⟨w, k, hw, hchosen, hlen, hpre⟩
  · exact List.nil_prefix
  · rcases Nat.lt_or_ge w u with hwu | hwu
    · have hchosenPrefix := hinv.chosen_isPrefix hwu hlead hchosen
      have htake : l <+: (s.termLog w).take (k + 1) := List.prefix_take_iff.mpr ⟨hpre, hlen⟩
      exact htake.trans hchosenPrefix
    · obtain rfl : w = u := by omega
      exact hpre

/-- Two committed logs are prefixes of one another. -/
theorem committed_comparable (hinv : p.Inv s) {t u : Nat} {l l' : List E}
    (hl : p.Committed s t l) (hl' : p.Committed s u l') : l <+: l' ∨ l' <+: l := by
  rcases hl with rfl | ⟨w, k, _, hchosen, hlen, hpre⟩
  · exact Or.inl List.nil_prefix
  rcases hl' with rfl | ⟨w', k', _, hchosen', hlen', hpre'⟩
  · exact Or.inr List.nil_prefix
  have hcom : ∀ a b, a ≤ b → s.leader b ≠ none → ∀ j (x : List E), p.Chosen s a j →
      x.length ≤ j + 1 → x <+: s.termLog a → x <+: s.termLog b := by
    intro a b hab hb j x hj hx hxa
    exact hinv.committed_isPrefix hab hb (Or.inr ⟨a, j, le_rfl, hj, hx, hxa⟩)
  rcases Nat.le_total w w' with hle | hle
  · have := hcom w w' hle (hinv.own_leader hchosen'.1) k l hchosen hlen hpre
    exact List.prefix_or_prefix_of_prefix this hpre'
  · have := hcom w' w hle (hinv.own_leader hchosen.1) k' l' hchosen' hlen' hpre'
    exact List.prefix_or_prefix_of_prefix hpre this

/-- The voting order carries kept positions from the voter's log to the
candidate's: the candidate's last entry belongs either to the same leader, whose
log then has both, or to a later one, which kept the position itself. -/
theorem kept_of_upToDate (hinv : p.Inv s) {v : N} {l : List E} {t k : Nat}
    (hl : p.Rooted s l) (hown : p.Own s t k) (hkept : p.Kept s t k (k + 1) (s.log v))
    (hlog : p.UpToDate l (s.log v)) : p.Kept s t k (k + 1) l := by
  rcases hkept with hblocked | hpre
  · exact Or.inl hblocked
  have hklen := hown.lt_length p
  obtain ⟨e, he, hstamp⟩ := hown
  have hev : (s.log v)[k]? = some e := by
    obtain ⟨rest, hrest⟩ := hpre
    rw [← hrest, List.getElem?_append_left (by simp; omega),
      List.getElem?_take_of_lt (by omega), he]
  have hvlen := (List.getElem?_eq_some_iff.mp hev).1
  have hvne : s.log v ≠ [] := List.ne_nil_of_length_pos (by omega)
  have ht : t ≤ p.lastStamp (s.log v) := hstamp ▸ hinv.stamp_le_lastStamp (hinv.logRooted v) hev
  obtain ⟨_, hvroot⟩ := prefix_lastStamp (hinv.logRooted v) hvne
  rcases hlog with hlt | ⟨heq, hlen⟩
  · have hne : l ≠ [] := by
      rintro rfl
      simp [Protocol.lastStamp] at hlt
    obtain ⟨hlead, hroot⟩ := prefix_lastStamp hl hne
    rcases hinv.complete t _ k (ht.trans_lt hlt) hlead ⟨e, he, hstamp⟩ with hblocked | hkeep
    · exact Or.inl hblocked
    · -- the last entry of `l` is stamped later than anything in the kept prefix
      refine Or.inr (List.prefix_of_prefix_length_le hkeep hroot ?_)
      simp only [List.length_take]
      by_contra hshort
      have hmem : l.getLast hne ∈ (s.termLog t).take (k + 1) := by
        have hlk : l <+: (s.termLog t).take (k + 1) :=
          List.prefix_of_prefix_length_le hroot hkeep (by simp; omega)
        exact hlk.subset (List.getLast_mem hne)
      have hle := hinv.termLogStamp t _ (List.mem_of_mem_take hmem)
      have : p.lastStamp l = p.stamp (l.getLast hne) := by
        simp [Protocol.lastStamp, List.getLast?_eq_some_getLast hne]
      omega
  · have hne : l ≠ [] := List.ne_nil_of_length_pos (by omega)
    obtain ⟨_, hroot⟩ := prefix_lastStamp hl hne
    rw [heq] at hroot
    exact Or.inr (hpre.trans (List.prefix_of_prefix_length_le hvroot hroot hlen))

/-- The log a quorum voted for keeps every position any of the voters acknowledged;
the positions none of them acknowledged are blocked, since they have all moved on. -/
theorem kept_of_votes (hinv : p.Inv s) {c : N} {l : List E} {t u k : Nat} {S : Set N}
    (hquorum : p.quorum S) (hvotes : ∀ v ∈ S, s.vote v u = some c)
    (hbid : s.bid u c = some l) (htu : t < u) (hown : p.Own s t k) :
    p.Kept s t k (k + 1) l := by
  by_cases hack : ∃ v ∈ S, k < s.ack v t
  · obtain ⟨v, hv, hk⟩ := hack
    exact hinv.backed v u c l (hvotes v hv) hbid t k htu hk hown
  · refine Or.inl ⟨S, hquorum, fun v hv => ⟨?_, ?_⟩⟩
    · exact htu.trans_le (hinv.voteTerm v u c (hvotes v hv))
    · exact not_lt.mp (fun hk => hack ⟨v, hv, hk⟩)

end Inv

end Protocol

end TermLog
