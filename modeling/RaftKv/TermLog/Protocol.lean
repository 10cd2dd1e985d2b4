import Mathlib.Data.List.Basic
import Mathlib.Data.Set.Basic
import Mathlib.Logic.Function.Basic
import Mathlib.Logic.Relation

/-! # Logs replicated by the leaders of numbered terms

An abstract protocol over arbitrary node and entry types. Each term has at most
one leader, elected by a quorum of votes; the leader only appends to its log and
the other nodes copy that log entry by entry. Besides what the nodes store, the
state keeps the facts a safety argument is about: who voted for whom in every
term, the log a candidate stood with, the log of every elected leader and how
much of it each node has acknowledged. Nothing here mentions messages: a
concrete system supplies them and shows that its steps are steps of this one.
-/

namespace TermLog

/-- What a protocol instance fixes: the term stamped on an entry and the sets of
nodes that count as a quorum, any two of which meet. -/
structure Protocol (N E : Type) where
  stamp : E → Nat
  quorum : Set N → Prop
  meet : ∀ A B, quorum A → quorum B → ∃ n, n ∈ A ∧ n ∈ B

/-- Nodes' stored terms and logs, with the history of votes, candidacies,
elected leaders' logs and acknowledgements. -/
structure Sys (N E : Type) where
  term : N → Nat
  log : N → List E
  vote : N → Nat → Option N
  bid : Nat → N → Option (List E)
  leader : Nat → Option N
  termLog : Nat → List E
  ack : N → Nat → Nat

namespace Sys

variable {N E : Type}

/-- Nothing has happened: term zero, empty logs, no votes. -/
def start : Sys N E where
  term _ := 0
  log _ := []
  vote _ _ := none
  bid _ _ := none
  leader _ := none
  termLog _ := []
  ack _ _ := 0

variable [DecidableEq N]

def setTerm (s : Sys N E) (n : N) (t : Nat) : Sys N E :=
  { s with term := Function.update s.term n t }

def setLog (s : Sys N E) (n : N) (l : List E) : Sys N E :=
  { s with log := Function.update s.log n l }

def setVote (s : Sys N E) (n : N) (t : Nat) (c : N) : Sys N E :=
  { s with vote := fun v u => if v = n ∧ u = t then some c else s.vote v u }

def setBid (s : Sys N E) (t : Nat) (n : N) (l : List E) : Sys N E :=
  { s with bid := fun u v => if u = t ∧ v = n then some l else s.bid u v }

def setLeader (s : Sys N E) (t : Nat) (n : N) (l : List E) : Sys N E :=
  { s with
    leader := Function.update s.leader t (some n)
    termLog := Function.update s.termLog t l }

def setTermLog (s : Sys N E) (t : Nat) (l : List E) : Sys N E :=
  { s with termLog := Function.update s.termLog t l }

def setAck (s : Sys N E) (n : N) (t k : Nat) : Sys N E :=
  { s with ack := fun v u => if v = n ∧ u = t then max (s.ack n t) k else s.ack v u }

@[simp] theorem setLog_setLog (s : Sys N E) (n : N) (l l' : List E) :
    (s.setLog n l).setLog n l' = s.setLog n l' := by
  simp [setLog]

@[simp] theorem setLog_log_self (s : Sys N E) (n : N) : s.setLog n (s.log n) = s := by
  simp [setLog]

@[simp] theorem log_setLog (s : Sys N E) (n : N) (l : List E) : (s.setLog n l).log n = l := by
  simp [setLog]

end Sys

namespace Protocol

variable {N E : Type} (p : Protocol N E)

/-- Term of the last entry, zero for an empty log. -/
def lastStamp (l : List E) : Nat := (l.getLast?.map p.stamp).getD 0

/-- Voting order on logs: later last term first, then length. -/
def UpToDate (l other : List E) : Prop :=
  p.lastStamp other < p.lastStamp l ∨
    p.lastStamp l = p.lastStamp other ∧ other.length ≤ l.length

/-- Position `k` of the leader's log of term `t` was written in term `t` itself. -/
def Own (s : Sys N E) (t k : Nat) : Prop :=
  ∃ e, (s.termLog t)[k]? = some e ∧ p.stamp e = t

/-- A quorum has left term `t` without acknowledging position `k`, so that
position can no longer be chosen in term `t`. -/
def Blocked (s : Sys N E) (t k : Nat) : Prop :=
  ∃ S, p.quorum S ∧ ∀ v ∈ S, t < s.term v ∧ s.ack v t ≤ k

/-- A quorum has acknowledged position `k` to the leader of term `t`, in an
entry of that term. -/
def Chosen (s : Sys N E) (t k : Nat) : Prop :=
  p.Own s t k ∧ ∃ S, p.quorum S ∧ ∀ v ∈ S, k < s.ack v t

/-- A log is committed as far as term `t` can tell when it is a prefix of what
some leader up to that term had chosen. -/
def Committed (s : Sys N E) (t : Nat) (l : List E) : Prop :=
  l = [] ∨ ∃ u k, u ≤ t ∧ p.Chosen s u k ∧ l.length ≤ k + 1 ∧ l <+: s.termLog u

/-- Log `l` still has the leader's first `i` entries of term `t`, unless position `k`
can no longer be chosen there. -/
def Kept (s : Sys N E) (t k i : Nat) (l : List E) : Prop :=
  p.Blocked s t k ∨ (s.termLog t).take i <+: l

/-- Every entry of `l` stands where the leader of its term put it, after the
same entries. -/
def Rooted (s : Sys N E) (l : List E) : Prop :=
  ∀ k e, l[k]? = some e →
    s.leader (p.stamp e) ≠ none ∧ l.take (k + 1) <+: s.termLog (p.stamp e)

variable [DecidableEq N]

/-- One step of node `n`. -/
inductive Step (n : N) : Sys N E → Sys N E → Prop
  /-- `n` hears of a later term. -/
  | advance (s : Sys N E) (t : Nat) (hterm : s.term n < t) : Step n s (s.setTerm n t)
  /-- `n` opens the next term, votes for itself and stands with its log. -/
  | stand (s : Sys N E) :
      Step n s (((s.setTerm n (s.term n + 1)).setVote n (s.term n + 1) n).setBid
        (s.term n + 1) n (s.log n))
  /-- `n` gives its vote of the current term to a candidate whose log is at least
  as up to date as its own. -/
  | grant (s : Sys N E) (c : N) (l : List E) (hbid : s.bid (s.term n) c = some l)
      (hfree : s.vote n (s.term n) = none ∨ s.vote n (s.term n) = some c)
      (hlog : p.UpToDate l (s.log n)) : Step n s (s.setVote n (s.term n) c)
  /-- `n` wins its term with the log it stood with. -/
  | elect (s : Sys N E) (S : Set N) (hnone : s.leader (s.term n) = none)
      (hbid : s.bid (s.term n) n = some (s.log n)) (hquorum : p.quorum S)
      (hvotes : ∀ v ∈ S, s.vote v (s.term n) = some n) :
      Step n s (s.setLeader (s.term n) n (s.log n))
  /-- The leader appends an entry of its term. -/
  | extend (s : Sys N E) (e : E) (hlead : s.leader (s.term n) = some n)
      (hstamp : p.stamp e = s.term n) :
      Step n s ((s.setTermLog (s.term n) (s.termLog (s.term n) ++ [e])).setLog n
        (s.log n ++ [e]))
  /-- Another node copies the leader's log through position `k`, which it does not
  hold yet, dropping whatever conflicts. -/
  | accept (s : Sys N E) (m : N) (k : Nat) (hlead : s.leader (s.term n) = some m)
      (hother : m ≠ n) (hnew : ¬ (s.termLog (s.term n)).take (k + 1) <+: s.log n) :
      Step n s (s.setLog n ((s.termLog (s.term n)).take (k + 1)))
  /-- A node that is not the leader replaces its log by a committed one, unless
  that would cut entries off a log that already extends it. -/
  | adopt (s : Sys N E) (h : List E) (hlead : s.leader (s.term n) ≠ some n)
      (hcommitted : p.Committed s (s.term n) h)
      (hkeep : ¬ (h <+: s.log n ∧ h.length < (s.log n).length)) : Step n s (s.setLog n h)
  /-- `n` acknowledges the first `k` entries of its leader's log. -/
  | acknowledge (s : Sys N E) (k : Nat) (hlead : s.leader (s.term n) ≠ none)
      (hlen : k ≤ (s.termLog (s.term n)).length)
      (hholds : (s.termLog (s.term n)).take k <+: s.log n) :
      Step n s (s.setAck n (s.term n) k)

/-- Finitely many steps of node `n`. -/
def Steps (n : N) : Sys N E → Sys N E → Prop := Relation.ReflTransGen (p.Step n)

end Protocol

end TermLog
