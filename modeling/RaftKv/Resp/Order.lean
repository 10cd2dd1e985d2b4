import RaftKv.Resp.Session

/-! # A session answers in order

The callback of a command is told from a late one by a 64-bit counter. Below 2^64 commands
the counter is the number of the command, and what is written are the first replies in the
order of the commands; when it comes round, the callback of an early command answers a late
one.
-/

namespace RaftKv.Resp

/-- The first `m` commands have been answered, and what was written is their non-empty
answers in order. -/
def AnsweredTo (events : List Happening) (m : Nat) : Prop :=
  (∀ k, 1 ≤ k → k ≤ m → firstReply events k ≠ none) ∧
    writesIn events = (List.range' 1 m).filterMap (reply? events)

/-- Command `k` is done with: its first reply was accepted and, unless empty, written. -/
def DoneWith (events : List Happening) (k : Nat) : Prop :=
  ∃ reply, firstReply events k = some reply ∧ .accepted k reply ∈ events ∧
    (reply ≠ [] → .write k reply ∈ events ∧ .written k ∈ events)

/-- Whenever a command is handed over, the one before it is done with. -/
def TakesTurns (events : List Happening) : Prop :=
  ∀ i k command, events[i]? = some (.handed (k + 1) command) → 1 ≤ k →
    DoneWith (events.take i) k

/-- Every command is handed over once, in decode order and after the one before it is done
with, and the buffers written are the first replies in that order. -/
structure InOrder (events : List Happening) : Prop where
  answered : ∃ m, AnsweredTo events m
  turns : TakesTurns events
  handed : ∃ n, n ≤ (decodedIn events).length ∧
    handedIn events = ((decodedIn events).take n).zipIdx 1

/-- Answers do not change when the trace goes on. -/
theorem reply?_append {events : List Happening} {id : Nat} (hfirst : firstReply events id ≠ none)
    (more : List Happening) : reply? (events ++ more) id = reply? events id := by
  obtain ⟨reply, hreply⟩ := Option.ne_none_iff_exists'.mp hfirst
  simp only [reply?, firstReply_of_some hreply more, hreply]

theorem filterMap_reply?_append {events : List Happening} {m : Nat}
    (hall : ∀ k, 1 ≤ k → k ≤ m → firstReply events k ≠ none) (more : List Happening) :
    (List.range' 1 m).filterMap (reply? (events ++ more)) =
      (List.range' 1 m).filterMap (reply? events) := by
  apply List.filterMap_congr
  intro k hk
  rw [List.mem_range'_1] at hk
  exact reply?_append (hall k hk.1 (by omega)) more

theorem AnsweredTo.append {events more : List Happening} {m : Nat} (hanswered : AnsweredTo events m)
    (hquiet : writesIn more = []) : AnsweredTo (events ++ more) m := by
  obtain ⟨hall, hwrites⟩ := hanswered
  refine ⟨fun k hk hm => ?_, ?_⟩
  · obtain ⟨reply, hreply⟩ := Option.ne_none_iff_exists'.mp (hall k hk hm)
    simp [hreply]
  · rw [writesIn_append, hquiet, List.append_nil, hwrites, filterMap_reply?_append hall more]

/-- The next command is answered by the reply that comes in. -/
theorem AnsweredTo.succ {events more : List Happening} {m id : Nat} {reply : Bytes}
    (hanswered : AnsweredTo events m) (hid : id = m + 1)
    (hfirst : firstReply (events ++ more) id = some reply)
    (hwrites : writesIn more = if reply.isEmpty then [] else [reply]) :
    AnsweredTo (events ++ more) id := by
  obtain ⟨hall, hold⟩ := hanswered
  subst hid
  refine ⟨fun k hk hm => ?_, ?_⟩
  · rcases Nat.lt_or_ge m k with hlt | hle
    · obtain rfl : k = m + 1 := by omega
      simp [hfirst]
    · obtain ⟨reply, hreply⟩ := Option.ne_none_iff_exists'.mp (hall k hk hle)
      simp [hreply]
  · rw [List.range'_concat, List.filterMap_append, filterMap_reply?_append hall more,
      writesIn_append, hold, hwrites]
    have hlast : reply? (events ++ more) (1 + 1 * m) =
        if reply.isEmpty then none else some reply := by
      rw [show 1 + 1 * m = m + 1 by omega, reply?, hfirst]
      cases reply <;> simp
    simp only [List.filterMap_cons, List.filterMap_nil, hlast]
    split <;> rfl

theorem DoneWith.append {events more : List Happening} {k : Nat} (hdone : DoneWith events k) :
    DoneWith (events ++ more) k := by
  obtain ⟨reply, hfirst, haccepted, hwritten⟩ := hdone
  refine ⟨reply, firstReply_of_some hfirst more, List.mem_append_left _ haccepted, fun hne => ?_⟩
  obtain ⟨hwrite, hend⟩ := hwritten hne
  exact ⟨List.mem_append_left _ hwrite, List.mem_append_left _ hend⟩

theorem TakesTurns.append {events more : List Happening} (hturns : TakesTurns events)
    (hmore : handedIn more = []) : TakesTurns (events ++ more) := by
  intro i k command hget hk
  rcases Nat.lt_or_ge i events.length with hi | hi
  · rw [List.getElem?_append_left hi] at hget
    rw [List.take_append_of_le_length hi.le]
    exact hturns i k command hget hk
  · rw [List.getElem?_append_right hi] at hget
    have hmem : (command, k + 1) ∈ handedIn more :=
      List.mem_filterMap.mpr ⟨_, List.mem_of_getElem? hget, rfl⟩
    simp [hmore] at hmem

theorem TakesTurns.handed {events : List Happening} {n : Nat} {command : Command}
    (hturns : TakesTurns events) (hdone : 1 ≤ n → DoneWith events n) :
    TakesTurns (events ++ [.handed (n + 1) command]) := by
  intro i k command' hget hk
  rcases Nat.lt_or_ge i events.length with hi | hi
  · rw [List.getElem?_append_left hi] at hget
    rw [List.take_append_of_le_length hi.le]
    exact hturns i k command' hget hk
  · rw [List.getElem?_append_right hi, List.getElem?_singleton] at hget
    split at hget
    next hzero =>
      obtain ⟨heq, -⟩ := Happening.handed.inj (Option.some.inj hget)
      obtain rfl : i = events.length := by omega
      obtain rfl : n = k := by omega
      rw [List.take_left]
      exact hdone hk
    · cases hget

/-! ## The invariant -/

namespace Session

/-- An open session waits for the reply to its last command, writes it, or is done with it. -/
inductive Phase (s : Session) : Prop
  | waiting (hawaiting : s.awaitingReply = true) (hwriting : s.writeInProgress = false)
      (m : Nat) (hid : s.commands = m + 1) (hanswered : AnsweredTo s.trace m)
      (hnone : firstReply s.trace s.commands = none)
  | writing (hawaiting : s.awaitingReply = false) (hwriting : s.writeInProgress = true)
      (reply : Bytes) (hanswered : AnsweredTo s.trace s.commands)
      (hfirst : firstReply s.trace s.commands = some reply)
      (haccepted : .accepted s.commands reply ∈ s.trace)
      (hwrite : .write s.commands reply ∈ s.trace)
  | idle (hawaiting : s.awaitingReply = false) (hwriting : s.writeInProgress = false)
      (hanswered : AnsweredTo s.trace s.commands)
      (hdone : 1 ≤ s.commands → DoneWith s.trace s.commands)

/-- Replies come in order, in a session that is closed or not. -/
structure Inv (s : Session) : Prop where
  turns : TakesTurns s.trace
  answered : ∃ m, AnsweredTo s.trace m
  phase : s.closed = false → s.Phase

variable {s next : Session}

/-- Events that neither hand over nor write leave the order as it is. -/
theorem Inv.closed (hinv : s.Inv) (hclosed : next.closed = true) {more : List Happening}
    (htrace : next.trace = s.trace ++ more) (hhanded : handedIn more = [])
    (hwrites : writesIn more = []) : next.Inv := by
  obtain ⟨m, hanswered⟩ := hinv.answered
  refine ⟨?_, ⟨m, ?_⟩, fun hopen => by cases hclosed.symm.trans hopen⟩
  · exact htrace ▸ hinv.turns.append hhanded
  · exact htrace ▸ hanswered.append hwrites

theorem Inv.close (hinv : s.Inv) (htrace : next.trace = s.trace) : next.close.Inv := by
  unfold Session.close
  split
  next hclosed => exact hinv.closed hclosed (htrace.trans (List.append_nil _).symm) rfl rfl
  · have hnext : (Session.note { next with closed := true } [.closed]).trace =
        s.trace ++ [.closed] := by
      rw [note_trace, htrace]
    exact hinv.closed rfl hnext rfl rfl

/-- Counting outstanding operations changes nothing. -/
theorem Inv.count (hinv : s.Inv) (reads calls : Nat) :
    ({ s with reads := reads, calls := calls } : Session).Inv := by
  obtain ⟨hturns, hanswered, hphase⟩ := hinv
  refine ⟨hturns, hanswered, fun hopen => ?_⟩
  cases hphase hopen with
  | waiting hawaiting hwriting m hid hans hnone =>
      exact .waiting hawaiting hwriting m hid hans hnone
  | writing hawaiting hwriting reply hans hfirst haccepted hwrite =>
      exact .writing hawaiting hwriting reply hans hfirst haccepted hwrite
  | idle hawaiting hwriting hans hdone => exact .idle hawaiting hwriting hans hdone

theorem Inv.readNext (hinv : s.Inv) : s.readNext.Inv := by
  unfold Session.readNext
  split
  · exact hinv
  · exact hinv.count _ s.calls

theorem Inv.dispatchNext (hinv : s.Inv) (hcounted : s.Counted) : s.dispatchNext.Inv := by
  unfold Session.dispatchNext
  split
  · exact hinv
  next hready =>
    simp only [Bool.or_eq_true, not_or, Bool.not_eq_true] at hready
    obtain ⟨⟨hopen, hawaiting⟩, hwriting⟩ := hready
    split
    · exact hinv.readNext
    next command rest hpending =>
      cases hinv.phase hopen with
      | waiting hawaits => simp [hawaiting] at hawaits
      | writing _ hwrites => simp [hwriting] at hwrites
      | idle _ _ hans hdone =>
          have hnext : AnsweredTo (s.trace ++ [.handed (s.commands + 1) command]) s.commands :=
            hans.append rfl
          refine ⟨hinv.turns.handed hdone, ⟨_, hnext⟩, fun _ =>
            .waiting rfl hwriting s.commands rfl hnext ?_⟩
          -- nobody can have replied to a command that was not handed over before
          exact firstReply_append_none (hcounted.issued _ (Nat.lt_succ_self _)) rfl

theorem Inv.decoded (hinv : s.Inv) (fed : Fed) : (s.decoded fed).Inv := by
  obtain ⟨hturns, ⟨m, hanswered⟩, hphase⟩ := hinv
  refine ⟨hturns.append rfl, ⟨m, hanswered.append rfl⟩, fun hopen => ?_⟩
  cases hphase hopen with
  | waiting hawaiting hwriting m hid hans hnone =>
      exact .waiting hawaiting hwriting m hid (hans.append rfl) (firstReply_append_none hnone rfl)
  | writing hawaiting hwriting reply hans hfirst haccepted hwrite =>
      exact .writing hawaiting hwriting reply (hans.append rfl) (firstReply_of_some hfirst _)
        (List.mem_append_left _ haccepted) (List.mem_append_left _ hwrite)
  | idle hawaiting hwriting hans hdone =>
      exact .idle hawaiting hwriting (hans.append rfl) (fun h => (hdone h).append)

theorem Inv.onRead (hinv : s.Inv) (hcounted : s.Counted) {result : Option Bytes}
    (hread : s.onRead result = some next) : next.Inv := by
  rcases onRead_cases hread with rfl | ⟨fed, rfl | rfl⟩
  · exact hinv.close rfl
  · exact (hinv.decoded fed).readNext
  · exact (hinv.decoded fed).dispatchNext (hcounted.decoded fed)

/-- The callback of another command, or one that comes too late, is ignored. -/
theorem Inv.given (hinv : s.Inv) {command : Nat} (encodedReply : Bytes)
    (hother : s.awaitingReply = true → command ≠ s.commands) :
    (s.note [.given command encodedReply]).Inv := by
  obtain ⟨hturns, ⟨m, hanswered⟩, hphase⟩ := hinv
  refine ⟨hturns.append rfl, ⟨m, hanswered.append rfl⟩, fun hopen => ?_⟩
  cases hphase hopen with
  | waiting hawaiting hwriting m hid hans hnone =>
      refine .waiting hawaiting hwriting m hid (hans.append rfl) (firstReply_append_none hnone ?_)
      simp [firstReply, Session.note, hother hawaiting]
  | writing hawaiting hwriting reply hans hfirst haccepted hwrite =>
      exact .writing hawaiting hwriting reply (hans.append rfl) (firstReply_of_some hfirst _)
        (List.mem_append_left _ haccepted) (List.mem_append_left _ hwrite)
  | idle hawaiting hwriting hans hdone =>
      exact .idle hawaiting hwriting (hans.append rfl) (fun h => (hdone h).append)

/-- The callback of the command that waits is accepted. -/
theorem Inv.accepted (hinv : s.Inv) (hcounted : s.Counted) (hopen : s.closed = false)
    (hawaiting : s.awaitingReply = true) (encodedReply : Bytes) :
    ((s.note [.given s.commands encodedReply]).onReply s.activeRequestId encodedReply).Inv := by
  have hgiven := hcounted.given le_rfl encodedReply
  cases hinv.phase hopen with
  | writing hnot => simp [hawaiting] at hnot
  | idle hnot => simp [hawaiting] at hnot
  | waiting _ hwriting m hid hans hnone =>
      have hturns : TakesTurns (s.trace ++ [.given s.commands encodedReply] ++
          [.accepted s.commands encodedReply]) := (hinv.turns.append rfl).append rfl
      have hans : AnsweredTo (s.trace ++ [.given s.commands encodedReply]) m := hans.append rfl
      have hfirst : firstReply (s.trace ++ [.given s.commands encodedReply] ++
          [.accepted s.commands encodedReply]) s.commands = some encodedReply := by
        simp only [firstReply_append, hnone, Option.none_or]
        simp [firstReply]
      unfold Session.onReply
      rw [if_neg (by simp [Session.note, hopen, hawaiting])]
      dsimp only
      split
      next hempty =>
        -- an empty reply ends the command at once
        have hnext := hans.succ hid hfirst (by rw [if_pos hempty]; rfl)
        refine Inv.dispatchNext ⟨hturns, ⟨_, hnext⟩, fun _ => .idle rfl hwriting hnext fun _ =>
          ⟨encodedReply, hfirst, by simp [Session.note], fun hne => ?_⟩⟩
            (hgiven.accepted encodedReply)
        exact absurd (List.isEmpty_iff.mp hempty) hne
      next hfull =>
        have hfirst := firstReply_of_some hfirst [.write s.commands encodedReply]
        have hans : AnsweredTo (s.trace ++ [.given s.commands encodedReply] ++
            [.accepted s.commands encodedReply]) m := hans.append rfl
        have hnext := hans.succ hid hfirst (by rw [if_neg hfull]; rfl)
        refine ⟨hturns.append rfl, ⟨_, hnext⟩, fun _ =>
          .writing rfl rfl encodedReply hnext hfirst ?_ ?_⟩
        · simp [Session.note]
        · simp [Session.note]

/-- Below 2^64 commands a callback's number tells whose it is. -/
theorem Inv.callback {command : Nat} (hinv : s.Inv) (hcounted : s.Counted)
    (hfew : s.commands < 2 ^ 64) (hhanded : command ≤ s.commands) (encodedReply : Bytes) :
    (s.callback command encodedReply).Inv := by
  have hnumber : wrap64 command = command := wrap64_of_lt (by omega)
  have hactive : s.activeRequestId = s.commands := hcounted.active.trans (wrap64_of_lt hfew)
  rw [Session.callback, hnumber]
  by_cases haccepts : s.closed = false ∧ s.awaitingReply = true ∧ command = s.commands
  · obtain ⟨hopen, hawaiting, rfl⟩ := haccepts
    have haccepted := hinv.accepted hcounted hopen hawaiting encodedReply
    rwa [hactive] at haccepted
  · rw [Session.onReply, if_pos]
    · by_cases hopen : s.closed = false
      · exact hinv.given encodedReply fun hawaiting heq => haccepts ⟨hopen, hawaiting, heq⟩
      · exact hinv.closed (Bool.not_eq_false _ ▸ hopen) rfl rfl rfl
    · simp only [Session.note, hactive, Bool.or_eq_true, Bool.not_eq_true', bne_iff_ne, ne_eq]
      by_contra hnot
      simp only [not_or, Bool.not_eq_true, Bool.not_eq_false, not_not] at hnot
      exact haccepts ⟨hnot.1.1, hnot.1.2, hnot.2⟩

theorem Inv.onWritten (hinv : s.Inv) (hcounted : s.Counted) (hwriting : s.writeInProgress = true)
    (ok : Bool) : (s.onWritten ok).Inv := by
  unfold Session.onWritten
  cases ok with
  | false => exact hinv.close rfl
  | true =>
      have hlowered : ({ s with writeInProgress := false, writeBuffer := [] } : Session).Counted :=
        ⟨hcounted.queue, hcounted.active, hcounted.issued⟩
      obtain ⟨m, hanswered⟩ := hinv.answered
      refine Inv.dispatchNext ⟨hinv.turns.append rfl, ⟨m, hanswered.append rfl⟩, fun hopen => ?_⟩
        (hlowered.note rfl rfl fun _ _ => rfl)
      cases hinv.phase hopen with
      | waiting _ hnot => simp [hwriting] at hnot
      | idle _ hnot => simp [hwriting] at hnot
      | writing hawaiting _ reply hans hfirst haccepted hwrite =>
          refine .idle hawaiting rfl (hans.append rfl) fun _ => ⟨reply, firstReply_of_some hfirst _,
            List.mem_append_left _ haccepted, fun _ => ⟨List.mem_append_left _ hwrite, ?_⟩⟩
          simp [Session.note]

theorem Inv.step {event : SessionEvent} (hinv : s.Inv) (hcounted : s.Counted)
    (hfew : s.commands < 2 ^ 64) (hstep : s.step event = some next) : next.Inv := by
  cases event with
  | read result =>
      obtain ⟨-, hread⟩ := Option.ite_none_right_eq_some.mp hstep
      exact (hinv.count _ s.calls).onRead (hcounted.count _ s.calls) hread
  | reply command encodedReply =>
      obtain ⟨⟨-, hhanded⟩, rfl⟩ := Option.ite_some_none_eq_some.mp hstep
      exact hinv.callback hcounted hfew hhanded encodedReply
  | handlerReturns =>
      obtain ⟨-, rfl⟩ := Option.ite_some_none_eq_some.mp hstep
      exact hinv.count s.reads _
  | handlerThrows =>
      obtain ⟨-, rfl⟩ := Option.ite_some_none_eq_some.mp hstep
      exact hinv.close rfl
  | written ok =>
      obtain ⟨⟨hwriting, -⟩, rfl⟩ := Option.ite_some_none_eq_some.mp hstep
      exact hinv.onWritten hcounted hwriting ok
  | stop =>
      obtain rfl := Option.some.inj hstep
      exact hinv.close rfl

theorem Reach.inv {limits : Limits} (hreach : Reach limits s) (hfew : s.commands < 2 ^ 64) :
    s.Inv := by
  induction hreach with
  | start =>
      have hnone : AnsweredTo [] 0 := ⟨fun k hk hm => by omega, rfl⟩
      have hfresh : Session.Inv { decoder := { limits := limits } } := by
        refine ⟨fun i k command hget => ?_, ⟨0, hnone⟩,
          fun _ => .idle rfl rfl hnone fun h => absurd h (Nat.not_succ_le_zero 0)⟩
        simp at hget
      exact hfresh.readNext
  | step s next event hs hstep ih =>
      have hbefore : s.commands < 2 ^ 64 := lt_of_le_of_lt (commands_le_step hstep) hfew
      exact (ih hbefore).step hs.counted hbefore hstep

end Session

/-- In every run of fewer than 2^64 commands a session answers them in order, one reply
each. -/
theorem session_in_order {limits : Limits} {s : Session} (hreach : Session.Reach limits s)
    (hfew : s.commands < 2 ^ 64) : InOrder s.trace := by
  obtain ⟨sent, hqueue, hhanded, -⟩ := hreach.counted.queue
  obtain ⟨hturns, hanswered, -⟩ := hreach.inv hfew
  refine ⟨hanswered, hturns, sent.length, ?_, ?_⟩
  · simp [hqueue]
  · simp [hqueue, hhanded]

/-- `PING` as a client sends it. -/
def pingFrame : Bytes := [42, 49, 13, 10, 36, 52, 13, 10, 80, 73, 78, 71, 13, 10]

/-- Two pings at once, the first answered inside its handler call and again later. -/
def pingTwice : List SessionEvent :=
  [.read (some (pingFrame ++ pingFrame)), .reply 1 [43, 65], .handlerReturns, .written true,
    .reply 1 [43, 66], .handlerReturns, .reply 2 [43, 67]]

theorem session_in_order_pings :
    ∃ s, Session.Reach {} s ∧ s.commands < 2 ^ 64 ∧ writesIn s.trace = [[43, 65], [43, 67]] ∧
      InOrder s.trace := by
  have hrun : (pingTwice.foldlM Session.step (Session.readNext { decoder := {} })).map
      (fun s => (s.commands, writesIn s.trace)) = some (2, [[43, 65], [43, 67]]) := by
    rfl
  obtain ⟨s, hs, hends⟩ := Option.map_eq_some_iff.mp hrun
  obtain ⟨hcommands, hwrites⟩ := Prod.ext_iff.mp hends
  have hreach := Session.Reach.start.foldlM hs
  have hfew : s.commands < 2 ^ 64 := by
    rw [show s.commands = 2 from hcommands]
    decide
  exact ⟨s, hreach, hfew, hwrites, session_in_order hreach hfew⟩

/-! ## The counter comes round -/

def ping : Command := ⟨[[80, 73, 78, 71]]⟩

/-- The trace of `n` pings, each answered with nothing. -/
def pinged : Nat → List Happening
  | 0 => []
  | n + 1 => pinged n ++
      [.decoded [ping], .handed (n + 1) ping, .given (n + 1) [], .accepted (n + 1) []]

/-- A session that has answered `n` pings and waits for bytes. -/
def idleAfter (n : Nat) : Session :=
  { decoder := {}, reads := 1, activeRequestId := wrap64 n, commands := n, trace := pinged n }

/-- The next ping is with the handler. -/
def askedAfter (n : Nat) : Session :=
  { decoder := {}, activeRequestId := wrap64 (wrap64 n + 1), awaitingReply := true, calls := 1,
    commands := n + 1, trace := pinged n ++ [.decoded [ping]] ++ [.handed (n + 1) ping] }

theorem idleAfter_read (n : Nat) :
    (idleAfter n).step (.read (some pingFrame)) = some (askedAfter n) := by
  have hfeed : Decoder.feed {} pingFrame = .ok ⟨[ping], 14, {}⟩ := by rfl
  have hready : (idleAfter n).reads > 0 ∧ (idleAfter n).calls = 0 := ⟨Nat.one_pos, rfl⟩
  rw [Session.step, if_pos hready]
  simp only [Session.onRead, idleAfter, hfeed]
  simp [Session.decoded, Session.dispatchNext, Session.note, askedAfter, pingFrame]

theorem askedAfter_ignored (n : Nat) : ((askedAfter n).step (.reply (n + 1) [])).bind
    (Session.step · .handlerReturns) = some (idleAfter (n + 1)) := by
  have hsame : wrap64 (n + 1) = wrap64 (wrap64 n + 1) := (Nat.mod_add_mod _ _ _).symm
  have hreply : (askedAfter n).step (.reply (n + 1) []) =
      some { idleAfter (n + 1) with calls := 1 } := by
    simp [Session.step, Session.callback, Session.onReply, Session.dispatchNext, Session.readNext,
      Session.note, askedAfter, idleAfter, pinged, hsame]
  rw [hreply]
  rfl

theorem reach_idleAfter (n : Nat) : Session.Reach {} (idleAfter n) := by
  induction n with
  | zero => exact .start
  | succ n ih =>
      obtain ⟨mid, hmid, hnext⟩ := Option.bind_eq_some_iff.mp (askedAfter_ignored n)
      exact ((ih.step _ _ _ (idleAfter_read n)).step _ _ _ hmid).step _ _ _ hnext

theorem firstReply_pinged (n k : Nat) :
    firstReply (pinged n) k = if 1 ≤ k ∧ k ≤ n then some [] else none := by
  induction n with
  | zero =>
      rw [if_neg (by omega)]
      rfl
  | succ n ih =>
      rw [pinged, firstReply_append, ih]
      by_cases hk : 1 ≤ k ∧ k ≤ n
      · rw [if_pos hk, if_pos (by omega), Option.some_or]
      · rw [if_neg hk, Option.none_or]
        by_cases heq : n + 1 = k
        · simp [firstReply, heq, show 1 ≤ k by omega]
        · rw [if_neg (by omega)]
          simp [firstReply, heq]

theorem writesIn_pinged (n : Nat) : writesIn (pinged n) = [] := by
  induction n with
  | zero => rfl
  | succ n ih =>
      rw [pinged, writesIn_append, ih]
      rfl

/-- The callback of the first command, run again when the counter has come round to it. -/
def lateCallback (n : Nat) : List Happening :=
  [.given 1 [43], .accepted (n + 1) [43], .write (n + 1) [43]]

theorem askedAfter_late {n : Nat} (hround : wrap64 n = 0) :
    ∃ s, (askedAfter n).step (.reply 1 [43]) = some s ∧
      s.trace = (askedAfter n).trace ++ lateCallback n := by
  have hactive : wrap64 (wrap64 n + 1) = 1 := by
    rw [hround]
    rfl
  have hhanded : 1 ≤ 1 ∧ 1 ≤ (askedAfter n).commands := ⟨le_rfl, Nat.le_add_left 1 n⟩
  refine ⟨(askedAfter n).callback 1 [43], by rw [Session.step, if_pos hhanded], ?_⟩
  simp [Session.callback, Session.onReply, Session.note, askedAfter, hactive, lateCallback,
    show wrap64 1 = 1 from rfl]

/-- No command was given a reply that is not empty. -/
theorem reply?_late {n : Nat} (hn : 1 ≤ n) (k : Nat) :
    reply? ((askedAfter n).trace ++ lateCallback n) k = none := by
  simp only [reply?, askedAfter, List.append_assoc, firstReply_append, firstReply_pinged]
  by_cases hk : 1 ≤ k ∧ k ≤ n
  · simp [hk]
  · simp [hk, firstReply, lateCallback, show 1 ≠ k by omega]

/-- After 2^64 commands the callback of the first one answers the last one, which nobody has
replied to. -/
theorem session_stale_callback_accepted : ∃ s, Session.Reach {} s ∧
    firstReply s.trace (2 ^ 64 + 1) = none ∧ .accepted (2 ^ 64 + 1) [43] ∈ s.trace ∧
    writesIn s.trace = [[43]] ∧ ¬ InOrder s.trace := by
  obtain ⟨n, hn⟩ : ∃ n, n = 2 ^ 64 := ⟨_, rfl⟩
  have hround : wrap64 n = 0 := by
    rw [hn]
    rfl
  obtain ⟨s, hlate, htrace⟩ := askedAfter_late hround
  have hreach := ((reach_idleAfter n).step _ _ _ (idleAfter_read n)).step _ _ _ hlate
  have hwrites : writesIn s.trace = [[43]] := by
    simp only [htrace, askedAfter, writesIn_append, writesIn_pinged]
    rfl
  rw [← hn]
  refine ⟨s, hreach, ?_, ?_, hwrites, fun hinorder => ?_⟩
  · simp only [htrace, askedAfter, firstReply_append, firstReply_pinged]
    simp [firstReply, lateCallback, show n ≠ 0 by omega]
  · simp [htrace, lateCallback]
  · obtain ⟨m, -, hanswered⟩ := hinorder.answered
    have hnone : (List.range' 1 m).filterMap (reply? s.trace) = [] := by
      rw [htrace, List.filterMap_eq_nil_iff]
      exact fun k _ => reply?_late (by omega) k
    rw [hwrites, hnone] at hanswered
    cases hanswered

end RaftKv.Resp
