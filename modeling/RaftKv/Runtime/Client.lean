import RaftKv.Resp.Reply
import RaftKv.Resp.Session
import RaftKv.Runtime.Run

/-! # Commands of clients

`handle_client_command`: what a session hands over is answered at once, or becomes a read
or a write that is answered later. An exception leaves it through `dispatch_next`, which
closes the session.
-/

namespace RaftKv

/-- The bytes of a text of the source. -/
def ascii (text : String) : Bytes := text.toList.map fun c => .ofNat c.toNat

/-- `std::toupper` in the default locale. -/
def toUpper (b : UInt8) : UInt8 := if 97 ≤ b ∧ b ≤ 122 then b - 32 else b

def uppercaseAscii (value : Bytes) : Bytes := value.map toUpper

namespace Runtime

open Resp

variable {D : Type}

/-- A reply given at once leaves the rest of the node alone. -/
def replyNow (n : Runtime D) (encoded : Except EncodeError Bytes) :
    Except EncodeError (Runtime D × Option Bytes) :=
  encoded.map fun text => (n, some text)

/-- The node after the call and the reply given inside it, if any. -/
def handleClientCommand [Blob D] (codec : StoreCodec D) (n : Runtime D) (command : Resp.Command) :
    Except EncodeError (Runtime D × Option Bytes) :=
  match command.arguments with
  | [] => n.replyNow (encodeError (ascii "ERR empty command"))
  | first :: rest =>
      let name := uppercaseAscii first
      if name = ascii "PING" then
        match rest with
        | [] => n.replyNow (encodeSimpleString (ascii "PONG"))
        | [value] => n.replyNow (.ok (encodeBulkString value))
        | _ => n.replyNow (encodeError (ascii "ERR wrong number of arguments for 'ping' command"))
      else if name = ascii "GET" then
        match rest with
        | [key] => .ok (n.beginRead key, none)
        | _ => n.replyNow (encodeError (ascii "ERR wrong number of arguments for 'get' command"))
      else if name = ascii "SET" then
        match rest with
        | [key, value] => .ok (n.beginWrite codec .set [key, value], none)
        | _ => n.replyNow (encodeError (ascii "ERR wrong number of arguments for 'set' command"))
      else if name = ascii "DEL" then
        match rest with
        | [] => n.replyNow (encodeError (ascii "ERR wrong number of arguments for 'del' command"))
        | keys => .ok (n.beginWrite codec .del keys, none)
      else n.replyNow (encodeError (ascii "ERR unknown command '" ++ first ++ ascii "'"))

/-- What the session that handed over a command sees of the call. -/
def callEvents (id : Nat) : Except EncodeError (Runtime D × Option Bytes) → List SessionEvent
  | .error _ => [.handlerThrows]
  | .ok (_, none) => [.handlerReturns]
  | .ok (_, some text) => [.reply id text, .handlerReturns]

/-! ## Every call returns, names with line breaks apart -/

/-- A text that is a reply of its own. -/
def IsReply (text : Bytes) : Prop := ∃ value : Value, value.encode = .ok text

theorem IsReply.readResponse {text : Bytes} (hreply : IsReply text) :
    ∃ value, readResponse text = some (value, []) := by
  obtain ⟨value, hencode⟩ := hreply
  have hread := readsBack_encode value text [] hencode
  rw [List.append_nil] at hread
  exact ⟨value, hread⟩

/-- The call returns, and a reply it has given is a whole one. -/
def Returns (result : Except EncodeError (Runtime D × Option Bytes)) : Prop :=
  ∃ next reply, result = .ok (next, reply) ∧ ∀ text ∈ reply, IsReply text

theorem returns_later (n : Runtime D) : Returns (.ok (n, none)) := ⟨n, none, rfl, nofun⟩

theorem returns_replyNow (n : Runtime D) {value : Value} {text : Bytes}
    (hencode : value.encode = .ok text) : Returns (n.replyNow value.encode) := by
  refine ⟨n, some text, ?_, ?_⟩
  · rw [hencode]
    rfl
  · intro other hother
    obtain rfl := Option.some.inj hother
    exact ⟨value, hencode⟩

theorem encodeError_ok {value : Bytes} (hclean : value.any isCrOrLf = false) :
    (Value.error value).encode = .ok (45 :: value ++ crlf) := by
  simp [Value.encode, encodeError, encodeLine, hclean]

theorem returns_encodeError (n : Runtime D) {value : Bytes} (hclean : value.any isCrOrLf = false) :
    Returns (n.replyNow (encodeError value)) :=
  returns_replyNow n (encodeError_ok hclean)

theorem handleClientCommand_returns [Blob D] (codec : StoreCodec D) (n : Runtime D)
    (command : Resp.Command) (hname : ∀ name ∈ command.arguments.head?, name.any isCrOrLf = false) :
    Returns (n.handleClientCommand codec command) := by
  have hpong : (Value.simpleString (ascii "PONG")).encode = .ok [43, 80, 79, 78, 71, 13, 10] := rfl
  unfold handleClientCommand
  split
  · exact returns_encodeError n (by decide)
  next first rest heq =>
    have hfirst : first.any isCrOrLf = false := hname first (by rw [heq]; rfl)
    dsimp only
    split
    · split
      · exact returns_replyNow n hpong
      next value =>
        have hbulk : (Value.bulkString value).encode = .ok (encodeBulkString value) := rfl
        exact returns_replyNow n hbulk
      · exact returns_encodeError n (by decide)
    · split
      · split
        · exact returns_later _
        · exact returns_encodeError n (by decide)
      · split
        · split
          · exact returns_later _
          · exact returns_encodeError n (by decide)
        · split
          · split
            · exact returns_encodeError n (by decide)
            · exact returns_later _
          · refine returns_encodeError n ?_
            rw [List.any_append, List.any_append, hfirst]
            decide

/-- Upper case neither makes nor removes a line break. -/
theorem any_uppercaseAscii (value : Bytes) :
    (uppercaseAscii value).any isCrOrLf = value.any isCrOrLf := by
  have hbyte : ∀ b : UInt8, isCrOrLf (toUpper b) = isCrOrLf b := by
    intro b
    unfold toUpper isCrOrLf
    -- a letter is neither of the two, in lower case or in upper case
    split
    · grind
    · rfl
  simp only [uppercaseAscii, List.any_map, Function.comp_def, hbyte]

/-- A name with a line break is none of the four commands, and the reply that says so cannot
be encoded. -/
theorem handleClientCommand_throws [Blob D] (codec : StoreCodec D) (n : Runtime D)
    {first : Bytes} {rest : List Bytes} (hbroken : first.any isCrOrLf = true) :
    n.handleClientCommand codec ⟨first :: rest⟩ = .error .error := by
  have hname : ∀ name : Bytes, name.any isCrOrLf = false → uppercaseAscii first ≠ name := by
    rintro _ hclean rfl
    rw [any_uppercaseAscii, hbroken] at hclean
    cases hclean
  have htext : (ascii "ERR unknown command '" ++ first ++ ascii "'").any isCrOrLf = true := by
    simp [List.any_append, hbroken]
  unfold handleClientCommand
  dsimp only
  rw [if_neg (hname _ (by decide)), if_neg (hname _ (by decide)), if_neg (hname _ (by decide)),
    if_neg (hname _ (by decide)), encodeError, encodeLine, if_pos htext]
  rfl

/-- A session is not closed by a call that returns with a whole reply or none. -/
theorem callEvents_open {result : Except EncodeError (Runtime D × Option Bytes)}
    (hreturns : Returns result) {s next : Session} {id : Nat} (hopen : s.closed = false)
    (hrun : (callEvents id result).foldlM Session.step s = some next) : next.closed = false := by
  obtain ⟨n, reply, rfl, hreply⟩ := hreturns
  have hreturn : ∀ {s last : Session}, s.closed = false →
      s.step .handlerReturns = some last → last.closed = false := by
    intro s last hopen hstep
    simp only [Session.step] at hstep
    split at hstep
    · obtain rfl := Option.some.inj hstep
      exact hopen
    · cases hstep
  cases reply with
  | none =>
      simp only [callEvents, List.foldlM_cons, List.foldlM_nil, Option.bind_eq_bind,
        Option.bind_eq_some_iff] at hrun
      obtain ⟨last, hstep, hlast⟩ := hrun
      obtain rfl := Option.some.inj hlast
      exact hreturn hopen hstep
  | some text =>
      simp only [callEvents, List.foldlM_cons, List.foldlM_nil, Option.bind_eq_bind,
        Option.bind_eq_some_iff] at hrun
      obtain ⟨mid, hmid, last, hstep, hlast⟩ := hrun
      obtain rfl := Option.some.inj hlast
      obtain ⟨value, hencode⟩ := hreply text rfl
      refine hreturn ?_ hstep
      have hempty : text.isEmpty = false := by
        simpa [List.isEmpty_eq_false_iff] using encode_ne_nil hencode
      simp only [Session.step] at hmid
      split at hmid
      · obtain rfl := Option.some.inj hmid
        unfold Session.callback Session.onReply
        dsimp only
        split
        · exact hopen
        · rw [hempty]
          exact hopen
      · cases hmid

/-- Every command, with any number of arguments and any bytes in them, is handled without an
exception exactly when its name holds neither CR nor LF: the session that handed it over
stays open, and a reply given at once is one complete RESP value. -/
theorem client_command_answered [Blob D] (codec : StoreCodec D) (n : Runtime D)
    (command : Resp.Command) :
    ((∃ next reply, n.handleClientCommand codec command = .ok (next, reply) ∧
        ∀ text ∈ reply, ∃ value, readResponse text = some (value, [])) ∧
      ∀ (s next : Session) (id : Nat), s.closed = false →
        (callEvents id (n.handleClientCommand codec command)).foldlM Session.step s = some next →
        next.closed = false) ↔
    ∀ name ∈ command.arguments.head?, name.any isCrOrLf = false := by
  refine ⟨fun hanswered name hname => ?_, fun hname => ?_⟩
  · obtain ⟨⟨next, reply, hcall, -⟩, -⟩ := hanswered
    obtain ⟨arguments⟩ := command
    obtain ⟨rest, rfl⟩ := List.head?_eq_some_iff.mp hname
    by_contra hbroken
    rw [handleClientCommand_throws codec n (Bool.not_eq_false _ ▸ hbroken)] at hcall
    cases hcall
  · have hreturns := handleClientCommand_returns codec n command hname
    refine ⟨?_, fun s next id => callEvents_open hreturns⟩
    obtain ⟨next, reply, hcall, hreply⟩ := hreturns
    exact ⟨next, reply, hcall, fun text htext => (hreply text htext).readResponse⟩

theorem client_command_answered_ping :
    ∃ n, startOne = some n ∧
      (∃ next reply,
        n.handleClientCommand msgpackStoreCodec ⟨[ascii "ping", [13, 10]]⟩ = .ok (next, reply) ∧
        ∀ text ∈ reply, ∃ value, readResponse text = some (value, [])) := by
  obtain ⟨n, hn⟩ := Option.isSome_iff_exists.mp (show startOne.isSome = true by rfl)
  refine ⟨n, hn,
    ((client_command_answered msgpackStoreCodec n ⟨[ascii "ping", [13, 10]]⟩).mpr ?_).1⟩
  intro name hname
  obtain rfl := Option.some.inj hname
  decide

/-- A request with one argument, the letter A and a line feed. -/
def brokenName : Bytes := [42, 49, 13, 10, 36, 50, 13, 10, 65, 10, 13, 10]

/-- The decoder takes it, the handler throws on it, and the session is closed with nothing
written. -/
theorem client_command_unanswered :
    ∃ n s last, startOne = some n ∧
      (Session.readNext { decoder := {} }).step (.read (some brokenName)) = some s ∧
      handedIn s.trace = [(⟨[[65, 10]]⟩, 1)] ∧
      n.handleClientCommand msgpackStoreCodec ⟨[[65, 10]]⟩ = .error .error ∧
      (callEvents 1 (n.handleClientCommand msgpackStoreCodec ⟨[[65, 10]]⟩)).foldlM Session.step s =
        some last ∧
      last.closed = true ∧ writesIn last.trace = [] := by
  obtain ⟨n, hn⟩ := Option.isSome_iff_exists.mp (show startOne.isSome = true by rfl)
  have hthrows : n.handleClientCommand msgpackStoreCodec ⟨[[65, 10]]⟩ = .error .error := rfl
  exact ⟨n, _, _, hn, rfl, rfl, hthrows, by rw [hthrows]; rfl, rfl, rfl⟩

end Runtime

end RaftKv
