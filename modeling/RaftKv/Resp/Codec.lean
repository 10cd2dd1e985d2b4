import RaftKv.Foundation.Stream
import RaftKv.Foundation.Word
import RaftKv.Proto

/-! # RESP requests

The decoder of `resp_codec.cpp`: arrays of bulk strings, with limits on the number
and the size of the strings and on the bytes that may be buffered. A position in the
buffer is modelled by the input from there on.
-/

namespace RaftKv.Resp

structure Command where
  arguments : List Bytes
  deriving DecidableEq, Repr

structure Limits where
  maxBufferBytes : Nat := 2 * 1024 * 1024
  maxArrayElements : Nat := 1024
  maxBulkStringBytes : Nat := 1024 * 1024
  deriving DecidableEq, Repr

/-- The two lengths a request carries. -/
inductive SizeField where
  | arrayLength
  | bulkStringLength
  deriving DecidableEq, Repr

inductive ProtocolError where
  | emptySize (field : SizeField)
  | invalidSize (field : SizeField)
  | expectedArray
  | arrayLimit
  | expectedBulkString
  | bulkStringLimit
  | missingCrlf
  | bufferLimit
  deriving DecidableEq, Repr

/-- What parsing can throw. -/
inductive DecodeError where
  /-- A `RespProtocolError`. -/
  | protocol (error : ProtocolError)
  /-- The `std::length_error` of a vector that cannot be that long. -/
  | length
  deriving DecidableEq, Repr

abbrev Parser := Scanner UInt8 DecodeError

/-- `max_size` of a vector of strings, which take 32 bytes each. -/
def maxArguments : Nat := (2 ^ 63 - 1) / 32

/-! ## Parsing one request -/

/-- The line up to the next CRLF, and what follows. -/
def readLine : Bytes → Option (Bytes × Bytes)
  | [] => none
  | [_] => none
  | b :: c :: rest =>
      if b = 13 ∧ c = 10 then some ([], rest)
      else (readLine (c :: rest)).map fun (line, after) => (b :: line, after)

def line : Parser Bytes := fun input =>
  match readLine input with
  | none => .more
  | some (text, rest) => .done (text, rest)

/-- `std::from_chars` on a whole text of decimal digits. -/
def fromChars : Nat → Bytes → Option Nat
  | value, [] => if value < 2 ^ 64 then some value else none
  | value, b :: rest =>
      if 48 ≤ b ∧ b ≤ 57 then fromChars (10 * value + (b.toNat - 48)) rest else none

def parseSize (value : Bytes) (field : SizeField) : Parser Nat :=
  if value.isEmpty then Scanner.failure (.protocol (.emptySize field))
  else
    match fromChars 0 value with
    | none => Scanner.failure (.protocol (.invalidSize field))
    | some size => pure size

/-- The next byte, which has to be the given one. -/
def expect (byte : UInt8) (error : ProtocolError) : Parser Unit := fun input =>
  match input with
  | [] => .more
  | b :: rest => if b ≠ byte then .fail (.protocol error) else .done ((), rest)

/-- A payload of the given length and its CRLF. -/
def bulkString (length : Nat) : Parser Bytes := fun input =>
  if length > input.length then .more
  else if input.length - length < 2 then .more
  else
    match input.drop length with
    | b :: c :: rest =>
        if b ≠ 13 ∨ c ≠ 10 then .fail (.protocol .missingCrlf) else .done (input.take length, rest)
    | _ => .more

/-- One iteration of the loop over the announced elements. -/
def parseArgument (limits : Limits) : Parser Bytes := do
  expect 36 .expectedBulkString
  let lengthLine ← line
  let length ← parseSize lengthLine .bulkStringLength
  if length > limits.maxBulkStringBytes then Scanner.failure (.protocol .bulkStringLimit)
  else bulkString length

def parseArguments (limits : Limits) : Nat → Parser (List Bytes)
  | 0 => pure []
  | count + 1 => do
      let argument ← parseArgument limits
      let rest ← parseArguments limits count
      pure (argument :: rest)

def parseCommand (limits : Limits) : Parser Command := do
  expect 42 .expectedArray
  let countLine ← line
  let count ← parseSize countLine .arrayLength
  if count > limits.maxArrayElements then Scanner.failure (.protocol .arrayLimit)
  -- `reserve` comes before the first element is looked at
  else if count > maxArguments then Scanner.failure .length
  else do
    let arguments ← parseArguments limits count
    pure ⟨arguments⟩

/-! ## The decoder -/

structure Decoder where
  limits : Limits := {}
  buffer : Bytes := []
  deriving DecidableEq, Repr

/-- Result of feeding bytes: the commands, the number of bytes they took off the front of the
buffer, and the decoder after them. -/
structure Fed where
  commands : List Command
  consumed : Nat
  decoder : Decoder
  deriving DecidableEq, Repr

/-- `feed`; an error stands for the exception it throws. -/
def Decoder.feed (d : Decoder) (bytes : Bytes) : Except DecodeError Fed :=
  if bytes.length > sub64 d.limits.maxBufferBytes d.buffer.length then
    .error (.protocol .bufferLimit)
  else
    (Scanner.drain (parseCommand d.limits) (d.buffer ++ bytes)).map fun (commands, left) =>
      { commands := commands
        consumed := (d.buffer ++ bytes).length - left.length
        decoder := { d with buffer := left } }

/-- Chunks fed one after the other, with everything they returned. -/
def Decoder.feedAll (d : Decoder) : List Bytes → Except DecodeError Fed
  | [] => .ok { commands := [], consumed := 0, decoder := d }
  | chunk :: rest => do
      let fed ← d.feed chunk
      let others ← fed.decoder.feedAll rest
      pure { others with
        commands := fed.commands ++ others.commands
        consumed := fed.consumed + others.consumed }

/-! ## Later bytes do not change what was read -/

open Scanner

theorem readLine_append {input text rest : Bytes} (hline : readLine input = some (text, rest))
    (more : Bytes) : readLine (input ++ more) = some (text, rest ++ more) := by
  fun_induction readLine input generalizing text rest with
  | case1 => cases hline
  | case2 => cases hline
  | case3 b c after hcrlf =>
      obtain ⟨rfl, rfl⟩ := Prod.mk.inj (Option.some.inj hline)
      simp [readLine, hcrlf]
  | case4 b c after hother ih =>
      obtain ⟨⟨text', rest'⟩, hrec, heq⟩ := Option.map_eq_some_iff.mp hline
      obtain ⟨rfl, rfl⟩ := Prod.mk.inj heq
      have htail := ih hrec
      simp only [List.cons_append] at htail ⊢
      rw [readLine, if_neg hother, htail]
      rfl

theorem readLine_suffix {input text rest : Bytes} (hline : readLine input = some (text, rest)) :
    rest <:+ input ∧ rest.length < input.length := by
  fun_induction readLine input generalizing text rest with
  | case1 => cases hline
  | case2 => cases hline
  | case3 b c after hcrlf =>
      obtain ⟨rfl, rfl⟩ := Prod.mk.inj (Option.some.inj hline)
      refine ⟨⟨[b, c], rfl⟩, ?_⟩
      simp only [List.length_cons]
      omega
  | case4 b c after hother ih =>
      obtain ⟨⟨text', rest'⟩, hrec, heq⟩ := Option.map_eq_some_iff.mp hline
      obtain ⟨rfl, rfl⟩ := Prod.mk.inj heq
      obtain ⟨hsuffix, hlt⟩ := ih hrec
      refine ⟨hsuffix.trans (List.suffix_cons b _), ?_⟩
      simp only [List.length_cons] at hlt ⊢
      omega

theorem run_line (input : Bytes) :
    line.run input = (readLine input).elim .more .done := by
  cases hline : readLine input with
  | none => simp [StateT.run, line, hline]
  | some p => simp [StateT.run, line, hline]

theorem stable_line : Stable line := by
  refine ⟨fun input more error h => ?_, fun input more text rest h => ?_⟩
  · rw [run_line] at h
    cases hline : readLine input with
    | none =>
        rw [hline] at h
        cases h
    | some p =>
        rw [hline] at h
        cases h
  · rw [run_line] at h ⊢
    cases hline : readLine input with
    | none =>
        rw [hline] at h
        cases h
    | some p =>
        rw [hline] at h
        obtain rfl := Verdict.done.inj h
        rw [readLine_append hline more]
        rfl

theorem shrinks_line : Shrinks line := by
  intro input text rest h
  rw [run_line] at h
  cases hline : readLine input with
  | none =>
      rw [hline] at h
      cases h
  | some p =>
      rw [hline] at h
      obtain rfl := Verdict.done.inj h
      exact (readLine_suffix hline).1

theorem stable_parseSize (value : Bytes) (field : SizeField) : Stable (parseSize value field) := by
  unfold parseSize
  refine .ite (stable_failure _) ?_
  split
  · exact stable_failure _
  · exact stable_pure _

theorem shrinks_parseSize (value : Bytes) (field : SizeField) :
    Shrinks (parseSize value field) := by
  unfold parseSize
  refine .ite (shrinks_failure _) ?_
  split
  · exact shrinks_failure _
  · exact shrinks_pure _

theorem stable_expect (byte : UInt8) (error : ProtocolError) : Stable (expect byte error) := by
  refine ⟨fun input more e h => ?_, fun input more u rest h => ?_⟩
  · cases input with
    | nil => cases h
    | cons b tail =>
        simp only [StateT.run, expect, List.cons_append] at h ⊢
        split at h
        next hb => rwa [if_pos hb]
        · cases h
  · cases input with
    | nil => cases h
    | cons b tail =>
        simp only [StateT.run, expect, List.cons_append] at h ⊢
        split at h
        · cases h
        next hb =>
          cases h
          rw [if_neg hb]

/-- It takes exactly the byte. -/
theorem expect_consumes {byte : UInt8} {error : ProtocolError} {input rest : Bytes} {u : Unit}
    (hrun : (expect byte error).run input = .done (u, rest)) : input = byte :: rest := by
  cases input with
  | nil => cases hrun
  | cons b tail =>
      simp only [StateT.run, expect] at hrun
      split at hrun
      · cases hrun
      next hb =>
        cases hrun
        rw [not_not.mp hb]

theorem shrinks_expect (byte : UInt8) (error : ProtocolError) : Shrinks (expect byte error) := by
  intro input u rest h
  rw [expect_consumes h]
  exact List.suffix_cons _ _

/-- The payload's verdict rests on the bytes up to its CRLF. -/
theorem run_bulkString {length : Nat} {input : Bytes} (hlength : length + 2 ≤ input.length) :
    ∃ b c rest, input.drop length = b :: c :: rest ∧
      (bulkString length).run input =
        if b ≠ 13 ∨ c ≠ 10 then .fail (.protocol .missingCrlf)
        else .done (input.take length, rest) := by
  obtain ⟨b, tail, htail⟩ : ∃ b tail, input.drop length = b :: tail :=
    List.exists_cons_of_length_pos (by rw [List.length_drop]; omega)
  obtain ⟨c, rest, hrest⟩ : ∃ c rest, tail = c :: rest := by
    have hlen := congrArg List.length htail
    simp only [List.length_drop, List.length_cons] at hlen
    exact List.exists_cons_of_length_pos (by omega)
  subst hrest
  refine ⟨b, c, rest, htail, ?_⟩
  simp only [StateT.run, bulkString, htail]
  rw [if_neg (by omega), if_neg (by omega)]

theorem run_bulkString_short {length : Nat} {input : Bytes}
    (hlength : ¬ length + 2 ≤ input.length) :
    (bulkString length).run input = .more := by
  simp only [StateT.run, bulkString]
  split
  · rfl
  · rw [if_pos (by omega)]

theorem stable_bulkString (length : Nat) : Stable (bulkString length) := by
  have hextend : ∀ {input : Bytes} more {b c rest}, length + 2 ≤ input.length →
      input.drop length = b :: c :: rest →
      (bulkString length).run (input ++ more) =
        if b ≠ 13 ∨ c ≠ 10 then .fail (.protocol .missingCrlf)
        else .done (input.take length, rest ++ more) := by
    intro input more b c rest hlength hdrop
    have hlonger : length + 2 ≤ (input ++ more).length := by
      rw [List.length_append]
      omega
    obtain ⟨b', c', rest', hdrop', hrun⟩ := run_bulkString hlonger
    rw [List.drop_append_of_le_length (by omega), hdrop] at hdrop'
    simp only [List.cons_append, List.cons.injEq] at hdrop'
    obtain ⟨rfl, rfl, rfl⟩ := hdrop'
    rw [hrun, List.take_append_of_le_length (by omega)]
  refine ⟨fun input more error h => ?_, fun input more value rest h => ?_⟩ <;>
    by_cases hlength : length + 2 ≤ input.length
  · obtain ⟨b, c, after, hdrop, hrun⟩ := run_bulkString hlength
    rw [hextend more hlength hdrop]
    rw [hrun] at h
    split at h
    next hcrlf => rwa [if_pos hcrlf]
    · cases h
  · rw [run_bulkString_short hlength] at h
    cases h
  · obtain ⟨b, c, after, hdrop, hrun⟩ := run_bulkString hlength
    rw [hextend more hlength hdrop]
    rw [hrun] at h
    split at h
    · cases h
    next hcrlf =>
      cases h
      rw [if_neg hcrlf]
  · rw [run_bulkString_short hlength] at h
    cases h

theorem shrinks_bulkString (length : Nat) : Shrinks (bulkString length) := by
  intro input value rest h
  by_cases hlength : length + 2 ≤ input.length
  · obtain ⟨b, c, after, hdrop, hrun⟩ := run_bulkString hlength
    rw [hrun] at h
    split at h
    · cases h
    · cases h
      have hsuffix : b :: c :: rest <:+ input := hdrop ▸ List.drop_suffix length input
      exact (List.suffix_cons c rest).trans ((List.suffix_cons b _).trans hsuffix)
  · rw [run_bulkString_short hlength] at h
    cases h

variable (limits : Limits)

theorem stable_parseArgument : Stable (parseArgument limits) :=
  (stable_expect _ _).bind fun _ => stable_line.bind fun _ => (stable_parseSize _ _).bind fun _ =>
    .ite (stable_failure _) (stable_bulkString _)

theorem shrinks_parseArgument : Shrinks (parseArgument limits) :=
  (shrinks_expect _ _).bind fun _ => shrinks_line.bind fun _ =>
    (shrinks_parseSize _ _).bind fun _ => .ite (shrinks_failure _) (shrinks_bulkString _)

theorem stable_parseArguments (count : Nat) : Stable (parseArguments limits count) := by
  induction count with
  | zero => exact stable_pure []
  | succ count ih =>
      exact (stable_parseArgument limits).bind fun _ => ih.bind fun _ => stable_pure _

theorem shrinks_parseArguments (count : Nat) : Shrinks (parseArguments limits count) := by
  induction count with
  | zero => exact shrinks_pure []
  | succ count ih =>
      exact (shrinks_parseArgument limits).bind fun _ => ih.bind fun _ => shrinks_pure _

/-- A parse verdict on a part of the stream is final, and a request takes at least a byte. -/
theorem reads_parseCommand : Reads (parseCommand limits) where
  stable := (stable_expect _ _).bind fun _ => stable_line.bind fun _ =>
    (stable_parseSize _ _).bind fun _ => .ite (stable_failure _) (.ite (stable_failure _)
      ((stable_parseArguments limits _).bind fun _ => stable_pure _))
  consumes input command rest hrun := by
    obtain ⟨u, tail, hstar, hrest⟩ := run_bind_done hrun
    have htail : rest <:+ tail := by
      refine Shrinks.bind shrinks_line (fun _ => (shrinks_parseSize _ _).bind fun _ =>
        .ite (shrinks_failure _) (.ite (shrinks_failure _) ?_)) tail command rest hrest
      exact (shrinks_parseArguments limits _).bind fun _ => shrinks_pure _
    rw [expect_consumes hstar]
    refine ⟨htail.trans (List.suffix_cons _ _), ?_⟩
    rw [List.length_cons]
    exact Nat.lt_succ_of_le htail.length_le

/-! ## Feeding in pieces -/

variable {limits}

theorem Decoder.feed_ok {d : Decoder} {bytes : Bytes} {fed : Fed} (hfeed : d.feed bytes = .ok fed) :
    drain (parseCommand d.limits) (d.buffer ++ bytes) = .ok (fed.commands, fed.decoder.buffer) ∧
      fed.decoder.limits = d.limits ∧
      fed.consumed + fed.decoder.buffer.length = d.buffer.length + bytes.length := by
  unfold feed at hfeed
  split at hfeed
  · cases hfeed
  · cases hdrain : drain (parseCommand d.limits) (d.buffer ++ bytes) with
    | error e =>
        rw [hdrain] at hfeed
        cases hfeed
    | ok p =>
        rw [hdrain] at hfeed
        obtain rfl := Except.ok.inj hfeed
        refine ⟨rfl, rfl, ?_⟩
        have hle := (drain_left (reads_parseCommand d.limits) hdrain).2.length_le
        rw [List.length_append] at hle
        simp only [List.length_append]
        omega

/-- Whatever the pieces, the result is that of the whole stream in front of the decoder. -/
theorem Decoder.feedAll_ok {d : Decoder} {chunks : List Bytes} {fed : Fed}
    (hmore : (parseCommand d.limits).run d.buffer = .more)
    (hfeed : d.feedAll chunks = .ok fed) :
    drain (parseCommand d.limits) (d.buffer ++ chunks.flatten) =
        .ok (fed.commands, fed.decoder.buffer) ∧
      fed.consumed + fed.decoder.buffer.length = d.buffer.length + chunks.flatten.length := by
  induction chunks generalizing d fed with
  | nil =>
      obtain rfl := Except.ok.inj hfeed
      rw [List.flatten_nil, List.append_nil, drain_eq (reads_parseCommand d.limits), hmore]
      exact ⟨rfl, by simp⟩
  | cons chunk rest ih =>
      cases hfirst : d.feed chunk with
      | error e =>
          simp only [feedAll, hfirst] at hfeed
          cases hfeed
      | ok first =>
          obtain ⟨hdrain, hlimits, hsize⟩ := feed_ok hfirst
          have hleft := (drain_left (reads_parseCommand d.limits) hdrain).1
          cases hothers : first.decoder.feedAll rest with
          | error e =>
              simp only [feedAll, hfirst, bind, Except.bind, hothers] at hfeed
              cases hfeed
          | ok others =>
              simp only [feedAll, hfirst, bind, Except.bind, hothers] at hfeed
              obtain rfl := Except.ok.inj hfeed
              obtain ⟨hrest, hrestSize⟩ := ih (hlimits ▸ hleft) hothers
              rw [hlimits] at hrest
              constructor
              · rw [List.flatten_cons, ← List.append_assoc,
                  drain_append (reads_parseCommand d.limits) hdrain, hrest]
                rfl
              · simp only [List.flatten_cons, List.length_append]
                omega

/-- However a stream is cut, if no feed throws, the commands and the bytes left in the
buffer are the same, and no byte is lost or counted twice. -/
theorem feed_cut_independent (limits : Limits) {chunks others : List Bytes} {first second : Fed}
    (hsame : chunks.flatten = others.flatten)
    (hfirst : ({ limits := limits } : Decoder).feedAll chunks = .ok first)
    (hsecond : ({ limits := limits } : Decoder).feedAll others = .ok second) :
    first.commands = second.commands ∧ first.decoder.buffer = second.decoder.buffer ∧
      first.consumed + first.decoder.buffer.length = chunks.flatten.length := by
  have hempty : (parseCommand limits).run [] = .more := rfl
  obtain ⟨hdrain, hsize⟩ := Decoder.feedAll_ok (d := { limits := limits }) hempty hfirst
  obtain ⟨hdrain', -⟩ := Decoder.feedAll_ok (d := { limits := limits }) hempty hsecond
  rw [hsame, hdrain'] at hdrain
  obtain ⟨hcommands, hbuffer⟩ := Prod.mk.inj (Except.ok.inj hdrain)
  exact ⟨hcommands.symm, hbuffer.symm, by simpa using hsize⟩

/-- `PING` and the start of a `GET`, as bytes. -/
def pingAndMore : Bytes :=
  [42, 49, 13, 10, 36, 52, 13, 10, 80, 73, 78, 71, 13, 10, 42, 50, 13]

theorem feed_cut_independent_ping :
    ∃ first second : Fed,
      ({} : Decoder).feedAll [pingAndMore] = .ok first ∧
      ({} : Decoder).feedAll (pingAndMore.map fun b => [b]) = .ok second ∧
      first.commands = [⟨[[80, 73, 78, 71]]⟩] ∧ first.commands = second.commands ∧
      first.decoder.buffer = second.decoder.buffer := by
  have hfirst : ({ limits := {} } : Decoder).feedAll [pingAndMore] =
      .ok ⟨[⟨[[80, 73, 78, 71]]⟩], 14, ⟨{}, [42, 50, 13]⟩⟩ := by
    rfl
  have hsecond : ({ limits := {} } : Decoder).feedAll (pingAndMore.map fun b => [b]) =
      .ok ⟨[⟨[[80, 73, 78, 71]]⟩], 14, ⟨{}, [42, 50, 13]⟩⟩ := by
    rfl
  have hsame := feed_cut_independent {} (by rfl) hfirst hsecond
  exact ⟨_, _, hfirst, hsecond, rfl, hsame.1, hsame.2.1⟩

end RaftKv.Resp
