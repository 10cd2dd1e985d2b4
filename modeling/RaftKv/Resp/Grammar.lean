import Mathlib.Data.Nat.Digits.Defs
import RaftKv.Resp.Codec

/-! # The grammar of requests

A request is an array of bulk strings, with the number of strings and the length of each
in decimal. `parse_command` reads exactly these: it returns a request when the input
starts with one, asks for more on every part of one, and throws only where none can
follow. What the clients' `encode_command` writes is one of them.
-/

namespace RaftKv.Resp

open Scanner

def crlf : Bytes := [13, 10]

/-! ## The grammar -/

/-- The number a row of decimal digits stands for. -/
def decimalValue (digits : Bytes) : Nat :=
  digits.foldl (fun value b => 10 * value + (b.toNat - 48)) 0

/-- One or more decimal digits of a number that fits `size_t`. -/
structure Decimal (digits : Bytes) (n : Nat) : Prop where
  nonempty : digits ≠ []
  digit : ∀ b ∈ digits, 48 ≤ b ∧ b ≤ 57
  value : decimalValue digits = n
  fits : n < 2 ^ 64

def IsArgument (limits : Limits) (argument text : Bytes) : Prop :=
  argument.length ≤ limits.maxBulkStringBytes ∧
    ∃ digits, Decimal digits argument.length ∧ text = 36 :: (digits ++ crlf) ++ argument ++ crlf

/-- The texts of the arguments one after the other. -/
inductive AreArguments (limits : Limits) : List Bytes → Bytes → Prop
  | nil : AreArguments limits [] []
  | cons {argument text : Bytes} {arguments : List Bytes} {texts : Bytes}
      (hfirst : IsArgument limits argument text) (hrest : AreArguments limits arguments texts) :
      AreArguments limits (argument :: arguments) (text ++ texts)

def IsFrame (limits : Limits) (command : Command) (text : Bytes) : Prop :=
  command.arguments.length ≤ limits.maxArrayElements ∧
    ∃ digits texts, Decimal digits command.arguments.length ∧
      AreArguments limits command.arguments texts ∧ text = 42 :: (digits ++ crlf) ++ texts

/-! ## The parts of the parser -/

theorem fromChars_eq_some_iff {start n : Nat} {digits : Bytes} :
    fromChars start digits = some n ↔ (∀ b ∈ digits, 48 ≤ b ∧ b ≤ 57) ∧
      digits.foldl (fun value b => 10 * value + (b.toNat - 48)) start = n ∧ n < 2 ^ 64 := by
  induction digits generalizing start with
  | nil =>
      simp only [fromChars, List.not_mem_nil, false_implies, implies_true, List.foldl_nil, true_and]
      split
      next hfits => constructor <;> grind
      next hbig => constructor <;> grind
  | cons b rest ih =>
      rw [fromChars, List.forall_mem_cons, List.foldl_cons]
      split
      next hdigit => rw [ih]; simp [hdigit]
      next hother => simp [hother]

theorem accepts_parseSize (value : Bytes) (field : SizeField) :
    Accepts (parseSize value field) fun n front => Decimal value n ∧ front = [] := by
  unfold parseSize
  split
  next hempty =>
    refine (accepts_failure _).congr fun n front => ⟨False.elim, fun ⟨hdecimal, _⟩ => ?_⟩
    exact hdecimal.nonempty (List.isEmpty_iff.mp hempty)
  next hnonempty =>
    split
    next hchars =>
      refine (accepts_failure _).congr fun n front => ⟨False.elim, fun ⟨hdecimal, _⟩ => ?_⟩
      have hsome := fromChars_eq_some_iff.mpr ⟨hdecimal.digit, hdecimal.value, hdecimal.fits⟩
      rw [hchars] at hsome
      cases hsome
    next size hchars =>
      obtain ⟨hdigit, hvalue, hfits⟩ := fromChars_eq_some_iff.mp hchars
      refine (accepts_pure size).congr fun n front => and_congr_left fun _ => ⟨?_, ?_⟩
      · rintro rfl
        exact ⟨fun h => hnonempty (List.isEmpty_iff.mpr h), hdigit, hvalue, hfits⟩
      · intro hdecimal
        exact hdecimal.value.symm.trans hvalue

theorem accepts_expect (byte : UInt8) (error : ProtocolError) :
    Accepts (expect byte error) fun _ front => front = [byte] := by
  intro input u rest
  constructor
  · intro hrun
    exact ⟨[byte], rfl, expect_consumes hrun⟩
  · rintro ⟨_, rfl, rfl⟩
    simp [StateT.run, expect]

theorem readLine_split {input text rest : Bytes} (hline : readLine input = some (text, rest)) :
    input = text ++ crlf ++ rest ∧ readLine (text ++ crlf) = some (text, []) := by
  fun_induction readLine input generalizing text rest with
  | case1 => cases hline
  | case2 => cases hline
  | case3 b c after hcrlf =>
      obtain ⟨rfl, rfl⟩ := Prod.mk.inj (Option.some.inj hline)
      simp [crlf, readLine, hcrlf]
  | case4 b c after hother ih =>
      obtain ⟨⟨tail, left⟩, hrec, heq⟩ := Option.map_eq_some_iff.mp hline
      obtain ⟨rfl, rfl⟩ := Prod.mk.inj heq
      obtain ⟨hinput, hfirst⟩ := ih hrec
      refine ⟨by rw [hinput]; rfl, ?_⟩
      -- the first two bytes are those of the input
      cases htail : tail ++ crlf with
      | nil => simp [crlf] at htail
      | cons d others =>
          have hd : d = c := by
            rw [htail] at hinput
            exact (List.cons.inj hinput).1.symm
          subst hd
          rw [List.cons_append, htail, readLine, if_neg hother, ← htail, hfirst]
          rfl

/-- The line ends at the first CRLF. -/
theorem accepts_line :
    Accepts line fun text front => front = text ++ crlf ∧ readLine front = some (text, []) := by
  intro input text rest
  have hrun : line.run input = .done (text, rest) ↔ readLine input = some (text, rest) := by
    rw [run_line]
    cases readLine input <;> simp
  rw [hrun]
  constructor
  · intro hline
    obtain ⟨hfront, hfirst⟩ := readLine_split hline
    exact ⟨text ++ crlf, ⟨rfl, hfirst⟩, hfront⟩
  · rintro ⟨_, ⟨rfl, hfirst⟩, rfl⟩
    exact readLine_append hfirst rest

/-- A text without a carriage return is a line. -/
theorem readLine_crlf {text : Bytes} (htext : 13 ∉ text) :
    readLine (text ++ crlf) = some (text, []) := by
  induction text with
  | nil => rfl
  | cons b rest ih =>
      obtain ⟨hcr, hrest⟩ := not_or.mp (mt List.mem_cons.mpr htext)
      cases htail : rest ++ crlf with
      | nil => simp [crlf] at htail
      | cons c others =>
          rw [List.cons_append, htail, readLine, if_neg fun h => hcr h.1.symm, ← htail, ih hrest]
          rfl

theorem readLine_digits {digits : Bytes} (hdigits : ∀ b ∈ digits, 48 ≤ b ∧ b ≤ 57) :
    readLine (digits ++ crlf) = some (digits, []) :=
  readLine_crlf fun hcr => absurd (hdigits 13 hcr).1 (by decide)

/-- A size, the end of its line, and what is read according to it. -/
theorem accepts_size {β : Type} (field : SizeField) {next : Nat → Parser β}
    {text : Nat → β → Bytes → Prop} (hnext : ∀ n, Accepts (next n) (text n)) :
    Accepts (line >>= fun value => parseSize value field >>= next) fun b front =>
      ∃ n digits rest, Decimal digits n ∧ text n b rest ∧ front = digits ++ crlf ++ rest := by
  refine (accepts_line.bind fun value => (accepts_parseSize value field).bind hnext).congr
    fun b front => ?_
  constructor
  · rintro ⟨digits, _, _, ⟨rfl, -⟩, ⟨n, _, rest, ⟨hdecimal, rfl⟩, hrest, heq⟩, rfl⟩
    exact ⟨n, digits, rest, hdecimal, hrest, congrArg (digits ++ crlf ++ ·) heq⟩
  · rintro ⟨n, digits, rest, hdecimal, hrest, rfl⟩
    exact ⟨digits, _, rest, ⟨rfl, readLine_digits hdecimal.digit⟩,
      ⟨n, [], rest, ⟨hdecimal, rfl⟩, hrest, rfl⟩, rfl⟩

theorem accepts_bulkString (length : Nat) :
    Accepts (bulkString length) fun argument front =>
      argument.length = length ∧ front = argument ++ crlf := by
  intro input argument rest
  constructor
  · intro hdone
    by_cases hlength : length + 2 ≤ input.length
    · obtain ⟨b, c, after, hdrop, hrun⟩ := run_bulkString hlength
      rw [hrun] at hdone
      split at hdone
      · cases hdone
      next hcrlf =>
        obtain ⟨rfl, rfl⟩ := Prod.mk.inj (Verdict.done.inj hdone)
        push Not at hcrlf
        obtain ⟨rfl, rfl⟩ := hcrlf
        refine ⟨input.take length ++ crlf, ⟨?_, rfl⟩, ?_⟩
        · rw [List.length_take]
          omega
        · rw [List.append_assoc, show crlf ++ after = input.drop length from hdrop.symm,
            List.take_append_drop]
    · rw [run_bulkString_short hlength] at hdone
      cases hdone
  · rintro ⟨_, ⟨rfl, rfl⟩, rfl⟩
    have hlength : argument.length + 2 ≤ (argument ++ crlf ++ rest).length := by
      simp only [List.length_append, crlf, List.length_cons, List.length_nil]
      omega
    obtain ⟨b, c, after, hdrop, hrun⟩ := run_bulkString hlength
    rw [List.append_assoc, List.drop_left] at hdrop
    obtain ⟨rfl, rfl, rfl⟩ : (13 : UInt8) = b ∧ (10 : UInt8) = c ∧ rest = after := by
      simpa [crlf] using hdrop
    rw [hrun, List.append_assoc, List.take_left]
    simp

variable (limits : Limits)

theorem accepts_parseArgument : Accepts (parseArgument limits) (IsArgument limits) := by
  refine ((accepts_expect 36 _).bind fun _ => accepts_size _ fun length =>
    (accepts_failure _).ite (accepts_bulkString length)).congr fun argument front => ?_
  constructor
  · rintro ⟨_, _, _, rfl, ⟨n, digits, _, hdecimal, hrest, rfl⟩, rfl⟩
    rcases hrest with ⟨-, hfalse⟩ | ⟨hlimit, rfl, rfl⟩
    · exact hfalse.elim
    · exact ⟨Nat.not_lt.mp hlimit, digits, hdecimal, by simp⟩
  · rintro ⟨hlimit, digits, hdecimal, rfl⟩
    exact ⟨(), _, _, rfl, ⟨_, digits, _, hdecimal, .inr ⟨Nat.not_lt.mpr hlimit, rfl, rfl⟩, rfl⟩,
      by simp⟩

theorem accepts_parseArguments (count : Nat) :
    Accepts (parseArguments limits count) fun arguments front =>
      arguments.length = count ∧ AreArguments limits arguments front := by
  induction count with
  | zero =>
      refine (accepts_pure []).congr fun arguments front => ⟨?_, ?_⟩
      · rintro ⟨rfl, rfl⟩
        exact ⟨rfl, .nil⟩
      · rintro ⟨hnone, harguments⟩
        obtain rfl := List.eq_nil_of_length_eq_zero hnone
        cases harguments
        exact ⟨rfl, rfl⟩
  | succ count ih =>
      refine ((accepts_parseArgument limits).bind fun argument => ih.bind fun arguments =>
        accepts_pure (argument :: arguments)).congr fun arguments front => ⟨?_, ?_⟩
      · rintro ⟨argument, text, _, hfirst, ⟨others, texts, _, ⟨hcount, hothers⟩, ⟨rfl, rfl⟩, rfl⟩,
          rfl⟩
        rw [List.append_nil]
        exact ⟨congrArg (· + 1) hcount, .cons hfirst hothers⟩
      · rintro ⟨hcount, harguments⟩
        cases harguments with
        | nil => cases hcount
        | @cons argument text others texts hfirst hothers =>
            exact ⟨argument, text, texts, hfirst, ⟨others, texts, [],
              ⟨Nat.succ.inj hcount, hothers⟩, ⟨rfl, rfl⟩, (List.append_nil _).symm⟩, rfl⟩

/-- A request is read when a vector can hold its arguments. -/
theorem accepts_parseCommand : Accepts (parseCommand limits) fun command text =>
    command.arguments.length ≤ maxArguments ∧ IsFrame limits command text := by
  refine ((accepts_expect 42 _).bind fun _ => accepts_size _ fun count =>
    (accepts_failure _).ite ((accepts_failure _).ite
      ((accepts_parseArguments limits count).bind fun arguments =>
        accepts_pure (Command.mk arguments)))).congr fun command front => ?_
  constructor
  · rintro ⟨_, _, _, rfl, ⟨n, digits, _, hdecimal, hrest, rfl⟩, rfl⟩
    rcases hrest with ⟨-, hfalse⟩ | ⟨hlimit, ⟨-, hfalse⟩ | ⟨hroom, hread⟩⟩
    · exact hfalse.elim
    · exact hfalse.elim
    · obtain ⟨arguments, texts, _, ⟨rfl, harguments⟩, ⟨rfl, rfl⟩, rfl⟩ := hread
      exact ⟨Nat.not_lt.mp hroom, Nat.not_lt.mp hlimit, digits, texts, hdecimal, harguments,
        by simp⟩
  · rintro ⟨hroom, hlimit, digits, texts, hdecimal, harguments, rfl⟩
    exact ⟨(), _, _, rfl, ⟨_, digits, _, hdecimal, .inr ⟨Nat.not_lt.mpr hlimit,
      .inr ⟨Nat.not_lt.mpr hroom, command.arguments, texts, [], ⟨rfl, harguments⟩, ⟨rfl, rfl⟩,
        rfl⟩⟩, rfl⟩, by simp⟩

/-- The header of a longer one is enough to throw. -/
theorem parseCommand_oversize {digits : Bytes} {count : Nat} (hdecimal : Decimal digits count)
    (hlimit : count ≤ limits.maxArrayElements) (hroom : maxArguments < count) (rest : Bytes) :
    (parseCommand limits).run (42 :: (digits ++ crlf) ++ rest) = .fail .length := by
  have hstar : (expect 42 .expectedArray).run (42 :: (digits ++ crlf) ++ rest) =
      .done ((), digits ++ crlf ++ rest) := by
    simp [StateT.run, expect]
  have hline := (accepts_line _ digits rest).mpr
    ⟨digits ++ crlf, ⟨rfl, readLine_digits hdecimal.digit⟩, rfl⟩
  have hsize := (accepts_parseSize digits .arrayLength rest count rest).mpr
    ⟨[], ⟨hdecimal, rfl⟩, rfl⟩
  unfold parseCommand
  rw [run_bind_of_done hstar, run_bind_of_done hline, run_bind_of_done hsize,
    if_neg (Nat.not_lt.mpr hlimit), if_pos hroom]
  rfl

/-! ## What clients write -/

/-- `std::to_string` of a size. -/
def toDecimal (n : Nat) : Bytes :=
  if n = 0 then [48] else (Nat.digits 10 n).reverse.map fun digit => .ofNat (48 + digit)

def encodeBulkString (value : Bytes) : Bytes :=
  36 :: (toDecimal value.length ++ crlf) ++ value ++ crlf

/-- A request as a client sends it. -/
def encodeCommand (arguments : List Bytes) : Bytes :=
  42 :: (toDecimal arguments.length ++ crlf) ++ arguments.flatMap encodeBulkString

theorem toNat_digit {digit : Nat} (hdigit : digit < 10) :
    (UInt8.ofNat (48 + digit)).toNat = 48 + digit := by
  rw [UInt8.toNat_ofNat']
  omega

theorem decimalValue_reverse {digits : List Nat} (hdigits : ∀ digit ∈ digits, digit < 10) :
    decimalValue (digits.reverse.map fun digit => .ofNat (48 + digit)) =
      Nat.ofDigits 10 digits := by
  induction digits with
  | nil => rfl
  | cons digit digits ih =>
      obtain ⟨hdigit, hrest⟩ := List.forall_mem_cons.mp hdigits
      rw [decimalValue] at ih ⊢
      rw [List.reverse_cons, List.map_append, List.foldl_append, ih hrest]
      simp only [List.map_cons, List.map_nil, List.foldl_cons, List.foldl_nil, toNat_digit hdigit,
        Nat.ofDigits_cons]
      omega

theorem toDecimal_ne_nil (n : Nat) : toDecimal n ≠ [] := by
  unfold toDecimal
  split
  · exact List.cons_ne_nil _ _
  next hpos => simpa using Nat.digits_ne_nil_iff_ne_zero.mpr hpos

theorem toDecimal_digit {n : Nat} : ∀ b ∈ toDecimal n, 48 ≤ b ∧ b ≤ 57 := by
  unfold toDecimal
  split
  · simp
  · intro b hb
    obtain ⟨digit, hdigit, rfl⟩ := List.mem_map.mp hb
    have hlt : digit < 10 := Nat.digits_lt_base (by decide) (List.mem_reverse.mp hdigit)
    rw [UInt8.le_iff_toNat_le, UInt8.le_iff_toNat_le, toNat_digit hlt]
    exact ⟨Nat.le_add_right 48 digit, Nat.add_le_add_left (Nat.le_of_lt_succ hlt) 48⟩

theorem decimalValue_toDecimal (n : Nat) : decimalValue (toDecimal n) = n := by
  unfold toDecimal
  split
  next hzero =>
    subst hzero
    rfl
  · rw [decimalValue_reverse fun _ hdigit => Nat.digits_lt_base (by decide) hdigit,
      Nat.ofDigits_digits]

theorem decimal_toDecimal {n : Nat} (hfits : n < 2 ^ 64) : Decimal (toDecimal n) n :=
  ⟨toDecimal_ne_nil n, toDecimal_digit, decimalValue_toDecimal n, hfits⟩

theorem areArguments_encode {arguments : List Bytes}
    (hlength : ∀ argument ∈ arguments,
      argument.length ≤ limits.maxBulkStringBytes ∧ argument.length < 2 ^ 64) :
    AreArguments limits arguments (arguments.flatMap encodeBulkString) := by
  induction arguments with
  | nil => exact .nil
  | cons argument arguments ih =>
      obtain ⟨⟨hlimit, hfits⟩, hrest⟩ := List.forall_mem_cons.mp hlength
      exact .cons ⟨hlimit, _, decimal_toDecimal hfits, rfl⟩ (ih hrest)

theorem length_le_encode (arguments : List Bytes) :
    arguments.length ≤ (arguments.flatMap encodeBulkString).length ∧
      ∀ argument ∈ arguments, argument.length ≤ (arguments.flatMap encodeBulkString).length := by
  induction arguments with
  | nil => simp
  | cons argument arguments ih =>
      have hown : argument.length + 1 ≤ (encodeBulkString argument).length := by
        simp only [encodeBulkString, List.length_append, List.length_cons]
        omega
      simp only [List.length_cons, List.flatMap_cons, List.length_append, List.forall_mem_cons]
      refine ⟨by omega, by omega, fun other hother => ?_⟩
      have := ih.2 other hother
      omega

theorem isFrame_encodeCommand {arguments : List Bytes}
    (hcount : arguments.length ≤ limits.maxArrayElements)
    (hlength : ∀ argument ∈ arguments, argument.length ≤ limits.maxBulkStringBytes)
    (hsize : (encodeCommand arguments).length < 2 ^ 64) :
    IsFrame limits ⟨arguments⟩ (encodeCommand arguments) := by
  obtain ⟨hmany, hlong⟩ := length_le_encode arguments
  have hparts : (arguments.flatMap encodeBulkString).length < 2 ^ 64 := by
    simp only [encodeCommand, List.length_append] at hsize
    omega
  refine ⟨hcount, _, _, decimal_toDecimal (hmany.trans_lt hparts), areArguments_encode limits ?_,
    rfl⟩
  exact fun argument hargument =>
    ⟨hlength argument hargument, (hlong argument hargument).trans_lt hparts⟩

/-- A decoder with nothing buffered reads back what a client wrote, and keeps nothing. -/
theorem feed_encodeCommand {arguments : List Bytes} (hlimits : limits.maxBufferBytes < 2 ^ 64)
    (hroom : arguments.length ≤ maxArguments)
    (hcount : arguments.length ≤ limits.maxArrayElements)
    (hlength : ∀ argument ∈ arguments, argument.length ≤ limits.maxBulkStringBytes)
    (hsize : (encodeCommand arguments).length ≤ limits.maxBufferBytes) :
    ({ limits := limits } : Decoder).feed (encodeCommand arguments) =
      .ok ⟨[⟨arguments⟩], (encodeCommand arguments).length, { limits := limits }⟩ := by
  have hframe := isFrame_encodeCommand limits hcount hlength (hsize.trans_lt hlimits)
  have hdone := (accepts_parseCommand limits (encodeCommand arguments) ⟨arguments⟩ []).mpr
    ⟨_, ⟨hroom, hframe⟩, (List.append_nil _).symm⟩
  have hempty : drain (parseCommand limits) [] = .ok ([], []) := rfl
  have hdrain : drain (parseCommand limits) (encodeCommand arguments) =
      .ok ([⟨arguments⟩], []) := by
    rw [drain_eq (reads_parseCommand limits), hdone]
    simp only [hempty]
    rfl
  have hfits : ¬ (encodeCommand arguments).length > sub64 limits.maxBufferBytes 0 := by
    rw [sub64_of_le (Nat.zero_le _) hlimits]
    omega
  simp only [Decoder.feed, List.length_nil, if_neg hfits, List.nil_append, hdrain]
  rfl

/-- Within what a vector can hold the parser accepts exactly the grammar: a request with the
number of bytes it takes, more input on every part of one, an error only where none can
follow; and it reads back what clients write. -/
theorem parseCommand_exact (hlimit : limits.maxArrayElements ≤ maxArguments) :
    (∀ input command n,
      (∃ rest, (parseCommand limits).run input = .done (command, rest) ∧
        input.length = n + rest.length) ↔
      n ≤ input.length ∧ IsFrame limits command (input.take n)) ∧
    (∀ input command text, IsFrame limits command text → input <+: text → input ≠ text →
      (parseCommand limits).run input = .more) ∧
    (∀ input error, (parseCommand limits).run input = .fail error →
      ∀ more command text, IsFrame limits command text → ¬ text <+: input ++ more) ∧
    (∀ arguments : List Bytes, limits.maxBufferBytes < 2 ^ 64 →
      arguments.length ≤ limits.maxArrayElements →
      (∀ argument ∈ arguments, argument.length ≤ limits.maxBulkStringBytes) →
      (encodeCommand arguments).length ≤ limits.maxBufferBytes →
      ({ limits := limits } : Decoder).feed (encodeCommand arguments) =
        .ok ⟨[⟨arguments⟩], (encodeCommand arguments).length, { limits := limits }⟩) := by
  have haccepts : Accepts (parseCommand limits) (IsFrame limits) :=
    (accepts_parseCommand limits).congr fun command text =>
      ⟨fun h => h.2, fun hframe => ⟨hframe.1.trans hlimit, hframe⟩⟩
  have hstable := (reads_parseCommand limits).stable
  refine ⟨fun input command n => ⟨?_, ?_⟩, ?_, ?_, ?_⟩
  · rintro ⟨rest, hrun, hn⟩
    obtain ⟨text, hframe, rfl⟩ := (haccepts input command rest).mp hrun
    obtain rfl : text.length = n := by simpa using hn
    refine ⟨by simp, ?_⟩
    rwa [List.take_left]
  · rintro ⟨hn, hframe⟩
    refine ⟨input.drop n, (haccepts _ _ _).mpr ⟨_, hframe, (List.take_append_drop _ _).symm⟩, ?_⟩
    rw [List.length_drop]
    omega
  · intro input command text hframe hpart hne
    exact haccepts.more hstable hframe hpart hne
  · intro input error hfail more command text hframe
    exact haccepts.rejects hstable hfail hframe more
  · intro arguments hlimits hcount hlength hsize
    exact feed_encodeCommand limits hlimits (hcount.trans hlimit) hcount hlength hsize

/-- `PING` in a longer stream, a part of it, a count without digits, and `PING` written by a
client. -/
theorem parseCommand_exact_ping :
    IsFrame {} ⟨[[80, 73, 78, 71]]⟩ (pingAndMore.take 14) ∧
      (parseCommand {}).run (pingAndMore.take 9) = .more ∧
      (¬ pingAndMore.take 14 <+: [42, 13, 10] ++ [49]) ∧
      ({} : Decoder).feed (encodeCommand [[80, 73, 78, 71]]) =
        .ok ⟨[⟨[[80, 73, 78, 71]]⟩], (encodeCommand [[80, 73, 78, 71]]).length, {}⟩ := by
  obtain ⟨hiff, hmore, hfail, hfeed⟩ := parseCommand_exact {} (by decide)
  have hframe := ((hiff pingAndMore ⟨[[80, 73, 78, 71]]⟩ 14).mp ⟨[42, 50, 13], rfl, rfl⟩).2
  refine ⟨hframe, hmore _ _ _ hframe (by decide) (by decide), ?_, ?_⟩
  · exact hfail [42, 13, 10] (.protocol (.emptySize .arrayLength)) rfl [49] _ _ hframe
  · exact hfeed [[80, 73, 78, 71]] (by decide) (by decide) (by decide) (by decide +kernel)

/-- Limits without a bound on the number of arguments. -/
def unlimited : Limits := { maxArrayElements := 2 ^ 64 - 1 }

/-- With these the header of a request of 10^18 empty strings, a part of that request, is not
waited for: `reserve` throws. -/
theorem parseCommand_reserve_throws :
    ∃ input command text, IsFrame unlimited command text ∧ input <+: text ∧ input ≠ text ∧
      (parseCommand unlimited).run input = .fail .length := by
  obtain ⟨n, hn⟩ : ∃ n, n = 10 ^ 18 := ⟨_, rfl⟩
  have hdecimal := decimal_toDecimal (show n < 2 ^ 64 by omega)
  have hlimit : n ≤ unlimited.maxArrayElements := by simp only [unlimited]; omega
  have hroom : maxArguments < n := by simp only [maxArguments]; omega
  have hcount : (List.replicate n ([] : Bytes)).length = n := List.length_replicate
  have hempty : ∀ argument ∈ List.replicate n ([] : Bytes),
      argument.length ≤ unlimited.maxBulkStringBytes ∧ argument.length < 2 ^ 64 := by
    intro argument hargument
    rw [List.eq_of_mem_replicate hargument]
    exact ⟨Nat.zero_le _, by decide⟩
  have harguments := areArguments_encode unlimited hempty
  have hthrows := parseCommand_oversize unlimited hdecimal hlimit hroom []
  rw [List.append_nil] at hthrows
  refine ⟨42 :: (toDecimal n ++ crlf), ⟨List.replicate n []⟩, _, ⟨hcount.trans_le hlimit, _, _,
    by rwa [hcount], harguments, rfl⟩, List.prefix_append _ _, fun heq => ?_, hthrows⟩
  have hnil := List.append_right_eq_self.mp heq.symm
  have hlong := (length_le_encode (List.replicate n [])).1
  rw [hnil, hcount] at hlong
  exact absurd hlong (by simp only [List.length_nil]; omega)

end RaftKv.Resp
