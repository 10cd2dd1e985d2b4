import Mathlib.Data.FinEnum
import RaftKv.Foundation.Reader
import RaftKv.Resp.Grammar

/-! # Replies

The encoders of `resp_codec.cpp`. A simple string and an error are a line of their own and
may hold neither CR nor LF; a bulk string announces its length, so that its bytes are
arbitrary. Read back value by value a stream of replies gives exactly what was encoded.
-/

namespace RaftKv.Resp

/-- The `RespProtocolError`s of the encoders. -/
inductive EncodeError where
  | simpleString
  | error
  deriving DecidableEq, Repr

def isCrOrLf (b : UInt8) : Bool := b = 13 || b = 10

/-- A reply of one line: the byte of its kind, the text, CRLF. -/
def encodeLine (kind : UInt8) (failure : EncodeError) (value : Bytes) : Except EncodeError Bytes :=
  if value.any isCrOrLf then .error failure else .ok (kind :: value ++ crlf)

def encodeSimpleString (value : Bytes) : Except EncodeError Bytes :=
  encodeLine 43 .simpleString value

def encodeError (value : Bytes) : Except EncodeError Bytes := encodeLine 45 .error value

def encodeNilBulkString : Bytes := [36, 45, 49, 13, 10]

/-- `std::to_string` of a signed number. -/
def toSignedDecimal (value : Int) : Bytes :=
  if value < 0 then 45 :: toDecimal value.natAbs else toDecimal value.natAbs

def encodeInteger (value : Int64) : Bytes := 58 :: toSignedDecimal value.toInt ++ crlf

/-- A reply: the encoder and its argument. -/
inductive Value where
  | simpleString (value : Bytes)
  | error (value : Bytes)
  | bulkString (value : Bytes)
  | nilBulkString
  | integer (value : Int64)
  deriving DecidableEq, Repr

def Value.encode : Value → Except EncodeError Bytes
  | .simpleString value => encodeSimpleString value
  | .error value => encodeError value
  | .bulkString value => .ok (encodeBulkString value)
  | .nilBulkString => .ok encodeNilBulkString
  | .integer value => .ok (encodeInteger value)

/-! ## Reading replies -/

def parseNatural (text : Bytes) : Option Nat :=
  if text ≠ [] ∧ ∀ b ∈ text, 48 ≤ b ∧ b ≤ 57 then some (decimalValue text) else none

def parseInteger : Bytes → Option Int
  | 45 :: digits => (parseNatural digits).map fun (n : Nat) => -(n : Int)
  | digits => (parseNatural digits).map fun (n : Nat) => (n : Int)

def readInteger (line : Bytes) : Option Int64 := do
  let value ← parseInteger line
  if (Int64.ofInt value).toInt = value then some (Int64.ofInt value) else none

/-- The bytes of a bulk string and its CRLF, or the end of a nil one. -/
def readBulk (size : Int) (rest : Bytes) : Option (Value × Bytes) :=
  if size = -1 then some (.nilBulkString, rest)
  else if 0 ≤ size ∧ (rest.drop size.toNat).take 2 = crlf then
    some (.bulkString (rest.take size.toNat), rest.drop (size.toNat + 2))
  else none

/-- One reply from the front of a stream, as clients read it: `read_response` of
`resp_client.py` on the kinds of replies the server sends, with no limit on sizes and the
bytes of a line taken as they are. -/
def readResponse : Reader UInt8 Value
  | [] => none
  | kind :: input => do
      let (line, rest) ← readLine input
      match kind with
      | 43 => some (.simpleString line, rest)
      | 45 => some (.error line, rest)
      | 58 => (readInteger line).map fun value => (.integer value, rest)
      | 36 => (parseInteger line).bind fun size => readBulk size rest
      | _ => none

theorem parseNatural_toDecimal (n : Nat) : parseNatural (toDecimal n) = some n := by
  rw [parseNatural, if_pos ⟨toDecimal_ne_nil n, toDecimal_digit⟩, decimalValue_toDecimal]

theorem parseInteger_toDecimal (n : Nat) : parseInteger (toDecimal n) = some (n : Int) := by
  unfold parseInteger
  split
  next digits heq =>
    have hminus := (toDecimal_digit (n := n) 45 (by rw [heq]; exact List.mem_cons_self)).1
    exact absurd hminus (by decide)
  · rw [parseNatural_toDecimal]
    rfl

theorem parseInteger_toSignedDecimal (value : Int) :
    parseInteger (toSignedDecimal value) = some value := by
  unfold toSignedDecimal
  split
  next hneg =>
    rw [parseInteger, parseNatural_toDecimal]
    simp only [Option.map_some, Option.some.injEq]
    omega
  next hpos =>
    rw [parseInteger_toDecimal]
    simp only [Option.some.injEq]
    omega

theorem not_mem_toDecimal (n : Nat) : 13 ∉ toDecimal n := fun hcr =>
  absurd (toDecimal_digit 13 hcr).1 (by decide)

theorem not_mem_toSignedDecimal (value : Int) : 13 ∉ toSignedDecimal value := by
  unfold toSignedDecimal
  split
  · intro hcr
    rcases List.mem_cons.mp hcr with hminus | hcr
    · exact absurd hminus (by decide)
    · exact not_mem_toDecimal _ hcr
  · exact not_mem_toDecimal _

/-- A line and what follows. -/
theorem readLine_text {text : Bytes} (htext : 13 ∉ text) (rest : Bytes) :
    readLine (text ++ crlf ++ rest) = some (text, rest) :=
  readLine_append (readLine_crlf htext) rest

theorem encodeLine_eq_ok {kind : UInt8} {failure : EncodeError} {value text : Bytes}
    (hencode : encodeLine kind failure value = .ok text) :
    13 ∉ value ∧ text = kind :: (value ++ crlf) := by
  unfold encodeLine at hencode
  split at hencode
  · cases hencode
  next hclean =>
    refine ⟨fun hcr => hclean (List.any_eq_true.mpr ⟨13, hcr, rfl⟩), ?_⟩
    exact (Except.ok.inj hencode).symm

theorem readResponse_cons {text : Bytes} (htext : 13 ∉ text) (kind : UInt8) (rest : Bytes) :
    readResponse (kind :: (text ++ crlf ++ rest)) =
      match kind with
      | 43 => some (.simpleString text, rest)
      | 45 => some (.error text, rest)
      | 58 => (readInteger text).map fun value => (.integer value, rest)
      | 36 => (parseInteger text).bind fun size => readBulk size rest
      | _ => none := by
  rw [readResponse, readLine_text htext]
  rfl

theorem readBulk_encode (value rest : Bytes) :
    readBulk value.length (value ++ (crlf ++ rest)) = some (.bulkString value, rest) := by
  have hdrop : (value ++ (crlf ++ rest)).drop value.length = crlf ++ rest := List.drop_left' rfl
  have hafter : (value ++ (crlf ++ rest)).drop (value.length + 2) = rest := by
    rw [← List.drop_drop, hdrop]
    rfl
  unfold readBulk
  rw [if_neg (by omega), if_pos ⟨by omega, by rw [Int.toNat_natCast, hdrop]; rfl⟩,
    Int.toNat_natCast, List.take_left' rfl, hafter]

/-- Every reply is read back, whatever follows it. -/
theorem readsBack_encode : readResponse.ReadsBack fun value text => value.encode = .ok text := by
  intro value text rest hencode
  cases value with
  | simpleString value =>
      obtain ⟨hclean, rfl⟩ := encodeLine_eq_ok hencode
      exact readResponse_cons hclean 43 rest
  | error value =>
      obtain ⟨hclean, rfl⟩ := encodeLine_eq_ok hencode
      exact readResponse_cons hclean 45 rest
  | bulkString value =>
      obtain rfl := Except.ok.inj hencode
      have hsplit : encodeBulkString value ++ rest =
          36 :: (toDecimal value.length ++ crlf ++ (value ++ (crlf ++ rest))) := by
        simp [encodeBulkString]
      rw [hsplit, readResponse_cons (not_mem_toDecimal _)]
      simp only [parseInteger_toDecimal, Option.bind_some, readBulk_encode]
  | nilBulkString =>
      obtain rfl := Except.ok.inj hencode
      have hline : 13 ∉ ([45, 49] : Bytes) := by decide
      have hsplit : encodeNilBulkString ++ rest = 36 :: ([45, 49] ++ crlf ++ rest) := rfl
      have hsize : parseInteger [45, 49] = some (-1) := by
        simp [parseInteger, parseNatural, decimalValue]
      rw [hsplit, readResponse_cons hline]
      simp only [hsize, Option.bind_some, readBulk, if_pos]
  | integer value =>
      obtain rfl := Except.ok.inj hencode
      have hread : readInteger (toSignedDecimal value.toInt) = some value := by
        rw [readInteger, parseInteger_toSignedDecimal]
        simp
      have hline := readResponse_cons (not_mem_toSignedDecimal value.toInt) 58 rest
      simp only [hread, Option.map_some] at hline
      exact hline

theorem encode_ne_nil {value : Value} {text : Bytes} (hencode : value.encode = .ok text) :
    text ≠ [] := by
  rintro rfl
  have hread := readsBack_encode value [] [] hencode
  cases hread

/-- Replies cannot be forged by their contents: the concatenated bytes of two sequences of
replies differ unless the sequences are the same, no reply is a proper part of another, and
a client that reads as many values as were sent has exactly these and the rest of the
stream. -/
theorem replies_uniquely_decodable :
    (∀ (values others : List Value) (texts otherTexts : List Bytes),
        List.Forall₂ (fun value text => value.encode = .ok text) values texts →
        List.Forall₂ (fun value text => value.encode = .ok text) others otherTexts →
        texts.flatten = otherTexts.flatten → values = others) ∧
      (∀ (value other : Value) (text otherText : Bytes), value.encode = .ok text →
        other.encode = .ok otherText → text <+: otherText → value = other ∧ text = otherText) ∧
      ∀ (values : List Value) (texts : List Bytes) (rest : Bytes),
        List.Forall₂ (fun value text => value.encode = .ok text) values texts →
        readResponse.many values.length (texts.flatten ++ rest) = some (values, rest) := by
  refine ⟨?_, ?_, ?_⟩
  · intro values others texts otherTexts htexts hothers heq
    exact readsBack_encode.flatten_injective (fun _ _ => encode_ne_nil) htexts hothers heq
  · intro value other text otherText htext hother hpart
    exact readsBack_encode.eq_of_isPrefix htext hother hpart
  · intro values texts rest htexts
    exact readsBack_encode.many htexts rest

/-- A stored value that imitates two replies is read as one bulk string. -/
theorem replies_uniquely_decodable_forged :
    readResponse.many 2 ([encodeBulkString [79, 75, 13, 10, 58, 49, 13, 10],
      encodeNilBulkString].flatten ++ []) =
        some ([.bulkString [79, 75, 13, 10, 58, 49, 13, 10], .nilBulkString], []) := by
  obtain ⟨-, -, hread⟩ := replies_uniquely_decodable
  exact hread [.bulkString [79, 75, 13, 10, 58, 49, 13, 10], .nilBulkString] _ []
    (.cons rfl (.cons rfl .nil))

end RaftKv.Resp
