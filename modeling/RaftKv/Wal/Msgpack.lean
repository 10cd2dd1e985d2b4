import Mathlib.Data.List.Basic
import RaftKv.Wal.Record

/-! # The msgpack library

What `msgpack::unpack` returns, as far as a conversion tells the values apart, and how
an array becomes a `MSGPACK_DEFINE` struct: field after field, in place, until one does
not have the type it should. Of packing and unpacking only the laws of `Msgpack` are used;
`RaftKv.Wal.Packing` has a format that satisfies them.
-/

namespace RaftKv

inductive Object where
  | nil
  | boolean (b : Bool)
  | positiveInteger (n : UInt64)
  | negativeInteger
  | float
  | str (bytes : Bytes)
  | bin (bytes : Bytes)
  | array (items : List Object)
  /-- Keys and values in turn. -/
  | map (items : List Object)
  | ext

namespace Object

/-! ## Conversion -/

def toUInt64 : Object → Option Nat
  | .positiveInteger n => some n.toNat
  | _ => none

def toUInt8 : Object → Option UInt8
  | .positiveInteger n => if n.toNat < 2 ^ 8 then some (.ofNat n.toNat) else none
  | _ => none

def toBool : Object → Option Bool
  | .boolean b => some b
  | _ => none

/-- A byte vector is read from either kind of raw object. -/
def toBytes : Object → Option Bytes
  | .str bytes => some bytes
  | .bin bytes => some bytes
  | _ => none

/-- Assigns the fields in order. False when one throws; those before it stay assigned.
Missing elements leave their fields alone, and further ones are ignored. -/
def assign {S : Type} : List (S → Object → Option S) → List Object → S → S × Bool
  | field :: fields, item :: items, s =>
      match field s item with
      | none => (s, false)
      | some s => assign fields items s
  | _, _, s => (s, true)

/-- `convert` to a `MSGPACK_DEFINE` struct that already has a value. -/
def convert {S : Type} (fields : List (S → Object → Option S)) (s : S) : Object → S × Bool
  | .array items => assign fields items s
  | _ => (s, false)

end Object

/-- The fields of each struct in the order of its `MSGPACK_DEFINE`. -/
def HardState.fields : List (HardState → Object → Option HardState) :=
  [fun hs o => o.toUInt64.map fun n => { hs with term := n },
    fun hs o => o.toUInt64.map fun n => { hs with vote := n },
    fun hs o => o.toUInt64.map fun n => { hs with commit := n }]

@[inherit_doc HardState.fields]
def Entry.fields : List (Entry → Object → Option Entry) :=
  [fun e o => o.toUInt8.map fun n => { e with type := n },
    fun e o => o.toUInt64.map fun n => { e with term := n },
    fun e o => o.toUInt64.map fun n => { e with index := n },
    fun e o => o.toBytes.map fun data => { e with data := data }]

@[inherit_doc HardState.fields]
def SnapshotMeta.fields : List (SnapshotMeta Bytes → Object → Option (SnapshotMeta Bytes)) :=
  [fun snap o => o.toUInt64.map fun n => { snap with index := n },
    fun snap o => o.toUInt64.map fun n => { snap with term := n },
    fun snap o => o.toBytes.map fun state => { snap with state := state },
    fun snap o => o.toBool.map fun b => { snap with discardSuffix := b }]

/-! ## Packing -/

/-- What the members of a struct are packed from. -/
inductive Field where
  | number (n : UInt64)
  | bytes (content : Bytes)
  | flag (b : Bool)
  | strings (items : List Bytes)

namespace Field

def object : Field → Object
  | .number n => .positiveInteger n
  | .bytes content => .bin content
  | .flag b => .boolean b
  | .strings items => .array (items.map .str)

/-- The lengths fit their fields. -/
def Fits : Field → Prop
  | .bytes content => content.length < 2 ^ 32
  | .strings items => items.length < 2 ^ 32 ∧ ∀ item ∈ items, item.length < 2 ^ 32
  | _ => True

end Field

/-- What is used of the library: a packed struct unpacks to its array whatever follows it,
and a proper part of it does not unpack. -/
structure Msgpack where
  /-- `msgpack::pack` of a struct with these members. -/
  pack : List Field → Bytes
  /-- `msgpack::unpack` of the object at the front; none when it throws. -/
  unpack : Bytes → Option Object
  unpack_pack : ∀ fields more, fields.length < 16 → (∀ field ∈ fields, field.Fits) →
    unpack (pack fields ++ more) = some (.array (fields.map Field.object))
  unpack_part : ∀ fields part, fields.length < 16 → (∀ field ∈ fields, field.Fits) →
    part <+: pack fields → part.length < (pack fields).length → unpack part = none

/-! ## The structs -/

def HardState.members (hs : HardState) : List Field :=
  [.number (.ofNat hs.term), .number (.ofNat hs.vote), .number (.ofNat hs.commit)]

def Entry.members (e : Entry) : List Field :=
  [.number e.type.toUInt64, .number (.ofNat e.term), .number (.ofNat e.index), .bytes e.data]

def SnapshotMeta.members (snap : SnapshotMeta Bytes) : List Field :=
  [.number (.ofNat snap.index), .number (.ofNat snap.term), .bytes snap.state,
    .flag snap.discardSuffix]

namespace Record

def members : Record Bytes → List Field
  | .hardState hs => hs.members
  | .entry e => e.members
  | .snapshot snap => snap.members

/-- The members are 64-bit integers, and the payload has a size that can be packed. -/
def Packable : Record Bytes → Prop
  | .hardState hs => hs.term < 2 ^ 64 ∧ hs.vote < 2 ^ 64 ∧ hs.commit < 2 ^ 64
  | .entry e => e.term < 2 ^ 64 ∧ e.index < 2 ^ 64 ∧ e.data.length < 2 ^ 32
  | .snapshot snap => snap.index < 2 ^ 64 ∧ snap.term < 2 ^ 64 ∧ snap.state.length < 2 ^ 32

instance (record : Record Bytes) : Decidable record.Packable :=
  match record with
  | .hardState _ => inferInstanceAs (Decidable (_ ∧ _ ∧ _))
  | .entry _ => inferInstanceAs (Decidable (_ ∧ _ ∧ _))
  | .snapshot _ => inferInstanceAs (Decidable (_ ∧ _ ∧ _))

theorem members_length (record : Record Bytes) : record.members.length < 16 := by
  cases record <;> simp [members, HardState.members, Entry.members, SnapshotMeta.members]

theorem fits_members {record : Record Bytes} (hpackable : record.Packable) :
    ∀ field ∈ record.members, field.Fits := by
  cases record with
  | hardState hs => simp [members, HardState.members, Field.Fits]
  | entry e => simpa [members, Entry.members, Field.Fits] using hpackable.2.2
  | snapshot snap => simpa [members, SnapshotMeta.members, Field.Fits] using hpackable.2.2

end Record

end RaftKv
