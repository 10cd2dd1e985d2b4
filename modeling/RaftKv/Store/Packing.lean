import Mathlib.Data.List.Sort
import Mathlib.Logic.Equiv.Multiset
import Mathlib.Tactic.DeriveEncodable
import RaftKv.Foundation.Varint
import RaftKv.Store.KVStore
import RaftKv.Wal.Packing

/-! # Packed commands and maps

The `StoreCodec` of the msgpack format. The program's integers have 64 bits and its
strings less than 2^32 bytes, and only such values are packed. The laws of a codec speak
of all values, so the others are set apart behind a byte that the format does not use.
-/

namespace RaftKv

instance encodableByte : Encodable UInt8 :=
  .ofLeftInjection UInt8.toNat (fun code => some (.ofNat code)) fun byte => by simp

deriving instance Encodable for CommandType
deriving instance Encodable for Command

instance encodableKVStore : Encodable KVStore :=
  .ofLeftInjection Finmap.entries
    (fun entries => if hkeys : entries.keys.Nodup then
      some ⟨entries, Multiset.nodup_keys.mp hkeys⟩ else none)
    fun store => by simp [Multiset.nodup_keys.mpr store.nodupKeys]

/-! ## Values beyond the format -/

section Completed

variable {α : Type} [Encodable α]

def completedPack (packable : α → Bool) (pack : α → Bytes) (a : α) : Bytes :=
  if packable a then pack a else 0xc1 :: Varint.encode (Encodable.encode a)

def completedUnpack (unpack : Bytes → Option α) (data : Bytes) : Option α :=
  if data.head? = some 0xc1 then
    (Varint.decode data.tail).bind fun code => Encodable.decode code.1
  else unpack data

theorem completed {packable : α → Bool} {pack : α → Bytes} {unpack : Bytes → Option α}
    (hunpack : ∀ a, packable a → unpack (pack a) = some a)
    (hfirst : ∀ a, (pack a).head? ≠ some 0xc1) (a : α) :
    completedUnpack unpack (completedPack packable pack a) = some a := by
  unfold completedUnpack completedPack
  split
  next hpackable => rw [if_neg (hfirst a), hunpack a hpackable]
  · have hdecode := Varint.decode_encode (Encodable.encode a) []
    rw [List.append_nil] at hdecode
    simp [hdecode]

end Completed

/-! ## Commands -/

namespace CommandType

def code : CommandType → UInt8
  | .set => 0
  | .del => 1
  | .other code => code

def ofCode (code : UInt8) : CommandType :=
  if code = 0 then .set else if code = 1 then .del else .other code

end CommandType

/-- A vector of strings. -/
def Object.toStrings : Object → Option (List Bytes)
  | .array items => items.mapM Object.toBytes
  | _ => none

/-- `convert` takes the low byte of the integer. -/
def Object.toCommandType : Object → Option CommandType
  | .positiveInteger n => some (.ofCode n.toUInt8)
  | _ => none

namespace Command

def members (command : Command) : List Field :=
  [.number command.type.code.toUInt64, .strings command.strs,
    .number (.ofNat command.originNode), .number (.ofNat command.requestId)]

def fields : List (Command → Object → Option Command) :=
  [fun c o => o.toCommandType.map fun type => { c with type := type },
    fun c o => o.toStrings.map fun strs => { c with strs := strs },
    fun c o => o.toUInt64.map fun n => { c with originNode := n },
    fun c o => o.toUInt64.map fun n => { c with requestId := n }]

def packable (command : Command) : Bool :=
  CommandType.ofCode command.type.code = command.type ∧ command.originNode < 2 ^ 64 ∧
    command.requestId < 2 ^ 64 ∧ command.strs.length < 2 ^ 32 ∧
    ∀ str ∈ command.strs, str.length < 2 ^ 32

def unpacked (data : Bytes) : Option Command :=
  (Object.unpack data).bind fun object =>
    match object.convert fields {} with
    | (command, true) => some command
    | (_, false) => none

theorem mapM_toBytes (strs : List Bytes) :
    (strs.map Object.str).mapM Object.toBytes = some strs := by
  induction strs with
  | nil => rfl
  | cons str strs ih => simp [List.mapM_cons, Object.toBytes, ih]

theorem unpacked_pack {command : Command} (hpackable : command.packable) :
    unpacked (packArray command.members) = some command := by
  obtain ⟨htype, horigin, hrequest, hcount, hlengths⟩ := of_decide_eq_true hpackable
  have hfits : ∀ field ∈ command.members, field.Fits := by
    simpa [members, Field.Fits] using ⟨hcount, hlengths⟩
  have hunpack := Object.unpack_append (Parses.struct (by simp [members]) hfits).whole []
  rw [List.append_nil] at hunpack
  have hstrs : (Object.array (command.strs.map .str)).toStrings = some command.strs :=
    mapM_toBytes command.strs
  have hconvert : (Object.array (command.members.map Field.object)).convert fields {} =
      (command, true) := by
    simp (disch := omega) [members, fields, Field.object, Object.convert, Object.assign,
      Object.toCommandType, Object.toUInt64, hstrs, htype, Nat.mod_eq_of_lt]
  simp only [unpacked, hunpack, Option.bind_some, hconvert]

end Command

/-! ## Maps -/

namespace KVStore

/-- Some order, to write the entries in. -/
def Before (a b : Σ _ : Bytes, Bytes) : Prop := Encodable.encode a ≤ Encodable.encode b

instance decidableBefore : DecidableRel Before := fun a b =>
  inferInstanceAs (Decidable (Encodable.encode a ≤ Encodable.encode b))

instance totalBefore : Std.Total Before :=
  ⟨fun a b => Nat.le_total (Encodable.encode a) (Encodable.encode b)⟩

instance transBefore : IsTrans _ Before := ⟨fun _ _ _ => Nat.le_trans⟩

instance antisymmBefore : Std.Antisymm Before :=
  ⟨fun _ _ hab hba => Encodable.encode_injective (Nat.le_antisymm hab hba)⟩

/-- The entries of a map in that order; the hash table of the source has another. -/
def pairs (store : KVStore) : List (Σ _ : Bytes, Bytes) :=
  Quotient.liftOn store.entries (List.insertionSort Before) fun l l' hperm =>
    List.Perm.eq_of_pairwise' (List.pairwise_insertionSort Before l)
      (List.pairwise_insertionSort Before l')
      ((List.perm_insertionSort Before l).trans
        (hperm.trans (List.perm_insertionSort Before l').symm))

theorem coe_pairs (store : KVStore) : (store.pairs : Multiset (Σ _ : Bytes, Bytes)) =
    store.entries := by
  obtain ⟨entries, hkeys⟩ := store
  induction entries using Quotient.inductionOn with
  | _ l => exact Quotient.sound (List.perm_insertionSort Before l)

def strings (store : KVStore) : List Bytes := store.pairs.flatMap fun pair => [pair.1, pair.2]

def packed (store : KVStore) : Bytes :=
  mapHead store.pairs.length ++ store.strings.flatMap packStr

def packable (store : KVStore) : Bool :=
  store.pairs.length < 2 ^ 32 ∧ ∀ str ∈ store.strings, str.length < 2 ^ 32

/-- Each value is assigned to its key, one pair after the other. -/
def assignAll (store : KVStore) : List Bytes → KVStore
  | key :: value :: rest => assignAll (store.set key value) rest
  | _ => store

def unpacked (data : Bytes) : Option KVStore :=
  (Object.unpack data).bind fun object =>
    match object with
    | .map items => (items.mapM Object.toBytes).map (assignAll ∅)
    | _ => none

theorem entries_assignAll {pairs : List (Σ _ : Bytes, Bytes)} {store : KVStore}
    (hkeys : pairs.NodupKeys) (hnew : ∀ pair ∈ pairs, pair.1 ∉ store) :
    (assignAll store (pairs.flatMap fun pair => [pair.1, pair.2])).entries =
      (pairs : Multiset (Σ _ : Bytes, Bytes)) + store.entries := by
  induction pairs generalizing store with
  | nil => simp [assignAll]
  | cons pair pairs ih =>
      obtain ⟨hfirst, hothers⟩ := List.nodupKeys_cons.mp hkeys
      obtain ⟨hfresh, hrest⟩ := List.forall_mem_cons.mp hnew
      have hunset : ∀ other ∈ pairs, other.1 ∉ store.set pair.1 pair.2 := by
        intro other hother
        simp only [KVStore.set, Finmap.mem_insert, not_or]
        exact ⟨fun heq => hfirst (heq ▸ List.mem_keys_of_mem hother), hrest other hother⟩
      have hset := ih hothers hunset
      simp only [List.flatMap_cons, List.cons_append, List.nil_append, assignAll, hset]
      rw [KVStore.set, Finmap.entries_insert_of_notMem hfresh, ← Multiset.cons_coe,
        Multiset.cons_add, Multiset.add_cons]

theorem unpacked_packed {store : KVStore} (hpackable : store.packable) :
    unpacked store.packed = some store := by
  obtain ⟨hcount, hlengths⟩ := of_decide_eq_true hpackable
  have heven : (store.strings.map Object.str).length = 2 * store.pairs.length := by
    simp [strings, List.length_flatMap, Nat.mul_comm]
  have hunpack := Object.unpack_append
    (Parses.map hcount heven (Parses.strings hlengths) Parses.nil).whole []
  rw [List.append_nil, List.append_nil] at hunpack
  have hkeys : store.pairs.NodupKeys := by
    rw [← Multiset.coe_nodupKeys, coe_pairs]
    exact store.nodupKeys
  have hall := @entries_assignAll store.pairs ∅ hkeys fun _ _ => Finmap.notMem_empty
  simp only [unpacked, packed, hunpack, Option.bind_some, Command.mapM_toBytes, Option.map_some,
    Option.some.injEq]
  refine Finmap.ext (hall.trans ?_)
  rw [coe_pairs]
  exact add_zero _

end KVStore

def msgpackStoreCodec : StoreCodec Bytes where
  packCommand := completedPack Command.packable fun command => packArray command.members
  unpackCommand := completedUnpack Command.unpacked
  serialize := completedPack KVStore.packable KVStore.packed
  deserialize := completedUnpack KVStore.unpacked
  unpack_pack := completed (fun _ => Command.unpacked_pack) fun command => by
    simp [packArray, arrayHead, Command.members]
  deserialize_serialize := completed (fun _ => KVStore.unpacked_packed) fun store => by
    unfold KVStore.packed mapHead
    split
    next hfew =>
      simp [← UInt8.toNat_inj]
      omega
    · split <;> simp
  isEmpty_empty := rfl

end RaftKv
