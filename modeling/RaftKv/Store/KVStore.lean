import Mathlib.Data.Finmap
import RaftKv.Foundation.Varint
import RaftKv.Proto

/-! # The key-value store

`server/kv_store.cpp`: the map that the committed commands build up. Commands and whole
maps are packed with msgpack, of which the development only uses that unpacking undoes
packing.
-/

namespace RaftKv

/-- `CommandType`, an enumeration over a byte. -/
inductive CommandType where
  | set
  | del
  /-- Any other byte, which `apply` refuses. -/
  | other (code : UInt8)
  deriving DecidableEq, Repr

structure Command where
  type : CommandType := .set
  strs : List Bytes := []
  originNode : Nat := 0
  requestId : Nat := 0
  deriving DecidableEq, Repr

/-- The map from keys to values; the order of its entries carries no meaning. -/
abbrev KVStore := Finmap (fun _ : Bytes => Bytes)

/-- How commands and maps are packed. `D` is the type of a packed map. -/
structure StoreCodec (D : Type) [Blob D] where
  packCommand : Command → Bytes
  unpackCommand : Bytes → Option Command
  serialize : KVStore → D
  deserialize : D → Option KVStore
  unpack_pack : ∀ command, unpackCommand (packCommand command) = some command
  deserialize_serialize : ∀ store, deserialize (serialize store) = some store
  isEmpty_empty : Blob.isEmpty (Blob.empty : D) = true

theorem StoreCodec.packCommand_injective {D : Type} [Blob D] (codec : StoreCodec D) :
    Function.Injective codec.packCommand := by
  intro a b hpack
  have hunpack := congrArg codec.unpackCommand hpack
  rw [codec.unpack_pack, codec.unpack_pack] at hunpack
  exact Option.some.inj hunpack

structure ApplyResult where
  type : CommandType
  originNode : Nat
  requestId : Nat
  affected : Nat
  appliedIndex : Nat
  deriving DecidableEq, Repr

namespace KVStore

def get (store : KVStore) (key : Bytes) : Option Bytes := store.lookup key

def set (store : KVStore) (key value : Bytes) : KVStore := store.insert key value

/-- Whether there was something to erase. -/
def del (store : KVStore) (key : Bytes) : KVStore × Bool := (store.erase key, key ∈ store)

/-- The loop of `DEL`, counting the keys that were there. -/
def delAll (store : KVStore) : List Bytes → KVStore × Nat
  | [] => (store, 0)
  | key :: rest =>
      let (store, found) := store.del key
      let (store, affected) := delAll store rest
      (store, affected + found.toNat)

/-- The effect of a command and the number of affected keys; none when `apply` throws. -/
def execute (store : KVStore) (command : Command) : Option (KVStore × Nat) :=
  match command.type with
  | .set =>
      match command.strs with
      | [key, value] => some (store.set key value, 1)
      | _ => none
  | .del => if command.strs.isEmpty then none else some (store.delAll command.strs)
  | .other _ => none

variable {D : Type} [Blob D]

def apply (codec : StoreCodec D) (store : KVStore) (entry : Entry) :
    Option (KVStore × ApplyResult) := do
  let command ← codec.unpackCommand entry.data
  let (store, affected) ← store.execute command
  some (store, ⟨command.type, command.originNode, command.requestId, affected, entry.index⟩)

/-- Entries that reach the store; the others only take up an index. -/
def Carries (entry : Entry) : Prop := entry.type = entryNormal ∧ entry.data ≠ []

instance (entry : Entry) : Decidable (Carries entry) :=
  inferInstanceAs (Decidable (entry.type = entryNormal ∧ entry.data ≠ []))

/-- The store after one committed entry. -/
def process (codec : StoreCodec D) (store : KVStore) (entry : Entry) : Option KVStore :=
  if Carries entry then (store.apply codec entry).map Prod.fst else some store

/-- The store after a sequence of committed entries. -/
def processAll (codec : StoreCodec D) (store : KVStore) (entries : List Entry) : Option KVStore :=
  entries.foldlM (process codec) store

theorem processAll_append (codec : StoreCodec D) (store : KVStore) (entries more : List Entry) :
    processAll codec store (entries ++ more) =
      (processAll codec store entries).bind fun store => processAll codec store more :=
  List.foldlM_append

theorem processAll_cons (codec : StoreCodec D) (store : KVStore) (entry : Entry)
    (entries : List Entry) : processAll codec store (entry :: entries) =
      (process codec store entry).bind fun store => processAll codec store entries :=
  List.foldlM_cons

end KVStore

end RaftKv
