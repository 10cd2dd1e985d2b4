import RaftKv.Cluster.State
import RaftKv.Store.Packing

/-! # Packed maps in the cluster

The states that the cluster's snapshots carry hold the packed bytes, and beside them a
history that is for the statements about the cluster.
-/

namespace RaftKv

def captureStoreCodec : StoreCodec Capture where
  packCommand := msgpackStoreCodec.packCommand
  unpackCommand := msgpackStoreCodec.unpackCommand
  serialize store := ⟨[], msgpackStoreCodec.serialize store⟩
  deserialize capture := msgpackStoreCodec.deserialize capture.bytes
  unpack_pack := msgpackStoreCodec.unpack_pack
  deserialize_serialize := msgpackStoreCodec.deserialize_serialize
  isEmpty_empty := rfl

end RaftKv
