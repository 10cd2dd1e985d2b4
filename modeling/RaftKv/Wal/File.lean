import RaftKv.Foundation.Framing
import RaftKv.Wal.Crc
import RaftKv.Wal.Log

/-! # The write-ahead log as bytes

`[type:1][len:3][crc:4]` followed by the packed payload. Packing itself is a
library's business: a `Codec` is any packing that unpacking undoes. The record
level of `RaftKv.Wal.Log` is what the byte level amounts to, also when a flush
or a crash cuts the file in the middle of a record. What recovery does with bytes that
no run has written is in `RaftKv.Wal.Recover`.
-/

namespace RaftKv

/-- Payload packing of the three record kinds. -/
structure Codec (D : Type) where
  packHardState : HardState → Bytes
  packEntry : Entry → Bytes
  packSnapshot : SnapshotMeta D → Bytes
  unpackHardState : Bytes → Option HardState
  unpackEntry : Bytes → Option Entry
  unpackSnapshot : Bytes → Option (SnapshotMeta D)
  /-- Whether the members are values the packing is made for. -/
  packable : Record D → Bool
  unpack_hardState : ∀ hs, packable (.hardState hs) → unpackHardState (packHardState hs) = some hs
  unpack_entry : ∀ e, packable (.entry e) → unpackEntry (packEntry e) = some e
  unpack_snapshot : ∀ snap, packable (.snapshot snap) →
    unpackSnapshot (packSnapshot snap) = some snap

/-- `RecordType` values that recovery supports. -/
inductive RecordType where
  | entry
  | hardState
  | snapshot
  deriving DecidableEq, Repr

def RecordType.code : RecordType → UInt8
  | .entry => 1
  | .hardState => 2
  | .snapshot => 4

def RecordType.ofCode (code : UInt8) : Option RecordType :=
  if code = 1 then some .entry
  else if code = 2 then some .hardState
  else if code = 4 then some .snapshot
  else none

/-- Largest payload length, 24 bits. -/
def kMaxRecordPayload : Nat := 2 ^ 24 - 1

structure RecordHeader where
  type : UInt8
  len : Nat
  crc : Nat

/-- Eight bytes, integers little-endian. -/
def RecordHeader.encode (hdr : RecordHeader) : Bytes :=
  [hdr.type,
    .ofNat hdr.len, .ofNat (hdr.len / 2 ^ 8), .ofNat (hdr.len / 2 ^ 16),
    .ofNat hdr.crc, .ofNat (hdr.crc / 2 ^ 8), .ofNat (hdr.crc / 2 ^ 16),
    .ofNat (hdr.crc / 2 ^ 24)]

/-- Splits off a header; none when fewer than eight bytes are left. -/
def RecordHeader.decode : Bytes → Option (RecordHeader × Bytes)
  | type :: l0 :: l1 :: l2 :: c0 :: c1 :: c2 :: c3 :: rest =>
      some (⟨type, l0.toNat + l1.toNat * 2 ^ 8 + l2.toNat * 2 ^ 16,
        c0.toNat + c1.toNat * 2 ^ 8 + c2.toNat * 2 ^ 16 + c3.toNat * 2 ^ 24⟩, rest)
  | _ => none

namespace Codec

variable {D : Type} (codec : Codec D)

def pack : Record D → RecordType × Bytes
  | .hardState hs => (.hardState, codec.packHardState hs)
  | .entry e => (.entry, codec.packEntry e)
  | .snapshot snap => (.snapshot, codec.packSnapshot snap)

def unpack : RecordType → Bytes → Option (Record D)
  | .hardState, payload => (codec.unpackHardState payload).map .hardState
  | .entry, payload => (codec.unpackEntry payload).map .entry
  | .snapshot, payload => (codec.unpackSnapshot payload).map .snapshot

/-- The record can be packed, and the payload length fits its 24-bit field; otherwise
`append_record` throws. -/
def Fits (record : Record D) : Prop :=
  codec.packable record ∧ (codec.pack record).2.length ≤ kMaxRecordPayload

instance (record : Record D) : Decidable (codec.Fits record) :=
  inferInstanceAs (Decidable (_ ∧ _))

def header (record : Record D) : RecordHeader :=
  let (type, payload) := codec.pack record
  ⟨type.code, payload.length, (crc32 payload).toNat⟩

/-- Bytes `append_record` adds to the buffer. -/
def encodeRecord (record : Record D) : Bytes :=
  (codec.header record).encode ++ (codec.pack record).2

/-- One turn of the loop of `recover`: the record at the front and what follows it. None
covers every way in which the tail can be damaged. -/
def readRecord (data : Bytes) : Option (Record D × Bytes) :=
  match RecordHeader.decode data with
  | none => none
  | some (hdr, rest) =>
      match RecordType.ofCode hdr.type with
      | none => none
      | some type =>
          if rest.length < hdr.len then none
          else if (crc32 (rest.take hdr.len)).toNat ≠ hdr.crc then none
          else
            match codec.unpack type (rest.take hdr.len) with
            | none => none
            | some record => some (record, rest.drop hdr.len)

theorem unpack_pack {record : Record D} (hpackable : codec.packable record) :
    codec.unpack (codec.pack record).1 (codec.pack record).2 = some record := by
  cases record with
  | hardState hs => simp [pack, unpack, codec.unpack_hardState hs hpackable]
  | entry e => simp [pack, unpack, codec.unpack_entry e hpackable]
  | snapshot snap => simp [pack, unpack, codec.unpack_snapshot snap hpackable]

theorem ofCode_code (type : RecordType) : RecordType.ofCode type.code = some type := by
  cases type <;> rfl

theorem decode_encode {hdr : RecordHeader} (rest : Bytes) (hlen : hdr.len ≤ kMaxRecordPayload)
    (hcrc : hdr.crc < 2 ^ 32) : RecordHeader.decode (hdr.encode ++ rest) = some (hdr, rest) := by
  obtain ⟨type, len, crc⟩ := hdr
  simp only [kMaxRecordPayload] at hlen hcrc
  simp only [RecordHeader.encode, List.cons_append, List.nil_append, RecordHeader.decode,
    UInt8.toNat_ofNat', Option.some.injEq, Prod.mk.injEq, RecordHeader.mk.injEq, true_and, and_true]
  omega

theorem decode_short {data : Bytes} (hlen : data.length < 8) : RecordHeader.decode data = none := by
  unfold RecordHeader.decode
  split
  · simp at hlen
    omega
  · rfl

theorem decode_header {record : Record D} (rest : Bytes) (hfits : codec.Fits record) :
    RecordHeader.decode ((codec.header record).encode ++ rest) =
      some (codec.header record, rest) :=
  decode_encode rest hfits.2 (crc32 (codec.pack record).2).toNat_lt

theorem readRecord_encode (record : Record D) (rest : Bytes) (hfits : codec.Fits record) :
    codec.readRecord (codec.encodeRecord record ++ rest) = some (record, rest) := by
  unfold readRecord encodeRecord
  rw [List.append_assoc, codec.decode_header _ hfits]
  simp [header, ofCode_code, codec.unpack_pack hfits.1]

theorem readRecord_short (record : Record D) (data : Bytes) (hfits : codec.Fits record)
    (hpre : data <+: codec.encodeRecord record)
    (hlen : data.length < (codec.encodeRecord record).length) : codec.readRecord data = none := by
  unfold readRecord
  by_cases hheader : data.length < 8
  · rw [decode_short hheader]
  · -- the header is complete, so the payload is not
    obtain ⟨rest, rfl⟩ : ∃ rest, data = (codec.header record).encode ++ rest := by
      have hhead : data.take 8 = (codec.header record).encode := by
        rw [List.prefix_iff_eq_take.mp hpre, List.take_take, min_eq_left (not_lt.mp hheader)]
        rfl
      exact ⟨data.drop 8, by rw [← hhead, List.take_append_drop]⟩
    have hshort : rest.length < (codec.pack record).2.length := by
      simpa [encodeRecord] using hlen
    rw [codec.decode_header _ hfits]
    simp [header, ofCode_code, hshort]

/-- The file format as a framing. -/
def framing : Framing (Record D) where
  encode := codec.encodeRecord
  read := codec.readRecord
  Fits := codec.Fits
  read_encode := codec.readRecord_encode
  read_short := codec.readRecord_short
  encode_ne_nil record h := by simp [encodeRecord, RecordHeader.encode] at h

/-- `WAL::recover` on a file that was written with this packing: the recovered state and
`valid_bytes`, to which a damaged file is cut. -/
def recover [Blob D] (data : Bytes) : Recovered D × Nat :=
  loop data.length data Recovered.start 0
where
  loop : Nat → Bytes → Recovered D → Nat → Recovered D × Nat
    | 0, _, st, valid => (st, valid)
    | fuel + 1, data, st, valid =>
        match codec.readRecord data with
        | none => (st, valid)
        | some (record, rest) =>
            loop fuel rest (st.apply record) (valid + (data.length - rest.length))

theorem recover_loop [Blob D] (fuel : Nat) (data : Bytes) (st : Recovered D) (valid : Nat) :
    recover.loop codec fuel data st valid =
      ((Framing.scan codec.readRecord fuel data).1.foldl Recovered.apply st,
        valid + (Framing.scan codec.readRecord fuel data).2) := by
  induction fuel generalizing data st valid with
  | zero => simp [recover.loop, Framing.scan]
  | succ fuel ih =>
      rw [recover.loop, Framing.scan]
      cases hread : codec.readRecord data with
      | none => simp
      | some result =>
          obtain ⟨record, rest⟩ := result
          simp only [ih, List.foldl_cons, Prod.mk.injEq, true_and]
          omega

/-- Recovering a file cut at any byte: the fold of the records wholly in it, and the end of
the last of them. -/
theorem recover_take [Blob D] {records : List (Record D)}
    (hfits : ∀ record ∈ records, codec.Fits record) (n : Nat) :
    codec.recover ((codec.framing.encodeAll records).take n) =
      (replay (codec.framing.whole records n),
        (codec.framing.encodeAll (codec.framing.whole records n)).length) := by
  have hscan := codec.framing.scan_take (n := n) hfits rfl le_rfl
  unfold recover
  rw [recover_loop]
  simp only [framing] at hscan ⊢
  rw [hscan]
  simp [replay]

end Codec

end RaftKv
