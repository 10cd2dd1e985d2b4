import RaftKv.Wal.Recover

/-! # Files this program wrote

The records as the library packs them. A file of such records, cut at any byte, recovers
to the fold of the records wholly in it. On such a file `recoverFile` is the `recover` of
the codec that the library gives.
-/

namespace RaftKv

namespace Record

def type : Record Bytes → RecordType
  | .hardState _ => .hardState
  | .entry _ => .entry
  | .snapshot _ => .snapshot

theorem convert_hardState {hs : HardState} (hpackable : (Record.hardState hs).Packable)
    (old : HardState) :
    (Object.array (hs.members.map Field.object)).convert HardState.fields old = (hs, true) := by
  obtain ⟨hterm, hvote, hcommit⟩ := hpackable
  simp (disch := omega) [HardState.members, HardState.fields, Field.object, Object.convert,
    Object.assign, Object.toUInt64, Nat.mod_eq_of_lt]

theorem convert_entry {e : Entry} (hpackable : (Record.entry e).Packable) :
    (Object.array (e.members.map Field.object)).convert Entry.fields {} = (e, true) := by
  obtain ⟨hterm, hindex, -⟩ := hpackable
  have htype := e.type.toNat_lt
  simp (disch := omega) [Entry.members, Entry.fields, Field.object, Object.convert, Object.assign,
    Object.toUInt64, Object.toUInt8, Object.toBytes, Nat.mod_eq_of_lt, htype]

theorem convert_snapshot {snap : SnapshotMeta Bytes}
    (hpackable : (Record.snapshot snap).Packable) :
    (Object.array (snap.members.map Field.object)).convert SnapshotMeta.fields
      SnapshotMeta.none = (snap, true) := by
  obtain ⟨hindex, hterm, -⟩ := hpackable
  simp (disch := omega) [SnapshotMeta.members, SnapshotMeta.fields, Field.object, Object.convert,
    Object.assign, Object.toUInt64, Object.toBool, Object.toBytes, Nat.mod_eq_of_lt]

/-- A written record is decoded to itself. -/
theorem decode_members {record : Record Bytes} (hpackable : record.Packable)
    (st : Recovered Bytes) :
    st.convert (.array (record.members.map Field.object)) record.type =
      (st.apply record, true) := by
  cases record with
  | hardState hs => simp [Recovered.convert, type, members, convert_hardState hpackable,
      Recovered.apply]
  | entry e => simp [Recovered.convert, type, members, convert_entry hpackable]
  | snapshot snap => simp [Recovered.convert, type, members, convert_snapshot hpackable]

variable (m : Msgpack)

/-- The payload `save_hard_state`, `save_entry` or `save_snapshot` hands to `append_record`. -/
def payload (record : Record Bytes) : Bytes := m.pack record.members

/-- The record as it is written to the file. -/
def frame (record : Record Bytes) : Frame := (record.type, record.payload m)

/-- Its payload fits the length field; otherwise `append_record` throws. -/
def Fits (record : Record Bytes) : Prop := (record.payload m).length ≤ kMaxRecordPayload

instance (record : Record Bytes) : Decidable (record.Fits m) :=
  inferInstanceAs (Decidable ((record.payload m).length ≤ kMaxRecordPayload))

/-- The bytes of a file of records. -/
def encodeAll (records : List (Record Bytes)) : Bytes :=
  (records.map (frame m)).flatMap Frame.encode

variable {record : Record Bytes}

theorem unpack_payload (hpackable : record.Packable) (more : Bytes) :
    m.unpack (record.payload m ++ more) = some (.array (record.members.map Field.object)) :=
  m.unpack_pack _ more record.members_length (fits_members hpackable)

theorem unpack_part (hpackable : record.Packable) {part : Bytes} (hpart : part <+: record.payload m)
    (hshort : part.length < (record.payload m).length) : m.unpack part = none :=
  m.unpack_part _ part record.members_length (fits_members hpackable) hpart hshort

theorem record?_frame (hpackable : record.Packable) (st : Recovered Bytes) :
    st.record? m.unpack (record.frame m) = some (st.apply record) := by
  have hunpack := unpack_payload m hpackable []
  rw [List.append_nil] at hunpack
  simp only [Recovered.record?, Recovered.decode, frame, hunpack, decode_members hpackable]

theorem foldlM_frame {records : List (Record Bytes)}
    (hpackable : ∀ record ∈ records, record.Packable) (st : Recovered Bytes) :
    (records.map (frame m)).foldlM (Recovered.record? m.unpack) st =
      some (records.foldl Recovered.apply st) := by
  induction records generalizing st with
  | nil => rfl
  | cons record records ih =>
      obtain ⟨hfirst, hothers⟩ := List.forall_mem_cons.mp hpackable
      rw [List.map_cons, List.foldlM_cons, record?_frame m hfirst]
      exact ih hothers _

end Record

/-! ## The codec of the library -/

namespace Msgpack

variable (m : Msgpack)

/-- A payload that unpacks and converts. -/
def unpacked {S : Type} (fields : List (S → Object → Option S)) (s : S) (data : Bytes) : Option S :=
  (m.unpack data).bind fun object =>
    match object.convert fields s with
    | (s, true) => some s
    | (_, false) => none

theorem unpacked_pack {S : Type} {fields : List (S → Object → Option S)} {s t : S}
    {members : List Field} (hcount : members.length < 16) (hfits : ∀ field ∈ members, field.Fits)
    (hconvert : (Object.array (members.map Field.object)).convert fields s = (t, true)) :
    m.unpacked fields s (m.pack members) = some t := by
  have hunpack := m.unpack_pack members [] hcount hfits
  rw [List.append_nil] at hunpack
  simp only [unpacked, hunpack, Option.bind_some, hconvert]

def codec : Codec Bytes where
  packHardState hs := m.pack hs.members
  packEntry e := m.pack e.members
  packSnapshot snap := m.pack snap.members
  unpackHardState := m.unpacked HardState.fields {}
  unpackEntry := m.unpacked Entry.fields {}
  unpackSnapshot := m.unpacked SnapshotMeta.fields SnapshotMeta.none
  packable record := decide record.Packable
  unpack_hardState hs hpackable :=
    have hpackable := of_decide_eq_true hpackable
    m.unpacked_pack (Record.hardState hs).members_length (Record.fits_members hpackable)
      (Record.convert_hardState hpackable _)
  unpack_entry e hpackable :=
    have hpackable := of_decide_eq_true hpackable
    m.unpacked_pack (Record.entry e).members_length (Record.fits_members hpackable)
      (Record.convert_entry hpackable)
  unpack_snapshot snap hpackable :=
    have hpackable := of_decide_eq_true hpackable
    m.unpacked_pack (Record.snapshot snap).members_length (Record.fits_members hpackable)
      (Record.convert_snapshot hpackable)

variable {m} {records : List (Record Bytes)}

theorem codec_fits {record : Record Bytes} (hfits : m.codec.Fits record) :
    record.Packable ∧ record.Fits m := by
  obtain ⟨hpackable, hlength⟩ := hfits
  refine ⟨of_decide_eq_true hpackable, ?_⟩
  cases record <;> exact hlength

theorem codec_encode (record : Record Bytes) :
    m.codec.framing.encode record = (record.frame m).encode := by
  cases record <;> rfl

theorem codec_encodeAll (records : List (Record Bytes)) :
    m.codec.framing.encodeAll records = Record.encodeAll m records := by
  rw [Framing.encodeAll, Record.encodeAll, List.flatMap_map]
  exact List.flatMap_congr fun record _ => codec_encode record

/-- A file cut at any byte recovers to the fold of the records wholly in it. -/
theorem recoverFile_take (hfits : ∀ record ∈ records, m.codec.Fits record) (n : Nat) :
    ∃ damaged, recoverFile m.unpack ((Record.encodeAll m records).take n) =
      ⟨replay (m.codec.framing.whole records n),
        (Record.encodeAll m (m.codec.framing.whole records n)).length, damaged⟩ := by
  have hwhole := (m.codec.framing.whole_isPrefix records n).subset
  obtain ⟨rest, htake, hrest⟩ := m.codec.framing.take_encodeAll records n
  have hread : readFrame rest = none := by
    rcases hrest with rfl | ⟨record, hrecord, hpart, hshort⟩
    · rfl
    · rw [codec_encode] at hpart hshort
      have hlength : (record.frame m).2.length ≤ kMaxRecordPayload :=
        (codec_fits (hfits record hrecord)).2
      exact readFrame_short hlength hpart hshort
  have hframes : ∀ frame ∈ (m.codec.framing.whole records n).map (Record.frame m),
      frame.2.length ≤ kMaxRecordPayload :=
    List.forall_mem_map.mpr fun record hrecord => (codec_fits (hfits record (hwhole hrecord))).2
  have hfold := Record.foldlM_frame m
    (fun record hrecord => (codec_fits (hfits record (hwhole hrecord))).1) Recovered.start
  obtain ⟨left, -, hloop⟩ := recoverFile_append rest hframes hfold
  rw [codec_encodeAll, codec_encodeAll] at htake
  rw [htake]
  refine ⟨!(left == 0 || rest.isEmpty), hloop.trans ?_⟩
  cases left with
  | zero => rfl
  | succ left =>
      rw [recoverLoop, hread]
      cases rest.isEmpty <;> rfl

/-- On such a file the two models of `recover` agree. -/
theorem recoverFile_eq_recover (hfits : ∀ record ∈ records, m.codec.Fits record) (n : Nat) :
    let recovery := recoverFile m.unpack ((m.codec.framing.encodeAll records).take n)
    (recovery.recovered, recovery.validBytes) =
      m.codec.recover ((m.codec.framing.encodeAll records).take n) := by
  obtain ⟨damaged, hfile⟩ := recoverFile_take hfits n
  rw [m.codec.recover_take hfits, codec_encodeAll, codec_encodeAll, hfile]

end Msgpack

end RaftKv
