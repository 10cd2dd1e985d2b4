import RaftKv.Wal.Checksum
import RaftKv.Wal.Written

/-! # One damaged byte

What recovery makes of a file in which one byte of one record was changed. The checksum
covers the payload only. A changed checksum or payload is always noticed; so is a length
that became smaller, because a part of a struct does not unpack. A changed type is not
noticed when the payload converts to the other struct, and a larger length is not when
the payload and what follows it happen to have the checksum of the payload alone.
-/

namespace RaftKv

/-! ## Where the loop stops -/

section Stop

variable {unpack : Bytes → Option Object}

theorem le_validBytes (unpack : Bytes → Option Object) (fuel : Nat) (data : Bytes)
    (st : Recovered Bytes) (valid : Nat) (hfuel : data.length ≤ fuel) :
    valid ≤ (recoverLoop unpack fuel data st valid).validBytes := by
  obtain ⟨frames, rest, last, -, -, -, hvalid, -⟩ :=
    recoverLoop_stops unpack fuel data st valid hfuel
  omega

/-- Recovery ends in front of `rest` and drops it. -/
theorem recoverFile_dropped_iff {frames : List Frame} {st : Recovered Bytes} {rest : Bytes}
    (hfits : ∀ frame ∈ frames, frame.2.length ≤ kMaxRecordPayload)
    (hfold : frames.foldlM (Recovered.record? unpack) Recovered.start = some st)
    (hne : rest ≠ []) :
    recoverFile unpack (frames.flatMap Frame.encode ++ rest) =
        ⟨st, (frames.flatMap Frame.encode).length, true⟩ ↔
      ∀ frame more, readFrame rest = some (frame, more) →
        st.decode unpack frame = (st, false) := by
  obtain ⟨left, hleft, hloop⟩ := recoverFile_append rest hfits hfold
  have hpos := List.length_pos_iff.mpr hne
  obtain ⟨left, rfl⟩ : ∃ n, left = n + 1 := ⟨left - 1, by omega⟩
  have hempty : rest.isEmpty = false := by simpa using hne
  rw [hloop, recoverLoop, hempty]
  cases hread : readFrame rest with
  | none => simp
  | some result =>
      obtain ⟨frame, more⟩ := result
      obtain ⟨hrest, -⟩ := encode_of_readFrame hread
      have hlength := congrArg List.length hrest
      rw [List.length_append] at hlength
      have hframe := frame.length_encode_pos
      cases hdecode : st.decode unpack frame with
      | mk next ok =>
          simp only [hdecode, Bool.false_eq_true, if_false]
          cases ok with
          | false =>
              constructor
              · rintro heq _ _ hsome
                obtain ⟨rfl, rfl⟩ := Prod.mk.inj (Option.some.inj hsome)
                have hsame : next = st := congrArg Recovery.recovered heq
                rw [hdecode, hsame]
              · intro hclean
                rw [Prod.mk.inj (hdecode.symm.trans (hclean frame more rfl)) |>.1]
          | true =>
              constructor
              · intro heq
                have hvalid := le_validBytes unpack left more next
                  ((frames.flatMap Frame.encode).length + (rest.length - more.length)) (by omega)
                have hend := congrArg Recovery.validBytes heq
                dsimp only at hend
                omega
              · intro hclean
                cases hdecode.symm.trans (hclean frame more rfl)

end Stop

/-! ## Damage -/

section Damage

variable (m : Msgpack)

/-- A file in which one byte of a record was changed. -/
def damaged (before : List (Record Bytes)) (record : Record Bytes) (after : List (Record Bytes))
    (pos : Nat) (byte : UInt8) : Bytes :=
  Record.encodeAll m before ++
    ((record.frame m).encode.set pos byte ++ Record.encodeAll m after)

/-- The damaged record and everything after it is dropped, and nothing else. -/
def Dropped (before : List (Record Bytes)) (record : Record Bytes) (after : List (Record Bytes))
    (pos : Nat) (byte : UInt8) : Prop :=
  recoverFile m.unpack (damaged m before record after pos byte) =
    ⟨replay before, (Record.encodeAll m before).length, true⟩

/-- A little-endian number with one of its octets replaced. -/
def setOctet (n k : Nat) (byte : UInt8) : Nat :=
  n / 2 ^ (8 * (k + 1)) * 2 ^ (8 * (k + 1)) + byte.toNat * 2 ^ (8 * k) + n % 2 ^ (8 * k)

/-- The payload read as one of another type is accepted, or leaves a trace. -/
def Mistaken (st : Recovered Bytes) : Record Bytes → RecordType → Prop
  | .entry _, .hardState => True
  | .hardState hs, .entry => hs.term < 2 ^ 8
  | .snapshot snap, .hardState =>
      ¬ (st.hardState.term = snap.index ∧ st.hardState.vote = snap.term)
  | _, _ => False

/-- The damage is noticed. -/
def Caught (before : List (Record Bytes)) (record : Record Bytes) (after : List (Record Bytes))
    (pos : Nat) (byte : UInt8) : Prop :=
  if pos = 0 then
    ∀ type, RecordType.ofCode byte = some type → ¬ Mistaken (replay before) record type
  else if pos < 4 then
    let payload := record.payload m
    let body := payload ++ Record.encodeAll m after
    let length := setOctet payload.length (pos - 1) byte
    length < payload.length ∨ body.length < length ∨
      crc32 (body.take length) ≠ crc32 payload
  else True

end Damage

/-! ## Reading a damaged record -/

/-- What the loop does with a header and what follows it. -/
theorem readFrame_header (hdr : RecordHeader) (hlen : hdr.len ≤ kMaxRecordPayload)
    (hcrc : hdr.crc < 2 ^ 32) (body : Bytes) (frame : Frame) (more : Bytes) :
    readFrame (hdr.encode ++ body) = some (frame, more) ↔
      hdr.len ≤ body.length ∧ (crc32 (body.take hdr.len)).toNat = hdr.crc ∧
        RecordType.ofCode hdr.type = some frame.1 ∧ body.take hdr.len = frame.2 ∧
        body.drop hdr.len = more := by
  obtain ⟨type, payload⟩ := frame
  unfold readFrame
  rw [Codec.decode_encode body hlen hcrc]
  dsimp only
  cases RecordType.ofCode hdr.type with
  | none => simp
  | some found =>
      by_cases hshort : body.length < hdr.len
      · simp only [hshort, if_true, reduceCtorEq, false_iff]
        rintro ⟨hlong, -⟩
        omega
      · by_cases hsum : (crc32 (body.take hdr.len)).toNat = hdr.crc
        · simp [hshort, hsum, Nat.not_lt.mp hshort, and_assoc]
        · simp [hshort, hsum]

theorem RecordHeader.encode_set_len (hdr : RecordHeader) (hlen : hdr.len ≤ kMaxRecordPayload)
    (byte : UInt8) {pos : Nat} (hpos : 0 < pos) (hlt : pos < 4) :
    hdr.encode.set pos byte =
        ({ hdr with len := setOctet hdr.len (pos - 1) byte } : RecordHeader).encode ∧
      setOctet hdr.len (pos - 1) byte ≤ kMaxRecordPayload := by
  have hbyte := byte.toNat_lt
  unfold kMaxRecordPayload at *
  obtain rfl | rfl | rfl : pos = 1 ∨ pos = 2 ∨ pos = 3 := by omega
  all_goals
    simp [RecordHeader.encode, setOctet, ← UInt8.toNat_inj]
    omega

theorem RecordHeader.encode_set_crc {hdr : RecordHeader} (hcrc : hdr.crc < 2 ^ 32) {byte : UInt8}
    {pos : Nat} (hpos : 4 ≤ pos) (hlt : pos < 8) (hbyte : hdr.encode[pos]? ≠ some byte) :
    hdr.encode.set pos byte =
        ({ hdr with crc := setOctet hdr.crc (pos - 4) byte } : RecordHeader).encode ∧
      setOctet hdr.crc (pos - 4) byte < 2 ^ 32 ∧ setOctet hdr.crc (pos - 4) byte ≠ hdr.crc := by
  have := byte.toNat_lt
  obtain rfl | rfl | rfl | rfl : pos = 4 ∨ pos = 5 ∨ pos = 6 ∨ pos = 7 := by omega
  all_goals
    simp [RecordHeader.encode, setOctet, ← UInt8.toNat_inj] at hbyte ⊢
    omega

theorem crc32_set_ne {data : Bytes} {pos : Nat} {byte : UInt8} (hpos : pos < data.length)
    (hbyte : data[pos]? ≠ some byte) : crc32 (data.set pos byte) ≠ crc32 data := by
  have hdata : data = data.take pos ++ data[pos] :: data.drop (pos + 1) := by simp
  rw [List.set_eq_take_append_cons_drop, if_pos hpos]
  conv_rhs => rw [hdata]
  exact crc32_ne_of_damage _ _ fun heq => hbyte (by rw [List.getElem?_eq_getElem hpos, heq])

section Damaged

variable (m : Msgpack) {record : Record Bytes} {pos : Nat} {byte : UInt8}

/-- The header of a record. -/
def Record.header (record : Record Bytes) : RecordHeader :=
  ⟨record.type.code, (record.payload m).length, (crc32 (record.payload m)).toNat⟩

theorem Record.encode_frame (record : Record Bytes) :
    (record.frame m).encode = (record.header m).encode ++ record.payload m := rfl

theorem Record.encode_set_header (record : Record Bytes) (hpos : pos < 8) (byte : UInt8) :
    (record.frame m).encode.set pos byte =
      (record.header m).encode.set pos byte ++ record.payload m := by
  rw [record.encode_frame m, List.set_append_left _ _ hpos]

/-- A changed checksum or payload does not read as a record. -/
theorem readFrame_damaged (hfits : record.Fits m) (hpos : pos < (record.frame m).encode.length)
    (hbyte : (record.frame m).encode[pos]? ≠ some byte) (hcovered : 4 ≤ pos) (rest : Bytes)
    (frame : Frame) (more : Bytes) :
    readFrame ((record.frame m).encode.set pos byte ++ rest) ≠ some (frame, more) := by
  have hcrc : (record.header m).crc < 2 ^ 32 := (crc32 (record.payload m)).toNat_lt
  have htake : (record.payload m ++ rest).take (record.payload m).length = record.payload m :=
    List.take_left
  intro hread
  by_cases hheader : pos < 8
  · have hold : (record.header m).encode[pos]? ≠ some byte := by
      rwa [record.encode_frame m, List.getElem?_append_left hheader] at hbyte
    obtain ⟨hset, hlt, hne⟩ := RecordHeader.encode_set_crc hcrc hcovered hheader hold
    rw [record.encode_set_header m hheader, hset, List.append_assoc] at hread
    have hsum := ((readFrame_header { record.header m with crc := _ } hfits hlt _ frame more).mp
      hread).2.1
    exact hne (hsum.symm.trans (congrArg (fun data => (crc32 data).toNat) htake))
  · have hlength : (record.header m).encode.length = 8 := rfl
    have hle : 8 ≤ pos := by omega
    rw [record.encode_frame m, List.getElem?_append_right (by omega), hlength] at hbyte
    rw [record.encode_frame m, List.length_append, hlength] at hpos
    rw [record.encode_frame m, List.set_append_right _ _ (by omega), hlength,
      List.append_assoc] at hread
    have hsum := ((readFrame_header (record.header m) hfits hcrc _ frame more).mp hread).2.1
    have hcut : ((record.payload m).set (pos - 8) byte ++ rest).take (record.payload m).length =
        (record.payload m).set (pos - 8) byte := List.take_left' (List.length_set ..)
    have hsame : crc32 ((record.payload m).set (pos - 8) byte) = crc32 (record.payload m) :=
      UInt32.toNat_inj.mp ((congrArg (fun data => (crc32 data).toNat) hcut).symm.trans hsum)
    exact crc32_set_ne (by omega) hbyte hsame

/-! ### A changed type

The six ways to take one struct for another. -/

theorem HardState.convert_entry {hs : HardState} (hterm : hs.term < 2 ^ 64) :
    ((Object.array (hs.members.map Field.object)).convert Entry.fields {}).2 =
      decide (hs.term < 2 ^ 8) := by
  have hword : (UInt64.ofNat hs.term).toNat = hs.term := by
    rw [UInt64.toNat_ofNat', Nat.mod_eq_of_lt hterm]
  by_cases hsmall : hs.term < 2 ^ 8 <;>
    simp only [members, Field.object, Object.convert, Object.assign, Entry.fields, Object.toUInt8,
      Object.toUInt64, List.map_cons, hword, hsmall, if_true, if_false, Option.map_some,
      Option.map_none, decide_true, decide_false, List.map_nil]

theorem HardState.convert_snapshot (hs : HardState) :
    ((Object.array (hs.members.map Field.object)).convert SnapshotMeta.fields
      SnapshotMeta.none).2 = false := rfl

theorem Entry.convert_hardState (e : Entry) (old : HardState) :
    ((Object.array (e.members.map Field.object)).convert HardState.fields old).2 = true := rfl

theorem Entry.convert_snapshot (e : Entry) :
    ((Object.array (e.members.map Field.object)).convert SnapshotMeta.fields
      SnapshotMeta.none).2 = false := rfl

theorem SnapshotMeta.convert_entry (snap : SnapshotMeta Bytes) :
    ((Object.array (snap.members.map Field.object)).convert Entry.fields {}).2 = false := by
  by_cases hsmall : (UInt64.ofNat snap.index).toNat < 2 ^ 8 <;>
    simp only [members, Field.object, Object.convert, Object.assign, Entry.fields, Object.toUInt8,
      Object.toUInt64, List.map_cons, hsmall, if_true, if_false, Option.map_some, Option.map_none]

theorem SnapshotMeta.convert_hardState {snap : SnapshotMeta Bytes} (hindex : snap.index < 2 ^ 64)
    (hterm : snap.term < 2 ^ 64) (old : HardState) :
    (Object.array (snap.members.map Field.object)).convert HardState.fields old =
      ({ old with term := snap.index, vote := snap.term }, false) := by
  simpa [members, Field.object, Object.convert, Object.assign, HardState.fields, Object.toUInt64]
    using ⟨hindex, hterm⟩

theorem Recovered.decode_other {st : Recovered Bytes} (hpackable : record.Packable)
    {type : RecordType} (htype : type ≠ record.type) :
    st.decode m.unpack (type, record.payload m) = (st, false) ↔ ¬ Mistaken st record type := by
  have hunpack := Record.unpack_payload m hpackable []
  rw [List.append_nil] at hunpack
  simp only [Recovered.decode, hunpack]
  cases record with
  | hardState hs =>
      cases type with
      | hardState => exact absurd rfl htype
      | entry => simp [Recovered.convert, Record.members, HardState.convert_entry hpackable.1,
          Mistaken]
      | snapshot => simp [Recovered.convert, Record.members, HardState.convert_snapshot, Mistaken]
  | entry e =>
      cases type with
      | hardState => simp [Recovered.convert, Record.members, Entry.convert_hardState, Mistaken]
      | entry => exact absurd rfl htype
      | snapshot => simp [Recovered.convert, Record.members, Entry.convert_snapshot, Mistaken]
  | snapshot snap =>
      cases type with
      | hardState =>
          obtain ⟨⟨term, vote, commit⟩, entries, snapshot⟩ := st
          simp [Recovered.convert, Record.members, Mistaken, eq_comm,
            SnapshotMeta.convert_hardState hpackable.1 hpackable.2.1]
      | entry => simp [Recovered.convert, Record.members, SnapshotMeta.convert_entry, Mistaken]
      | snapshot => exact absurd rfl htype

theorem typeDamaged_iff (hpackable : record.Packable) (hfits : record.Fits m)
    (hbyte : record.type.code ≠ byte) (st : Recovered Bytes) (rest : Bytes) :
    (∀ frame more, readFrame (({ record.header m with type := byte } : RecordHeader).encode ++
        (record.payload m ++ rest)) = some (frame, more) →
      st.decode m.unpack frame = (st, false)) ↔
    ∀ type, RecordType.ofCode byte = some type → ¬ Mistaken st record type := by
  have hcrc : (record.header m).crc < 2 ^ 32 := (crc32 (record.payload m)).toNat_lt
  have htake : (record.payload m ++ rest).take (record.payload m).length = record.payload m :=
    List.take_left
  have hother {type : RecordType} (htype : RecordType.ofCode byte = some type) :
      type ≠ record.type := by
    rintro rfl
    exact hbyte (RecordType.code_of_ofCode htype)
  have hread := readFrame_header { record.header m with type := byte } hfits hcrc
    (record.payload m ++ rest)
  constructor
  · intro hstop type htype
    refine (Recovered.decode_other m hpackable (hother htype)).mp
      (hstop (type, record.payload m) rest ?_)
    refine (hread _ _).mpr ⟨?_, ?_, htype, htake, List.drop_left⟩
    · simp [Record.header]
    · exact congrArg (fun data => (crc32 data).toNat) htake
  · rintro hcaught ⟨type, payload⟩ more hsome
    obtain ⟨-, -, htype, hpayload, -⟩ := (hread _ _).mp hsome
    obtain rfl : record.payload m = payload := htake.symm.trans hpayload
    exact (Recovered.decode_other m hpackable (hother htype)).mpr (hcaught type htype)

/-! ### A changed length -/

theorem Recovered.decode_cut {st : Recovered Bytes} (hpackable : record.Packable) (rest : Bytes)
    {length : Nat} (hlength : length ≤ (record.payload m ++ rest).length) :
    st.decode m.unpack (record.type, (record.payload m ++ rest).take length) = (st, false) ↔
      length < (record.payload m).length := by
  constructor
  · intro hdecode
    by_contra hlong
    rw [List.take_append, List.take_of_length_le (by omega)] at hdecode
    simp only [Recovered.decode, Record.unpack_payload m hpackable,
      Record.decode_members hpackable] at hdecode
    cases (Prod.mk.inj hdecode).2
  · intro hshort
    have hpart : (record.payload m ++ rest).take length <+: (record.payload m) := by
      rw [List.take_append_of_le_length (by omega)]
      exact List.take_prefix _ _
    have hnone := Record.unpack_part m hpackable hpart (by rw [List.length_take]; omega)
    simp only [Recovered.decode, hnone]

theorem lengthDamaged_iff (hpackable : record.Packable) {length : Nat}
    (hlength : length ≤ kMaxRecordPayload) (st : Recovered Bytes) (rest : Bytes) :
    (∀ frame more, readFrame (({ record.header m with len := length } : RecordHeader).encode ++
        (record.payload m ++ rest)) = some (frame, more) →
      st.decode m.unpack frame = (st, false)) ↔
    (length < (record.payload m).length ∨ (record.payload m ++ rest).length < length ∨
      crc32 ((record.payload m ++ rest).take length) ≠ crc32 (record.payload m)) := by
  have hcrc : (record.header m).crc < 2 ^ 32 := (crc32 (record.payload m)).toNat_lt
  have hread := readFrame_header { record.header m with len := length } hlength hcrc
    (record.payload m ++ rest)
  constructor
  · intro hstop
    by_contra hmissed
    push Not at hmissed
    obtain ⟨hlong, henough, hsum⟩ := hmissed
    have hsome := (hread (record.type, (record.payload m ++ rest).take length)
      ((record.payload m ++ rest).drop length)).mpr
        ⟨henough, congrArg UInt32.toNat hsum, Codec.ofCode_code _, rfl, rfl⟩
    have hshort := (Recovered.decode_cut m hpackable rest henough).mp (hstop _ _ hsome)
    omega
  · rintro hcaught ⟨type, payload⟩ more hsome
    obtain ⟨henough, hsum, htype, hpayload, -⟩ := (hread _ _).mp hsome
    obtain rfl : record.type = type := Option.some.inj ((Codec.ofCode_code _).symm.trans htype)
    obtain rfl : (record.payload m ++ rest).take length = payload := hpayload
    refine (Recovered.decode_cut m hpackable rest henough).mpr ?_
    rcases hcaught with hshort | hbeyond | hdifferent
    · exact hshort
    · exact absurd henough (Nat.not_le.mpr hbeyond)
    · exact absurd (UInt32.toNat_inj.mp hsum) hdifferent

end Damaged

/-- A damaged byte is dropped with its record and everything after it exactly when it is
noticed. -/
theorem damaged_dropped_iff (m : Msgpack) {before after : List (Record Bytes)}
    {record : Record Bytes} {pos : Nat} {byte : UInt8}
    (hpackable : ∀ r ∈ record :: before, r.Packable)
    (hfits : ∀ r ∈ record :: before, r.Fits m) (hpos : pos < (record.frame m).encode.length)
    (hbyte : (record.frame m).encode[pos]? ≠ some byte) :
    Dropped m before record after pos byte ↔ Caught m before record after pos byte := by
  obtain ⟨hpack, hpacks⟩ := List.forall_mem_cons.mp hpackable
  obtain ⟨hfit, hfitting⟩ := List.forall_mem_cons.mp hfits
  have hne : (record.frame m).encode.set pos byte ++ Record.encodeAll m after ≠ [] := by
    simp [(record.frame m).encode_ne_nil]
  have hstop := recoverFile_dropped_iff (List.forall_mem_map.mpr hfitting)
    (Record.foldlM_frame m hpacks Recovered.start) hne
  refine Iff.trans hstop ?_
  unfold Caught
  split
  next htype =>
    subst htype
    have hcode : record.type.code ≠ byte := fun heq => hbyte (congrArg some heq)
    exact typeDamaged_iff m hpack hfit hcode (replay before) (Record.encodeAll m after)
  split
  next hzero hlength =>
    obtain ⟨hset, hmax⟩ := RecordHeader.encode_set_len (record.header m) hfit byte
      (Nat.pos_of_ne_zero hzero) hlength
    rw [record.encode_set_header m (by omega), hset, List.append_assoc]
    exact lengthDamaged_iff m hpack hmax (replay before) (Record.encodeAll m after)
  next hzero hcovered =>
    simp only [iff_true]
    intro frame more hread
    exact absurd hread (readFrame_damaged m hfit hpos hbyte (by omega) _ frame more)

/-- A vote in term 3, and an entry of that term. -/
def votedInThree : Record Bytes := .hardState ⟨3, 2, 0⟩

@[inherit_doc votedInThree]
def entryOfThree : Record Bytes := .entry { term := 3, index := 1, data := [0xAA] }

/-- A flipped bit of the data, and a length that became larger. -/
theorem damaged_dropped_iff_entryOfThree :
    Dropped msgpack [votedInThree] entryOfThree [] 14 0xAB ∧
      Dropped msgpack [votedInThree] entryOfThree [] 1 8 := by
  have hpackable : ∀ r ∈ [entryOfThree, votedInThree], r.Packable := by
    simp [entryOfThree, votedInThree, Record.Packable]
  have hfits : ∀ r ∈ [entryOfThree, votedInThree], r.Fits msgpack := by decide +kernel
  exact ⟨(damaged_dropped_iff msgpack hpackable hfits (by decide +kernel) (by decide +kernel)).mpr
      trivial,
    (damaged_dropped_iff msgpack hpackable hfits (by decide +kernel) (by decide +kernel)).mpr
      (.inr (.inl (by decide +kernel)))⟩

/-- An entry whose type byte became that of a hard state replaces the hard state, without a
sign of damage; a hard state becomes an entry; and a rejected snapshot leaves its index and
term behind as term and vote. -/
theorem type_damage_accepted :
    recoverFile msgpack.unpack (damaged msgpack [votedInThree] entryOfThree [] 0 2) =
        ⟨⟨⟨0, 3, 1⟩, [], SnapshotMeta.none⟩, 27, false⟩ ∧
      recoverFile msgpack.unpack (damaged msgpack [] votedInThree [] 0 1) =
        ⟨⟨{}, [⟨3, 2, 0, []⟩], SnapshotMeta.none⟩, 12, false⟩ ∧
      recoverFile msgpack.unpack
          (damaged msgpack [votedInThree] (.snapshot ⟨5, 4, [0xAA], false⟩) [] 0 2) =
        ⟨⟨⟨5, 4, 0⟩, [], SnapshotMeta.none⟩, 12, true⟩ ∧
      ¬ Dropped msgpack [votedInThree] entryOfThree [] 0 2 := by
  refine ⟨by decide +kernel, by decide +kernel, by decide +kernel, ?_⟩
  unfold Dropped
  decide +kernel

end RaftKv
