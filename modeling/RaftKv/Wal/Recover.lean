import RaftKv.Wal.File
import RaftKv.Wal.Packing

/-! # Recovery of arbitrary bytes

`WAL::recover` on any content of the file. A record can be rejected because its header
or payload is cut short, its type is unknown, its checksum is wrong, its payload does
not unpack, or, last of all, because a field has the wrong type. An entry or a snapshot
is decoded into a temporary. The hard state is converted in place, so the fields before
the wrong one have been assigned when the record is rejected.
-/

namespace RaftKv

abbrev Frame := RecordType × Bytes

/-- Bytes of a record whose payload is given. -/
def Frame.encode (frame : Frame) : Bytes :=
  RecordHeader.encode ⟨frame.1.code, frame.2.length, (crc32 frame.2).toNat⟩ ++ frame.2

/-- The tests of the loop up to the checksum. -/
def readFrame (data : Bytes) : Option (Frame × Bytes) :=
  match RecordHeader.decode data with
  | none => none
  | some (hdr, rest) =>
      match RecordType.ofCode hdr.type with
      | none => none
      | some type =>
          if rest.length < hdr.len then none
          else if (crc32 (rest.take hdr.len)).toNat ≠ hdr.crc then none
          else some ((type, rest.take hdr.len), rest.drop hdr.len)

/-- The `try` block on the payload `unpack` returns: the state it leaves, and whether it
completes. -/
def Recovered.convert (st : Recovered Bytes) (object : Object) : RecordType → Recovered Bytes × Bool
  | .hardState =>
      let (hs, ok) := object.convert HardState.fields st.hardState
      ({ st with hardState := hs }, ok)
  | .entry =>
      let (e, ok) := object.convert Entry.fields {}
      if ok then (st.apply (.entry e), true) else (st, false)
  | .snapshot =>
      let (snap, ok) := object.convert SnapshotMeta.fields SnapshotMeta.none
      if ok then (st.apply (.snapshot snap), true) else (st, false)

/-- What `recover` computes for one file. -/
structure Recovery where
  recovered : Recovered Bytes
  validBytes : Nat
  damagedTail : Bool
  deriving DecidableEq, Repr

section Unpack

variable (unpack : Bytes → Option Object)

def Recovered.decode (st : Recovered Bytes) (frame : Frame) : Recovered Bytes × Bool :=
  match unpack frame.2 with
  | none => (st, false)
  | some object => st.convert object frame.1

def recoverLoop : Nat → Bytes → Recovered Bytes → Nat → Recovery
  | 0, _, st, valid => ⟨st, valid, false⟩
  | fuel + 1, data, st, valid =>
      if data.isEmpty then ⟨st, valid, false⟩
      else
        match readFrame data with
        | none => ⟨st, valid, true⟩
        | some (frame, rest) =>
            match st.decode unpack frame with
            | (st, false) => ⟨st, valid, true⟩
            | (st, true) => recoverLoop fuel rest st (valid + (data.length - rest.length))

/-- Every record takes a byte at least, so the loop has fuel enough. -/
def recoverFile (data : Bytes) : Recovery :=
  recoverLoop unpack data.length data Recovered.start 0

/-- The file after `recover`: a damaged one is cut. -/
def repaired (data : Bytes) : Bytes :=
  let recovery := recoverFile unpack data
  if recovery.damagedTail then data.take recovery.validBytes else data

/-! ## What recovery should return -/

/-- A record as a change of the recovered state, made as a whole or not at all. -/
def Recovered.record? (st : Recovered Bytes) (frame : Frame) : Option (Recovered Bytes) :=
  match st.decode unpack frame with
  | (next, true) => some next
  | (_, false) => none

/-- The state is the fold of the records in the bytes kept. -/
def RecoversExactly (data : Bytes) : Prop :=
  ∃ frames : List Frame, (∀ frame ∈ frames, frame.2.length ≤ kMaxRecordPayload) ∧
    data.take (recoverFile unpack data).validBytes = frames.flatMap Frame.encode ∧
    frames.foldlM (Recovered.record? unpack) Recovered.start =
      some (recoverFile unpack data).recovered

/-- A second recovery keeps every byte of the repaired file and returns the same state. -/
def RecoversAgain (data : Bytes) : Prop :=
  (recoverFile unpack (repaired unpack data)).recovered = (recoverFile unpack data).recovered ∧
    (recoverFile unpack (repaired unpack data)).validBytes = (repaired unpack data).length ∧
    repaired unpack (repaired unpack data) = repaired unpack data

/-- The first hard state record that does not convert, after records that all did, leaves
the hard state as it was. -/
def StopsCleanly (data : Bytes) : Prop :=
  ∀ (frames : List Frame) (rest more payload : Bytes) (st : Recovered Bytes) (object : Object),
    data = frames.flatMap Frame.encode ++ rest →
    (∀ frame ∈ frames, frame.2.length ≤ kMaxRecordPayload) →
    frames.foldlM (Recovered.record? unpack) Recovered.start = some st →
    readFrame rest = some ((.hardState, payload), more) → unpack payload = some object →
    (object.convert HardState.fields st.hardState).2 = false →
    (object.convert HardState.fields st.hardState).1 = st.hardState

end Unpack

/-! ## Frames -/

theorem RecordType.code_of_ofCode {code : UInt8} {type : RecordType}
    (htype : RecordType.ofCode code = some type) : type.code = code := by
  unfold RecordType.ofCode at htype
  split at htype
  · cases htype; symm; assumption
  · split at htype
    · cases htype; symm; assumption
    · split at htype
      · cases htype; symm; assumption
      · cases htype

theorem RecordHeader.encode_of_decode {data rest : Bytes} {hdr : RecordHeader}
    (hdecode : RecordHeader.decode data = some (hdr, rest)) :
    data = hdr.encode ++ rest ∧ hdr.len ≤ kMaxRecordPayload := by
  unfold RecordHeader.decode at hdecode
  split at hdecode
  next type l0 l1 l2 c0 c1 c2 c3 tail =>
    cases hdecode
    have := l0.toNat_lt
    have := l1.toNat_lt
    have := l2.toNat_lt
    have := c0.toNat_lt
    have := c1.toNat_lt
    have := c2.toNat_lt
    have := c3.toNat_lt
    constructor
    · simp only [RecordHeader.encode, List.cons_append, List.nil_append, List.cons.injEq, true_and,
        and_true, ← UInt8.toNat_inj, UInt8.toNat_ofNat']
      omega
    · simp only [kMaxRecordPayload]
      omega
  · cases hdecode

theorem encode_of_readFrame {data rest : Bytes} {frame : Frame}
    (hread : readFrame data = some (frame, rest)) :
    data = frame.encode ++ rest ∧ frame.2.length ≤ kMaxRecordPayload := by
  unfold readFrame at hread
  split at hread
  · cases hread
  next hdr body hdecode =>
    obtain ⟨hdata, hlen⟩ := RecordHeader.encode_of_decode hdecode
    split at hread
    · cases hread
    next type htype =>
      split at hread
      · cases hread
      next hlong =>
        split at hread
        · cases hread
        next hcrc =>
          cases hread
          have hlength : (body.take hdr.len).length = hdr.len := by
            rw [List.length_take]
            omega
          refine ⟨?_, hlength.trans_le hlen⟩
          simp only [Frame.encode, hlength, RecordType.code_of_ofCode htype, not_not.mp hcrc,
            List.append_assoc, List.take_append_drop]
          exact hdata

theorem readFrame_encode {frame : Frame} (hlen : frame.2.length ≤ kMaxRecordPayload)
    (rest : Bytes) : readFrame (frame.encode ++ rest) = some (frame, rest) := by
  unfold readFrame Frame.encode
  rw [List.append_assoc, Codec.decode_encode _ hlen (crc32 frame.2).toNat_lt]
  simp [Codec.ofCode_code]

theorem Frame.encode_ne_nil (frame : Frame) : frame.encode ≠ [] := by
  simp [Frame.encode, RecordHeader.encode]

theorem Frame.length_encode_pos (frame : Frame) : 0 < frame.encode.length :=
  List.length_pos_iff.mpr frame.encode_ne_nil

/-- A frame cut short does not read as anything. -/
theorem readFrame_short {data : Bytes} {frame : Frame} (hlen : frame.2.length ≤ kMaxRecordPayload)
    (hpre : data <+: frame.encode) (hshort : data.length < frame.encode.length) :
    readFrame data = none := by
  rw [Option.eq_none_iff_forall_not_mem]
  rintro ⟨other, more⟩ hread
  obtain ⟨hdata, hother⟩ := encode_of_readFrame hread
  obtain ⟨tail, htail⟩ := hpre
  have hwhole := readFrame_encode hlen []
  rw [List.append_nil, ← htail, hdata, List.append_assoc, readFrame_encode hother] at hwhole
  obtain ⟨rfl, hempty⟩ := Prod.mk.inj (Option.some.inj hwhole)
  rw [(List.append_eq_nil_iff.mp hempty).2, List.append_nil] at htail
  exact absurd hshort (htail ▸ lt_irrefl _)

/-! ## The loop -/

variable {unpack : Bytes → Option Object}

/-- How the loop ends in front of what it does not accept. -/
inductive Stops (unpack : Bytes → Option Object) (st : Recovered Bytes) :
    Bytes → Recovered Bytes → Bool → Prop
  | finished : Stops unpack st [] st false
  | noFrame {rest : Bytes} (hne : rest ≠ []) (hread : readFrame rest = none) :
      Stops unpack st rest st true
  | thrown {rest more : Bytes} {frame : Frame} {next : Recovered Bytes}
      (hread : readFrame rest = some (frame, more))
      (hdecode : st.decode unpack frame = (next, false)) : Stops unpack st rest next true

theorem recoverLoop_stops (unpack : Bytes → Option Object) (fuel : Nat) (data : Bytes)
    (st : Recovered Bytes) (valid : Nat) (hfuel : data.length ≤ fuel) :
    ∃ (frames : List Frame) (rest : Bytes) (last : Recovered Bytes),
      data = frames.flatMap Frame.encode ++ rest ∧
      (∀ frame ∈ frames, frame.2.length ≤ kMaxRecordPayload) ∧
      frames.foldlM (Recovered.record? unpack) st = some last ∧
      (recoverLoop unpack fuel data st valid).validBytes =
        valid + (frames.flatMap Frame.encode).length ∧
      Stops unpack last rest (recoverLoop unpack fuel data st valid).recovered
        (recoverLoop unpack fuel data st valid).damagedTail := by
  induction fuel generalizing data st valid with
  | zero =>
      obtain rfl := List.eq_nil_of_length_eq_zero (Nat.le_zero.mp hfuel)
      exact ⟨[], [], st, rfl, by simp, rfl, rfl, .finished⟩
  | succ fuel ih =>
      rw [recoverLoop]
      split
      next hempty =>
        obtain rfl := List.isEmpty_iff.mp hempty
        exact ⟨[], [], st, rfl, by simp, rfl, rfl, .finished⟩
      next hempty =>
        cases hread : readFrame data with
        | none =>
            have hne : data ≠ [] := fun h => hempty (List.isEmpty_iff.mpr h)
            exact ⟨[], data, st, rfl, by simp, rfl, rfl, .noFrame hne hread⟩
        | some result =>
            obtain ⟨frame, rest⟩ := result
            obtain ⟨hdata, hlen⟩ := encode_of_readFrame hread
            cases hdecode : st.decode unpack frame with
            | mk next ok =>
                simp only [hdecode]
                cases ok with
                | false => exact ⟨[], data, st, rfl, by simp, rfl, rfl, .thrown hread hdecode⟩
                | true =>
                    have hpos := frame.length_encode_pos
                    have hlength := congrArg List.length hdata
                    rw [List.length_append] at hlength
                    obtain ⟨frames, tail, last, htail, hfits, hfold, hvalid, hstops⟩ :=
                      ih rest next (valid + (data.length - rest.length)) (by omega)
                    refine ⟨frame :: frames, tail, last, ?_, ?_, ?_, ?_, hstops⟩
                    · rw [List.flatMap_cons, List.append_assoc, ← htail, hdata]
                    · exact List.forall_mem_cons.mpr ⟨hlen, hfits⟩
                    · simp [List.foldlM_cons, Recovered.record?, hdecode, hfold]
                    · rw [List.flatMap_cons, List.length_append, hvalid]
                      omega

/-- The loop gets past records that convert one after the other. -/
theorem recoverLoop_append {frames : List Frame} {fuel : Nat} {st last : Recovered Bytes}
    (rest : Bytes) (hfits : ∀ frame ∈ frames, frame.2.length ≤ kMaxRecordPayload)
    (hfold : frames.foldlM (Recovered.record? unpack) st = some last) (valid : Nat)
    (hfuel : (frames.flatMap Frame.encode ++ rest).length ≤ fuel) :
    ∃ left, rest.length ≤ left ∧
      recoverLoop unpack fuel (frames.flatMap Frame.encode ++ rest) st valid =
        recoverLoop unpack left rest last (valid + (frames.flatMap Frame.encode).length) := by
  induction frames generalizing fuel st valid with
  | nil =>
      obtain rfl := Option.some.inj hfold
      exact ⟨fuel, hfuel, rfl⟩
  | cons frame frames ih =>
      rw [List.foldlM_cons] at hfold
      obtain ⟨next, hrecord, hrest⟩ := Option.bind_eq_some_iff.mp hfold
      have hdecode : st.decode unpack frame = (next, true) := by
        unfold Recovered.record? at hrecord
        split at hrecord
        next hdecode =>
          cases hrecord
          exact hdecode
        · cases hrecord
      have hpos := frame.length_encode_pos
      rw [List.flatMap_cons, List.append_assoc, List.length_append] at hfuel
      obtain ⟨fuel, rfl⟩ : ∃ n, fuel = n + 1 := ⟨fuel - 1, by omega⟩
      have hleast : (frames.flatMap Frame.encode ++ rest).length ≤ fuel := by omega
      obtain ⟨left, hleft, hloop⟩ := ih (fun f hf => hfits f (List.mem_cons_of_mem _ hf)) hrest
        (valid + frame.encode.length) hleast
      refine ⟨left, hleft, ?_⟩
      have hne : (frame.encode ++ (frames.flatMap Frame.encode ++ rest)).isEmpty = false := by
        simp [frame.encode_ne_nil]
      rw [List.flatMap_cons, List.append_assoc, recoverLoop, hne,
        readFrame_encode (hfits frame List.mem_cons_self)]
      simp only [hdecode, Bool.false_eq_true, if_false]
      rw [List.length_append, Nat.add_sub_cancel, hloop, List.length_append, Nat.add_assoc]

theorem recoverFile_append {frames : List Frame} {last : Recovered Bytes} (rest : Bytes)
    (hfits : ∀ frame ∈ frames, frame.2.length ≤ kMaxRecordPayload)
    (hfold : frames.foldlM (Recovered.record? unpack) Recovered.start = some last) :
    ∃ left, rest.length ≤ left ∧ recoverFile unpack (frames.flatMap Frame.encode ++ rest) =
      recoverLoop unpack left rest last (frames.flatMap Frame.encode).length := by
  obtain ⟨left, hleft, hloop⟩ := recoverLoop_append rest hfits hfold 0 le_rfl
  exact ⟨left, hleft, by rw [recoverFile, hloop, Nat.zero_add]⟩

theorem recoverFile_frames {frames : List Frame} {last : Recovered Bytes}
    (hfits : ∀ frame ∈ frames, frame.2.length ≤ kMaxRecordPayload)
    (hfold : frames.foldlM (Recovered.record? unpack) Recovered.start = some last) :
    recoverFile unpack (frames.flatMap Frame.encode) =
      ⟨last, (frames.flatMap Frame.encode).length, false⟩ := by
  obtain ⟨left, -, hloop⟩ := recoverFile_append [] hfits hfold
  rw [List.append_nil] at hloop
  rw [hloop]
  cases left <;> rfl

/-- A rejected record changes nothing but the hard state. -/
theorem Recovered.decode_false {st next : Recovered Bytes} {frame : Frame}
    (hdecode : st.decode unpack frame = (next, false)) :
    next = st ∨ ∃ object, frame.1 = .hardState ∧ unpack frame.2 = some object ∧
      (object.convert HardState.fields st.hardState).2 = false ∧
      next = { st with hardState := (object.convert HardState.fields st.hardState).1 } := by
  obtain ⟨type, payload⟩ := frame
  unfold Recovered.decode at hdecode
  split at hdecode
  · cases hdecode
    exact .inl rfl
  next object hunpack =>
    cases type with
    | hardState =>
        obtain ⟨hnext, hfailed⟩ := Prod.mk.inj hdecode
        exact .inr ⟨object, rfl, hunpack, hfailed, hnext.symm⟩
    | entry =>
        simp only [Recovered.convert] at hdecode
        split at hdecode <;> cases hdecode
        exact .inl rfl
    | snapshot =>
        simp only [Recovered.convert] at hdecode
        split at hdecode <;> cases hdecode
        exact .inl rfl

theorem Stops.hardState {st next : Recovered Bytes} {rest : Bytes} {damaged : Bool}
    (hstops : Stops unpack st rest next damaged) :
    next = st ∨ ∃ payload more object, readFrame rest = some ((.hardState, payload), more) ∧
      unpack payload = some object ∧ (object.convert HardState.fields st.hardState).2 = false ∧
      next = { st with hardState := (object.convert HardState.fields st.hardState).1 } := by
  cases hstops with
  | finished => exact .inl rfl
  | noFrame => exact .inl rfl
  | @thrown _ more frame _ hread hdecode =>
      obtain ⟨type, payload⟩ := frame
      rcases Recovered.decode_false hdecode with heq | ⟨object, rfl, hunpack, hfailed, heq⟩
      · exact .inl heq
      · exact .inr ⟨payload, more, object, hread, hunpack, hfailed, heq⟩

/-- What recovery keeps, and what its first rejected record does to the result. -/
structure Kept (unpack : Bytes → Option Object) (data : Bytes) (frames : List Frame) (rest : Bytes)
    (last : Recovered Bytes) : Prop where
  parts : data = frames.flatMap Frame.encode ++ rest
  fits : ∀ frame ∈ frames, frame.2.length ≤ kMaxRecordPayload
  folds : frames.foldlM (Recovered.record? unpack) Recovered.start = some last
  validBytes : (recoverFile unpack data).validBytes = (frames.flatMap Frame.encode).length
  stops : Stops unpack last rest (recoverFile unpack data).recovered
    (recoverFile unpack data).damagedTail

theorem recoverFile_kept (unpack : Bytes → Option Object) (data : Bytes) :
    ∃ frames rest last, Kept unpack data frames rest last := by
  obtain ⟨frames, rest, last, hdata, hfits, hfold, hvalid, hstops⟩ :=
    recoverLoop_stops unpack data.length data Recovered.start 0 le_rfl
  exact ⟨frames, rest, last, hdata, hfits, hfold, by rw [recoverFile, hvalid, Nat.zero_add], hstops⟩

namespace Kept

variable {data rest : Bytes} {frames : List Frame} {last : Recovered Bytes}

theorem take_validBytes (hkept : Kept unpack data frames rest last) :
    data.take (recoverFile unpack data).validBytes = frames.flatMap Frame.encode := by
  rw [hkept.validBytes]
  conv_lhs => rw [hkept.parts]
  exact List.take_left

theorem repaired (hkept : Kept unpack data frames rest last) :
    repaired unpack data = frames.flatMap Frame.encode := by
  unfold RaftKv.repaired
  dsimp only
  split
  · exact hkept.take_validBytes
  next hwhole =>
    have hstops := hkept.stops
    rw [Bool.not_eq_true] at hwhole
    rw [hwhole] at hstops
    cases hstops
    exact hkept.parts.trans (List.append_nil _)

/-- Whatever happened the first time, the repaired file recovers to the fold of what it
holds. -/
theorem recover_repaired (hkept : Kept unpack data frames rest last) :
    recoverFile unpack (RaftKv.repaired unpack data) =
      ⟨last, (RaftKv.repaired unpack data).length, false⟩ := by
  rw [hkept.repaired, recoverFile_frames hkept.fits hkept.folds]

theorem recovered_eq (hkept : Kept unpack data frames rest last)
    (hclean : StopsCleanly unpack data) : (recoverFile unpack data).recovered = last := by
  rcases hkept.stops.hardState with heq | ⟨payload, more, object, hread, hunpack, hfailed, heq⟩
  · exact heq
  · rw [heq, hclean frames rest more payload last object hkept.parts hkept.fits hkept.folds hread
      hunpack
      hfailed]

end Kept

theorem flatMap_encode_injective {frames others : List Frame}
    (hfits : ∀ frame ∈ frames, frame.2.length ≤ kMaxRecordPayload)
    (hothers : ∀ frame ∈ others, frame.2.length ≤ kMaxRecordPayload)
    (heq : frames.flatMap Frame.encode = others.flatMap Frame.encode) : frames = others := by
  induction frames generalizing others with
  | nil =>
      cases others with
      | nil => rfl
      | cons other others => simp [other.encode_ne_nil] at heq
  | cons frame frames ih =>
      cases others with
      | nil => simp [frame.encode_ne_nil] at heq
      | cons other others =>
          have hread := readFrame_encode (hfits frame List.mem_cons_self)
            (frames.flatMap Frame.encode)
          rw [← List.flatMap_cons, heq, List.flatMap_cons,
            readFrame_encode (hothers other List.mem_cons_self)] at hread
          obtain ⟨rfl, hrest⟩ := Prod.mk.inj (Option.some.inj hread)
          rw [ih (fun f hf => hfits f (List.mem_cons_of_mem _ hf))
            (fun f hf => hothers f (List.mem_cons_of_mem _ hf)) hrest.symm]

theorem RecoversExactly.stopsCleanly {data : Bytes} (hexact : RecoversExactly unpack data) :
    StopsCleanly unpack data := by
  rintro frames rest more payload st object rfl hfits hfold hread hunpack hfailed
  obtain ⟨kept, hkept, htake, hlast⟩ := hexact
  obtain ⟨left, hleft, hloop⟩ := recoverFile_append rest hfits hfold
  have hne : rest.isEmpty = false := by
    cases rest with
    | nil => cases hread
    | cons => rfl
  have hdecode : st.decode unpack (.hardState, payload) =
      ({ st with hardState := (object.convert HardState.fields st.hardState).1 }, false) := by
    simp only [Recovered.decode, hunpack, Recovered.convert, hfailed]
  have hpos : 0 < rest.length := List.length_pos_iff.mpr fun h => by simp [h] at hne
  obtain ⟨left, rfl⟩ : ∃ n, left = n + 1 := ⟨left - 1, by omega⟩
  rw [recoverLoop, hne, hread] at hloop
  simp only [hdecode, Bool.false_eq_true, if_false] at hloop
  rw [hloop, List.take_left] at htake
  rw [← flatMap_encode_injective hfits hkept htake, hfold, hloop] at hlast
  exact (congrArg Recovered.hardState (Option.some.inj hlast)).symm

/-- Recovery is exact and idempotent on exactly the files whose first rejected record, if it
is a hard state, was rejected before it changed one. -/
theorem recover_exact (unpack : Bytes → Option Object) (data : Bytes) :
    RecoversExactly unpack data ∧ RecoversAgain unpack data ↔ StopsCleanly unpack data := by
  refine ⟨fun h => h.1.stopsCleanly, fun hclean => ?_⟩
  obtain ⟨frames, rest, last, hkept⟩ := recoverFile_kept unpack data
  have hlast := hkept.recovered_eq hclean
  have hagain := hkept.recover_repaired
  refine ⟨⟨frames, hkept.fits, hkept.take_validBytes, hlast ▸ hkept.folds⟩, ?_, ?_, ?_⟩
  · rw [hagain, hlast]
  · rw [hagain]
  · conv_lhs => rw [repaired, hagain]
    rfl

/-- A hard state record, and another whose vote is nil. -/
def halfConverted : Bytes :=
  Frame.encode (.hardState, [0x93, 1, 1, 0]) ++ Frame.encode (.hardState, [0x93, 5, 0xc0, 0])

/-- The rejected record's term stays, beside the vote of an earlier term, and is gone after
the next recovery. -/
theorem recover_half_converted :
    (recoverFile Object.unpack halfConverted).recovered.hardState = ⟨5, 1, 0⟩ ∧
      (recoverFile Object.unpack halfConverted).validBytes = 12 ∧
      (recoverFile Object.unpack (repaired Object.unpack halfConverted)).recovered.hardState =
        ⟨1, 1, 0⟩ ∧
      ¬ RecoversExactly Object.unpack halfConverted ∧
      ¬ RecoversAgain Object.unpack halfConverted := by
  have hfirst : (recoverFile Object.unpack halfConverted).recovered.hardState = ⟨5, 1, 0⟩ := by
    decide +kernel
  have hsecond : (recoverFile Object.unpack
      (repaired Object.unpack halfConverted)).recovered.hardState = ⟨1, 1, 0⟩ := by
    decide +kernel
  refine ⟨hfirst, by decide +kernel, hsecond, fun hexact => ?_, fun hagain => ?_⟩
  · have hsame := hexact.stopsCleanly [(.hardState, [0x93, 1, 1, 0])]
      (Frame.encode (.hardState, [0x93, 5, 0xc0, 0])) [] [0x93, 5, 0xc0, 0]
      { Recovered.start with hardState := ⟨1, 1, 0⟩ }
      (.array [.positiveInteger 5, .nil, .positiveInteger 0])
      (by decide +kernel) (by decide) (by decide +kernel) (by decide +kernel) rfl rfl
    exact absurd hsame (by decide)
  · have hsame := congrArg Recovered.hardState hagain.1
    rw [hfirst, hsecond] at hsame
    exact absurd hsame (by decide)

/-- A hard state record, and another that is rejected at its first field. -/
def unconverted : Bytes :=
  Frame.encode (.hardState, [0x93, 1, 1, 0]) ++ Frame.encode (.hardState, [0x93, 0xc0, 5, 0])

theorem recover_exact_unconverted : StopsCleanly Object.unpack unconverted ∧
    (recoverFile Object.unpack unconverted).damagedTail = true ∧
    RecoversExactly Object.unpack unconverted ∧ RecoversAgain Object.unpack unconverted := by
  have hclean : StopsCleanly Object.unpack unconverted := by
    refine RecoversExactly.stopsCleanly ⟨[(.hardState, [0x93, 1, 1, 0])], ?_, ?_, ?_⟩
    · decide
    · decide +kernel
    · decide +kernel
  exact ⟨hclean, by decide +kernel, (recover_exact Object.unpack unconverted).mpr hclean⟩

end RaftKv
