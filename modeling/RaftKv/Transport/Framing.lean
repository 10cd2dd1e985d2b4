import RaftKv.Foundation.Octets
import RaftKv.Transport.ByteBuffer

/-! # Frames between peers

The header codec of `transport/proto.h`, the sender's `encode_message` of `peer.cpp` and the
receive loop of a connection in `server.cpp`. A frame is a type, the size of the payload in
four octets and the payload; the loop reads a header, then as many bytes as it announces,
and hands them on. It ends at the first header that does not decode, where the input ends,
and where a payload is refused.
-/

namespace RaftKv.Transport

def transportTypeStream : UInt8 := 1

def kHeaderSize : Nat := 5

def kMaxPayloadSize : UInt32 := 64 * 1024 * 1024

inductive FrameError where
  | incompleteHeader
  | unsupportedType
  | emptyPayload
  | payloadLimit
  | messageLimit
  | buffer (error : BufferError)
  deriving DecidableEq, Repr

structure Header where
  type : UInt8
  payloadSize : UInt32
  deriving DecidableEq, Repr

def encodeHeader (type : UInt8) (payloadSize : UInt32) : Except FrameError Bytes :=
  if type ≠ transportTypeStream then .error .unsupportedType
  else if payloadSize = 0 then .error .emptyPayload
  else if payloadSize > kMaxPayloadSize then .error .payloadLimit
  else .ok (type :: Octets.split payloadSize)

def decodeHeader : Bytes → Except FrameError Header
  | type :: a :: b :: c :: d :: _ =>
      if type ≠ transportTypeStream then .error .unsupportedType
      else if Octets.join a b c d = 0 then .error .emptyPayload
      else if Octets.join a b c d > kMaxPayloadSize then .error .payloadLimit
      else .ok { type := type, payloadSize := Octets.join a b c d }
  | _ => .error .incompleteHeader

def appendTo (frame : ByteBuffer) (bytes : Bytes) : Except FrameError ByteBuffer :=
  match frame.append (.range bytes) with
  | (frame, none) => .ok frame
  | (_, some error) => .error (.buffer error)

/-- The buffer a frame is put together in. -/
def frameBuffer : ByteBuffer := { maxSize := 64 * 1024 * 1024 + 5 }

/-- `encode_message`, from the packed message on. -/
def encodeMessage (payload : Bytes) : Except FrameError Bytes :=
  if payload.length > kMaxPayloadSize.toNat then .error .messageLimit
  else do
    let header ← encodeHeader transportTypeStream (UInt32.ofNat payload.length)
    let frame ← appendTo frameBuffer header
    let frame ← appendTo frame payload
    pure frame.readable

/-- Why a connection stops reading. -/
inductive Ending where
  | inputEnds (left : Bytes)
  | badHeader (error : FrameError)
  | shortPayload
  | refused
  deriving DecidableEq, Repr

/-- `read_header`, `read_payload` and `decode_and_dispatch` in turn: the payloads handed to
`dispatch`, which says whether unpacking and the server accept one. -/
def receiveFuel (dispatch : Bytes → Bool) : Nat → Bytes → List Bytes × Ending
  | 0, input => ([], .inputEnds input)
  | fuel + 1, input =>
      if input.length < kHeaderSize then ([], .inputEnds input)
      else
        match decodeHeader (input.take kHeaderSize) with
        | .error error => ([], .badHeader error)
        | .ok header =>
            let rest := input.drop kHeaderSize
            let size := header.payloadSize.toNat
            if rest.length < size then ([], .shortPayload)
            else if dispatch (rest.take size) then
              let (more, ending) := receiveFuel dispatch fuel (rest.drop size)
              (rest.take size :: more, ending)
            else ([rest.take size], .refused)

/-- Every frame takes some of the input, so its length bounds their number. -/
def receive (dispatch : Bytes → Bool) (input : Bytes) : List Bytes × Ending :=
  receiveFuel dispatch input.length input

/-! ## Headers -/

def AdmissibleSize (size : UInt32) : Prop := 1 ≤ size.toNat ∧ size ≤ kMaxPayloadSize

theorem encodeHeader_eq_ok_iff {size : UInt32} {header : Bytes} :
    encodeHeader transportTypeStream size = .ok header ↔
      AdmissibleSize size ∧ header = transportTypeStream :: Octets.split size := by
  have hpos : ¬ size = 0 ↔ 1 ≤ size.toNat := by
    rw [← UInt32.toNat_inj, UInt32.toNat_zero]
    omega
  have hle : ¬ size > kMaxPayloadSize ↔ size ≤ kMaxPayloadSize := UInt32.not_lt
  unfold encodeHeader AdmissibleSize
  rw [← hpos, ← hle]
  split_ifs <;> simp_all [eq_comm]

/-- A header decodes exactly if it is the encoding of an admissible size, which it then
decodes to. -/
theorem decodeHeader_eq_ok_iff {bytes : Bytes} (hlength : bytes.length = kHeaderSize)
    {header : Header} :
    decodeHeader bytes = .ok header ↔
      header.type = transportTypeStream ∧
        encodeHeader transportTypeStream header.payloadSize = .ok bytes := by
  obtain ⟨type, a, b, c, d, rfl⟩ : ∃ type a b c d, bytes = [type, a, b, c, d] := by
    match bytes, hlength with
    | [type, a, b, c, d], _ => exact ⟨type, a, b, c, d, rfl⟩
  have hpos : ¬ Octets.join a b c d = 0 ↔ 1 ≤ (Octets.join a b c d).toNat := by
    rw [← UInt32.toNat_inj, UInt32.toNat_zero]
    omega
  have hle : ¬ Octets.join a b c d > kMaxPayloadSize ↔ Octets.join a b c d ≤ kMaxPayloadSize :=
    UInt32.not_lt
  rw [encodeHeader_eq_ok_iff]
  constructor
  · intro hdecode
    simp only [decodeHeader] at hdecode
    split_ifs at hdecode with htype hzero hlimit
    obtain rfl := Except.ok.inj hdecode
    rw [not_not] at htype
    exact ⟨htype, ⟨hpos.mp hzero, hle.mp hlimit⟩, by rw [Octets.split_join, htype]⟩
  · rintro ⟨htype, ⟨hsize, hlimit⟩, hbytes⟩
    obtain ⟨rfl, hoctets⟩ := List.cons.inj hbytes
    have hjoin : Octets.join a b c d = header.payloadSize := by
      simp only [Octets.split, List.cons.injEq, and_true] at hoctets
      obtain ⟨rfl, rfl, rfl, rfl⟩ := hoctets
      exact Octets.join_split header.payloadSize
    rw [← hjoin] at hsize hlimit
    simp only [decodeHeader]
    rw [if_neg (by simp), if_neg (hpos.mpr hsize), if_neg (hle.mpr hlimit), hjoin, ← htype]

theorem length_of_encodeHeader {size : UInt32} {header : Bytes}
    (hheader : encodeHeader transportTypeStream size = .ok header) :
    header.length = kHeaderSize := by
  rw [(encodeHeader_eq_ok_iff.mp hheader).2]
  rfl

/-! ## Frames -/

def Admissible (payload : Bytes) : Prop :=
  1 ≤ payload.length ∧ payload.length ≤ kMaxPayloadSize.toNat

/-- The frame of a payload: the header of its size, and the payload. -/
def IsFrame (payload frame : Bytes) : Prop :=
  Admissible payload ∧
    ∃ header, encodeHeader transportTypeStream (UInt32.ofNat payload.length) = .ok header ∧
      frame = header ++ payload

theorem Admissible.toNat_length {payload : Bytes} (hpayload : Admissible payload) :
    (UInt32.ofNat payload.length).toNat = payload.length :=
  UInt32.toNat_ofNat_of_lt' (lt_of_le_of_lt hpayload.2 kMaxPayloadSize.toNat_lt)

theorem Admissible.size {payload : Bytes} (hpayload : Admissible payload) :
    AdmissibleSize (UInt32.ofNat payload.length) := by
  refine ⟨?_, ?_⟩
  · rw [hpayload.toNat_length]
    exact hpayload.1
  · rw [UInt32.le_iff_toNat_le, hpayload.toNat_length]
    exact hpayload.2

theorem appendTo_ok {frame : ByteBuffer} {bytes : Bytes} (hbounded : frame.Bounded)
    (hroom : frame.readable.length + bytes.length ≤ frame.maxSize.toNat) :
    ∃ next, appendTo frame bytes = .ok next ∧ next.Bounded ∧ next.maxSize = frame.maxSize ∧
      next.readable = frame.readable ++ bytes := by
  obtain ⟨hthrows, -, hkept, hmax, hdone⟩ := hbounded.append bytes
  have hnone : (frame.append (.range bytes)).2 = none := by
    cases h : (frame.append (.range bytes)).2 with
    | none => rfl
    | some error =>
        have := hthrows.mp (by rw [h]; rfl)
        omega
  refine ⟨(frame.append (.range bytes)).1, ?_, hkept, hmax, hdone (by rw [hnone]; rfl)⟩
  unfold appendTo
  split
  next next h => rw [h]
  next next error h => simp [h] at hnone

/-- What the sender puts on the wire. -/
theorem encodeMessage_isFrame {payload : Bytes} (hpayload : Admissible payload) :
    ∃ frame, encodeMessage payload = .ok frame ∧ IsFrame payload frame := by
  obtain ⟨header, hheader⟩ : ∃ header,
      encodeHeader transportTypeStream (UInt32.ofNat payload.length) = .ok header :=
    ⟨_, encodeHeader_eq_ok_iff.mpr ⟨hpayload.size, rfl⟩⟩
  have hlength := length_of_encodeHeader hheader
  have hlimit := hpayload.2
  have hempty : frameBuffer.readable = [] := by simp [ByteBuffer.readable, frameBuffer]
  have hmax : frameBuffer.maxSize.toNat = kHeaderSize + kMaxPayloadSize.toNat := by decide
  have hfresh : frameBuffer.Bounded := ⟨le_rfl, Nat.zero_le _⟩
  obtain ⟨first, hfirst, hbounded, hmaxFirst, hreadable⟩ := appendTo_ok hfresh
    (show frameBuffer.readable.length + header.length ≤ frameBuffer.maxSize.toNat by
      rw [hempty, hmax, hlength, List.length_nil]
      omega)
  rw [hempty, List.nil_append] at hreadable
  obtain ⟨second, hsecond, -, -, hwhole⟩ := appendTo_ok hbounded
    (show first.readable.length + payload.length ≤ first.maxSize.toNat by
      rw [hreadable, hmaxFirst, hmax, hlength]
      omega)
  rw [hreadable] at hwhole
  refine ⟨header ++ payload, ?_, hpayload, header, hheader, rfl⟩
  unfold encodeMessage
  rw [if_neg (by omega), hheader]
  simp only [bind, Except.bind, hfirst, hsecond, pure, Except.pure, hwhole]

/-! ## The receive loop -/

variable {dispatch : Bytes → Bool}

theorem receiveFuel_eq {input : Bytes} {fuel more : Nat} (hfuel : input.length ≤ fuel)
    (hmore : input.length ≤ more) :
    receiveFuel dispatch fuel input = receiveFuel dispatch more input := by
  induction fuel generalizing input more with
  | zero =>
      have hnil : input = [] := List.length_eq_zero_iff.mp (by omega)
      subst hnil
      cases more with
      | zero => rfl
      | succ more => simp [receiveFuel, kHeaderSize]
  | succ fuel ih =>
      cases more with
      | zero =>
          have hnil : input = [] := List.length_eq_zero_iff.mp (by omega)
          subst hnil
          simp [receiveFuel, kHeaderSize]
      | succ more =>
          simp only [receiveFuel]
          split
          · rfl
          next hlong =>
            split
            · rfl
            next header hheader =>
              have hlength : ∀ n, ((input.drop kHeaderSize).drop n).length ≤ fuel ∧
                  ((input.drop kHeaderSize).drop n).length ≤ more := by
                intro n
                simp only [List.length_drop]
                unfold kHeaderSize at hlong ⊢
                omega
              rw [ih (hlength _).1 (hlength _).2]

/-- One round of the loop. -/
theorem receive_eq (input : Bytes) :
    receive dispatch input =
      if input.length < kHeaderSize then ([], .inputEnds input)
      else
        match decodeHeader (input.take kHeaderSize) with
        | .error error => ([], .badHeader error)
        | .ok header =>
            let rest := input.drop kHeaderSize
            let size := header.payloadSize.toNat
            if rest.length < size then ([], .shortPayload)
            else if dispatch (rest.take size) then
              let (more, ending) := receive dispatch (rest.drop size)
              (rest.take size :: more, ending)
            else ([rest.take size], .refused) := by
  have hmore : receive dispatch input = receiveFuel dispatch (input.length + 1) input :=
    receiveFuel_eq le_rfl (Nat.le_succ _)
  rw [hmore]
  simp only [receiveFuel, receive]
  split
  · rfl
  · split
    · rfl
    next header hheader =>
      have hlength : ((input.drop kHeaderSize).drop header.payloadSize.toNat).length ≤
          input.length := by
        simp only [List.length_drop]
        omega
      rw [receiveFuel_eq hlength le_rfl]

/-- A whole frame at the front of the input. -/
theorem receive_frame {payload frame : Bytes} (hframe : IsFrame payload frame)
    (haccept : dispatch payload = true) (rest : Bytes) :
    receive dispatch (frame ++ rest) =
      (payload :: (receive dispatch rest).1, (receive dispatch rest).2) := by
  obtain ⟨hpayload, header, hheader, rfl⟩ := hframe
  have hlength := length_of_encodeHeader hheader
  have htake : (header ++ payload ++ rest).take kHeaderSize = header := by
    rw [List.append_assoc, List.take_left' hlength]
  have hdrop : (header ++ payload ++ rest).drop kHeaderSize = payload ++ rest := by
    rw [List.append_assoc, List.drop_left' hlength]
  have hdecode : decodeHeader header =
      .ok { type := transportTypeStream, payloadSize := UInt32.ofNat payload.length } :=
    (decodeHeader_eq_ok_iff hlength).mpr ⟨rfl, hheader⟩
  have hlong : ¬ (header ++ payload ++ rest).length < kHeaderSize := by
    simp only [List.length_append]
    omega
  rw [receive_eq, if_neg hlong, htake, hdecode]
  simp only [hdrop, hpayload.toNat_length]
  rw [if_neg (by simp), List.take_left' rfl, List.drop_left' rfl, if_pos haccept]

/-- Whole frames at the front of the input. -/
theorem receive_frames {payloads frames : List Bytes}
    (hframes : List.Forall₂ IsFrame payloads frames)
    (haccept : ∀ payload ∈ payloads, dispatch payload = true) (rest : Bytes) :
    receive dispatch (frames.flatten ++ rest) =
      (payloads ++ (receive dispatch rest).1, (receive dispatch rest).2) := by
  induction hframes with
  | nil => rfl
  | cons hframe _ ih =>
      rw [List.flatten_cons, List.append_assoc, receive_frame hframe (haccept _ List.mem_cons_self),
        ih fun payload hpayload => haccept payload (List.mem_cons_of_mem _ hpayload)]
      rfl

/-- What is left of the input where the loop ends, after the frames delivered. -/
def Ending.At (dispatch : Bytes → Bool) (payloads : List Bytes) (left : Bytes) : Ending → Prop
  | .inputEnds bytes => left = bytes ∧ left.length < kHeaderSize
  | .badHeader error =>
      kHeaderSize ≤ left.length ∧ decodeHeader (left.take kHeaderSize) = .error error
  | .shortPayload =>
      ∃ header, kHeaderSize ≤ left.length ∧ decodeHeader (left.take kHeaderSize) = .ok header ∧
        left.length < kHeaderSize + header.payloadSize.toNat
  | .refused => ∃ payload, payloads.getLast? = some payload ∧ dispatch payload = false

/-- On any input: what is delivered are the frames at its front, up to where the loop ends. -/
theorem receiveFuel_splits {input : Bytes} {fuel : Nat} (hfuel : input.length ≤ fuel) :
    ∃ frames left, input = frames.flatten ++ left ∧
      List.Forall₂ IsFrame (receiveFuel dispatch fuel input).1 frames ∧
      (receiveFuel dispatch fuel input).2.At dispatch (receiveFuel dispatch fuel input).1 left := by
  induction fuel generalizing input with
  | zero =>
      have hnil : input = [] := List.length_eq_zero_iff.mp (by omega)
      subst hnil
      exact ⟨[], [], rfl, .nil, rfl, by decide⟩
  | succ fuel ih =>
      simp only [receiveFuel]
      split
      next hshort => exact ⟨[], input, rfl, .nil, rfl, hshort⟩
      next hlong =>
        rw [not_lt] at hlong
        have hlength : (input.take kHeaderSize).length = kHeaderSize := by
          rw [List.length_take]
          omega
        split
        next error hbad => exact ⟨[], input, rfl, .nil, hlong, hbad⟩
        next header hdecode =>
          obtain ⟨-, hheader⟩ := (decodeHeader_eq_ok_iff hlength).mp hdecode
          obtain ⟨⟨hpos, hlimit⟩, -⟩ := encodeHeader_eq_ok_iff.mp hheader
          set rest := input.drop kHeaderSize with hrest
          set size := header.payloadSize.toNat with hsize
          have hrestLength : rest.length = input.length - kHeaderSize := List.length_drop
          split
          next hcut => exact ⟨[], input, rfl, .nil, header, hlong, hdecode, by omega⟩
          next hwhole =>
            have htake : (rest.take size).length = size := by
              rw [List.length_take]
              omega
            have hframe : IsFrame (rest.take size) (input.take kHeaderSize ++ rest.take size) := by
              refine ⟨⟨by omega, ?_⟩, input.take kHeaderSize, ?_, rfl⟩
              · rw [htake]
                exact UInt32.le_iff_toNat_le.mp hlimit
              · rw [htake, hsize, UInt32.ofNat_toNat]
                exact hheader
            have hinput : input = input.take kHeaderSize ++ rest.take size ++ rest.drop size := by
              rw [List.append_assoc, List.take_append_drop, List.take_append_drop]
            split
            next haccept =>
              have hfewer : (rest.drop size).length ≤ fuel := by
                rw [List.length_drop]
                unfold kHeaderSize at hrestLength
                omega
              obtain ⟨frames, left, hsplit, hframes, hend⟩ := ih hfewer
              refine ⟨(input.take kHeaderSize ++ rest.take size) :: frames, left, ?_,
                .cons hframe hframes, ?_⟩
              · rw [List.flatten_cons, List.append_assoc, ← hsplit]
                exact hinput
              · revert hend
                cases (receiveFuel dispatch fuel (rest.drop size)).2 with
                | inputEnds | badHeader | shortPayload => exact id
                | refused =>
                    rintro ⟨payload, hlast, hrefuse⟩
                    exact ⟨payload, by simp [List.getLast?_cons, hlast], hrefuse⟩
            next hrefuse =>
              exact ⟨[input.take kHeaderSize ++ rest.take size], rest.drop size, by
                rw [List.flatten_singleton]
                exact hinput, .cons hframe .nil, _, rfl, by simpa using hrefuse⟩

theorem encodeMessages_areFrames {payloads : List Bytes}
    (hpayloads : ∀ payload ∈ payloads, Admissible payload) :
    ∃ frames, payloads.mapM encodeMessage = .ok frames ∧ List.Forall₂ IsFrame payloads frames := by
  induction payloads with
  | nil => exact ⟨[], rfl, .nil⟩
  | cons payload payloads ih =>
      obtain ⟨frame, hencode, hframe⟩ :=
        encodeMessage_isFrame (hpayloads payload List.mem_cons_self)
      obtain ⟨frames, hencodes, hframes⟩ :=
        ih fun other hother => hpayloads other (List.mem_cons_of_mem _ hother)
      refine ⟨frame :: frames, ?_, .cons hframe hframes⟩
      rw [List.mapM_cons, hencode, hencodes]
      rfl

/-- Over whole streams: what the sender frames is received as it was, to the end of the
input. Exactly the headers of admissible sizes decode. And whatever the stream, the loop
delivers the frames at its front; it stops at the first header that is none, and delivers
nothing from there on. -/
theorem framing_round_trip (dispatch : Bytes → Bool) :
    (∀ payloads : List Bytes,
        (∀ payload ∈ payloads, Admissible payload ∧ dispatch payload = true) →
        ∃ frames, payloads.mapM encodeMessage = .ok frames ∧
          List.Forall₂ IsFrame payloads frames ∧
          receive dispatch frames.flatten = (payloads, .inputEnds [])) ∧
      (∀ bytes : Bytes, bytes.length = kHeaderSize →
        ((∃ header, decodeHeader bytes = .ok header) ↔
          ∃ size, AdmissibleSize size ∧ encodeHeader transportTypeStream size = .ok bytes)) ∧
      (∀ (payloads frames : List Bytes) (bad rest : Bytes),
        List.Forall₂ IsFrame payloads frames →
        (∀ payload ∈ payloads, dispatch payload = true) → bad.length = kHeaderSize →
        (∀ size, encodeHeader transportTypeStream size ≠ .ok bad) →
        ∃ error, receive dispatch (frames.flatten ++ (bad ++ rest)) =
          (payloads, .badHeader error)) ∧
      ∀ input : Bytes, ∃ frames left, input = frames.flatten ++ left ∧
        List.Forall₂ IsFrame (receive dispatch input).1 frames ∧
        (receive dispatch input).2.At dispatch (receive dispatch input).1 left := by
  have hdecodes : ∀ bytes : Bytes, bytes.length = kHeaderSize →
      ((∃ header, decodeHeader bytes = .ok header) ↔
        ∃ size, AdmissibleSize size ∧ encodeHeader transportTypeStream size = .ok bytes) := by
    intro bytes hlength
    constructor
    · rintro ⟨header, hdecode⟩
      obtain ⟨-, hencode⟩ := (decodeHeader_eq_ok_iff hlength).mp hdecode
      exact ⟨header.payloadSize, (encodeHeader_eq_ok_iff.mp hencode).1, hencode⟩
    · rintro ⟨size, -, hencode⟩
      exact ⟨⟨transportTypeStream, size⟩, (decodeHeader_eq_ok_iff hlength).mpr ⟨rfl, hencode⟩⟩
  refine ⟨?_, hdecodes, ?_, fun input => receiveFuel_splits le_rfl⟩
  · intro payloads hpayloads
    obtain ⟨frames, hencode, hframes⟩ :=
      encodeMessages_areFrames fun payload hpayload => (hpayloads payload hpayload).1
    have hreceive := receive_frames hframes
      (fun payload hpayload => (hpayloads payload hpayload).2) []
    rw [List.append_nil] at hreceive
    have hend : receive dispatch [] = ([], .inputEnds []) := rfl
    rw [hend, List.append_nil] at hreceive
    exact ⟨frames, hencode, hframes, hreceive⟩
  · intro payloads frames bad rest hframes haccept hlength hbad
    cases hdecode : decodeHeader bad with
    | ok header =>
        obtain ⟨size, -, hencode⟩ := (hdecodes bad hlength).mp ⟨header, hdecode⟩
        exact absurd hencode (hbad size)
    | error error =>
        have hstop : receive dispatch (bad ++ rest) = ([], .badHeader error) := by
          have hlong : ¬ (bad ++ rest).length < kHeaderSize := by
            rw [List.length_append]
            omega
          rw [receive_eq, if_neg hlong, List.take_left' hlength, hdecode]
        refine ⟨error, ?_⟩
        rw [receive_frames hframes haccept, hstop, List.append_nil]

/-- Two payloads, then a header of another type. -/
theorem framing_round_trip_two :
    (∃ frames, [[7, 8], [9]].mapM encodeMessage = .ok frames ∧
      List.Forall₂ IsFrame [[7, 8], [9]] frames ∧
      receive (fun _ => true) frames.flatten = ([[7, 8], [9]], .inputEnds [])) ∧
    ∃ error, receive (fun _ => true) ([].flatten ++ ([2, 0, 0, 0, 1] ++ [7])) =
      ([], .badHeader error) := by
  obtain ⟨hframed, -, hbad, -⟩ := framing_round_trip fun _ => true
  refine ⟨hframed [[7, 8], [9]] ?_, hbad [] [] [2, 0, 0, 0, 1] [7] .nil nofun rfl ?_⟩
  · intro payload hpayload
    rcases List.mem_pair.mp hpayload with rfl | rfl
    · exact ⟨⟨by decide, by decide⟩, rfl⟩
    · exact ⟨⟨by decide, by decide⟩, rfl⟩
  · intro size hencode
    obtain ⟨-, hbytes⟩ := encodeHeader_eq_ok_iff.mp hencode
    exact absurd (List.cons.inj hbytes).1 (by decide)

end RaftKv.Transport
