import RaftKv.Foundation.Word
import RaftKv.Proto

/-! # The byte buffer

`common/bytebuffer.cpp`: bytes are appended at the end of a vector and consumed by moving
an offset; the consumed ones are erased before the next append. A call returns what it
leaves of the buffer and the exception it throws, if any.
-/

namespace RaftKv

inductive BufferError where
  | limitNotPositive
  | nullRange
  | limitExceeded
  | beyondReadable
  deriving DecidableEq, Repr

structure ByteBuffer where
  bytes : Bytes := []
  readOffset : Nat := 0
  maxSize : UInt64
  deriving DecidableEq, Repr

namespace ByteBuffer

/-- The constructor. -/
def new (maxSize : UInt64) : Except BufferError ByteBuffer :=
  if maxSize = 0 then .error .limitNotPositive else .ok { maxSize := maxSize }

def readableBytes (b : ByteBuffer) : Nat := sub64 b.bytes.length b.readOffset

/-- What the pointer `data()` and the size `readable_bytes()` give access to. -/
def readable (b : ByteBuffer) : Bytes := (b.bytes.drop b.readOffset).take b.readableBytes

def clear (b : ByteBuffer) : ByteBuffer := { b with bytes := [], readOffset := 0 }

def compact (b : ByteBuffer) : ByteBuffer :=
  if b.readOffset = 0 then b else { b with bytes := b.bytes.drop b.readOffset, readOffset := 0 }

/-- A range in memory; a null pointer comes with a size all the same. -/
inductive Source where
  | null (size : Nat)
  | range (bytes : Bytes)
  deriving DecidableEq, Repr

def Source.size : Source → Nat
  | .null size => size
  | .range bytes => bytes.length

def append (b : ByteBuffer) (source : Source) : ByteBuffer × Option BufferError :=
  if source.size = 0 then (b, none)
  else
    match source with
    | .null _ => (b, some .nullRange)
    | .range bytes =>
        if bytes.length > sub64 b.maxSize.toNat b.readableBytes then (b, some .limitExceeded)
        else ({ b.compact with bytes := b.compact.bytes ++ bytes }, none)

def consume (b : ByteBuffer) (size : Nat) : ByteBuffer × Option BufferError :=
  if size > b.readableBytes then (b, some .beyondReadable)
  else
    let b := { b with readOffset := wrap64 (b.readOffset + size) }
    (if b.readOffset = b.bytes.length then b.clear else b, none)

inductive Call where
  | append (source : Source)
  | consume (size : Nat)
  | clear
  deriving DecidableEq, Repr

def call (b : ByteBuffer) : Call → ByteBuffer × Option BufferError
  | .append source => b.append source
  | .consume size => b.consume size
  | .clear => (b.clear, none)

/-- The buffer after a sequence of calls, and those of the calls that did not throw. -/
def run (b : ByteBuffer) : List Call → ByteBuffer × List Call
  | [] => (b, [])
  | c :: rest =>
      let (next, thrown) := b.call c
      let (last, done) := next.run rest
      (last, if thrown.isSome then done else c :: done)

end ByteBuffer

/-- A plain queue of bytes without a bound. -/
def byteQueue (queue : Bytes) : ByteBuffer.Call → Bytes
  | .append (.range bytes) => queue ++ bytes
  | .append (.null _) => queue
  | .consume size => queue.drop size
  | .clear => []

namespace ByteBuffer

variable {b : ByteBuffer}

/-- The offset lies in the vector, and the vector within the bound. -/
structure Bounded (b : ByteBuffer) : Prop where
  offset_le : b.readOffset ≤ b.bytes.length
  length_le : b.bytes.length ≤ b.maxSize.toNat

theorem Bounded.readableBytes_eq (hb : b.Bounded) :
    b.readableBytes = b.bytes.length - b.readOffset :=
  sub64_of_le hb.offset_le (lt_of_le_of_lt hb.length_le b.maxSize.toNat_lt)

theorem Bounded.readable_eq (hb : b.Bounded) : b.readable = b.bytes.drop b.readOffset := by
  rw [readable, hb.readableBytes_eq]
  exact List.take_of_length_le (by rw [List.length_drop])

theorem Bounded.length_readable (hb : b.Bounded) : b.readable.length = b.readableBytes := by
  rw [hb.readable_eq, hb.readableBytes_eq, List.length_drop]

theorem Bounded.readableBytes_le (hb : b.Bounded) : b.readableBytes ≤ b.maxSize.toNat := by
  rw [hb.readableBytes_eq]
  exact le_trans (Nat.sub_le _ _) hb.length_le

theorem Bounded.compact (hb : b.Bounded) :
    b.compact.readOffset = 0 ∧ b.compact.bytes = b.readable ∧ b.compact.maxSize = b.maxSize := by
  rw [hb.readable_eq]
  unfold ByteBuffer.compact
  split
  next hzero => exact ⟨hzero, by rw [hzero, List.drop_zero], rfl⟩
  · exact ⟨rfl, rfl, rfl⟩

theorem Bounded.clear (b : ByteBuffer) : b.clear.Bounded ∧ b.clear.readable = [] :=
  ⟨⟨le_rfl, Nat.zero_le _⟩, by simp [readable, ByteBuffer.clear]⟩

/-- Appending: refused beyond the bound, otherwise at the end of the queue. -/
theorem Bounded.append (hb : b.Bounded) (bytes : Bytes) :
    ((b.append (.range bytes)).2.isSome ↔ b.readable.length + bytes.length > b.maxSize.toNat) ∧
      ((b.append (.range bytes)).2.isSome → (b.append (.range bytes)).1 = b) ∧
      (b.append (.range bytes)).1.Bounded ∧ (b.append (.range bytes)).1.maxSize = b.maxSize ∧
      ((b.append (.range bytes)).2.isSome = false →
        (b.append (.range bytes)).1.readable = b.readable ++ bytes) := by
  have hle := hb.readableBytes_le
  have hlength := hb.length_readable
  have hspace : sub64 b.maxSize.toNat b.readableBytes = b.maxSize.toNat - b.readableBytes :=
    sub64_of_le hle b.maxSize.toNat_lt
  unfold ByteBuffer.append
  rw [hspace]
  split
  next hempty =>
    have hnil : bytes = [] := List.length_eq_zero_iff.mp hempty
    subst hnil
    exact ⟨by simp; omega, fun _ => rfl, hb, rfl, fun _ => (List.append_nil _).symm⟩
  · dsimp only
    split
    next hfull => exact ⟨by simp; omega, fun _ => rfl, hb, rfl, nofun⟩
    next hroom =>
      obtain ⟨hzero, hcontent, hmax⟩ := hb.compact
      have hbounded : Bounded { b.compact with bytes := b.compact.bytes ++ bytes } := by
        refine ⟨by simp [hzero], ?_⟩
        simp only [List.length_append, hcontent, hmax]
        omega
      refine ⟨by simp; omega, nofun, hbounded, hmax, fun _ => ?_⟩
      rw [hbounded.readable_eq]
      simp only [hzero, hcontent, List.drop_zero]

/-- A null range holds nothing to append. -/
theorem append_null (b : ByteBuffer) (size : Nat) : (b.append (.null size)).1 = b := by
  unfold ByteBuffer.append
  split <;> rfl

/-- Consuming: refused beyond what is readable, otherwise from the front of the queue. -/
theorem Bounded.consume (hb : b.Bounded) (size : Nat) :
    ((b.consume size).2.isSome ↔ size > b.readable.length) ∧
      ((b.consume size).2.isSome → (b.consume size).1 = b) ∧
      (b.consume size).1.Bounded ∧ (b.consume size).1.maxSize = b.maxSize ∧
      ((b.consume size).2.isSome = false →
        (b.consume size).1.readable = b.readable.drop size) := by
  have hlength := hb.length_readable
  have hreadable := hb.readableBytes_eq
  have hoffset := hb.offset_le
  have hbound := lt_of_le_of_lt hb.length_le b.maxSize.toNat_lt
  unfold ByteBuffer.consume
  split
  next hbeyond => exact ⟨by simp; omega, fun _ => rfl, hb, rfl, nofun⟩
  next hwithin =>
    have hwrap : wrap64 (b.readOffset + size) = b.readOffset + size := wrap64_of_lt (by omega)
    dsimp only
    rw [hwrap]
    split
    next hall =>
      refine ⟨by simp; omega, nofun, (Bounded.clear _).1, rfl, fun _ => ?_⟩
      rw [(Bounded.clear _).2, List.drop_of_length_le (by omega)]
    next hsome =>
      have hbounded : Bounded { b with readOffset := b.readOffset + size } :=
        ⟨by simp only; omega, hb.length_le⟩
      refine ⟨by simp; omega, nofun, hbounded, rfl, fun _ => ?_⟩
      rw [hbounded.readable_eq, hb.readable_eq, List.drop_drop]

/-- One call: it keeps the bounds, a throwing one changes nothing, any other one does what
it does to the queue. -/
theorem Bounded.call (hb : b.Bounded) (c : Call) :
    (b.call c).1.Bounded ∧ (b.call c).1.maxSize = b.maxSize ∧
      ((b.call c).2.isSome → (b.call c).1 = b) ∧
      ((b.call c).2.isSome = false → (b.call c).1.readable = byteQueue b.readable c) := by
  cases c with
  | append source =>
      cases source with
      | null size =>
          have hsame : (b.call (.append (.null size))).1 = b := append_null b size
          rw [hsame]
          exact ⟨hb, rfl, fun _ => rfl, fun _ => rfl⟩
      | range bytes =>
          obtain ⟨-, hthrown, hbounded, hmax, hdone⟩ := hb.append bytes
          exact ⟨hbounded, hmax, hthrown, hdone⟩
  | consume size =>
      obtain ⟨-, hthrown, hbounded, hmax, hdone⟩ := hb.consume size
      exact ⟨hbounded, hmax, hthrown, hdone⟩
  | clear =>
      obtain ⟨hbounded, hempty⟩ := Bounded.clear b
      exact ⟨hbounded, rfl, nofun, fun _ => hempty⟩

/-- A sequence of calls. -/
theorem Bounded.run (hb : b.Bounded) (calls : List Call) :
    (b.run calls).1.Bounded ∧ (b.run calls).1.maxSize = b.maxSize ∧
      (b.run calls).1.readable = (b.run calls).2.foldl byteQueue b.readable := by
  induction calls generalizing b with
  | nil => exact ⟨hb, rfl, rfl⟩
  | cons c rest ih =>
      obtain ⟨hbounded, hmax, hthrown, hdone⟩ := hb.call c
      obtain ⟨hbounded', hmax', hreadable⟩ := ih hbounded
      simp only [ByteBuffer.run]
      refine ⟨hbounded', hmax'.trans hmax, ?_⟩
      rw [hreadable]
      split
      next h => rw [hthrown h]
      next h => rw [hdone (by simpa using h), List.foldl_cons]

/-- After any calls the buffer is the queue that the successful ones make, within its bound
and without underflow; an append throws exactly when the queue would exceed the bound, a
consume exactly when it asks for more than there is, and whatever throws leaves the
readable bytes as they were. -/
theorem bounded_byte_queue {maxSize : UInt64} {fresh : ByteBuffer}
    (hnew : ByteBuffer.new maxSize = .ok fresh) (calls : List Call) :
    let b := (fresh.run calls).1
    let queue := (fresh.run calls).2.foldl byteQueue []
    b.readable = queue ∧ b.readableBytes = queue.length ∧ queue.length ≤ maxSize.toNat ∧
      b.readOffset ≤ b.bytes.length ∧
      (∀ bytes, (b.append (.range bytes)).2.isSome ↔ queue.length + bytes.length > maxSize.toNat) ∧
      (∀ size, (b.consume size).2.isSome ↔ size > queue.length) ∧
      ∀ c, (b.call c).2.isSome → (b.call c).1.readable = b.readable := by
  unfold ByteBuffer.new at hnew
  split at hnew
  · cases hnew
  · obtain rfl := Except.ok.inj hnew
    have hfresh : Bounded { maxSize := maxSize } := ⟨le_rfl, Nat.zero_le _⟩
    obtain ⟨hbounded, hmax, hqueue⟩ := hfresh.run calls
    have hempty : ({ maxSize := maxSize } : ByteBuffer).readable = [] := by
      simp [readable]
    rw [hempty] at hqueue
    have hlength := hbounded.length_readable
    have hbound := hbounded.readableBytes_le
    intro b queue
    refine ⟨hqueue, ?_, ?_, hbounded.offset_le, fun bytes => ?_, fun size => ?_, ?_⟩
    · rw [← hlength, hqueue]
    · calc
        queue.length = b.readable.length := by rw [hqueue]
        _ = b.readableBytes := hlength
        _ ≤ b.maxSize.toNat := hbound
        _ = maxSize.toNat := by rw [hmax]
    · rw [(hbounded.append bytes).1, hqueue, hmax]
    · rw [(hbounded.consume size).1, hqueue]
    · intro c hthrown
      rw [(hbounded.call c).2.2.1 hthrown]

/-- Five bytes go in, two come out, and three more do not fit. -/
theorem bounded_byte_queue_six :
    let b := (ByteBuffer.run { maxSize := 6 }
      [.append (.range [10, 20, 30]), .append (.range [40, 50]), .consume 2, .consume 4]).1
    b.readable = [30, 40, 50] ∧ ((b.append (.range [60, 70, 80, 90])).2.isSome ↔ 3 + 4 > 6) :=
  have hqueue := @bounded_byte_queue 6 { maxSize := 6 } rfl
    [.append (.range [10, 20, 30]), .append (.range [40, 50]), .consume 2, .consume 4]
  ⟨hqueue.1, hqueue.2.2.2.2.1 [60, 70, 80, 90]⟩

end ByteBuffer

end RaftKv
