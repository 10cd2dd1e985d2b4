import RaftKv.Foundation.Reader
import RaftKv.Wal.Msgpack

/-! # Reading the msgpack format

Each object takes the bytes it takes whatever follows, so bytes behind it are ignored and
a part of it does not unpack.
-/

namespace RaftKv

namespace Object

/-- What the first byte announces. -/
inductive Token where
  | value (object : Object)
  | elements (count : Nat)
  | pairs (count : Nat)

/-- A big-endian number of the given size. -/
def bigEndian (size : Nat) (data : Bytes) : Option (Nat × Bytes) :=
  if data.length < size then none
  else some ((data.take size).foldl (fun n b => n * 2 ^ 8 + b.toNat) 0, data.drop size)

/-- A raw body of the given length. -/
def body (make : Bytes → Object) (size : Nat) (data : Bytes) : Option (Token × Bytes) :=
  if data.length < size then none else some (.value (make (data.take size)), data.drop size)

/-- A length field and then a body; an extension has a type byte in between. -/
def sized (make : Bytes → Object) (extra size : Nat) (data : Bytes) : Option (Token × Bytes) := do
  let (length, data) ← bigEndian size data
  body make (length + extra) data

def unsignedOf (size : Nat) (data : Bytes) : Option (Token × Bytes) := do
  let (n, data) ← bigEndian size data
  some (.value (.positiveInteger (.ofNat n)), data)

/-- A signed number; those that are not negative unpack as positive ones. -/
def signedOf (size : Nat) (data : Bytes) : Option (Token × Bytes) := do
  let (n, data) ← bigEndian size data
  some (.value (if n < 2 ^ (8 * size - 1) then .positiveInteger (.ofNat n) else .negativeInteger),
    data)

def counted (make : Nat → Token) (size : Nat) (data : Bytes) : Option (Token × Bytes) := do
  let (count, data) ← bigEndian size data
  some (make count, data)

def token : Bytes → Option (Token × Bytes)
  | [] => none
  | b :: data =>
      let n := b.toNat
      if n < 0x80 then some (.value (.positiveInteger (.ofNat n)), data)
      else if n < 0x90 then some (.pairs (n - 0x80), data)
      else if n < 0xa0 then some (.elements (n - 0x90), data)
      else if n < 0xc0 then body .str (n - 0xa0) data
      else if 0xe0 ≤ n then some (.value .negativeInteger, data)
      else
        match n with
        | 0xc0 => some (.value .nil, data)
        | 0xc2 => some (.value (.boolean false), data)
        | 0xc3 => some (.value (.boolean true), data)
        | 0xc4 => sized .bin 0 1 data
        | 0xc5 => sized .bin 0 2 data
        | 0xc6 => sized .bin 0 4 data
        | 0xc7 => sized (fun _ => .ext) 1 1 data
        | 0xc8 => sized (fun _ => .ext) 1 2 data
        | 0xc9 => sized (fun _ => .ext) 1 4 data
        | 0xca => body (fun _ => .float) 4 data
        | 0xcb => body (fun _ => .float) 8 data
        | 0xcc => unsignedOf 1 data
        | 0xcd => unsignedOf 2 data
        | 0xce => unsignedOf 4 data
        | 0xcf => unsignedOf 8 data
        | 0xd0 => signedOf 1 data
        | 0xd1 => signedOf 2 data
        | 0xd2 => signedOf 4 data
        | 0xd3 => signedOf 8 data
        | 0xd4 => body (fun _ => .ext) 2 data
        | 0xd5 => body (fun _ => .ext) 3 data
        | 0xd6 => body (fun _ => .ext) 5 data
        | 0xd7 => body (fun _ => .ext) 9 data
        | 0xd8 => body (fun _ => .ext) 17 data
        | 0xd9 => sized .str 0 1 data
        | 0xda => sized .str 0 2 data
        | 0xdb => sized .str 0 4 data
        | 0xdc => counted .elements 2 data
        | 0xdd => counted .elements 4 data
        | 0xde => counted .pairs 2 data
        | 0xdf => counted .pairs 4 data
        | _ => none

/-- The given number of objects from the front. Every object takes a byte at least, so the
length of the data is fuel enough. -/
def objects : Nat → Nat → Bytes → Option (List Object × Bytes)
  | _, 0, data => some ([], data)
  | 0, _ + 1, _ => none
  | fuel + 1, count + 1, data => do
      let (first, data) ← token data
      let (object, data) ← match first with
        | .value object => some (object, data)
        | .elements n => do
            let (items, data) ← objects fuel n data
            some (.array items, data)
        | .pairs n => do
            let (items, data) ← objects fuel (2 * n) data
            some (.map items, data)
      let (rest, data) ← objects fuel count data
      some (object :: rest, data)

/-- The object at the front, whatever follows it. -/
def unpack (data : Bytes) : Option Object := do
  let (found, _) ← objects data.length 1 data
  found.head?

/-! ## What follows does not matter -/

open Reader

theorem steady_bigEndian (size : Nat) : Steady (bigEndian size) :=
  steady_split size fun bytes => bytes.foldl (fun n (b : UInt8) => n * 2 ^ 8 + b.toNat) 0

theorem steady_body (make : Bytes → Object) (size : Nat) : Steady (body make size) :=
  steady_split size fun bytes => Token.value (make bytes)

theorem steady_sized (make : Bytes → Object) (extra size : Nat) :
    Steady (sized make extra size) :=
  (steady_bigEndian size).bind fun length => steady_body make (length + extra)

theorem steady_unsignedOf (size : Nat) : Steady (unsignedOf size) :=
  (steady_bigEndian size).bind fun n => steady_some (Token.value (.positiveInteger (.ofNat n)))

theorem steady_signedOf (size : Nat) : Steady (signedOf size) :=
  (steady_bigEndian size).bind fun n => steady_some (Token.value
    (if n < 2 ^ (8 * size - 1) then .positiveInteger (.ofNat n) else .negativeInteger))

theorem steady_counted (make : Nat → Token) (size : Nat) : Steady (counted make size) :=
  (steady_bigEndian size).bind fun n => steady_some (make n)

theorem steady_token_cons (b : UInt8) : Steady fun data => token (b :: data) := by
  unfold token
  -- the ranges of first bytes, then the single ones
  refine .ite (steady_some _) (.ite (steady_some _) (.ite (steady_some _)
    (.ite (steady_body _ _) (.ite (steady_some _) ?_))))
  split
  all_goals first
    | exact steady_some _
    | exact steady_body _ _
    | exact steady_sized _ _ _
    | exact steady_unsignedOf _
    | exact steady_signedOf _
    | exact steady_counted _ _
    | exact steady_none

theorem steady_token : Steady token := by
  intro data first rest more hread
  cases data with
  | nil => cases hread
  | cons b data => exact steady_token_cons b data first rest more hread

/-- The object a token starts. -/
def objectOf (fuel : Nat) : Token → Reader UInt8 Object
  | .value object => fun data => some (object, data)
  | .elements n => fun data => (objects fuel n data).bind fun p => some (.array p.1, p.2)
  | .pairs n => fun data => (objects fuel (2 * n) data).bind fun p => some (.map p.1, p.2)

theorem objects_succ (fuel count : Nat) : objects (fuel + 1) (count + 1) = fun data =>
    (token data).bind fun first => (objectOf fuel first.1 first.2).bind fun object =>
      (objects fuel count object.2).bind fun others => some (object.1 :: others.1, others.2) := by
  funext data
  rw [objects]
  cases token data with
  | none => rfl
  | some first =>
      obtain ⟨first, rest⟩ := first
      cases first with
      | value object => rfl
      | elements n => exact (Option.bind_assoc (objects fuel n rest) _ _).symm
      | pairs n => exact (Option.bind_assoc (objects fuel (2 * n) rest) _ _).symm

theorem steady_objects (fuel count : Nat) : Steady (objects fuel count) := by
  induction fuel generalizing count with
  | zero =>
      cases count with
      | zero => exact steady_some []
      | succ count => exact steady_none
  | succ fuel ih =>
      cases count with
      | zero => exact steady_some []
      | succ count =>
          have hobject (first : Token) : Steady (objectOf fuel first) := by
            cases first with
            | value object => exact steady_some object
            | elements n => exact (ih n).bind fun items => steady_some (Object.array items)
            | pairs n => exact (ih (2 * n)).bind fun items => steady_some (Object.map items)
          rw [objects_succ]
          exact steady_token.bind fun first => (hobject first).bind fun object =>
            (ih count).bind fun others => steady_some (object :: others)

/-- More fuel reads the same. -/
theorem objects_fuel {fuel more count : Nat} {data rest : Bytes} {found : List Object}
    (hread : objects fuel count data = some (found, rest)) (hmore : fuel ≤ more) :
    objects more count data = some (found, rest) := by
  induction fuel generalizing more count data rest found with
  | zero =>
      cases count with
      | zero => cases more <;> exact hread
      | succ count => cases hread
  | succ fuel ih =>
      obtain ⟨more, rfl⟩ : ∃ n, more = n + 1 := ⟨more - 1, by omega⟩
      have hle : fuel ≤ more := by omega
      cases count with
      | zero => exact hread
      | succ count =>
          have hobject {first : Token} {data : Bytes} {p : Object × Bytes}
              (hfirst : objectOf fuel first data = some p) : objectOf more first data = some p := by
            cases first with
            | value object => exact hfirst
            | elements n =>
                obtain ⟨items, hitems, hp⟩ := Option.bind_eq_some_iff.mp hfirst
                exact Option.bind_eq_some_iff.mpr ⟨items, ih hitems hle, hp⟩
            | pairs n =>
                obtain ⟨items, hitems, hp⟩ := Option.bind_eq_some_iff.mp hfirst
                exact Option.bind_eq_some_iff.mpr ⟨items, ih hitems hle, hp⟩
          rw [objects_succ] at hread ⊢
          obtain ⟨first, htoken, hread⟩ := Option.bind_eq_some_iff.mp hread
          obtain ⟨object, hfirst, hread⟩ := Option.bind_eq_some_iff.mp hread
          obtain ⟨others, hothers, hread⟩ := Option.bind_eq_some_iff.mp hread
          simp only [htoken, Option.bind_some, hobject hfirst, ih hothers hle, hread]

/-- `unpack` ignores what stands behind the object. -/
theorem unpack_append {data rest : Bytes} {object : Object}
    (hread : objects data.length 1 data = some ([object], rest)) (more : Bytes) :
    unpack (data ++ more) = some object := by
  have hlonger : data.length ≤ (data ++ more).length := by simp
  have hlong := objects_fuel (steady_objects _ _ _ _ _ more hread) hlonger
  rw [unpack, hlong]
  rfl

/-- `unpack` throws on a proper part. -/
theorem unpack_part {data part : Bytes} {object : Object}
    (hread : objects data.length 1 data = some ([object], [])) (hpart : part <+: data)
    (hshort : part.length < data.length) : unpack part = none := by
  have hnone := (steady_objects data.length 1).eq_none hread hpart hshort
  have hfuel : objects part.length 1 part = none := by
    rw [Option.eq_none_iff_forall_not_mem]
    rintro ⟨found, rest⟩ hfound
    rw [objects_fuel hfound (Nat.le_of_lt hshort)] at hnone
    cases hnone
  rw [unpack, hfuel]
  rfl

end Object

end RaftKv
