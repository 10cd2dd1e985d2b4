import RaftKv.Wal.Format

/-! # Writing the msgpack format

What the library writes for structs, vectors of strings and maps, and that it is read
back. `msgpack` is the library that reads and writes this format.
-/

namespace RaftKv

/-- Big-endian bytes of a number. -/
def octets : Nat → Nat → Bytes
  | 0, _ => []
  | size + 1, n => octets size (n / 2 ^ 8) ++ [.ofNat n]

def numberHead (n : Nat) : Bytes :=
  if n < 2 ^ 7 then [.ofNat n]
  else if n < 2 ^ 8 then 0xcc :: octets 1 n
  else if n < 2 ^ 16 then 0xcd :: octets 2 n
  else if n < 2 ^ 32 then 0xce :: octets 4 n
  else 0xcf :: octets 8 n

def binHead (n : Nat) : Bytes :=
  if n < 2 ^ 8 then 0xc4 :: octets 1 n
  else if n < 2 ^ 16 then 0xc5 :: octets 2 n
  else 0xc6 :: octets 4 n

def strHead (n : Nat) : Bytes :=
  if n < 2 ^ 5 then [.ofNat (0xa0 + n)]
  else if n < 2 ^ 8 then 0xd9 :: octets 1 n
  else if n < 2 ^ 16 then 0xda :: octets 2 n
  else 0xdb :: octets 4 n

def arrayHead (n : Nat) : Bytes :=
  if n < 2 ^ 4 then [.ofNat (0x90 + n)]
  else if n < 2 ^ 16 then 0xdc :: octets 2 n
  else 0xdd :: octets 4 n

def mapHead (n : Nat) : Bytes :=
  if n < 2 ^ 4 then [.ofNat (0x80 + n)]
  else if n < 2 ^ 16 then 0xde :: octets 2 n
  else 0xdf :: octets 4 n

def packStr (content : Bytes) : Bytes := strHead content.length ++ content

/-- The shortest form that holds the value. -/
def Field.pack : Field → Bytes
  | .number n => numberHead n.toNat
  | .bytes content => binHead content.length ++ content
  | .flag b => [if b then 0xc3 else 0xc2]
  | .strings items => arrayHead items.length ++ items.flatMap packStr

/-- A struct is the array of its members. -/
def packArray (fields : List Field) : Bytes := arrayHead fields.length ++ fields.flatMap Field.pack

/-! ### Heads -/

theorem length_octets (size n : Nat) : (octets size n).length = size := by
  induction size generalizing n with
  | zero => rfl
  | succ size ih => simp [octets, ih]

theorem foldl_octets (size n acc : Nat) :
    (octets size n).foldl (fun n b => n * 2 ^ 8 + b.toNat) acc =
      acc * 2 ^ (8 * size) + n % 2 ^ (8 * size) := by
  induction size generalizing n acc with
  | zero => simp [octets, Nat.mod_one]
  | succ size ih =>
      rw [octets, List.foldl_append, ih]
      simp only [List.foldl_cons, List.foldl_nil, UInt8.toNat_ofNat']
      have hpow : 2 ^ (8 * (size + 1)) = 2 ^ 8 * 2 ^ (8 * size) := by
        rw [← Nat.pow_add]
        congr 1
        omega
      have hmod := Nat.mod_mul (x := n) (a := 2 ^ 8) (b := 2 ^ (8 * size))
      rw [hpow, hmod, Nat.add_mul, Nat.mul_assoc, Nat.mul_comm (2 ^ (8 * size)) (2 ^ 8)]
      omega

theorem bigEndian_octets {size n : Nat} (hn : n < 2 ^ (8 * size)) (rest : Bytes) :
    Object.bigEndian size (octets size n ++ rest) = some (n, rest) := by
  have hlength := length_octets size n
  rw [Object.bigEndian, if_neg (by simp [hlength]), List.take_left' hlength,
    List.drop_left' hlength,
    foldl_octets, Nat.zero_mul, Nat.zero_add, Nat.mod_eq_of_lt hn]

theorem unsignedOf_octets {size : Nat} {n : UInt64} (hn : n.toNat < 2 ^ (8 * size))
    (rest : Bytes) :
    Object.unsignedOf size (octets size n.toNat ++ rest) =
      some (.value (.positiveInteger n), rest) := by
  rw [Object.unsignedOf, bigEndian_octets hn]
  simp

theorem counted_octets (make : Nat → Object.Token) {size n : Nat} (hn : n < 2 ^ (8 * size))
    (rest : Bytes) :
    Object.counted make size (octets size n ++ rest) = some (make n, rest) := by
  rw [Object.counted, bigEndian_octets hn]
  rfl

theorem sized_octets (make : Bytes → Object) {size : Nat} {content : Bytes}
    (hlength : content.length < 2 ^ (8 * size)) (rest : Bytes) :
    Object.sized make 0 size (octets size content.length ++ (content ++ rest)) =
      some (.value (make content), rest) := by
  rw [Object.sized, bigEndian_octets hlength]
  simp [Object.body]

theorem toNat_ofNat_short {n : Nat} (hn : n < 2 ^ 8) : (UInt8.ofNat n).toNat = n := by
  rw [UInt8.toNat_ofNat', Nat.mod_eq_of_lt hn]

theorem token_numberHead (n : UInt64) (rest : Bytes) :
    Object.token (numberHead n.toNat ++ rest) = some (.value (.positiveInteger n), rest) := by
  unfold numberHead
  split
  next hfix =>
    simp only [List.cons_append, List.nil_append, Object.token,
      toNat_ofNat_short (show n.toNat < 2 ^ 8 by omega)]
    rw [if_pos (by omega), UInt64.ofNat_toNat]
  split
  next h8 => exact unsignedOf_octets h8 rest
  split
  next h16 => exact unsignedOf_octets h16 rest
  split
  next h32 => exact unsignedOf_octets h32 rest
  next => exact unsignedOf_octets n.toNat_lt rest

theorem token_binHead {content : Bytes} (hfits : content.length < 2 ^ 32) (rest : Bytes) :
    Object.token (binHead content.length ++ content ++ rest) =
      some (.value (.bin content), rest) := by
  rw [List.append_assoc]
  unfold binHead
  split
  next h8 => exact sized_octets .bin h8 rest
  split
  next h16 => exact sized_octets .bin h16 rest
  next => exact sized_octets .bin hfits rest

theorem token_packStr {content : Bytes} (hfits : content.length < 2 ^ 32) (rest : Bytes) :
    Object.token (packStr content ++ rest) = some (.value (.str content), rest) := by
  rw [packStr, List.append_assoc]
  unfold strHead
  split
  next hfix =>
    simp only [List.cons_append, List.nil_append, Object.token,
      toNat_ofNat_short (show 0xa0 + content.length < 2 ^ 8 by omega)]
    rw [if_neg (by omega), if_neg (by omega), if_neg (by omega), if_pos (by omega)]
    simp [Object.body]
  split
  next h8 => exact sized_octets .str h8 rest
  split
  next h16 => exact sized_octets .str h16 rest
  next => exact sized_octets .str hfits rest

theorem token_arrayHead {n : Nat} (hn : n < 2 ^ 32) (rest : Bytes) :
    Object.token (arrayHead n ++ rest) = some (.elements n, rest) := by
  unfold arrayHead
  split
  next hfix =>
    simp only [List.cons_append, List.nil_append, Object.token,
      toNat_ofNat_short (show 0x90 + n < 2 ^ 8 by omega)]
    rw [if_neg (by omega), if_neg (by omega), if_pos (by omega), Nat.add_sub_cancel_left]
  split
  next h16 => exact counted_octets .elements h16 rest
  next => exact counted_octets .elements hn rest

theorem token_mapHead {n : Nat} (hn : n < 2 ^ 32) (rest : Bytes) :
    Object.token (mapHead n ++ rest) = some (.pairs n, rest) := by
  unfold mapHead
  split
  next hfix =>
    simp only [List.cons_append, List.nil_append, Object.token,
      toNat_ofNat_short (show 0x80 + n < 2 ^ 8 by omega)]
    rw [if_neg (by omega), if_pos (by omega), Nat.add_sub_cancel_left]
  split
  next h16 => exact counted_octets .pairs h16 rest
  next => exact counted_octets .pairs hn rest

/-! ### Packed objects -/

/-- These bytes are read as these objects, whatever follows. -/
def Parses (data : Bytes) (found : List Object) : Prop :=
  ∀ fuel rest, data.length ≤ fuel →
    Object.objects fuel found.length (data ++ rest) = some (found, rest)

namespace Parses

theorem nil : Parses [] [] := fun fuel _ _ => by cases fuel <;> rfl

variable {head inner data : Bytes} {found items : List Object}

/-- A token, what belongs to its object, and the objects after it. -/
theorem cons {first : Object.Token} {object : Object}
    (htoken : ∀ rest, Object.token (head ++ rest) = some (first, rest))
    (hobject : ∀ fuel rest, inner.length ≤ fuel →
      Object.objectOf fuel first (inner ++ rest) = some (object, rest))
    (hparses : Parses data found) : Parses (head ++ (inner ++ data)) (object :: found) := by
  intro fuel rest hfuel
  have hpos : 0 < head.length := by
    rw [List.length_pos_iff]
    rintro rfl
    cases htoken []
  simp only [List.length_append] at hfuel
  obtain ⟨fuel, rfl⟩ : ∃ n, fuel = n + 1 := ⟨fuel - 1, by omega⟩
  rw [List.length_cons, Object.objects_succ]
  simp only [List.append_assoc, htoken, Option.bind_some, hobject fuel _ (by omega),
    hparses fuel rest (by omega)]

theorem value {object : Object}
    (htoken : ∀ rest, Object.token (head ++ rest) = some (.value object, rest))
    (hparses : Parses data found) : Parses (head ++ data) (object :: found) := by
  have hcons : Parses (head ++ ([] ++ data)) (object :: found) :=
    cons htoken (fun _ _ _ => rfl) hparses
  rwa [List.nil_append] at hcons

theorem array (hcount : items.length < 2 ^ 32) (hitems : Parses inner items)
    (hparses : Parses data found) :
    Parses (arrayHead items.length ++ inner ++ data) (.array items :: found) := by
  rw [List.append_assoc]
  refine cons (token_arrayHead hcount) (fun fuel rest hfuel => ?_) hparses
  simp only [Object.objectOf, hitems fuel rest hfuel, Option.bind_some]

theorem map {count : Nat} (hcount : count < 2 ^ 32) (heven : items.length = 2 * count)
    (hitems : Parses inner items) (hparses : Parses data found) :
    Parses (mapHead count ++ inner ++ data) (.map items :: found) := by
  rw [List.append_assoc]
  refine cons (token_mapHead hcount) (fun fuel rest hfuel => ?_) hparses
  simp only [Object.objectOf, ← heven, hitems fuel rest hfuel, Option.bind_some]

theorem strings {items : List Bytes} (hfits : ∀ item ∈ items, item.length < 2 ^ 32) :
    Parses (items.flatMap packStr) (items.map .str) := by
  induction items with
  | nil => exact nil
  | cons item items ih =>
      obtain ⟨hitem, hitems⟩ := List.forall_mem_cons.mp hfits
      exact value (token_packStr hitem) (ih hitems)

theorem field {field : Field} (hfits : field.Fits) (hparses : Parses data found) :
    Parses (field.pack ++ data) (field.object :: found) := by
  cases field with
  | number n => exact value (token_numberHead n) hparses
  | bytes content => exact value (token_binHead hfits) hparses
  | flag b => exact value (fun rest => by cases b <;> rfl) hparses
  | strings items =>
      have hcount : (items.map Object.str).length < 2 ^ 32 := by
        rw [List.length_map]
        exact hfits.1
      have harray := array hcount (strings hfits.2) hparses
      rwa [List.length_map] at harray

/-- A packed struct. -/
theorem struct {fields : List Field} (hcount : fields.length < 2 ^ 32)
    (hfits : ∀ field ∈ fields, field.Fits) :
    Parses (packArray fields) [.array (fields.map Field.object)] := by
  have hmembers : Parses (fields.flatMap Field.pack) (fields.map Field.object) := by
    clear hcount
    induction fields with
    | nil => exact nil
    | cons first fields ih =>
        obtain ⟨hfirst, hothers⟩ := List.forall_mem_cons.mp hfits
        exact field hfirst (ih hothers)
  have harray := array (by simpa using hcount) hmembers nil
  rwa [List.length_map, List.append_nil] at harray

theorem whole (hparses : Parses data found) :
    Object.objects data.length found.length data = some (found, []) := by
  have hread := hparses data.length [] (Nat.le_refl _)
  rwa [List.append_nil] at hread

end Parses

/-- The format of the library. -/
def msgpack : Msgpack where
  pack := packArray
  unpack := Object.unpack
  unpack_pack fields more hfew hfits :=
    Object.unpack_append (Parses.struct (by omega) hfits).whole more
  unpack_part fields part hfew hfits hpart hshort :=
    Object.unpack_part (Parses.struct (by omega) hfits).whole hpart hshort

end RaftKv
