import RaftKv.Foundation.Crc
import RaftKv.Wal.Crc

/-! # The WAL checksum and CRC-32

Seventeen of the 256 constants of the table are not those of CRC-32. The checksum is the
standard one as long as the loop looks up none of them, and is not when it looks up just
one. The highest octets of the constants are all different all the same, and that is
enough for one damaged byte to change the checksum.
-/

namespace RaftKv

/-- The reflected polynomial of CRC-32. -/
def crc32Poly : BitVec 32 := 0xEDB88320

/-- The register of the bit-by-bit algorithm after some bytes. -/
def standardLoop (data : Bytes) (c : BitVec 32) : BitVec 32 :=
  data.foldl (fun c byte => Crc.feed crc32Poly c byte.toBitVec) c

/-- CRC-32: the register starts with every bit set and is complemented at the end. -/
def standardCrc32 (data : Bytes) : UInt32 := .ofBitVec (~~~(standardLoop data 0xFFFFFFFF))

/-- The entry of the table that a turn of the loop looks up. -/
def crc32Index (crc : UInt32) (byte : UInt8) : Nat := ((crc ^^^ byte.toUInt32) &&& 0xFF).toNat

/-- Entries looked up along the loop. -/
def crc32Lookups : UInt32 → Bytes → List Nat
  | _, [] => []
  | crc, byte :: data => crc32Index crc byte :: crc32Lookups (crc32Step crc byte) data

/-- Entries a table would be asked for along the bit-by-bit register. -/
def standardLookups : BitVec 32 → Bytes → List Nat
  | _, [] => []
  | c, byte :: data =>
      crc32Index (.ofBitVec c) byte :: standardLookups (Crc.feed crc32Poly c byte.toBitVec) data

/-- Entries of the table that are not what eight shifts make of their index. -/
def wrongEntries : List Nat :=
  [9, 14, 15, 52, 111, 176, 177, 178, 179, 188, 189, 211, 212, 213, 214, 215, 217]

/-- Entry by entry down the list, which is cheaper than 256 lookups. -/
theorem kCrc32Table_zipIdx : ∀ pair ∈ kCrc32Table.toList.zipIdx,
    (pair.1.toBitVec = Crc.shifts crc32Poly 8 (.ofNat 32 pair.2) ↔ pair.2 ∉ wrongEntries) := by
  decide +kernel

theorem kCrc32Table_size : kCrc32Table.size = 256 := by decide +kernel

theorem kCrc32Table_getElem? {index : Nat} (hindex : index < 256) :
    kCrc32Table.toList[index]? = some (kCrc32Table.getD index 0) := by
  rw [← kCrc32Table_size] at hindex
  generalize kCrc32Table = table at hindex ⊢
  simp [Array.getD, hindex]

theorem kCrc32Table_eq_shifts_iff {index : Nat} (hindex : index < 256) :
    (kCrc32Table.getD index 0).toBitVec = Crc.shifts crc32Poly 8 (.ofNat 32 index) ↔
      index ∉ wrongEntries := by
  have hentry := kCrc32Table_getElem? hindex
  have hall := kCrc32Table_zipIdx
  generalize kCrc32Table = table at hentry hall ⊢
  exact hall (table.getD index 0, index) (List.mk_mem_zipIdx_iff_getElem?.mpr hentry)

theorem crc32Index_lt (crc : UInt32) (byte : UInt8) : crc32Index crc byte < 256 := by
  simp only [crc32Index, UInt32.toNat_and]
  exact Nat.lt_succ_of_le Nat.and_le_right

theorem ofNat_crc32Index (crc : UInt32) (byte : UInt8) :
    BitVec.ofNat 32 (crc32Index crc byte) =
      Crc.low 8 (crc.toBitVec ^^^ byte.toBitVec.setWidth 32) := by
  have htoNat (x : UInt32) : BitVec.ofNat 32 x.toNat = x.toBitVec := by simp
  rw [crc32Index, htoNat]
  apply BitVec.eq_of_getLsbD_eq
  intro i hi
  have hmask : (255#32).getLsbD i = decide (i < 8) := by
    rw [BitVec.getLsbD_ofNat, show (255 : Nat) = 2 ^ 8 - 1 by rfl, Nat.testBit_two_pow_sub_one]
    simp [hi]
  simp [hmask, Bool.and_comm]

theorem octet_shifts_out (byte : UInt8) : byte.toBitVec.setWidth 32 >>> 8 = 0#32 := by
  apply BitVec.eq_of_getLsbD_eq
  intro i _
  simp

theorem crc32Step_eq_feed_iff (crc : UInt32) (byte : UInt8) :
    (crc32Step crc byte).toBitVec = Crc.feed crc32Poly crc.toBitVec byte.toBitVec ↔
      crc32Index crc byte ∉ wrongEntries := by
  have hstep : (crc32Step crc byte).toBitVec =
      (kCrc32Table.getD (crc32Index crc byte) 0).toBitVec ^^^ (crc.toBitVec >>> 8) := rfl
  rw [hstep, Crc.feed, Crc.shifts_eq_low, ← ofNat_crc32Index, BitVec.ushiftRight_xor_distrib,
    octet_shifts_out, BitVec.xor_zero, BitVec.xor_left_inj,
    kCrc32Table_eq_shifts_iff (crc32Index_lt crc byte)]

/-! ## Damage -/

/-- The highest octets of the table. -/
def tableTops : List Nat := kCrc32Table.toList.map fun entry => entry.toNat >>> 24

/-- Puts numbers into a set of bits as long as they are new. -/
def distinct : List Nat → Nat → Bool
  | [], _ => true
  | n :: rest, seen => !seen.testBit n && distinct rest (seen ||| 1 <<< n)

theorem nodup_of_distinct {ns : List Nat} {seen : Nat} (hdistinct : distinct ns seen = true) :
    ns.Nodup ∧ ∀ n ∈ ns, seen.testBit n = false := by
  induction ns generalizing seen with
  | nil => simp
  | cons n rest ih =>
      simp only [distinct, Bool.and_eq_true, Bool.not_eq_true'] at hdistinct
      obtain ⟨hnodup, hseen⟩ := ih hdistinct.2
      simp only [Nat.testBit_or, Bool.or_eq_false_iff, Nat.one_shiftLeft, Nat.testBit_two_pow,
        decide_eq_false_iff_not] at hseen
      refine ⟨List.nodup_cons.mpr ⟨fun hn => (hseen n hn).2 rfl, hnodup⟩, ?_⟩
      exact List.forall_mem_cons.mpr ⟨hdistinct.1, fun m hm => (hseen m hm).1⟩

theorem tableTops_nodup : tableTops.Nodup := by
  have hdistinct : distinct tableTops 0 = true := by decide +kernel
  exact (nodup_of_distinct hdistinct).1

theorem tableTops_getElem? {index : Nat} (hindex : index < 256) :
    tableTops[index]? = some ((kCrc32Table.getD index 0).toNat >>> 24) := by
  rw [tableTops, List.getElem?_map, kCrc32Table_getElem? hindex]
  rfl

theorem toNat_crc32Step (crc : UInt32) (byte : UInt8) : (crc32Step crc byte).toNat =
    (kCrc32Table.getD (crc32Index crc byte) 0).toNat ^^^ (crc.toNat >>> 8) := by
  rw [crc32Step, UInt32.toNat_xor, UInt32.toNat_shiftRight]
  rfl

/-- The highest octets of the registers name the entries that were looked up. -/
theorem crc32Index_of_top {crc other : UInt32} {byte different : UInt8}
    (heq : (crc32Step crc byte).toNat >>> 24 = (crc32Step other different).toNat >>> 24) :
    crc32Index crc byte = crc32Index other different := by
  have htop (c : UInt32) (b : UInt8) : (crc32Step c b).toNat >>> 24 =
      (kCrc32Table.getD (crc32Index c b) 0).toNat >>> 24 := by
    have hlow : c.toNat >>> 8 >>> 24 = 0 := by
      have := c.toNat_lt
      simp only [Nat.shiftRight_eq_div_pow]
      omega
    rw [toNat_crc32Step, Nat.shiftRight_xor_distrib, hlow, Nat.xor_zero]
  have hfirst := tableTops_getElem? (crc32Index_lt crc byte)
  have hsecond := tableTops_getElem? (crc32Index_lt other different)
  rw [← htop, heq, htop, ← hsecond] at hfirst
  have hlength : crc32Index crc byte < tableTops.length :=
    (List.getElem?_eq_some_iff.mp (hfirst.trans hsecond)).1
  exact (List.getElem?_inj hlength tableTops_nodup).mp hfirst

/-- A turn of the loop can be undone, up to how the register and the byte made the index,
as far as the higher octets of the register are known. -/
theorem crc32Step_inversion {crc other : UInt32} {byte different : UInt8} {k : Nat} (hk : k ≤ 3)
    (heq : (crc32Step crc byte).toNat >>> (8 * k) =
      (crc32Step other different).toNat >>> (8 * k)) :
    crc32Index crc byte = crc32Index other different ∧
      crc.toNat >>> (8 * (k + 1)) = other.toNat >>> (8 * (k + 1)) := by
  have hindex : crc32Index crc byte = crc32Index other different := by
    apply crc32Index_of_top
    have htop := congrArg (fun n => n >>> (24 - 8 * k)) heq
    simpa only [← Nat.shiftRight_add, show 8 * k + (24 - 8 * k) = 24 by omega] using htop
  refine ⟨hindex, ?_⟩
  rw [toNat_crc32Step, toNat_crc32Step, hindex, Nat.shiftRight_xor_distrib,
    Nat.shiftRight_xor_distrib] at heq
  have hrest := congrArg ((kCrc32Table.getD (crc32Index other different) 0).toNat >>> (8 * k) ^^^ ·)
    heq
  simp only [← Nat.xor_assoc, Nat.xor_self, Nat.zero_xor] at hrest
  rwa [← Nat.shiftRight_add, ← Nat.shiftRight_add, show 8 + 8 * k = 8 * (k + 1) by omega] at hrest

theorem crc32Step_eq_iff {crc other : UInt32} {byte different : UInt8}
    (heq : crc32Step crc byte = crc32Step other different) : crc = other ↔ byte = different := by
  obtain ⟨hindex, hshifted⟩ :=
    crc32Step_inversion (k := 0) (by omega) (congrArg (fun c => c.toNat >>> 0) heq)
  have hhigh : crc >>> 8 = other >>> 8 := by
    rw [← UInt32.toNat_inj, UInt32.toNat_shiftRight, UInt32.toNat_shiftRight]
    exact hshifted
  have hlow : Crc.low 8 (crc.toBitVec ^^^ byte.toBitVec.setWidth 32) =
      Crc.low 8 (other.toBitVec ^^^ different.toBitVec.setWidth 32) := by
    rw [← ofNat_crc32Index, ← ofNat_crc32Index, hindex]
  have hbits (i : Nat) (hi : i < 8) : (crc.toBitVec.getLsbD i ^^ byte.toBitVec.getLsbD i) =
      (other.toBitVec.getLsbD i ^^ different.toBitVec.getLsbD i) := by
    have hbit := congrArg (fun c => c.getLsbD i) hlow
    simpa only [Crc.getLsbD_low, hi, decide_true, Bool.true_and, BitVec.getLsbD_xor,
      BitVec.getLsbD_setWidth, show i < 32 by omega] using hbit
  constructor
  · rintro rfl
    apply UInt8.toBitVec_inj.mp
    apply BitVec.eq_of_getLsbD_eq
    intro i hi
    simpa using hbits i hi
  · rintro rfl
    apply UInt32.toBitVec_inj.mp
    apply BitVec.eq_of_getLsbD_eq
    intro i _
    by_cases hi : i < 8
    · simpa using hbits i hi
    · have hbit := congrArg (fun c : UInt32 => c.toBitVec.getLsbD (i - 8)) hhigh
      simpa [show 8 + (i - 8) = i by omega] using hbit

theorem crc32_loop_injective (data : Bytes) {crc other : UInt32}
    (heq : data.foldl crc32Step crc = data.foldl crc32Step other) : crc = other := by
  induction data generalizing crc other with
  | nil => exact heq
  | cons byte data ih => exact (crc32Step_eq_iff (ih heq)).mpr rfl

/-- One changed byte changes the checksum. -/
theorem crc32_ne_of_damage (before after : Bytes) {byte damaged : UInt8} (hne : damaged ≠ byte) :
    crc32 (before ++ damaged :: after) ≠ crc32 (before ++ byte :: after) := by
  intro heq
  have hloop := UInt32.xor_left_inj _ |>.mp heq
  rw [List.foldl_append, List.foldl_append, List.foldl_cons, List.foldl_cons] at hloop
  exact hne ((crc32Step_eq_iff (crc32_loop_injective after hloop)).mp rfl)

/-! ## Bursts

Every turn of the loop moves the register down by one octet. What four turns leave
therefore only depends on the four entries they look up, and names them. -/

/-- The higher octets of the register name the entries of the last turns. -/
theorem crc32Lookups_of_shifted {data damaged : Bytes} {crc other : UInt32} {k : Nat}
    (hlength : damaged.length = data.length) (hk : k + data.length ≤ 4)
    (heq : (damaged.foldl crc32Step crc).toNat >>> (8 * k) =
      (data.foldl crc32Step other).toNat >>> (8 * k)) :
    crc32Lookups crc damaged = crc32Lookups other data ∧
      crc.toNat >>> (8 * (k + data.length)) = other.toNat >>> (8 * (k + data.length)) := by
  induction data generalizing damaged crc other with
  | nil =>
      obtain rfl := List.length_eq_zero_iff.mp hlength
      exact ⟨rfl, heq⟩
  | cons byte data ih =>
      cases damaged with
      | nil => cases hlength
      | cons different damaged =>
          simp only [List.length_cons] at hlength hk
          have hfold : (damaged.foldl crc32Step (crc32Step crc different)).toNat >>> (8 * k) =
              (data.foldl crc32Step (crc32Step other byte)).toNat >>> (8 * k) := heq
          obtain ⟨hrest, hshifted⟩ := ih (by omega) (by omega) hfold
          obtain ⟨hindex, hhigh⟩ := crc32Step_inversion (by omega) hshifted
          exact ⟨by rw [crc32Lookups, crc32Lookups, hindex, hrest], hhigh⟩

/-- From one register the entries looked up name the bytes. -/
theorem crc32Lookups_injective {data damaged : Bytes} {crc : UInt32}
    (heq : crc32Lookups crc damaged = crc32Lookups crc data) : damaged = data := by
  induction data generalizing damaged crc with
  | nil =>
      cases damaged with
      | nil => rfl
      | cons different damaged => cases heq
  | cons byte data ih =>
      cases damaged with
      | nil => cases heq
      | cons different damaged =>
          obtain ⟨hindex, hrest⟩ := List.cons.inj heq
          have hstep : crc32Step crc different = crc32Step crc byte := by
            rw [← UInt32.toNat_inj, toNat_crc32Step, toNat_crc32Step, hindex]
          obtain rfl := (crc32Step_eq_iff hstep).mp rfl
          rw [ih hrest]

/-- Up to four bytes in a row cannot change without changing the checksum. -/
theorem crc32_ne_of_burst (before after : Bytes) {window damaged : Bytes}
    (hlength : damaged.length = window.length) (hshort : window.length ≤ 4)
    (hne : damaged ≠ window) :
    crc32 (before ++ (damaged ++ after)) ≠ crc32 (before ++ (window ++ after)) := by
  intro heq
  have hloop := UInt32.xor_left_inj _ |>.mp heq
  simp only [List.foldl_append] at hloop
  have hregister := crc32_loop_injective after hloop
  have hlookups := crc32Lookups_of_shifted (k := 0) hlength (by omega)
    (congrArg (fun c => c.toNat >>> 0) hregister)
  exact hne (crc32Lookups_injective hlookups.1)

/-! ## The standard checksum -/

/-- Correct entries keep the registers equal, and unequal ones unequal. -/
theorem crc32_loop_eq_iff {data : Bytes} {crc : UInt32} (c : BitVec 32)
    (hright : ∀ index ∈ crc32Lookups crc data, index ∉ wrongEntries) :
    (data.foldl crc32Step crc).toBitVec = standardLoop data c ↔ crc.toBitVec = c := by
  induction data generalizing crc c with
  | nil => rfl
  | cons byte data ih =>
      obtain ⟨hfirst, hrest⟩ := List.forall_mem_cons.mp hright
      have hstep := (crc32Step_eq_feed_iff crc byte).mpr hfirst
      rw [List.foldl_cons, standardLoop, List.foldl_cons, ← standardLoop, ih _ hrest, hstep]
      exact (Crc.feed_injective crc32Poly (by decide) (by decide) byte.toBitVec).eq_iff

theorem crc32_loop_ne {data : Bytes} {crc : UInt32}
    (honce : (crc32Lookups crc data).countP (· ∈ wrongEntries) = 1) :
    (data.foldl crc32Step crc).toBitVec ≠ standardLoop data crc.toBitVec := by
  induction data generalizing crc with
  | nil => cases honce
  | cons byte data ih =>
      rw [List.foldl_cons, standardLoop, List.foldl_cons, ← standardLoop]
      rw [crc32Lookups, List.countP_cons] at honce
      by_cases hwrong : crc32Index crc byte ∈ wrongEntries
      · -- the registers part here, and the entries after it are correct
        have hrest : (crc32Lookups (crc32Step crc byte) data).countP (· ∈ wrongEntries) = 0 := by
          simpa [hwrong] using honce
        rw [List.countP_eq_zero] at hrest
        rw [Ne, crc32_loop_eq_iff _ fun index hindex => by simpa using hrest index hindex,
          crc32Step_eq_feed_iff]
        exact fun hright => hright hwrong
      · rw [← (crc32Step_eq_feed_iff crc byte).mpr hwrong]
        exact ih (by simpa [hwrong] using honce)

/-- A correct entry takes the register where the bits would. -/
theorem crc32Step_ofBitVec {c : BitVec 32} {byte : UInt8}
    (hright : crc32Index (.ofBitVec c) byte ∉ wrongEntries) :
    crc32Step (.ofBitVec c) byte = .ofBitVec (Crc.feed crc32Poly c byte.toBitVec) :=
  UInt32.toBitVec_inj.mp ((crc32Step_eq_feed_iff (.ofBitVec c) byte).mpr hright)

theorem crc32_loop_eq_standard {data : Bytes} {c : BitVec 32}
    (hright : ∀ index ∈ standardLookups c data, index ∉ wrongEntries) :
    (data.foldl crc32Step (.ofBitVec c)).toBitVec = standardLoop data c := by
  induction data generalizing c with
  | nil => rfl
  | cons byte data ih =>
      obtain ⟨hfirst, hrest⟩ := List.forall_mem_cons.mp hright
      rw [List.foldl_cons, crc32Step_ofBitVec hfirst, ih hrest]
      rfl

theorem crc32_loop_ne_standard {data : Bytes} {c : BitVec 32}
    (honce : (standardLookups c data).countP (· ∈ wrongEntries) = 1) :
    (data.foldl crc32Step (.ofBitVec c)).toBitVec ≠ standardLoop data c := by
  induction data generalizing c with
  | nil => cases honce
  | cons byte data ih =>
      rw [standardLookups, List.countP_cons] at honce
      rw [List.foldl_cons, standardLoop, List.foldl_cons, ← standardLoop]
      by_cases hwrong : crc32Index (.ofBitVec c) byte ∈ wrongEntries
      · -- whatever the loop looks up from here on, it keeps different registers different
        have hrest : (standardLookups (Crc.feed crc32Poly c byte.toBitVec) data).countP
            (· ∈ wrongEntries) = 0 := by
          simpa [hwrong] using honce
        rw [List.countP_eq_zero] at hrest
        rw [← crc32_loop_eq_standard fun index hindex => by simpa using hrest index hindex]
        intro heq
        have hstep := crc32_loop_injective data (UInt32.toBitVec_inj.mp heq)
        exact (crc32Step_eq_feed_iff (.ofBitVec c) byte).mp (congrArg UInt32.toBitVec hstep) hwrong
      · rw [crc32Step_ofBitVec hwrong]
        exact ih (by simpa [hwrong] using honce)

theorem crc32_eq_iff_loop (data : Bytes) : crc32 data = standardCrc32 data ↔
    (data.foldl crc32Step 0xFFFFFFFF).toBitVec = standardLoop data 0xFFFFFFFF := by
  have hcomplement (x : BitVec 32) : x ^^^ 0xFFFFFFFF = ~~~x := BitVec.xor_allOnes
  rw [← UInt32.toBitVec_inj, crc32, standardCrc32, UInt32.toBitVec_xor]
  exact Iff.trans (by rw [← hcomplement]; rfl) (BitVec.xor_left_inj 0xFFFFFFFF)

/-- The checksum is CRC-32 for every string on which the standard register asks for correct
entries only, and is not for any on which that register, or the loop itself, meets one wrong
one. -/
theorem crc32_standard (data : Bytes) :
    ((∀ index ∈ standardLookups 0xFFFFFFFF data, index ∉ wrongEntries) →
      crc32 data = standardCrc32 data) ∧
    ((standardLookups 0xFFFFFFFF data).countP (· ∈ wrongEntries) = 1 ∨
        (crc32Lookups 0xFFFFFFFF data).countP (· ∈ wrongEntries) = 1 →
      crc32 data ≠ standardCrc32 data) := by
  rw [Ne, crc32_eq_iff_loop]
  exact ⟨crc32_loop_eq_standard, fun honce => honce.elim crc32_loop_ne_standard crc32_loop_ne⟩

/-- A hard state's payload, and one byte that meets the first wrong entry. -/
theorem crc32_standard_examples :
    (∀ index ∈ standardLookups 0xFFFFFFFF [0x93, 1, 1, 0], index ∉ wrongEntries) ∧
      crc32 [0x93, 1, 1, 0] = standardCrc32 [0x93, 1, 1, 0] ∧
      standardLookups 0xFFFFFFFF [0xF6] = [9] ∧ crc32 [0xF6] ≠ standardCrc32 [0xF6] :=
  ⟨by decide +kernel, (crc32_standard _).1 (by decide +kernel), by decide +kernel,
    (crc32_standard _).2 (.inl (by decide +kernel))⟩

/-- The nine digits by which implementations of CRC-32 are compared. -/
def checkDigits : Bytes := [0x31, 0x32, 0x33, 0x34, 0x35, 0x36, 0x37, 0x38, 0x39]

theorem crc32_check_value :
    standardCrc32 checkDigits = 0xCBF43926 ∧ crc32 checkDigits = 0xFDC2C678 := by
  decide +kernel

end RaftKv
