import DlibAndroid.Lib.Word
import Mathlib.Data.List.GetD
import Mathlib.Data.List.Nodup

/-!
# `crc32`

The checksum behind a compressed stream. It is a table and one line of code; what the line needs of
the table is that no two of its words have the same top byte (`top_injective`). Then the last
byte's place in the table can be read off the checksum, and so back to the fourth byte from the
end, which is why no change of up to four neighbouring bytes goes unnoticed (`burst_detected`).

The checksum is an `unsigned long`, which may have more than 32 bits; no operation sets one of them.
-/

set_option autoImplicit false

namespace DlibAndroid.Codec.Crc32

open CCore

/-- `crc_table` -/
def crcTable : List UInt32 :=
  [
    0x00000000, 0x77073096, 0xee0e612c, 0x990951ba, 0x76dc419, 0x706af48f, 0xe963a535, 0x9e6495a3,
    0xedb8832, 0x79dcb8a4, 0xe0d5e91e, 0x97d2d988, 0x9b64c2b, 0x7eb17cbd, 0xe7b82d07, 0x90bf1d91,
    0x1db71064, 0x6ab020f2, 0xf3b97148, 0x84be41de, 0x1adad47d, 0x6ddde4eb, 0xf4d4b551, 0x83d385c7,
    0x136c9856, 0x646ba8c0, 0xfd62f97a, 0x8a65c9ec, 0x14015c4f, 0x63066cd9, 0xfa0f3d63, 0x8d080df5,
    0x3b6e20c8, 0x4c69105e, 0xd56041e4, 0xa2677172, 0x3c03e4d1, 0x4b04d447, 0xd20d85fd, 0xa50ab56b,
    0x35b5a8fa, 0x42b2986c, 0xdbbbc9d6, 0xacbcf940, 0x32d86ce3, 0x45df5c75, 0xdcd60dcf, 0xabd13d59,
    0x26d930ac, 0x51de003a, 0xc8d75180, 0xbfd06116, 0x21b4f4b5, 0x56b3c423, 0xcfba9599, 0xb8bda50f,
    0x2802b89e, 0x5f058808, 0xc60cd9b2, 0xb10be924, 0x2f6f7c87, 0x58684c11, 0xc1611dab, 0xb6662d3d,
    0x76dc4190, 0x1db7106, 0x98d220bc, 0xefd5102a, 0x71b18589, 0x6b6b51f, 0x9fbfe4a5, 0xe8b8d433,
    0x7807c9a2, 0xf00f934, 0x9609a88e, 0xe10e9818, 0x7f6a0dbb, 0x86d3d2d, 0x91646c97, 0xe6635c01,
    0x6b6b51f4, 0x1c6c6162, 0x856530d8, 0xf262004e, 0x6c0695ed, 0x1b01a57b, 0x8208f4c1, 0xf50fc457,
    0x65b0d9c6, 0x12b7e950, 0x8bbeb8ea, 0xfcb9887c, 0x62dd1ddf, 0x15da2d49, 0x8cd37cf3, 0xfbd44c65,
    0x4db26158, 0x3ab551ce, 0xa3bc0074, 0xd4bb30e2, 0x4adfa541, 0x3dd895d7, 0xa4d1c46d, 0xd3d6f4fb,
    0x4369e96a, 0x346ed9fc, 0xad678846, 0xda60b8d0, 0x44042d73, 0x33031de5, 0xaa0a4c5f, 0xdd0d7cc9,
    0x5005713c, 0x270241aa, 0xbe0b1010, 0xc90c2086, 0x5768b525, 0x206f85b3, 0xb966d409, 0xce61e49f,
    0x5edef90e, 0x29d9c998, 0xb0d09822, 0xc7d7a8b4, 0x59b33d17, 0x2eb40d81, 0xb7bd5c3b, 0xc0ba6cad,
    0xedb88320, 0x9abfb3b6, 0x3b6e20c, 0x74b1d29a, 0xead54739, 0x9dd277af, 0x4db2615, 0x73dc1683,
    0xe3630b12, 0x94643b84, 0xd6d6a3e, 0x7a6a5aa8, 0xe40ecf0b, 0x9309ff9d, 0xa00ae27, 0x7d079eb1,
    0xf00f9344, 0x8708a3d2, 0x1e01f268, 0x6906c2fe, 0xf762575d, 0x806567cb, 0x196c3671, 0x6e6b06e7,
    0xfed41b76, 0x89d32be0, 0x10da7a5a, 0x67dd4acc, 0xf9b9df6f, 0x8ebeeff9, 0x17b7be43, 0x60b08ed5,
    0xd6d6a3e8, 0xa1d1937e, 0x38d8c2c4, 0x4fdff252, 0xd1bb67f1, 0xa6bc5767, 0x3fb506dd, 0x48b2364b,
    0xd80d2bda, 0xaf0a1b4c, 0x36034af6, 0x41047a60, 0xdf60efc3, 0xa867df55, 0x316e8eef, 0x4669be79,
    0xcb61b38c, 0xbc66831a, 0x256fd2a0, 0x5268e236, 0xcc0c7795, 0xbb0b4703, 0x220216b9, 0x5505262f,
    0xc5ba3bbe, 0xb2bd0b28, 0x2bb45a92, 0x5cb36a04, 0xc2d7ffa7, 0xb5d0cf31, 0x2cd99e8b, 0x5bdeae1d,
    0x9b64c2b0, 0xec63f226, 0x756aa39c, 0x26d930a, 0x9c0906a9, 0xeb0e363f, 0x72076785, 0x5005713,
    0x95bf4a82, 0xe2b87a14, 0x7bb12bae, 0xcb61b38, 0x92d28e9b, 0xe5d5be0d, 0x7cdcefb7, 0xbdbdf21,
    0x86d3d2d4, 0xf1d4e242, 0x68ddb3f8, 0x1fda836e, 0x81be16cd, 0xf6b9265b, 0x6fb077e1, 0x18b74777,
    0x88085ae6, 0xff0f6a70, 0x66063bca, 0x11010b5c, 0x8f659eff, 0xf862ae69, 0x616bffd3, 0x166ccf45,
    0xa00ae278, 0xd70dd2ee, 0x4e048354, 0x3903b3c2, 0xa7672661, 0xd06016f7, 0x4969474d, 0x3e6e77db,
    0xaed16a4a, 0xd9d65adc, 0x40df0b66, 0x37d83bf0, 0xa9bcae53, 0xdebb9ec5, 0x47b2cf7f, 0x30b5ffe9,
    0xbdbdf21c, 0xcabac28a, 0x53b39330, 0x24b4a3a6, 0xbad03605, 0xcdd70693, 0x54de5729, 0x23d967bf,
    0xb3667a2e, 0xc4614ab8, 0x5d681b02, 0x2a6f2b94, 0xb40bbe37, 0xc30c8ea1, 0x5a05df1b, 0x2d02ef8d]

def table (idx : UInt32) : UInt32 := crcTable.getD idx.toNat 0

/-- `add` -/
def add (checksum : UInt32) (item : UInt8) : UInt32 :=
  (checksum >>> 8) ^^^ table ((checksum ^^^ item.toUInt32) &&& 0xFF)

/-- `add`, for all the bytes of a string. -/
def addAll (items : List UInt8) (checksum : UInt32) : UInt32 := items.foldl add checksum

/-- The constructor. -/
def initial : UInt32 := 0xFFFFFFFF

def getChecksum (checksum : UInt32) : UInt32 := checksum ^^^ 0xFFFFFFFF

/-- `get_checksum` of all the bytes. -/
def checksum (items : List UInt8) : UInt32 := getChecksum (addAll items initial)

/-! ## The table -/

/-- What the comment in `table` says the words were made with. -/
def generated (i : UInt32) : UInt32 :=
  (List.range 8).foldl
    (fun temp _ => if temp &&& 1 ≠ 0 then (temp >>> 1) ^^^ 0xedb88320 else temp >>> 1) i

theorem crcTable_generated : crcTable = (List.range 256).map fun i => generated (.ofNat i) := by
  decide +kernel

theorem top_nodup : (crcTable.map fun word => word.toNat / 2 ^ 24).Nodup := by
  decide +kernel

theorem length_crcTable : crcTable.length = 256 := by
  rw [crcTable_generated, List.length_map, List.length_range]

/-- The top byte of a word says which word it is. -/
theorem top_injective {i j : Nat} (hi : i < 256) (hj : j < 256)
    (h : (crcTable.getD i 0).toNat / 2 ^ 24 = (crcTable.getD j 0).toNat / 2 ^ 24) : i = j := by
  have hlen : (crcTable.map fun word => word.toNat / 2 ^ 24).length = 256 := by
    rw [List.length_map, length_crcTable]
  have hi' : i < (crcTable.map fun word => word.toNat / 2 ^ 24).length := by rwa [hlen]
  have hj' : j < (crcTable.map fun word => word.toNat / 2 ^ 24).length := by rwa [hlen]
  refine (List.Nodup.getElem_inj_iff top_nodup).mp (show
    (crcTable.map fun word => word.toNat / 2 ^ 24)[i] =
      (crcTable.map fun word => word.toNat / 2 ^ 24)[j] from ?_)
  have hi₀ : i < crcTable.length := by
    rw [length_crcTable]
    exact hi
  have hj₀ : j < crcTable.length := by
    rw [length_crcTable]
    exact hj
  rw [List.getD_eq_getElem _ _ hi₀, List.getD_eq_getElem _ _ hj₀] at h
  rw [List.getElem_map, List.getElem_map]
  exact h

/-! ## Reading the bytes off the checksum -/

/-- The two agree but for the lowest `k` bytes. -/
def Above (k : Nat) (a b : UInt32) : Prop :=
  ∀ i, 8 * k ≤ i → a.toNat.testBit i = b.toNat.testBit i

/-- The place in the table. -/
def place (checksum : UInt32) (item : UInt8) : UInt32 := (checksum ^^^ item.toUInt32) &&& 0xFF

theorem place_lt (checksum : UInt32) (item : UInt8) : (place checksum item).toNat < 256 := by
  have hmask : (0xFF : UInt32).toNat = 2 ^ 8 - 1 := rfl
  rw [place, UInt32.toNat_and, hmask, Nat.and_two_pow_sub_one_eq_mod]
  exact Nat.mod_lt _ (by decide)

theorem testBit_place (checksum : UInt32) (item : UInt8) (i : Nat) :
    (place checksum item).toNat.testBit i =
      (decide (i < 8) && (checksum.toNat.testBit i ^^ item.toNat.testBit i)) := by
  have hmask : (0xFF : UInt32).toNat = 2 ^ 8 - 1 := rfl
  rw [place, UInt32.toNat_and, hmask, Nat.and_two_pow_sub_one_eq_mod, Nat.testBit_mod_two_pow,
    UInt32.toNat_xor, Nat.testBit_xor, UInt8.toNat_toUInt32]

theorem testBit_add (checksum : UInt32) (item : UInt8) (i : Nat) :
    (add checksum item).toNat.testBit i = (checksum.toNat.testBit (i + 8) ^^
      (table (place checksum item)).toNat.testBit i) := by
  have hshift : (checksum >>> 8).toNat = checksum.toNat / 2 ^ 8 := by
    simp [UInt32.toNat_shiftRight, Nat.shiftRight_eq_div_pow]
  rw [add, UInt32.toNat_xor, Nat.testBit_xor, hshift, Nat.testBit_div_two_pow, place]

/-- **One byte back.** What is known of two checksums above a byte `k` no higher than the top one
is known above the next byte of the checksums before, and so is the place in the table. -/
theorem add_above {a b : UInt32} {x y : UInt8} {k : Nat} (hk : k ≤ 3)
    (h : Above k (add a x) (add b y)) : place a x = place b y ∧ Above (k + 1) a b := by
  have hzero : ∀ c : UInt32, ∀ i, 32 ≤ i → c.toNat.testBit i = false := fun c i hi =>
    Nat.testBit_lt_two_pow (c.toNat_lt.trans_le (Nat.pow_le_pow_right (by decide) hi))
  have htop : (table (place a x)).toNat / 2 ^ 24 = (table (place b y)).toNat / 2 ^ 24 := by
    apply Nat.eq_of_testBit_eq
    intro i
    have hbit := h (i + 24) (by omega)
    rw [testBit_add, testBit_add, hzero a _ (by omega), hzero b _ (by omega)] at hbit
    rw [Nat.testBit_div_two_pow, Nat.testBit_div_two_pow]
    simpa using hbit
  have hplace : place a x = place b y :=
    UInt32.toNat_inj.mp (top_injective (place_lt a x) (place_lt b y) htop)
  refine ⟨hplace, fun i hi => ?_⟩
  have hbit := h (i - 8) (by omega)
  rw [testBit_add, testBit_add, hplace, Nat.sub_add_cancel (by omega)] at hbit
  exact Bool.xor_left_inj.mp hbit

/-- The same byte from two checksums. -/
theorem add_inj {a b : UInt32} {x : UInt8} (h : add a x = add b x) : a = b := by
  have hsame : Above 0 (add a x) (add b x) := fun i _ => by rw [h]
  obtain ⟨hplace, habove⟩ := add_above (Nat.zero_le 3) hsame
  apply UInt32.toNat_inj.mp
  apply Nat.eq_of_testBit_eq
  intro i
  by_cases hi : 8 ≤ i
  · exact habove i hi
  · have hbit := congrArg (fun w : UInt32 => w.toNat.testBit i) hplace
    simp only [testBit_place, not_le.mp hi, decide_true, Bool.true_and] at hbit
    exact Bool.xor_left_inj.mp hbit

theorem addAll_inj {items : List UInt8} {a b : UInt32} (h : addAll items a = addAll items b) :
    a = b := by
  induction items generalizing a b with
  | nil => exact h
  | cons x items ih => exact add_inj (ih h)

/-- From one checksum, up to four bytes are told apart, and that by what is above the bytes which
four leave over. -/
theorem addAll_above {n k : Nat} (hn : n + k ≤ 4) {xs ys : List UInt8} (hx : xs.length = n)
    (hy : ys.length = n) {a : UInt32} (h : Above k (addAll xs a) (addAll ys a)) : xs = ys := by
  induction n generalizing k xs ys with
  | zero => rw [List.length_eq_zero_iff.mp hx, List.length_eq_zero_iff.mp hy]
  | succ n ih =>
    -- the last byte of either, as that is where the checksum has to be read from
    obtain ⟨xs, x, rfl⟩ := (List.eq_nil_or_concat' xs).resolve_left (by rintro rfl; cases hx)
    obtain ⟨ys, y, rfl⟩ := (List.eq_nil_or_concat' ys).resolve_left (by rintro rfl; cases hy)
    rw [List.length_append] at hx hy
    simp only [addAll, List.foldl_append, List.foldl_cons, List.foldl_nil] at h
    obtain ⟨hplace, habove⟩ := add_above (by omega) h
    obtain rfl := ih (by omega) (Nat.succ.inj hx) (Nat.succ.inj hy) habove
    congr 2
    apply UInt8.toNat_inj.mp
    apply Nat.eq_of_testBit_eq
    intro i
    by_cases hi : i < 8
    · have hbit := congrArg (fun w : UInt32 => w.toNat.testBit i) hplace
      simp only [testBit_place, hi, decide_true, Bool.true_and] at hbit
      exact Bool.xor_right_inj.mp hbit
    · have hzero : ∀ c : UInt8, c.toNat.testBit i = false := fun c =>
        Nat.testBit_lt_two_pow
          (c.toNat_lt.trans_le (Nat.pow_le_pow_right (by decide) (not_lt.mp hi)))
      rw [hzero, hzero]

/-- **A change within four neighbouring bytes changes the checksum**, wherever it is and however
long the text. -/
theorem burst_detected {before xs ys after : List UInt8} (hlen : xs.length = ys.length)
    (hfour : xs.length ≤ 4) (hne : xs ≠ ys) :
    checksum (before ++ xs ++ after) ≠ checksum (before ++ ys ++ after) := by
  intro h
  have hall : addAll (before ++ xs ++ after) initial = addAll (before ++ ys ++ after) initial :=
    UInt32.xor_left_inj _ |>.mp h
  simp only [addAll, List.foldl_append] at hall
  have hmiddle := addAll_inj hall
  exact hne (addAll_above hfour rfl hlen.symm (fun i _ => by rw [addAll, addAll, hmiddle] :
    Above 0 (addAll xs (before.foldl add initial)) (addAll ys (before.foldl add initial))))

theorem burst_detected_twoBytes :
    checksum ([1, 2] ++ [3, 4] ++ [5]) ≠ checksum ([1, 2] ++ [9, 8] ++ [5]) :=
  burst_detected rfl (by decide) (by decide)

end DlibAndroid.Codec.Crc32
