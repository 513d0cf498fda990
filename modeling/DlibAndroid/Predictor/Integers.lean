import DlibAndroid.Lib.Restore
import DlibAndroid.Predictor.Serialize

/-!
# `serialize.h`: integers

`pack_int`, and that `unpack_int` is its inverse. An integer is written as a control byte, the
number of bytes and the sign, and as few bytes as its size takes.

The least value of a signed type has no positive counterpart: `item *= -1` leaves it as it is, the
shifts drag its sign along, all bytes are used up, and reading changes its sign as little. So it
comes back as well.
-/

set_option autoImplicit false

namespace DlibAndroid

open CCore

/-! ## Writing -/

/-- The loop of `pack_int`: the lowest byte, and the others while anything is left of the item. -/
def packBytes : Nat → Int → List UInt8
  | 0, _ => []
  | n + 1, item =>
    UInt8.ofNat (item % 256).toNat :: if item / 256 = 0 then [] else packBytes n (item / 256)

/-- `ser_helper::pack_int` for a signed type of `sizeof` bytes. -/
def packSigned (sizeof : Nat) (item : Int) : List UInt8 :=
  let neg : UInt8 := if item < 0 then 0x80 else 0
  let bytes := packBytes sizeof (if item < 0 then (-item).bmod (2 ^ (8 * sizeof)) else item)
  (UInt8.ofNat bytes.length ||| neg) :: bytes

/-- `ser_helper::pack_int` for an unsigned type. -/
def packUnsigned (sizeof : Nat) (item : Nat) : List UInt8 :=
  let bytes := packBytes sizeof item
  UInt8.ofNat bytes.length :: bytes

def serializeShort : Int → List UInt8 := packSigned 2

def serializeInt : Int → List UInt8 := packSigned 4

def serializeLong : Int → List UInt8 := packSigned 4

def serializeInt64 : Int → List UInt8 := packSigned 8

def serializeUnsignedLong : Nat → List UInt8 := packUnsigned 4

/-! ## The bytes -/

section Bytes

variable {n sizeof : Nat} {item : Int} {bytes rest : List UInt8}

theorem length_packBytes (n : Nat) (item : Int) :
    (packBytes n item).length ≤ n ∧ (0 < n → 0 < (packBytes n item).length) := by
  induction n generalizing item with
  | zero => exact ⟨le_rfl, id⟩
  | succ n ih =>
    rw [packBytes]
    split
    · exact ⟨Nat.succ_le_succ (Nat.zero_le n), fun _ => Nat.zero_lt_succ _⟩
    · exact ⟨Nat.succ_le_succ (ih (item / 256)).1, fun _ => Nat.zero_lt_succ _⟩

/-- The lowest byte, and what is left. -/
theorem emod_256_mul {m : Int} (hm : 0 < m) (item : Int) :
    item % (256 * m) = item % 256 + 256 * (item / 256 % m) := by
  have hlow := Int.emod_add_mul_ediv item 256
  have hhigh := Int.emod_add_mul_ediv (item / 256) m
  have hnonneg := Int.emod_nonneg (item / 256) hm.ne'
  have hlt := Int.emod_lt_of_pos (item / 256) hm
  have hitem : item = item % 256 + 256 * (item / 256 % m) + 256 * m * (item / 256 / m) := by
    rw [mul_assoc]
    linarith
  calc item % (256 * m)
      = (item % 256 + 256 * (item / 256 % m)) % (256 * m) := by
        conv_lhs => rw [hitem]
        exact Int.add_mul_emod_self_left ..
    _ = item % 256 + 256 * (item / 256 % m) := Int.emod_eq_of_lt (by omega) (by omega)

/-- The bytes are the item, as far as they go. -/
theorem littleEndian_packBytes (n : Nat) (item : Int) :
    (littleEndian (packBytes n item) : Int) = item % 2 ^ (8 * n) := by
  induction n generalizing item with
  | zero => exact (Int.emod_one item).symm
  | succ n ih =>
    have hbyte : ((UInt8.ofNat (item % 256).toNat).toNat : Int) = item % 256 := by
      rw [UInt8.toNat_ofNat']
      omega
    have hpow : (2 : Int) ^ (8 * (n + 1)) = 256 * 2 ^ (8 * n) := by
      rw [Nat.mul_succ, pow_add, mul_comm]
      norm_num
    rw [packBytes, hpow, emod_256_mul (by positivity)]
    split
    · rename_i hzero
      rw [littleEndian, littleEndian, hzero]
      push_cast
      rw [hbyte, Int.zero_emod]
      omega
    · rw [littleEndian]
      push_cast
      rw [hbyte, ih]

theorem unpackBytes_append (hpos : 0 < bytes.length) (hle : bytes.length ≤ sizeof)
    (rest : List UInt8) :
    unpackBytes sizeof bytes.length (bytes ++ rest) = some (littleEndian bytes, rest) := by
  rw [unpackBytes, if_neg (by omega), if_pos (by rw [List.length_append]; omega),
    List.take_left, List.drop_left]

theorem unpackBytes_take {k : Nat} (hk : k < bytes.length) :
    unpackBytes sizeof bytes.length (bytes.take k) = none := by
  rw [unpackBytes]
  split
  · rfl
  · rw [if_neg (by rw [List.length_take]; omega)]

/-- A control byte: the number of bytes, the sign, and three bits that are never set. -/
theorem control_neg {n : Nat} (hn : n ≤ 8) : ((UInt8.ofNat n ||| 0x80) &&& 0x0F).toNat = n ∧
    (UInt8.ofNat n ||| 0x80) &&& 0x80 ≠ 0 ∧ (UInt8.ofNat n ||| 0x80) &&& 0x70 = 0 := by
  revert n
  decide

theorem control_pos {n : Nat} (hn : n ≤ 8) : ((UInt8.ofNat n ||| 0) &&& 0x0F).toNat = n ∧
    (UInt8.ofNat n ||| 0) &&& 0x80 = 0 ∧ (UInt8.ofNat n ||| 0) &&& 0x70 = 0 := by
  revert n
  decide

theorem control_unsigned {n : Nat} (hn : n ≤ 8) : (UInt8.ofNat n &&& 0x8F).toNat = n := by
  revert n
  decide

/-- What is written for a signed item: how many bytes, which sign, and which amount. -/
theorem packSigned_spec (hpos : 0 < sizeof) (hle : sizeof ≤ 8) (item : Int) : ∃ control bytes,
    packSigned sizeof item = control :: bytes ∧ (control &&& 0x0F).toNat = bytes.length ∧
      (control &&& 0x80 ≠ 0 ↔ item < 0) ∧ control &&& 0x70 = 0 ∧
      (0 < bytes.length ∧ bytes.length ≤ sizeof) ∧
      (littleEndian bytes : Int) = (if item < 0 then -item else item) % 2 ^ (8 * sizeof) := by
  by_cases hneg : item < 0
  · obtain ⟨hlen, hlen'⟩ := length_packBytes sizeof ((-item).bmod (2 ^ (8 * sizeof)))
    obtain ⟨hsize, hsign, hformat⟩ := control_neg (hlen.trans hle)
    refine ⟨_, _, ?_, hsize, iff_of_true hsign hneg, hformat, ⟨hlen' hpos, hlen⟩, ?_⟩
    · simp only [packSigned, if_pos hneg]
    · rw [littleEndian_packBytes, if_pos hneg]
      exact_mod_cast Int.bmod_emod
  · obtain ⟨hlen, hlen'⟩ := length_packBytes sizeof item
    obtain ⟨hsize, hsign, hformat⟩ := control_pos (hlen.trans hle)
    refine ⟨_, _, ?_, hsize, iff_of_false (not_not.mpr hsign) hneg, hformat, ⟨hlen' hpos, hlen⟩, ?_⟩
    · simp only [packSigned, if_neg hneg]
    · rw [littleEndian_packBytes, if_neg hneg]

end Bytes

/-! ## Reading back -/

section Reading

variable {T : Type} {type : String} {zero item : T} {unpack : List UInt8 → Option (T × List UInt8)}
  {bytes : List UInt8} {sizeof : Nat}

/-- A reader of integers, from the function that does the reading. -/
theorem takes_integral (hread : ∀ rest, unpack (bytes ++ rest) = some (item, rest))
    (hshort : ∀ k, k < bytes.length → unpack (bytes.take k) = none) :
    (deserializeIntegral type zero unpack).Takes bytes fun _ => item := by
  constructor
  · intro _ rest
    rw [deserializeIntegral, hread]
  · intro _ k hk
    rw [deserializeIntegral, hshort k hk]
    exact ⟨_, rfl⟩

/-- A value of a signed type of `sizeof` bytes. -/
def IsSigned (sizeof : Nat) (item : Int) : Prop :=
  -2 ^ (8 * sizeof) ≤ item * 2 ∧ item * 2 < 2 ^ (8 * sizeof)

instance (sizeof : Nat) (item : Int) : Decidable (IsSigned sizeof item) :=
  inferInstanceAs (Decidable (_ ∧ _))

/-- **`unpack_int` after `pack_int`**, for every value of a signed type. -/
theorem takes_packSigned (hpos : 0 < sizeof) (hle : sizeof ≤ 8) {item : Int}
    (hitem : IsSigned sizeof item) :
    (deserializeIntegral type 0 (unpackSigned sizeof)).Takes (packSigned sizeof item)
      fun _ => item := by
  have hbmod : item.bmod (2 ^ (8 * sizeof)) = item :=
    Int.bmod_eq_of_le_mul_two (by push_cast; exact hitem.1) (by push_cast; exact hitem.2)
  obtain ⟨control, bytes, hpack, hsize, hcontrol, -, hbytes, hvalue⟩ :=
    packSigned_spec hpos hle item
  rw [hpack]
  apply takes_integral
  · intro rest
    have hback : (if item < 0 then -(littleEndian bytes : Int) else littleEndian bytes).bmod
        (2 ^ (8 * sizeof)) = item := by
      rw [hvalue]
      split
      · have := Int.sub_emod_bmod 0 (y := -item) (2 ^ (8 * sizeof))
        push_cast at this
        rw [zero_sub, zero_sub, neg_neg] at this
        rw [this, hbmod]
      · have := Int.emod_bmod item (2 ^ (8 * sizeof))
        push_cast at this
        rw [this, hbmod]
    simp only [List.cons_append, unpackSigned, hsize, unpackBytes_append hbytes.1 hbytes.2,
      hcontrol, Option.bind_eq_bind, Option.bind_some, hback]
  · intro k hk
    cases k with
    | zero => rfl
    | succ k =>
      simp only [List.take_succ_cons, unpackSigned, hsize,
        unpackBytes_take (Nat.lt_of_succ_lt_succ hk), Option.bind_eq_bind, Option.bind_none]

/-- **`unpack_int` after `pack_int`**, for every value of an unsigned type. -/
theorem takes_packUnsigned (hpos : 0 < sizeof) (hle : sizeof ≤ 8) {item : Nat}
    (hitem : item < 2 ^ (8 * sizeof)) :
    (deserializeIntegral type 0 (unpackUnsigned sizeof)).Takes (packUnsigned sizeof item)
      fun _ => item := by
  obtain ⟨hlen, hlen'⟩ := length_packBytes sizeof item
  have hsize := control_unsigned (hlen.trans hle)
  have hvalue : littleEndian (packBytes sizeof item) = item := by
    have h := littleEndian_packBytes sizeof item
    rw [Int.emod_eq_of_lt (Int.natCast_nonneg item) (by exact_mod_cast hitem)] at h
    exact_mod_cast h
  apply takes_integral
  · intro rest
    rw [packUnsigned, List.cons_append, unpackUnsigned, hsize,
      unpackBytes_append (hlen' hpos) hlen, hvalue]
  · intro k hk
    cases k with
    | zero => rfl
    | succ k =>
      rw [packUnsigned, List.take_succ_cons, unpackUnsigned, hsize,
        unpackBytes_take (Nat.lt_of_succ_lt_succ hk)]

end Reading

end DlibAndroid
