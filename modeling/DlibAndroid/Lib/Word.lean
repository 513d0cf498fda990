import Mathlib.Tactic.Linarith

/-!
# Bytes, and words of four of them

`UInt8` and `UInt32` as the source uses them, shifted and masked, and what that is in numbers. A
stream of bytes is looked at through a window of four, the bytes past its end read as zero.
-/

set_option autoImplicit false

namespace CCore

/-! ## Shifts and masks -/

theorem toNat_shiftRight_one (a : UInt32) : (a >>> 1).toNat = a.toNat / 2 := by
  simp [UInt32.toNat_shiftRight, Nat.shiftRight_eq_div_pow]

theorem toNat_shiftLeft_eight (a : UInt32) : (a <<< 8).toNat = a.toNat % 2 ^ 24 * 2 ^ 8 := by
  have hmod : a.toNat * 2 ^ 8 % 2 ^ 32 = a.toNat % 2 ^ 24 * 2 ^ 8 := by omega
  simpa [UInt32.toNat_shiftLeft, Nat.shiftLeft_eq] using hmod

/-- Bits under a multiple of a power of two. -/
theorem toNat_or_low {a b : UInt32} {k : Nat} (n : Nat) (ha : a.toNat = k * 2 ^ n)
    (hb : b.toNat < 2 ^ n) : (a ||| b).toNat = a.toNat + b.toNat := by
  rw [UInt32.toNat_or, ha, Nat.mul_comm, Nat.two_pow_add_eq_or_of_lt hb]

/-- A byte put behind a word, which loses its first one. -/
theorem toNat_push (a : UInt32) (b : UInt8) :
    ((a <<< 8) ||| b.toUInt32).toNat = a.toNat % 2 ^ 24 * 2 ^ 8 + b.toNat := by
  have hshift := toNat_shiftLeft_eight a
  rw [toNat_or_low 8 hshift (UInt8.toNat_toUInt32 b ▸ b.toNat_lt), hshift, UInt8.toNat_toUInt32]

/-- The mask of the top byte. -/
theorem toNat_and_top (a : UInt32) : (a &&& 0xFF000000).toNat = 2 ^ 24 * (a.toNat / 2 ^ 24) := by
  have hlt : a.toNat < 2 ^ 32 := a.toNat_lt
  have hmask : (0xFF000000 : UInt32).toNat = 2 ^ 24 * (2 ^ 8 - 1) := rfl
  rw [UInt32.toNat_and, hmask]
  apply Nat.eq_of_testBit_eq
  intro i
  rw [Nat.testBit_and, Nat.testBit_two_pow_mul, Nat.testBit_two_pow_mul,
    Nat.testBit_two_pow_sub_one, Nat.testBit_div_two_pow]
  by_cases hi : 24 ≤ i
  · rw [Nat.sub_add_cancel hi]
    by_cases h8 : i - 24 < 8
    · simp [hi, h8]
    · have hbit : a.toNat.testBit i = false :=
        Nat.testBit_lt_two_pow (hlt.trans_le (Nat.pow_le_pow_right (by decide) (by omega)))
      simp [hbit]
  · simp [hi]

theorem and_top_eq_iff {a b : UInt32} :
    a &&& 0xFF000000 = b &&& 0xFF000000 ↔ a.toNat / 2 ^ 24 = b.toNat / 2 ^ 24 := by
  rw [← UInt32.toNat_inj, toNat_and_top, toNat_and_top]
  omega

theorem toNat_top (a : UInt32) : (a >>> 24).toUInt8.toNat = a.toNat / 2 ^ 24 := by
  have hlt : a.toNat / 2 ^ 24 < 2 ^ 8 := by
    have := a.toNat_lt
    omega
  simpa [UInt32.toNat_shiftRight, Nat.shiftRight_eq_div_pow] using Nat.mod_eq_of_lt hlt

/-! ## Bits of a byte -/

theorem byte_shiftRight (a s : UInt8) : (a >>> s).toNat = a.toNat / 2 ^ (s.toNat % 8) := by
  rw [UInt8.toNat_shiftRight, Nat.shiftRight_eq_div_pow]

theorem byte_shiftLeft (a s : UInt8) :
    (a <<< s).toNat = a.toNat % 2 ^ (8 - s.toNat % 8) * 2 ^ (s.toNat % 8) := by
  have hpow : 2 ^ 8 = 2 ^ (8 - s.toNat % 8) * 2 ^ (s.toNat % 8) := by
    rw [← Nat.pow_add, Nat.sub_add_cancel (Nat.le_of_lt (Nat.mod_lt _ (by decide)))]
  rw [UInt8.toNat_shiftLeft, Nat.shiftLeft_eq, hpow, Nat.mul_mod_mul_right]

/-- A mask of the low bits. -/
theorem byte_and_low (a : UInt8) (k : Nat) {mask : UInt8} (hmask : mask.toNat = 2 ^ k - 1) :
    (a &&& mask).toNat = a.toNat % 2 ^ k := by
  rw [UInt8.toNat_and, hmask, Nat.and_two_pow_sub_one_eq_mod]

/-- A mask of the bits that a shift leaves changes nothing. -/
theorem byte_and_shiftRight (a : UInt8) {mask s : UInt8}
    (hmask : mask.toNat >>> (s.toNat % 8) = 2 ^ (8 - s.toNat % 8) - 1) :
    ((a &&& mask) >>> s).toNat = a.toNat / 2 ^ (s.toNat % 8) := by
  rw [UInt8.toNat_shiftRight, UInt8.toNat_and, Nat.shiftRight_and_distrib, hmask,
    Nat.and_two_pow_sub_one_eq_mod, Nat.shiftRight_eq_div_pow]
  refine Nat.mod_eq_of_lt (Nat.div_lt_of_lt_mul ?_)
  rw [← Nat.pow_add, Nat.add_sub_cancel' (Nat.le_of_lt (Nat.mod_lt _ (by decide)))]
  exact a.toNat_lt

theorem byte_or_low {a b : UInt8} {k : Nat} (n : Nat) (ha : a.toNat = k * 2 ^ n)
    (hb : b.toNat < 2 ^ n) : (a ||| b).toNat = a.toNat + b.toNat := by
  rw [UInt8.toNat_or, ha, Nat.mul_comm, Nat.two_pow_add_eq_or_of_lt hb]

/-! ## The window -/

/-- The first four bytes as a number, most significant first. -/
def window (bytes : List UInt8) : Nat :=
  (((bytes.getD 0 0).toNat * 2 ^ 8 + (bytes.getD 1 0).toNat) * 2 ^ 8 + (bytes.getD 2 0).toNat) *
    2 ^ 8 + (bytes.getD 3 0).toNat

theorem window_cons (b : UInt8) (bytes : List UInt8) :
    window (b :: bytes) = b.toNat * 2 ^ 24 + window bytes / 2 ^ 8 := by
  have h3 := (bytes.getD 3 0).toNat_lt
  simp only [window, List.getD_cons_zero, List.getD_cons_succ]
  omega

/-- Moving the window on by a byte. -/
theorem window_tail (bytes : List UInt8) :
    window bytes.tail = window bytes % 2 ^ 24 * 2 ^ 8 + (bytes.getD 4 0).toNat := by
  have h1 := (bytes.getD 1 0).toNat_lt
  have h2 := (bytes.getD 2 0).toNat_lt
  have h3 := (bytes.getD 3 0).toNat_lt
  cases bytes with
  | nil => rfl
  | cons b bytes =>
    simp only [window, List.tail_cons, List.getD_cons_zero, List.getD_cons_succ] at *
    omega

/-- The four bytes of a word. -/
def bytesOf (a : UInt32) : List UInt8 :=
  [(a >>> 24).toUInt8, (a >>> 16).toUInt8, (a >>> 8).toUInt8, a.toUInt8]

theorem window_bytesOf (a : UInt32) (rest : List UInt8) : window (bytesOf a ++ rest) = a.toNat := by
  have hlt := a.toNat_lt
  have h16 : (a >>> 16).toUInt8.toNat = a.toNat / 2 ^ 16 % 2 ^ 8 := by
    simp [UInt32.toNat_shiftRight, Nat.shiftRight_eq_div_pow]
  have h8 : (a >>> 8).toUInt8.toNat = a.toNat / 2 ^ 8 % 2 ^ 8 := by
    simp [UInt32.toNat_shiftRight, Nat.shiftRight_eq_div_pow]
  have h0 : a.toUInt8.toNat = a.toNat % 2 ^ 8 := by simp
  have h24 := toNat_top a
  simp only [window, bytesOf, List.cons_append, List.nil_append, List.getD_cons_zero,
    List.getD_cons_succ, h24, h16, h8, h0]
  omega

end CCore
