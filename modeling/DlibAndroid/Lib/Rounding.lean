import DlibAndroid.Lib.Binary
import Mathlib.Algebra.Order.Floor.Ring
import Mathlib.Data.Rat.Floor
import Mathlib.Tactic.FieldSimp
import Mathlib.Tactic.Positivity

/-!
# Arithmetic that rounds

A program that calculates with `float` and `double` is written down over the numbers of a field, and
says after every operation to which of the two types the result is rounded. How that is done is a
`Rounding`, a parameter: one definition is the program as it runs and also the program as it is
meant.

* `exact` rounds nothing. What is proved about it is about the numbers that the program stands for.
* `ieee` rounds to nearest, ties to even, in binary32 and binary64, so that a program over `ℚ`
  computes what the machine does as long as nothing gets too large for its type.
* What is proved about every rounding, or every one that keeps small integers (`Keeps`), is about
  the program as it runs (`ieee_keeps`).

Comparing, negating and taking the floor round nothing and stay what they are.
-/

set_option autoImplicit false

namespace CCore

/-- `double` -/
def FloatFormat.double : FloatFormat where
  digits := 53
  least := -1074
  greatest := 971
  digits_pos := by decide
  least_le := by decide
  greatest_nonneg := by decide

/-- To the narrower type and to the wider one. -/
structure Rounding (K : Type) where
  single : K → K
  double : K → K

namespace Rounding

variable {K : Type}

/-- Nothing is rounded. -/
def exact : Rounding K := ⟨id, id⟩

@[simp] theorem exact_single (a : K) : (exact : Rounding K).single a = a := rfl

@[simp] theorem exact_double (a : K) : (exact : Rounding K).double a = a := rfl

/-- A constant with a decimal point, where a `float` is wanted. -/
def literal (fl : Rounding K) (a : K) : K := fl.single (fl.double a)

@[simp] theorem exact_literal (a : K) : (exact : Rounding K).literal a = a := rfl

/-- Integers below `n` are not rounded. -/
structure Keeps [IntCast K] (fl : Rounding K) (n : Nat) : Prop where
  single : ∀ k : Int, k.natAbs < n → fl.single k = k
  double : ∀ k : Int, k.natAbs < n → fl.double k = k

namespace Keeps

variable [Ring K] {fl : Rounding K} {n : Nat} {a : K} {k : Int} {m : Nat}

theorem single_eq (h : fl.Keeps n) (ha : a = k) (hk : k.natAbs < n) : fl.single a = k :=
  ha ▸ h.single k hk

theorem double_eq (h : fl.Keeps n) (ha : a = k) (hk : k.natAbs < n) : fl.double a = k :=
  ha ▸ h.double k hk

theorem single_natCast (h : fl.Keeps n) (hm : m < n) : fl.single (m : K) = m := by
  simpa using h.single m (by simpa using hm)

theorem double_natCast (h : fl.Keeps n) (hm : m < n) : fl.double (m : K) = m := by
  simpa using h.double m (by simpa using hm)

theorem single_zero (h : fl.Keeps n) (hn : 0 < n) : fl.single (0 : K) = 0 := by
  simpa using h.single_natCast hn

theorem double_zero (h : fl.Keeps n) (hn : 0 < n) : fl.double (0 : K) = 0 := by
  simpa using h.double_natCast hn

theorem single_one (h : fl.Keeps n) (hn : 1 < n) : fl.single (1 : K) = 1 := by
  simpa using h.single_natCast hn

theorem double_one (h : fl.Keeps n) (hn : 1 < n) : fl.double (1 : K) = 1 := by
  simpa using h.double_natCast hn

end Keeps

end Rounding

/-! ## Rounding to nearest -/

namespace Binary

variable {B : FloatFormat}

/-- The number of the format nearest to a rational one, ties to even. -/
def nearest (B : FloatFormat) (q : ℚ) : Binary B :=
  -- two digits more than there is room for, and one that says whether that is all
  let k := B.digits + 2 + q.den.log2
  let m := q.num.natAbs * 2 ^ k / q.den
  let rest := q.num.natAbs * 2 ^ k % q.den
  round (q.num < 0) (2 * m + if rest = 0 then 0 else 1) (-(k + 1 : Nat))

/-- The rational number, if it is one. -/
def toRat : Binary B → Option ℚ
  | .finite neg m e _ =>
    let size : ℚ := if 0 ≤ e then m * 2 ^ e.toNat else m / 2 ^ (-e).toNat
    some (if neg then -size else size)
  | _ => none

/-- What is too large is left as it is. -/
def roundRat (B : FloatFormat) (q : ℚ) : ℚ := (toRat (nearest B q)).getD q

/-- An integer with no more digits than the format has. -/
theorem roundRat_intCast {n : Int} (hlt : n.natAbs < 2 ^ B.digits) : roundRat B n = n := by
  by_cases hn : n = 0
  · subst hn
    have hzero : nearest B ((0 : Int) : ℚ) = zero false := by
      simp [nearest, round]
    rw [roundRat, hzero]
    simp [zero, toRat]
  have hn0 : n.natAbs ≠ 0 := Int.natAbs_ne_zero.mpr hn
  obtain ⟨j, hj⟩ := Nat.exists_eq_add_of_le ((Nat.log2_lt hn0).mpr hlt)
  have hprod : n.natAbs * 2 ^ j ≠ 0 := mul_ne_zero hn0 (Nat.two_pow_pos j).ne'
  have hlog := log2_mul_two_pow hn0 j
  -- the integer, with all its digits
  have hvalid : B.Valid (n.natAbs * 2 ^ j) (-j) := by
    have hleast := B.least_le
    have hgreatest := B.greatest_nonneg
    refine ⟨?_, ⟨by omega, by omega⟩, .inr ?_⟩
    · rw [← Nat.log2_lt hprod]
      omega
    · rw [← Nat.le_log2 hprod]
      omega
  have hnearest : nearest B (n : ℚ) = .finite (n < 0) (n.natAbs * 2 ^ j) (-j) hvalid := by
    have hlog1 : Nat.log2 1 = 0 := by decide
    simp only [nearest, Rat.num_intCast, Rat.den_intCast, hlog1, Nat.add_zero, Nat.div_one,
      Nat.mod_one, if_true]
    exact round_exact (a := B.digits + 2 + 1) (b := j) hvalid hprod (by ring) (by push_cast; ring)
  have hsize : ((n.natAbs * 2 ^ j : Nat) : ℚ) / 2 ^ j = n.natAbs := by
    push_cast
    field_simp
  have habs : (if n < 0 then -(n.natAbs : ℚ) else n.natAbs) = n := by
    split
    · rw [← Int.cast_natCast, Int.ofNat_natAbs_of_nonpos (by omega)]
      push_cast
      ring
    · rw [← Int.cast_natCast, Int.natAbs_of_nonneg (by omega)]
  rw [roundRat, hnearest, toRat]
  by_cases hj0 : j = 0
  · subst hj0
    simpa using habs
  · have hneg : ¬ (0 : Int) ≤ -j := by omega
    simp only [if_neg hneg, neg_neg, Int.toNat_natCast, hsize, decide_eq_true_eq,
      Option.getD_some]
    exact habs

end Binary

namespace Rounding

/-- binary32 and binary64 -/
def ieee : Rounding ℚ := ⟨Binary.roundRat .single, Binary.roundRat .double⟩

/-- **Small integers are floats.** -/
theorem ieee_keeps : ieee.Keeps (2 ^ 24) where
  single _ h := Binary.roundRat_intCast h
  double _ h := Binary.roundRat_intCast (h.trans (by decide))

end Rounding

/-! ## Conversions -/

/-- `(int)val` -/
def truncate {K : Type} [Ring K] [LinearOrder K] [FloorRing K] (val : K) : Int :=
  if 0 ≤ val then ⌊val⌋ else ⌈val⌉

theorem truncate_of_nonneg {K : Type} [Ring K] [LinearOrder K] [FloorRing K] {val : K}
    (h : 0 ≤ val) : truncate val = ⌊val⌋ := if_pos h

end CCore
