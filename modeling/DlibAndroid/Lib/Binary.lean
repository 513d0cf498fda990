import Mathlib.Tactic.Linarith
import Mathlib.Algebra.Order.Ring.Int

/-!
# Binary floating-point numbers

`Binary B` is the set of values of a format `B`: the finite ones as sign, mantissa and exponent,
written in the one valid way there is, the two infinities, and one NaN. Zero has a sign.

`round` is to nearest, ties to even, with gradual underflow, and what is too large is infinite.
`round_exact` is the only thing said about it here: a number of the format is rounded to itself,
however it is written. So `ldexp` gives back what `frexp` has taken apart.
-/

set_option autoImplicit false

namespace CCore

/-- So many binary digits, and the exponents the last of them can have. -/
structure FloatFormat where
  digits : Nat
  least : Int
  greatest : Int
  digits_pos : 0 < digits
  least_le : least + digits ≤ 1
  greatest_nonneg : 0 ≤ greatest

/-- `float` -/
def FloatFormat.single : FloatFormat where
  digits := 24
  least := -149
  greatest := 104
  digits_pos := by decide
  least_le := by decide
  greatest_nonneg := by decide

/-- All digits are used, unless the exponent is the least. -/
def FloatFormat.Valid (B : FloatFormat) (mantissa : Nat) (exponent : Int) : Prop :=
  mantissa < 2 ^ B.digits ∧ (B.least ≤ exponent ∧ exponent ≤ B.greatest) ∧
    (exponent = B.least ∨ 2 ^ (B.digits - 1) ≤ mantissa)

instance (B : FloatFormat) (mantissa : Nat) (exponent : Int) :
    Decidable (B.Valid mantissa exponent) := inferInstanceAs (Decidable (_ ∧ _ ∧ _))

/-- The finite value is `mantissa * 2 ^ exponent`, with its sign. -/
inductive Binary (B : FloatFormat) where
  | finite (neg : Bool) (mantissa : Nat) (exponent : Int) (valid : B.Valid mantissa exponent)
  | infinity (neg : Bool)
  | nan
  deriving DecidableEq

namespace Binary

variable {B : FloatFormat} {neg : Bool} {m m₀ a b : Nat} {e e₀ : Int}

theorem valid_zero (B : FloatFormat) : B.Valid 0 B.least := by
  have := B.least_le
  have := B.greatest_nonneg
  have := B.digits_pos
  exact ⟨Nat.two_pow_pos _, ⟨le_rfl, by omega⟩, .inl rfl⟩

def zero (neg : Bool) : Binary B := .finite neg 0 B.least (valid_zero B)

/-! ## Rounding -/

/-- `m / 2 ^ k`, to nearest, ties to even. -/
def roundEven (m k : Nat) : Nat :=
  let q := m / 2 ^ k
  let r := m % 2 ^ k
  if 2 ^ k < 2 * r ∨ 2 ^ k = 2 * r ∧ q % 2 = 1 then q + 1 else q

/-- What is not valid is too large. -/
def ofParts (neg : Bool) (m : Nat) (e : Int) : Binary B :=
  if h : B.Valid m e then .finite neg m e h else .infinity neg

/-- The number of the format nearest to `m * 2 ^ e`. -/
def round (neg : Bool) (m : Nat) (e : Int) : Binary B :=
  if m = 0 then zero neg
  else
    let e' := max (e + m.log2 + 1 - B.digits) B.least
    let m' := if e' ≤ e then m * 2 ^ (e - e').toNat else roundEven m (e' - e).toNat
    if m' = 2 ^ B.digits then ofParts neg (2 ^ (B.digits - 1)) (e' + 1) else ofParts neg m' e'

/-- `(T)n` -/
def ofInt (n : Int) : Binary B := round (n < 0) n.natAbs 0

/-- `std::ldexp` -/
def ldexp : Binary B → Int → Binary B
  | .finite neg m e₀ _, e => round neg m (e₀ + e)
  | x, _ => x

/-- `std::frexp` of `m * 2 ^ e`, the fraction scaled by `2 ^ digits`. It is an integer then. -/
def frexp (B : FloatFormat) (m : Nat) (e : Int) : Nat × Int :=
  if m = 0 then (0, 0) else (m * 2 ^ (B.digits - (m.log2 + 1)), e + m.log2 + 1)

/-! ## Exact results -/

theorem log2_mul_two_pow (h : m ≠ 0) (k : Nat) : (m * 2 ^ k).log2 = m.log2 + k := by
  have hpos : m * 2 ^ k ≠ 0 := mul_ne_zero h (Nat.two_pow_pos k).ne'
  refine (Nat.log2_eq_iff hpos).mpr ⟨?_, ?_⟩
  · rw [pow_add]
    exact Nat.mul_le_mul_right _ (Nat.log2_self_le h)
  · have hlt : m < 2 ^ (m.log2 + 1) := Nat.lt_log2_self
    calc m * 2 ^ k < 2 ^ (m.log2 + 1) * 2 ^ k := Nat.mul_lt_mul_of_pos_right hlt (Nat.two_pow_pos k)
      _ = 2 ^ (m.log2 + k + 1) := by rw [← pow_add]; congr 1; omega

theorem log2_eq_of_valid (h : B.Valid m e) (hm : m ≠ 0) :
    m.log2 + 1 ≤ B.digits ∧ (e = B.least ∨ m.log2 + 1 = B.digits) := by
  have hdigits := B.digits_pos
  have hlt : m.log2 < B.digits := (Nat.log2_lt hm).mpr h.1
  refine ⟨hlt, h.2.2.imp_right fun hle => ?_⟩
  have := (Nat.le_log2 hm).mpr hle
  omega

theorem roundEven_mul (m k : Nat) : roundEven (m * 2 ^ k) k = m := by
  have hq : m * 2 ^ k / 2 ^ k = m := Nat.mul_div_cancel m (Nat.two_pow_pos k)
  have hr : m * 2 ^ k % 2 ^ k = 0 := Nat.mul_mod_left m (2 ^ k)
  have hpos := Nat.two_pow_pos k
  rw [roundEven, hq, hr]
  exact if_neg (by omega)

/-- **A number of the format is rounded to itself.** -/
theorem round_exact (h : B.Valid m₀ e₀) (hm₀ : m₀ ≠ 0) (hm : m * 2 ^ b = m₀ * 2 ^ a)
    (he : e = e₀ - a + b) : round neg m e = .finite neg m₀ e₀ h := by
  have hm0 : m ≠ 0 := by
    rintro rfl
    rw [Nat.zero_mul] at hm
    exact mul_ne_zero hm₀ (Nat.two_pow_pos a).ne' hm.symm
  have hlog : m.log2 + b = m₀.log2 + a := by
    rw [← log2_mul_two_pow hm0, hm, log2_mul_two_pow hm₀]
  obtain ⟨hle, hor⟩ := log2_eq_of_valid h hm₀
  have hlt := h.1
  have hleast := h.2.1.1
  have he' : max (e + m.log2 + 1 - B.digits) B.least = e₀ := by
    rcases hor with hor | hor <;> omega
  have hm' : (if e₀ ≤ e then m * 2 ^ (e - e₀).toNat else roundEven m (e₀ - e).toNat) = m₀ := by
    split
    · have hk : (e - e₀).toNat + a = b := by omega
      rw [← hk, pow_add, ← Nat.mul_assoc] at hm
      exact Nat.eq_of_mul_eq_mul_right (Nat.two_pow_pos a) hm
    · have hk : (e₀ - e).toNat + b = a := by omega
      rw [← hk, pow_add, ← Nat.mul_assoc] at hm
      rw [Nat.eq_of_mul_eq_mul_right (Nat.two_pow_pos b) hm, roundEven_mul]
  have hparts : ofParts neg m₀ e₀ = .finite neg m₀ e₀ h := dif_pos h
  rw [round, if_neg hm0]
  simp only [he', hm', if_neg hlt.ne, hparts]

/-- **`ldexp` of an integer** with no more digits than the format has. -/
theorem ldexp_ofInt {n : Int} (hn : n ≠ 0) (hlt : n.natAbs < 2 ^ B.digits) (h : B.Valid m₀ e₀)
    (hm₀ : m₀ ≠ 0) (hm : n.natAbs * 2 ^ b = m₀ * 2 ^ a) (he : e = e₀ - a + b) :
    ldexp (ofInt n) e = .finite (n < 0) m₀ e₀ h := by
  have hn0 : n.natAbs ≠ 0 := Int.natAbs_ne_zero.mpr hn
  obtain ⟨k, hk⟩ := Nat.exists_eq_add_of_le ((Nat.log2_lt hn0).mpr hlt)
  have hprod : n.natAbs * 2 ^ k ≠ 0 := mul_ne_zero hn0 (Nat.two_pow_pos k).ne'
  have hlog := log2_mul_two_pow hn0 k
  -- the integer, with all its digits
  have hvalid : B.Valid (n.natAbs * 2 ^ k) (-k) := by
    have hleast := B.least_le
    have hgreatest := B.greatest_nonneg
    refine ⟨?_, ⟨by omega, by omega⟩, .inr ?_⟩
    · rw [← Nat.log2_lt hprod]
      omega
    · rw [← Nat.le_log2 hprod]
      omega
  have hint : (ofInt n : Binary B) = .finite (n < 0) (n.natAbs * 2 ^ k) (-k) hvalid :=
    round_exact (a := 0) hvalid hprod (Nat.mul_one _).symm (by omega)
  rw [hint, ldexp]
  refine round_exact (a := a + k) (b := b) h hm₀ ?_ (by omega)
  rw [Nat.mul_right_comm, hm, Nat.mul_assoc, ← pow_add]

end Binary

end CCore
