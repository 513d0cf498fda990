import DlibAndroid.Lib.Binary
import DlibAndroid.Predictor.Integers

/-!
# `float_details.h`

A float is written as two integers, and read back as `ldexp` of the one by the other. Nothing is
lost on the way but the sign of a zero, which no integer has (`convert_ofFloat`).

The way back is taken for the new format only, which is recognised by its first byte; `pack_int`
never sets the bits of the old one in it.
-/

set_option autoImplicit false

namespace DlibAndroid

open CCore

/-- `float` -/
abbrev Single : Type := Binary .single

/-- The readers' format, with floats as they are. What `in >> item` does stays open. -/
def Format.single (scan : Single → List UInt8 → Single × Option (List UInt8)) : Format Single where
  zero := .zero false
  infinity := .infinity false
  negInfinity := .infinity true
  quietNaN := .nan
  ldexp mantissa exponent := (Binary.ofInt mantissa).ldexp exponent
  scan := scan

/-! ## Taking apart -/

structure FloatDetails where
  mantissa : Int
  exponent : Int

namespace FloatDetails

/-- The loop that shifts low order bytes off which are zero. -/
def compact : Nat → FloatDetails → FloatDetails
  | 0, d => d
  | n + 1, d => if d.mantissa % 256 = 0 then compact n ⟨d.mantissa / 256, d.exponent + 8⟩ else d

def withSign (neg : Bool) (n : Nat) : Int := if neg then -n else n

/-- `convert_from_T`, for `float`: `digits` is 24. -/
def ofFloat : Single → FloatDetails
  | .infinity false => ⟨0, 32000⟩
  | .infinity true => ⟨0, 32001⟩
  | .nan => ⟨0, 32002⟩
  | .finite neg m e _ =>
    let (fraction, exp) := Binary.frexp .single m e
    compact 8 ⟨withSign neg fraction, exp - 24⟩

theorem compact_spec (n : Nat) (d : FloatDetails) :
    ∃ k ≤ n, (compact n d).mantissa * 2 ^ (8 * k) = d.mantissa ∧
      (compact n d).exponent = d.exponent + 8 * k := by
  induction n generalizing d with
  | zero => exact ⟨0, le_rfl, Int.mul_one _, (Int.add_zero _).symm⟩
  | succ n ih =>
    rw [compact]
    split
    · rename_i hzero
      obtain ⟨k, hk, hmantissa, hexponent⟩ := ih ⟨d.mantissa / 256, d.exponent + 8⟩
      refine ⟨k + 1, Nat.succ_le_succ hk, ?_, ?_⟩
      · have hpow : (2 : Int) ^ (8 * (k + 1)) = 2 ^ (8 * k) * 256 := by
          rw [Nat.mul_succ, pow_add]
          norm_num
        rw [hpow, ← mul_assoc, hmantissa]
        exact Int.ediv_mul_cancel (Int.dvd_of_emod_eq_zero hzero)
      · rw [hexponent]
        push_cast
        omega
    · exact ⟨0, Nat.zero_le _, Int.mul_one _, (Int.add_zero _).symm⟩

/-- The two integers stand for the number, and are small. -/
structure Denotes (d : FloatDetails) (neg : Bool) (m : Nat) (e : Int) (a b : Nat) : Prop where
  mantissa : d.mantissa.natAbs * 2 ^ b = m * 2 ^ a
  exponent : d.exponent = e - a + b
  nonzero : d.mantissa ≠ 0
  sign : decide (d.mantissa < 0) = neg
  lt : d.mantissa.natAbs < 2 ^ 24
  range : -172 ≤ d.exponent ∧ d.exponent ≤ 168

theorem natAbs_withSign (neg : Bool) (n : Nat) : (withSign neg n).natAbs = n := by
  cases neg <;> simp [withSign]

theorem withSign_lt_zero {neg : Bool} {n : Nat} (h : 0 < n) : withSign neg n < 0 ↔ neg = true := by
  cases neg with
  | true =>
    simp only [withSign, if_true, iff_true]
    omega
  | false =>
    simp only [withSign, Bool.false_eq_true, if_false, iff_false]
    omega

/-- What is written of a finite number other than zero. -/
theorem ofFloat_finite (neg : Bool) {m : Nat} {e : Int} (h : FloatFormat.single.Valid m e)
    (hm : m ≠ 0) : ∃ a b, (ofFloat (.finite neg m e h)).Denotes neg m e a b := by
  have hlog : m.log2 + 1 ≤ 24 := (Binary.log2_eq_of_valid h hm).1
  have hleast : -149 ≤ e := h.2.1.1
  have hgreatest : e ≤ 104 := h.2.1.2
  obtain ⟨a, ha⟩ := Nat.exists_eq_add_of_le hlog
  have hfrexp : Binary.frexp .single m e = (m * 2 ^ a, e + m.log2 + 1) := by
    have hdigits : FloatFormat.single.digits - (m.log2 + 1) = a := Nat.sub_eq_of_eq_add' ha
    rw [Binary.frexp, if_neg hm, hdigits]
  obtain ⟨k, hk, hmantissa, hexponent⟩ :=
    compact_spec 8 ⟨withSign neg (m * 2 ^ a), e + m.log2 + 1 - 24⟩
  have hpos : 0 < m * 2 ^ a := Nat.mul_pos (Nat.pos_of_ne_zero hm) (Nat.two_pow_pos a)
  have hprod : m * 2 ^ a < 2 ^ 24 := by
    rw [← Nat.log2_lt hpos.ne', Binary.log2_mul_two_pow hm]
    omega
  refine ⟨a, 8 * k, ?_⟩
  simp only [ofFloat, hfrexp]
  generalize compact 8 ⟨withSign neg (m * 2 ^ a), e + m.log2 + 1 - 24⟩ = d at hmantissa hexponent ⊢
  simp only at hmantissa hexponent
  have hpow : (0 : Int) < 2 ^ (8 * k) := by positivity
  have habs : d.mantissa.natAbs * 2 ^ (8 * k) = m * 2 ^ a := by
    rw [← natAbs_withSign neg (m * 2 ^ a), ← hmantissa, Int.natAbs_mul, Int.natAbs_pow]
    rfl
  constructor
  · exact habs
  · rw [hexponent]
    push_cast
    omega
  · rintro hzero
    rw [hzero] at habs
    simp only [Int.natAbs_zero, Nat.zero_mul] at habs
    omega
  · have hsign : d.mantissa < 0 ↔ withSign neg (m * 2 ^ a) < 0 := by
      rw [← hmantissa]
      exact ⟨fun hlt => mul_neg_of_neg_of_pos hlt hpow, fun hlt => neg_of_mul_neg_left hlt hpow.le⟩
    exact Bool.eq_iff_iff.mpr (decide_eq_true_iff.trans (hsign.trans (withSign_lt_zero hpos)))
  · exact (Nat.le_mul_of_pos_right _ (Nat.two_pow_pos _)).trans_lt (habs ▸ hprod)
  · rw [hexponent]
    omega

/-- Either number goes into the type it is written as. -/
theorem ofFloat_range (x : Single) :
    IsSigned 8 (ofFloat x).mantissa ∧ IsSigned 2 (ofFloat x).exponent := by
  match x with
  | .infinity false | .infinity true | .nan => decide
  | .finite neg 0 e h =>
    have hzero : ofFloat (.finite neg 0 e h) = ⟨0, 40⟩ := by cases neg <;> rfl
    rw [hzero]
    decide
  | .finite neg (m + 1) e h =>
    obtain ⟨a, b, hd⟩ := ofFloat_finite neg h m.succ_ne_zero
    have hlt := hd.lt
    have hrange := hd.range
    generalize ofFloat (.finite neg (m + 1) e h) = d at hlt hrange
    exact ⟨⟨by omega, by omega⟩, by omega, by omega⟩

end FloatDetails

/-! ## Putting together -/

variable {scan : Single → List UInt8 → Single × Option (List UInt8)}

/-- What is read back: a zero loses its sign. -/
def stored (x : Single) : Single := if x = .zero true then .zero false else x

/-- **`float_details`, there and back**, as its comment promises, up to the sign of a zero. -/
theorem convert_ofFloat (x : Single) : (Format.single scan).convert
    (FloatDetails.ofFloat x).mantissa (FloatDetails.ofFloat x).exponent = stored x := by
  match x with
  | .infinity false | .infinity true | .nan => rfl
  | .finite neg 0 e h =>
    obtain rfl : e = -149 := h.2.2.resolve_right (by decide)
    cases neg <;> rfl
  | .finite neg (m + 1) e h =>
    obtain ⟨a, b, hd⟩ := FloatDetails.ofFloat_finite neg h m.succ_ne_zero
    have hstored : stored (.finite neg (m + 1) e h) = .finite neg (m + 1) e h :=
      if_neg fun heq => by cases heq
    rw [hstored, Format.convert, if_pos (by have := hd.range; omega)]
    have hldexp := Binary.ldexp_ofInt hd.nonzero hd.lt h m.succ_ne_zero hd.mantissa hd.exponent
    rw [hd.sign] at hldexp
    exact hldexp

/-! ## In a stream -/

/-- `serialize_floating_point` -/
def serializeFloat (x : Single) : List UInt8 :=
  serializeInt64 (FloatDetails.ofFloat x).mantissa ++
    serializeShort (FloatDetails.ofFloat x).exponent

/-- Both zeros are written as one. -/
theorem serializeFloat_stored (x : Single) : serializeFloat (stored x) = serializeFloat x := by
  by_cases h : x = .zero true
  · rw [h]
    decide +kernel
  · rw [stored, if_neg h]

/-- The branch of `deserialize_floating_point` for the new format. -/
def deserializeNewFloat {F : Type} (format : Format F) : Load Thrown F :=
  Load.onError
    (fun item e => (item, e.append "\n   while deserializing a floating point number."))
    (Load.withLocal deserializeInt64 0 fun mantissa =>
      Load.withLocal deserializeShort 0 fun exponent _ rest =>
        (format.convert mantissa exponent, .ok rest))

theorem deserializeFloat_new {F : Type} {format : Format F} {item : F} {bytes : List UInt8}
    (h : isNewFormat bytes = true) :
    deserializeFloat format item bytes = deserializeNewFloat format item bytes := if_pos h

theorem takes_newFloat (x : Single) :
    (deserializeNewFloat (Format.single scan)).Takes (serializeFloat x) fun _ => stored x := by
  obtain ⟨hmantissa, hexponent⟩ := FloatDetails.ofFloat_range x
  have hlast : Load.Takes (E := Thrown) (fun _ rest => ((Format.single scan).convert
      (FloatDetails.ofFloat x).mantissa (FloatDetails.ofFloat x).exponent, .ok rest)) []
      fun _ => stored x :=
    ⟨fun _ _ => by rw [convert_ofFloat]; rfl, fun _ k hk => absurd hk (Nat.not_lt_zero k)⟩
  have hnumbers : (Load.withLocal deserializeInt64 0 fun mantissa =>
      Load.withLocal deserializeShort 0 fun exponent _ rest =>
        ((Format.single scan).convert mantissa exponent, .ok rest)).Takes
      (serializeInt64 (FloatDetails.ofFloat x).mantissa ++
        (serializeShort (FloatDetails.ofFloat x).exponent ++ [])) fun _ => stored x :=
    Load.Takes.withLocal (takes_packSigned (by decide) (by decide) hmantissa)
      (Load.Takes.withLocal (takes_packSigned (by decide) (by decide) hexponent) hlast)
  rw [List.append_nil] at hnumbers
  exact hnumbers.onError

/-- The first byte is a control byte. -/
theorem serializeFloat_cons (x : Single) : ∃ control bytes,
    serializeFloat x = control :: bytes ∧ ∀ rest, isNewFormat (control :: rest) = true := by
  obtain ⟨control, bytes, hpack, -, -, hformat, -⟩ :=
    packSigned_spec (show 0 < 8 by decide) le_rfl (FloatDetails.ofFloat x).mantissa
  refine ⟨control, bytes ++ serializeShort (FloatDetails.ofFloat x).exponent, ?_, fun rest => ?_⟩
  · rw [serializeFloat, serializeInt64, hpack, List.cons_append]
  · exact decide_eq_true hformat

/-- **A float, written and read.** -/
theorem takes_serializeFloat (x : Single) :
    (deserializeFloat (Format.single scan)).Takes (serializeFloat x) fun _ => stored x := by
  have htakes : (deserializeNewFloat (Format.single scan)).Takes (serializeFloat x)
      fun _ => stored x := takes_newFloat x
  obtain ⟨control, bytes, hbytes, hnew⟩ := serializeFloat_cons x
  rw [hbytes] at htakes ⊢
  constructor
  · intro item rest
    exact (deserializeFloat_new (hnew (bytes ++ rest))).trans (htakes.reads item rest)
  · intro item k hk
    cases k with
    | zero => exact ⟨_, rfl⟩
    | succ k =>
      obtain ⟨e, he⟩ := htakes.short item (k + 1) hk
      exact ⟨e, (congrArg Prod.snd (deserializeFloat_new (hnew (bytes.take k)))).trans he⟩

end DlibAndroid
