import DlibAndroid.Lib.Interval
import DlibAndroid.Lib.Loop
import DlibAndroid.Lib.Word

/-!
# The range coder

`entropy_encoder_kernel_2` and `entropy_decoder_kernel_2`. The detector's filters are in the source
as text, and this coder is at the bottom of what reads them. A symbol is a sub-interval of
`[low, high]`; both sides narrow the interval to it in the same way, and whenever the top bytes of
the two ends agree, that byte is settled: the encoder writes it, the decoder moves its window on.

An interval that has become small without settling a byte is pinched to a part of itself, so that
it does. The ends are kept from 0, from each other and from wrapping by `Range.Ready`, which every
symbol a caller may code leads back to (`Range.narrow_spec`, `renorm_ready`).

`serves_encoded` is the round trip, for any sequence of symbols and whatever follows in the
stream.
-/

set_option autoImplicit false

namespace DlibAndroid.Codec

open CCore

/-! ## The interval -/

/-- `low` and `high` of either class. Both ends belong to the interval. -/
structure Range where
  low : UInt32
  high : UInt32
  deriving DecidableEq

namespace Range

/-- `initial_low` and `initial_high` -/
def initial : Range := ⟨0x00000001, 0xFFFFFFFF⟩

/-- `high = low + r*high_count-1; low = low + r*low_count;` -/
def narrow (s : Range) (r lowCount highCount : UInt32) : Range :=
  ⟨s.low + r * lowCount, s.low + r * highCount - 1⟩

/-- `(high&0xFF000000) != (low&0xFF000000)` -/
def Parted (s : Range) : Prop := s.high &&& 0xFF000000 ≠ s.low &&& 0xFF000000

instance (s : Range) : Decidable s.Parted := inferInstanceAs (Decidable (_ ≠ _))

/-- The two ends forced together. -/
def pinch (s : Range) : Range :=
  let middle := (s.high >>> 1) + (s.low >>> 1)
  if s.high - s.low > 0x1000 then ⟨middle - 0xFF, middle + 0xFF⟩ else ⟨middle, middle⟩

/-- The top byte rolled off. `low` is never zero. -/
def roll (s : Range) : Range :=
  let low := s.low <<< 8
  ⟨if low = 0 then 1 else low, (s.high <<< 8) ||| 0xFF⟩

/-- `(high-low+1)/total` -/
def unit (s : Range) (total : UInt32) : Exec UInt32 :=
  if total = 0 then .error .divByZero else .ok ((s.high - s.low + 1) / total)

end Range

/-! ## The two classes -/

/-- `entropy_encoder_kernel_2`, and what it has written. -/
structure EntropyEncoder where
  range : Range
  out : List UInt8

/-- `entropy_decoder_kernel_2`, and what it has not read. -/
structure EntropyDecoder where
  range : Range
  target : UInt32
  r : UInt32
  input : List UInt8

/-- How often either loop goes round at most, see `renorm_ready`. -/
def maxRounds : Nat := 7

namespace EntropyEncoder

/-- `set_stream` -/
def setStream (out : List UInt8) : EntropyEncoder := ⟨.initial, out⟩

/-- Once round the loop of `encode`. -/
def round (e : EntropyEncoder) : Option EntropyEncoder :=
  if e.range.Parted then
    -- ends so close on either side of a border might never come to share a byte
    if e.range.high - e.range.low < 0x10000 then some { e with range := e.range.pinch } else none
  else some ⟨e.range.roll, e.out ++ [(e.range.low >>> 24).toUInt8]⟩

def encode (lowCount highCount total : UInt32) (e : EntropyEncoder) : Exec EntropyEncoder := do
  let r ← e.range.unit total
  pure (rounds round maxRounds { e with range := e.range.narrow r lowCount highCount })

def flush (e : EntropyEncoder) : EntropyEncoder := ⟨.initial, e.out ++ bytesOf e.range.low⟩

end EntropyEncoder

namespace EntropyDecoder

/-- `set_stream`. The first byte is used without asking whether there was one. -/
def setStream (input : List UInt8) : Exec EntropyDecoder :=
  match input with
  | [] => .error .uninitialised
  | ch :: rest =>
    let target : UInt32 := ch.toUInt32
    let target := (target <<< 8) + (rest.getD 0 0).toUInt32
    let target := (target <<< 8) + (rest.getD 1 0).toUInt32
    let target := (target <<< 8) + (rest.getD 2 0).toUInt32
    .ok ⟨.initial, target, 0, rest.drop 3⟩

/-- Once round the loop of `decode`. Past the end of the stream there are zeros. -/
def round (d : EntropyDecoder) : Option EntropyDecoder :=
  if d.range.Parted then
    if d.range.high - d.range.low < 0x10000 then some { d with range := d.range.pinch } else none
  else some { d with
    range := d.range.roll
    target := (d.target <<< 8) ||| (d.input.headD 0).toUInt32
    input := d.input.tail }

def decode (lowCount highCount : UInt32) (d : EntropyDecoder) : EntropyDecoder :=
  rounds round maxRounds { d with range := d.range.narrow d.r lowCount highCount, r := 0 }

def getTarget (total : UInt32) (d : EntropyDecoder) : Exec (UInt32 × EntropyDecoder) := do
  let r ← d.range.unit total
  -- more is asked for than the interval has numbers
  if r = 0 then .error .divByZero
  else
    let temp := (d.target - d.range.low) / r
    pure (if temp < total then temp else total - 1, { d with r := r })

end EntropyDecoder

/-! ## The interval in numbers -/

namespace Range

variable {s : Range} {v : Nat}

/-- The number lies in the interval. -/
def Contains (s : Range) (v : Nat) : Prop := s.low.toNat ≤ v ∧ v ≤ s.high.toNat

/-- `high-low` -/
def width (s : Range) : Nat := s.high.toNat - s.low.toNat

/-- An interval, and not one that starts at 0. -/
structure Valid (s : Range) : Prop where
  low_pos : 1 ≤ s.low.toNat
  le : s.low.toNat ≤ s.high.toNat

/-- What `break` is left with: room for every `total` a caller may use. -/
structure Ready (s : Range) : Prop extends s.Valid where
  wide : 65536 ≤ s.width

theorem initial_ready : initial.Ready := ⟨⟨by decide, by decide⟩, by decide⟩

theorem parted_iff : s.Parted ↔ s.high.toNat / 2 ^ 24 ≠ s.low.toNat / 2 ^ 24 :=
  not_congr and_top_eq_iff

theorem toNat_width (h : s.Valid) : (s.high - s.low).toNat = s.width :=
  UInt32.toNat_sub_of_le _ _ (UInt32.le_iff_toNat_le.mpr h.le)

/-! ### Pinching -/

/-- Two ends with different top bytes are away from 0. -/
theorem Valid.top_le (h : s.Valid) (hp : s.Parted) : 2 ^ 24 ≤ s.high.toNat := by
  have hle := h.le
  rw [parted_iff] at hp
  omega

theorem toNat_middle (s : Range) :
    ((s.high >>> 1) + (s.low >>> 1)).toNat = s.high.toNat / 2 + s.low.toNat / 2 := by
  have hhigh := s.high.toNat_lt
  have hlow := s.low.toNat_lt
  rw [UInt32.toNat_add, toNat_shiftRight_one, toNat_shiftRight_one, Nat.mod_eq_of_lt (by omega)]

theorem pinch_of_wide (h : s.Valid) (hp : s.Parted) (hw : 4096 < s.width) :
    s.pinch.low.toNat = s.high.toNat / 2 + s.low.toNat / 2 - 255 ∧
      s.pinch.high.toNat = s.high.toNat / 2 + s.low.toNat / 2 + 255 := by
  have htop := h.top_le hp
  have hlt := s.high.toNat_lt
  have hmiddle := toNat_middle s
  have hcond : s.high - s.low > 0x1000 := by
    rw [gt_iff_lt, UInt32.lt_iff_toNat_lt, toNat_width h]
    exact hw
  have h255 : (0xFF : UInt32).toNat = 255 := rfl
  unfold width at hw
  rw [pinch, if_pos hcond]
  constructor
  · rw [UInt32.toNat_sub_of_le _ _ (by rw [UInt32.le_iff_toNat_le, hmiddle, h255]; omega), hmiddle,
      h255]
  · rw [UInt32.toNat_add, hmiddle, h255, Nat.mod_eq_of_lt (by omega)]

theorem pinch_of_narrow (h : s.Valid) (hw : s.width ≤ 4096) :
    s.pinch.low.toNat = s.high.toNat / 2 + s.low.toNat / 2 ∧
      s.pinch.high.toNat = s.high.toNat / 2 + s.low.toNat / 2 := by
  have hcond : ¬ s.high - s.low > 0x1000 := by
    rw [gt_iff_lt, UInt32.lt_iff_toNat_lt, toNat_width h]
    exact not_lt.mpr hw
  rw [pinch, if_neg hcond]
  exact ⟨toNat_middle s, toNat_middle s⟩

/-- What is left of the interval lies in it. -/
theorem pinch_spec (h : s.Valid) (hp : s.Parted) :
    s.pinch.Valid ∧ (∀ v, s.pinch.Contains v → s.Contains v) ∧
      s.pinch.width = if 4096 < s.width then 510 else 0 := by
  have htop := h.top_le hp
  have hle := h.le
  rw [parted_iff] at hp
  by_cases hw : 4096 < s.width
  · obtain ⟨hlow, hhigh⟩ := pinch_of_wide h (parted_iff.mpr hp) hw
    rw [if_pos hw]
    unfold width at hw
    refine ⟨⟨by omega, by omega⟩, fun v ⟨hv, hv'⟩ => ⟨by omega, by omega⟩, ?_⟩
    rw [width, hlow, hhigh]
    omega
  · obtain ⟨hlow, hhigh⟩ := pinch_of_narrow h (not_lt.mp hw)
    rw [if_neg hw]
    refine ⟨⟨by omega, by omega⟩, fun v ⟨hv, hv'⟩ => ⟨by omega, by omega⟩, ?_⟩
    rw [width, hlow, hhigh]
    exact Nat.sub_self _

/-! ### Rolling -/

theorem roll_high (s : Range) : s.roll.high.toNat = s.high.toNat % 2 ^ 24 * 2 ^ 8 + 255 := by
  have hshift := toNat_shiftLeft_eight s.high
  rw [roll, toNat_or_low 8 hshift (by decide), hshift]
  rfl

theorem roll_low (s : Range) : s.roll.low.toNat =
    if s.low.toNat % 2 ^ 24 = 0 then 1 else s.low.toNat % 2 ^ 24 * 2 ^ 8 := by
  have hshift := toNat_shiftLeft_eight s.low
  have hzero : s.low <<< 8 = 0 ↔ s.low.toNat % 2 ^ 24 = 0 := by
    rw [← UInt32.toNat_inj, hshift]
    exact ⟨fun h0 => by simpa using h0, fun h0 => by rw [h0]; rfl⟩
  simp only [roll, hzero]
  split
  · rfl
  · exact hshift

/-- A number of the new interval, behind the byte that was settled, is a number of the old one. -/
theorem roll_spec (h : s.Valid) (hp : ¬ s.Parted) :
    s.roll.Valid ∧
      (∀ v, s.roll.Contains v → s.Contains (s.low.toNat / 2 ^ 24 * 2 ^ 24 + v / 2 ^ 8)) ∧
      256 * s.width + 254 ≤ s.roll.width := by
  have hle := h.le
  have hpos := h.low_pos
  have hhigh := roll_high s
  have hlow := roll_low s
  rw [parted_iff, not_not] at hp
  unfold Contains width
  split at hlow
  · refine ⟨⟨by omega, by omega⟩, fun v ⟨hv, hv'⟩ => ⟨by omega, by omega⟩, by omega⟩
  · refine ⟨⟨by omega, by omega⟩, fun v ⟨hv, hv'⟩ => ⟨by omega, by omega⟩, by omega⟩

/-! ### Round and round -/

/-- How many rounds are left. Between rolls the number of leading bytes the two ends share goes down
by one, so ends that agree in all but the last of them are far apart once they part. Only ends that
differ as far up as the second byte may part too close to each other, and then they are pinched
once or twice and rolled to the last byte. -/
def rank (s : Range) : Nat :=
  if s.high.toNat / 2 ^ 24 ≠ s.low.toNat / 2 ^ 24 then
    if 65536 ≤ s.width then 0 else if 4096 < s.width then 6 else 5
  else if s.high.toNat / 2 ^ 16 ≠ s.low.toNat / 2 ^ 16 then if 256 ≤ s.width then 1 else 7
  else if s.high.toNat / 2 ^ 8 ≠ s.low.toNat / 2 ^ 8 then 2
  else if s.high.toNat ≠ s.low.toNat then 3 else 4

theorem rank_le (s : Range) : s.rank ≤ maxRounds := by
  unfold rank maxRounds
  split_ifs <;> omega

theorem rank_roll (h : s.Valid) (hp : ¬ s.Parted) : s.roll.rank < s.rank := by
  have hle := h.le
  have hhigh := roll_high s
  have hlow := roll_low s
  have hlt := s.high.toNat_lt
  rw [parted_iff, not_not] at hp
  have hroll : s.low.toNat % 2 ^ 24 * 2 ^ 8 ≤ s.roll.low.toNat ∧
      s.roll.low.toNat ≤ s.low.toNat % 2 ^ 24 * 2 ^ 8 + 1 := by
    split at hlow <;> omega
  have hrank : s.rank = if s.high.toNat / 2 ^ 16 ≠ s.low.toNat / 2 ^ 16 then
      if 256 ≤ s.high.toNat - s.low.toNat then 1 else 7
    else if s.high.toNat / 2 ^ 8 ≠ s.low.toNat / 2 ^ 8 then 2
    else if s.high.toNat ≠ s.low.toNat then 3 else 4 := by
    rw [rank, if_neg (not_not.mpr hp), width]
  rw [hrank]
  unfold rank width
  split_ifs <;> omega

theorem rank_pinch (h : s.Valid) (hp : s.Parted) (hw : s.width < 65536) :
    s.pinch.rank < s.rank := by
  obtain ⟨hvalid, -, hwidth⟩ := pinch_spec h hp
  have hle := hvalid.le
  rw [parted_iff] at hp
  have hrank : s.rank = if 4096 < s.width then 6 else 5 := by
    rw [rank, if_pos hp, if_neg (not_le.mpr hw)]
  rw [hrank]
  unfold rank
  split at hwidth
  · rename_i hwide
    rw [if_pos hwide, hwidth]
    unfold width at hwidth
    split_ifs <;> omega
  · rename_i hnarrow
    rw [if_neg hnarrow, hwidth]
    unfold width at hwidth
    split_ifs <;> omega

/-! ### A symbol's part -/

variable {slot : Slot} {r : UInt32}

theorem unit_eq_ok (h : s.Ready) (hslot : slot.Ok) :
    ∃ r, s.unit (.ofNat slot.total) = .ok r ∧ r.toNat = (s.width + 1) / slot.total := by
  have hlt := hslot.total_lt
  have htotal : (UInt32.ofNat slot.total).toNat = slot.total :=
    UInt32.toNat_ofNat_of_lt' (show slot.total < 2 ^ 32 by omega)
  have hne : UInt32.ofNat slot.total ≠ 0 := by
    intro h0
    rw [h0] at htotal
    exact hslot.total_pos.ne htotal
  have hw : s.width + 1 < 2 ^ 32 := by
    have := s.high.toNat_lt
    have := h.low_pos
    unfold width
    omega
  refine ⟨(s.high - s.low + 1) / .ofNat slot.total, by rw [unit, if_neg hne], ?_⟩
  rw [UInt32.toNat_div, UInt32.toNat_add, toNat_width h.toValid, htotal]
  exact congrArg (· / slot.total) (Nat.mod_eq_of_lt hw)

/-- The part of the interval a slot has is an interval, and its numbers are those that
`get_target` finds in the slot. -/
theorem narrow_spec (h : s.Ready) (hslot : slot.Ok)
    (hr : r.toNat = (s.width + 1) / slot.total) :
    1 ≤ r.toNat ∧ (s.narrow r (.ofNat slot.low) (.ofNat slot.high)).Valid ∧
      ∀ v, (s.narrow r (.ofNat slot.low) (.ofNat slot.high)).Contains v →
        s.Contains v ∧ slot.low ≤ (v - s.low.toNat) / r.toNat ∧
          (v - s.low.toNat) / r.toNat < slot.high := by
  have hlow := h.low_pos
  have hle := h.le
  have hhigh := s.high.toNat_lt
  have hlt := hslot.low_lt
  have hhigh_le := hslot.high_le
  have htotal := hslot.total_lt
  have hone : 1 ≤ r.toNat := by
    have := h.wide
    rw [hr, Nat.le_div_iff_mul_le hslot.total_pos]
    omega
  have hcut : r.toNat * slot.total ≤ s.width + 1 := hr ▸ Nat.div_mul_le_self _ _
  have habove : r.toNat * slot.high ≤ r.toNat * slot.total := Nat.mul_le_mul_left _ hhigh_le
  have hbelow : r.toNat * slot.low + r.toNat ≤ r.toNat * slot.high := by
    rw [← Nat.mul_succ]
    exact Nat.mul_le_mul_left _ hlt
  have hnum : ∀ n, n ≤ slot.total → (UInt32.ofNat n).toNat = n :=
    fun n hn => UInt32.toNat_ofNat_of_lt' (show n < 2 ^ 32 by omega)
  unfold width at hcut
  have hbottom : (s.narrow r (.ofNat slot.low) (.ofNat slot.high)).low.toNat =
      s.low.toNat + r.toNat * slot.low := by
    rw [narrow, UInt32.toNat_add, UInt32.toNat_mul, hnum slot.low (by omega),
      Nat.mod_eq_of_lt (show r.toNat * slot.low < 2 ^ 32 by omega), Nat.mod_eq_of_lt (by omega)]
  have htop : (s.narrow r (.ofNat slot.low) (.ofNat slot.high)).high.toNat =
      s.low.toNat + r.toNat * slot.high - 1 := by
    have h1 : (1 : UInt32).toNat = 1 := rfl
    rw [narrow, UInt32.toNat_sub, UInt32.toNat_add, UInt32.toNat_mul, hnum slot.high (by omega),
      Nat.mod_eq_of_lt (show r.toNat * slot.high < 2 ^ 32 by omega), h1]
    omega
  refine ⟨hone, ⟨by omega, by omega⟩, ?_⟩
  rintro v ⟨hv, hv'⟩
  rw [hbottom] at hv
  rw [htop] at hv'
  refine ⟨⟨by omega, by omega⟩, ?_, ?_⟩
  · rw [Nat.le_div_iff_mul_le hone, Nat.mul_comm]
    omega
  · rw [Nat.div_lt_iff_lt_mul hone, Nat.mul_comm]
    omega

end Range

/-! ## In step -/

/-- The decoder stands in front of these bytes, and has the first four of them in `target`. -/
structure EntropyDecoder.Reads (d : EntropyDecoder) (bytes : List UInt8) : Prop where
  target : d.target.toNat = window bytes
  input : d.input = bytes.drop 4

/-- The encoder comes from the one state to the other and writes `bytes`. A number of the interval
it comes to is, behind these bytes, a number of the interval it comes from; and a decoder with the
same interval that stands in front of these bytes has read them when it has come as far. -/
structure Sends (go : EntropyDecoder → EntropyDecoder) (e e' : EntropyEncoder)
    (bytes : List UInt8) : Prop where
  out : e'.out = e.out ++ bytes
  contains : ∀ rest, e'.range.Contains (window rest) → e.range.Contains (window (bytes ++ rest))
  follows : ∀ (d : EntropyDecoder) (rest : List UInt8), d.range = e.range →
    d.Reads (bytes ++ rest) → (go d).range = e'.range ∧ (go d).Reads rest

section Rounds

variable {e e' : EntropyEncoder} {d : EntropyDecoder} {bytes rest : List UInt8}

/-- Both loops are left on the same intervals. -/
theorem round_none (hrange : d.range = e.range) (h : e.round = none) : d.round = none := by
  unfold EntropyEncoder.round at h
  rw [EntropyDecoder.round, hrange]
  split_ifs at h ⊢
  rfl

/-- Once round, on either side. -/
def EntropyDecoder.advance (d : EntropyDecoder) : EntropyDecoder := d.round.getD d

theorem round_pinch (h : e.range.Valid) (hp : e.range.Parted) (hw : e.range.width < 65536) :
    e.round = some { e with range := e.range.pinch } ∧
      (d.range = e.range → d.round = some { d with range := d.range.pinch }) := by
  have hcond : e.range.high - e.range.low < 0x10000 := by
    rw [UInt32.lt_iff_toNat_lt, Range.toNat_width h]
    exact hw
  refine ⟨by rw [EntropyEncoder.round, if_pos hp, if_pos hcond], fun hrange => ?_⟩
  rw [← hrange] at hp hcond
  rw [EntropyDecoder.round, if_pos hp, if_pos hcond]

/-- A decoder that has rolled stands one byte further. -/
theorem reads_roll {b : UInt8} (h : d.Reads (b :: rest)) (range : Range) :
    EntropyDecoder.Reads ⟨range, (d.target <<< 8) ||| (d.input.headD 0).toUInt32, d.r,
      d.input.tail⟩ rest := by
  have hhead : d.input.headD 0 = (b :: rest).getD 4 0 := by
    rw [h.input]
    simp [List.headD_eq_head?_getD, List.head?_drop]
  constructor
  · change ((d.target <<< 8) ||| (d.input.headD 0).toUInt32).toNat = window (b :: rest).tail
    rw [window_tail, ← h.target, toNat_push, hhead]
  · change d.input.tail = rest.drop 4
    rw [h.input, List.tail_drop]
    rfl

/-- One round of the encoder, and what it is to the decoder. -/
theorem round_sends (h : e.range.Valid) (hround : e.round = some e') :
    e'.range.Valid ∧ e'.range.rank < e.range.rank ∧
      ∃ bytes, Sends EntropyDecoder.advance e e' bytes ∧
        ∀ d : EntropyDecoder, d.range = e.range → d.round = some d.advance := by
  by_cases hp : e.range.Parted
  · by_cases hw : e.range.width < 65536
    · have hpinch := fun d => round_pinch (d := d) h hp hw
      obtain ⟨hvalid, hin, -⟩ := Range.pinch_spec h hp
      obtain rfl := Option.some.inj (hround.symm.trans (hpinch ⟨e.range, 0, 0, []⟩).1)
      have hadvance : ∀ d : EntropyDecoder, d.range = e.range →
          d.advance = { d with range := d.range.pinch } := fun d hrange => by
        rw [EntropyDecoder.advance, (hpinch d).2 hrange, Option.getD_some]
      refine ⟨hvalid, Range.rank_pinch h hp hw, [], ⟨(List.append_nil _).symm, ?_, ?_⟩, ?_⟩
      · exact fun rest => hin _
      · intro d rest hrange hreads
        rw [hadvance d hrange]
        exact ⟨congrArg Range.pinch hrange, hreads.target, hreads.input⟩
      · intro d hrange
        rw [hadvance d hrange]
        exact (hpinch d).2 hrange
    · rw [EntropyEncoder.round, if_pos hp, if_neg] at hround
      · cases hround
      · rw [UInt32.lt_iff_toNat_lt, Range.toNat_width h]
        exact hw
  · obtain ⟨hvalid, hin, -⟩ := Range.roll_spec h hp
    have hroll : ∀ d : EntropyDecoder, d.range = e.range → d.round = some ⟨d.range.roll,
        (d.target <<< 8) ||| (d.input.headD 0).toUInt32, d.r, d.input.tail⟩ := fun d hrange => by
      rw [EntropyDecoder.round, if_neg (hrange ▸ hp)]
    rw [EntropyEncoder.round, if_neg hp] at hround
    obtain rfl := Option.some.inj hround
    refine ⟨hvalid, Range.rank_roll h hp, [(e.range.low >>> 24).toUInt8], ⟨rfl, ?_, ?_⟩, ?_⟩
    · intro rest hrest
      rw [List.singleton_append, window_cons, toNat_top]
      exact hin _ hrest
    · intro d rest hrange hreads
      rw [EntropyDecoder.advance, hroll d hrange]
      exact ⟨congrArg Range.roll hrange, reads_roll hreads _⟩
    · intro d hrange
      rw [EntropyDecoder.advance, hroll d hrange]
      rfl

theorem rounds_sends (n : Nat) (h : e.range.Valid) :
    ∃ bytes, Sends (rounds EntropyDecoder.round n) e (rounds EntropyEncoder.round n e) bytes := by
  induction n generalizing e with
  | zero =>
    exact ⟨[], (List.append_nil _).symm, fun _ => id, fun _ _ hrange hreads => ⟨hrange, hreads⟩⟩
  | succ n ih =>
    cases hround : e.round with
    | none =>
      rw [rounds_break hround]
      refine ⟨[], (List.append_nil _).symm, fun _ => id, fun d rest hrange hreads => ?_⟩
      rw [rounds_break (round_none hrange hround)]
      exact ⟨hrange, hreads⟩
    | some e₁ =>
      obtain ⟨hvalid, -, first, hfirst, hboth⟩ := round_sends h hround
      obtain ⟨others, hothers⟩ := ih hvalid
      rw [rounds_next hround]
      refine ⟨first ++ others, ?_, ?_, ?_⟩
      · rw [hothers.out, hfirst.out, List.append_assoc]
      · intro rest hrest
        rw [List.append_assoc]
        exact hfirst.contains _ (hothers.contains rest hrest)
      · intro d rest hrange hreads
        rw [List.append_assoc] at hreads
        obtain ⟨hrange₁, hreads₁⟩ := hfirst.follows d _ hrange hreads
        rw [rounds_next (hboth d hrange)]
        exact hothers.follows _ rest hrange₁ hreads₁

/-- **`break` is reached**, by the seventh round at the latest, and with room for a symbol. -/
theorem renorm_ready (h : e.range.Valid) :
    (rounds EntropyEncoder.round maxRounds e).range.Ready := by
  obtain ⟨hvalid, hend⟩ := rounds_ended (fun e : EntropyEncoder => e.range.Valid)
    (fun e => e.range.rank) (fun _ _ h hround => ⟨(round_sends h hround).1,
      (round_sends h hround).2.1⟩) h e.range.rank_le
  refine ⟨hvalid, ?_⟩
  by_contra hw
  rw [EntropyEncoder.round] at hend
  split_ifs at hend with hp hcond
  rw [UInt32.lt_iff_toNat_lt, Range.toNat_width hvalid] at hcond
  exact hcond (not_le.mp hw)

end Rounds

/-! ## Round trip -/

namespace EntropyEncoder

/-- A slot, as the model over the coder passes it. -/
def encodeSlot (slot : Slot) : EntropyEncoder → Exec EntropyEncoder :=
  encode (.ofNat slot.low) (.ofNat slot.high) (.ofNat slot.total)

end EntropyEncoder

/-- Slot after slot. -/
def encodeSlots (slots : List Slot) (e : EntropyEncoder) : Exec EntropyEncoder :=
  forEach slots EntropyEncoder.encodeSlot e

/-- The decoder, as the model over it calls it. -/
def EntropyDecoder.coder : Coder EntropyDecoder where
  getTarget total d := do
    let found ← d.getTarget (.ofNat total)
    pure (found.1.toNat, found.2)
  decode lowCount highCount := decode (.ofNat lowCount) (.ofNat highCount)

section Symbols

variable {e e' : EntropyEncoder} {d : EntropyDecoder} {slot : Slot} {slots : List Slot}
variable {bytes rest : List UInt8}

/-- What `get_target` answers about a number of a slot's part. -/
theorem getTarget_eq_ok {r : UInt32} (hrange : d.range = e.range) (h : e.range.Ready)
    (hslot : slot.Ok) (hr : r.toNat = (e.range.width + 1) / slot.total)
    (hunit : e.range.unit (.ofNat slot.total) = .ok r)
    (hin : (e.range.narrow r (.ofNat slot.low) (.ofNat slot.high)).Contains d.target.toNat) :
    ∃ target, EntropyDecoder.coder.getTarget slot.total d = .ok (target, { d with r := r }) ∧
      slot.low ≤ target ∧ target < slot.high := by
  obtain ⟨hone, -, hspec⟩ := Range.narrow_spec h hslot hr
  obtain ⟨⟨hlow, hhigh⟩, htarget, htarget'⟩ := hspec _ hin
  have htotal : (UInt32.ofNat slot.total).toNat = slot.total :=
    UInt32.toNat_ofNat_of_lt' (show slot.total < 2 ^ 32 from hslot.total_lt.trans (by decide))
  have hr0 : r ≠ 0 := by
    rintro rfl
    exact Nat.not_succ_le_zero 0 hone
  have htemp : ((d.target - e.range.low) / r).toNat = (d.target.toNat - e.range.low.toNat) /
      r.toNat := by
    rw [UInt32.toNat_div, UInt32.toNat_sub_of_le _ _ (UInt32.le_iff_toNat_le.mpr hlow)]
  have hlt : (d.target - e.range.low) / r < .ofNat slot.total := by
    rw [UInt32.lt_iff_toNat_lt, htemp, htotal]
    exact htarget'.trans_le hslot.high_le
  refine ⟨((d.target - e.range.low) / r).toNat, ?_, htemp ▸ htarget, htemp ▸ htarget'⟩
  simp only [EntropyDecoder.coder, EntropyDecoder.getTarget, hrange, hunit, ok_bind, if_neg hr0,
    if_pos hlt, pure_eq_ok]

/-- These slots are coded by these bytes: the encoder comes from the one state to the other writing
them, and a decoder that stands in front of them serves the slots and stands behind them then. What
follows the bytes must be a number of the interval the encoder has come to. -/
structure Codes (slots : List Slot) (e e' : EntropyEncoder) (bytes : List UInt8) : Prop where
  out : e'.out = e.out ++ bytes
  contains : ∀ rest, e'.range.Contains (window rest) → e.range.Contains (window (bytes ++ rest))
  serves : ∀ (d : EntropyDecoder) (rest : List UInt8), e'.range.Contains (window rest) →
    d.range = e.range → d.Reads (bytes ++ rest) →
      ∃ d', EntropyDecoder.coder.Serves slots d d' ∧ d'.range = e'.range ∧ d'.Reads rest

theorem codes_nil : Codes [] e e [] :=
  ⟨(List.append_nil _).symm, fun _ => id, fun d _ _ hrange hreads => ⟨d, .nil d, hrange, hreads⟩⟩

theorem Codes.append {slots' : List Slot} {e'' : EntropyEncoder} {bytes' : List UInt8}
    (h : Codes slots e e' bytes) (h' : Codes slots' e' e'' bytes') :
    Codes (slots ++ slots') e e'' (bytes ++ bytes') := by
  refine ⟨by rw [h'.out, h.out, List.append_assoc], ?_, ?_⟩
  · intro rest hrest
    rw [List.append_assoc]
    exact h.contains _ (h'.contains rest hrest)
  · intro d rest hrest hrange hreads
    rw [List.append_assoc] at hreads
    obtain ⟨m, hserves, hrange, hreads⟩ := h.serves d _ (h'.contains rest hrest) hrange hreads
    obtain ⟨d', hserves', hrange', hreads'⟩ := h'.serves m rest hrest hrange hreads
    exact ⟨d', Coder.serves_append.mpr ⟨m, hserves, hserves'⟩, hrange', hreads'⟩

/-- **One symbol.** -/
theorem encodeSlot_codes (h : e.range.Ready) (hslot : slot.Ok) :
    ∃ e' bytes, e.encodeSlot slot = .ok e' ∧ e'.range.Ready ∧ Codes [slot] e e' bytes := by
  obtain ⟨r, hunit, hr⟩ := Range.unit_eq_ok h hslot
  obtain ⟨-, hvalid, hspec⟩ := Range.narrow_spec h hslot hr
  let start : EntropyEncoder :=
    { e with range := e.range.narrow r (.ofNat slot.low) (.ofNat slot.high) }
  obtain ⟨bytes, hsends⟩ := rounds_sends (e := start) maxRounds hvalid
  refine ⟨rounds EntropyEncoder.round maxRounds start, bytes, ?_, renorm_ready hvalid,
    hsends.out, ?_, ?_⟩
  · rw [EntropyEncoder.encodeSlot, EntropyEncoder.encode, hunit, ok_bind, pure_eq_ok]
  · exact fun rest hrest => (hspec _ (hsends.contains rest hrest)).1
  · intro d rest hrest hrange hreads
    obtain ⟨target, hget, hlow, hhigh⟩ := getTarget_eq_ok hrange h hslot hr hunit
      (hreads.target ▸ hsends.contains rest hrest)
    obtain ⟨hrange', hreads'⟩ := hsends.follows
      { d with range := d.range.narrow r (.ofNat slot.low) (.ofNat slot.high), r := 0 } rest
      (congrArg (Range.narrow · r _ _) hrange) ⟨hreads.target, hreads.input⟩
    exact ⟨_, .cons hget hlow hhigh (.nil _), hrange', hreads'⟩

theorem encodeSlots_codes (h : e.range.Ready) (hslots : ∀ slot ∈ slots, slot.Ok) :
    ∃ e' bytes, encodeSlots slots e = .ok e' ∧ e'.range.Ready ∧ Codes slots e e' bytes := by
  induction slots generalizing e with
  | nil => exact ⟨e, [], rfl, h, codes_nil⟩
  | cons slot slots ih =>
    obtain ⟨e₁, first, hfirst, hready, hcodes⟩ :=
      encodeSlot_codes h (hslots slot List.mem_cons_self)
    obtain ⟨e', others, hothers, hready', hcodes'⟩ :=
      ih hready fun s hs => hslots s (List.mem_cons_of_mem _ hs)
    refine ⟨e', first ++ others, ?_, hready', hcodes.append hcodes'⟩
    rw [encodeSlots, forEach_cons, hfirst]
    exact hothers

/-- The decoder takes its first four bytes the way it takes all the others. -/
theorem setStream_reads (bytes : List UInt8) (hne : bytes ≠ []) :
    ∃ d, EntropyDecoder.setStream bytes = .ok d ∧ d.range = .initial ∧ d.Reads bytes := by
  obtain ⟨b, tail, rfl⟩ := List.exists_cons_of_ne_nil hne
  refine ⟨_, rfl, rfl, ?_, rfl⟩
  have h0 := b.toNat_lt
  have h1 := (tail.getD 0 0).toNat_lt
  have h2 := (tail.getD 1 0).toNat_lt
  have h3 := (tail.getD 2 0).toNat_lt
  simp only [window, UInt32.toNat_add, toNat_shiftLeft_eight, UInt8.toNat_toUInt32,
    List.getD_cons_zero, List.getD_cons_succ]
  omega

end Symbols

/-- The stream that the encoder leaves when it flushes, with more behind it. -/
theorem flush_serves {slots : List Slot} {e : EntropyEncoder} {bytes : List UInt8}
    (hready : e.range.Ready) (hcodes : Codes slots (.setStream []) e bytes) (rest : List UInt8) :
    ∃ d d', EntropyDecoder.setStream (e.flush.out ++ rest) = .ok d ∧
      EntropyDecoder.coder.Serves slots d d' ∧ d'.input = rest := by
  have hout : e.flush.out ++ rest = bytes ++ (bytesOf e.range.low ++ rest) := by
    rw [EntropyEncoder.flush, hcodes.out]
    simp [EntropyEncoder.setStream]
  obtain ⟨d, hset, hrange, hreads⟩ := setStream_reads (e.flush.out ++ rest)
    (by simp [EntropyEncoder.flush, bytesOf])
  rw [hout] at hreads
  -- what is flushed is `low`, and that is a number of the interval
  obtain ⟨d', hserves, -, hreads'⟩ := hcodes.serves d _
    (by rw [window_bytesOf]; exact ⟨le_rfl, hready.le⟩) hrange hreads
  refine ⟨d, d', hset, hserves, ?_⟩
  rw [hreads'.input]
  rfl

/-- **Round trip.** Whatever slots are coded and whatever follows in the stream, the decoder serves
these slots from it, and has then read what the encoder wrote and nothing that follows. -/
theorem serves_encoded (slots : List Slot) (hslots : ∀ slot ∈ slots, slot.Ok) (rest : List UInt8) :
    ∃ e d d', encodeSlots slots (.setStream []) = .ok e ∧
      EntropyDecoder.setStream (e.flush.out ++ rest) = .ok d ∧
      EntropyDecoder.coder.Serves slots d d' ∧ d'.input = rest := by
  obtain ⟨e, bytes, hencode, hready, hcodes⟩ :=
    encodeSlots_codes (e := .setStream []) Range.initial_ready hslots
  obtain ⟨d, d', hset, hserves, hrest⟩ := flush_serves hready hcodes rest
  exact ⟨e, d, d', hencode, hset, hserves, hrest⟩

theorem serves_encoded_twoSlots :
    ∃ e d d', encodeSlots [⟨0, 1, 3⟩, ⟨200, 500, 800⟩] (.setStream []) = .ok e ∧
      EntropyDecoder.setStream (e.flush.out ++ [7]) = .ok d ∧
      EntropyDecoder.coder.Serves [⟨0, 1, 3⟩, ⟨200, 500, 800⟩] d d' ∧ d'.input = [7] := by
  refine serves_encoded _ (fun slot hslot => ?_) [7]
  simp only [List.mem_cons, List.not_mem_nil, or_false] at hslot
  rcases hslot with rfl | rfl
  · exact ⟨by decide, by decide, by decide⟩
  · exact ⟨by decide, by decide, by decide⟩

end DlibAndroid.Codec
