import DlibAndroid.Frame.SamplingSpec
import Mathlib.Tactic.IntervalCases

/-!
# Pictures, and the frames that show them

What the samplers are for, in their own terms: a `Picture` is a colour for every column and row,
top row first, and `downsample s` keeps every `s`-th pixel of it as a gray. Two memory layouts
carry a picture into the library — the `ARGB` ints of a bitmap, top row first, and the `RGBA`
bytes `glReadPixels` delivers, bottom row first — and each sampler is proved to compute the
abstract down-sampling of the picture its layout carries:

* `sampling` on an array of ints shows `downsample`, on every ABI (`sampling_downsamples`);
* `samplingTexture` on a buffer of bytes shows the down-sampling of the picture turned upside
  down, turned back, when plain `char` is unsigned (`samplingTexture_downsamples`).

The weights of a gray are exact rationals, in the samplers as in the picture. In doubles the sum
can come out a hair below a whole number, and is then cut to the gray below.
-/

set_option autoImplicit false

namespace DlibAndroid

open CCore

/-! ## The abstract picture -/

structure Rgb where
  red : UInt8
  green : UInt8
  blue : UInt8

/-- The gray of a colour: the weighted mean, rounded down. -/
def Rgb.gray (c : Rgb) : UInt8 :=
  .ofNat ((299 * c.red.toNat + 587 * c.green.toNat + 114 * c.blue.toNat) / 1000)

/-- The frame shows `f`, a gray for each column and row. -/
def Image.Shows (img : Image) (f : Nat → Nat → UInt8) : Prop :=
  ∀ x y, x < img.nc.toNat → y < img.nr.toNat → img.data[y * img.nc.toNat + x]? = some (f x y)

/-- One frame is the other upside down. -/
def Image.IsFlipOf (a b : Image) : Prop :=
  a.nr = b.nr ∧ a.nc = b.nc ∧ ∀ x y, x < a.nc.toNat → y < a.nr.toNat →
    a.data[y * a.nc.toNat + x]? = b.data[(a.nr.toNat - 1 - y) * b.nc.toNat + x]?

theorem Image.Shows.flip {a b : Image} {f g : Nat → Nat → UInt8} (ha : a.Shows f) (hb : b.Shows g)
    (hnr : a.nr = b.nr) (hnc : a.nc = b.nc) :
    a.IsFlipOf b ↔
      ∀ x y, x < a.nc.toNat → y < a.nr.toNat → f x y = g x (a.nr.toNat - 1 - y) := by
  constructor
  · rintro ⟨-, -, h⟩ x y hx hy
    have hcell := h x y hx hy
    rw [ha x y hx hy, hb x _ (by rw [← hnc]; exact hx) (by rw [← hnr]; omega)] at hcell
    exact Option.some.inj hcell
  · intro h
    refine ⟨hnr, hnc, fun x y hx hy => ?_⟩
    rw [ha x y hx hy, hb x _ (by rw [← hnc]; exact hx) (by rw [← hnr]; omega), h x y hx hy]

/-! ## Gray values on the two ABIs -/

theorem Abi.charToInt_of_unsigned {abi : Abi} {b : UInt8}
    (h : abi.charSigned = false ∨ b.toNat < 128) : abi.charToInt b = b.toNat := by
  unfold Abi.charToInt
  rw [if_neg]
  rintro ⟨hs, hb⟩
  rcases h with h | h
  · rw [h] at hs; cases hs
  · omega

theorem luma_nat (r g b : Nat) :
    luma r g b = ((299 * r + 587 * g + 114 * b) / 1000 : Nat) := by
  unfold luma
  rw [Int.tdiv_eq_ediv_of_nonneg (by positivity)]
  norm_cast

/-- Converting a value that is an `unsigned char`. -/
theorem Abi.narrow_nat {abi : Abi} {n : Nat} (h : n < 256) : abi.narrow n = .ofNat n := by
  have hb := abi.narrow_eq (.ofNat n)
  rwa [UInt8.toNat_ofNat_of_lt' h] at hb

/-- On channels `0 .. 255` both ABIs compute the gray of the colour. -/
theorem Abi.gray_eq (abi : Abi) (c : Rgb) :
    abi.gray c.red.toNat c.green.toNat c.blue.toNat = c.gray := by
  have hr := c.red.toNat_lt
  have hg := c.green.toNat_lt
  have hb := c.blue.toNat_lt
  rw [Abi.gray, luma_nat, Abi.narrow_nat (by omega), Rgb.gray]

/-! ## The channels of an `ARGB` int -/

/-- The `ARGB` int of a colour, with any alpha. -/
def Rgb.argb (c : Rgb) (alpha : UInt8) : BitVec 32 :=
  alpha.toBitVec ++ c.red.toBitVec ++ c.green.toBitVec ++ c.blue.toBitVec

theorem channel_toInt (clr : BitVec 32) {k : Nat} (hk : k ≤ 16) :
    ((clr &&& (255#32 <<< k)).sshiftRight k).toInt = ((clr.toNat / 2 ^ k % 256 : Nat) : Int) := by
  have hmask : (255#32 <<< k).msb = false := by interval_cases k <;> rfl
  have hmsb : (clr &&& (255#32 <<< k)).msb = false := by
    rw [BitVec.msb_and, hmask, Bool.and_false]
  have hnat : ((clr &&& (255#32 <<< k)).sshiftRight k).toNat = clr.toNat / 2 ^ k % 256 := by
    have hones : (255#32 <<< k).toNat >>> k = 2 ^ 8 - 1 := by interval_cases k <;> rfl
    rw [BitVec.sshiftRight_eq_of_msb_false hmsb, BitVec.toNat_ushiftRight, BitVec.toNat_and,
      Nat.shiftRight_and_distrib, Nat.shiftRight_eq_div_pow, hones, Nat.and_two_pow_sub_one_eq_mod]
  rw [BitVec.toInt_eq_toNat_of_lt (by rw [hnat]; omega), hnat]

theorem argb_toNat (c : Rgb) (alpha : UInt8) : (c.argb alpha).toNat =
    ((alpha.toNat * 256 + c.red.toNat) * 256 + c.green.toNat) * 256 + c.blue.toNat := by
  have hr := c.red.toNat_lt
  have hg := c.green.toNat_lt
  have hb := c.blue.toNat_lt
  simp only [Rgb.argb, BitVec.toNat_append, UInt8.toNat_toBitVec]
  rw [← Nat.shiftLeft_add_eq_or_of_lt (by omega), ← Nat.shiftLeft_add_eq_or_of_lt (by omega),
    ← Nat.shiftLeft_add_eq_or_of_lt (by omega)]
  simp only [Nat.shiftLeft_eq]

/-- The masks and shifts of `sampling` recover the channels. -/
theorem channels_argb (c : Rgb) (alpha : UInt8) :
    redOf (c.argb alpha) = c.red.toNat ∧ greenOf (c.argb alpha) = c.green.toNat ∧
      blueOf (c.argb alpha) = c.blue.toNat := by
  have hr := c.red.toNat_lt
  have hg := c.green.toNat_lt
  have hb := c.blue.toNat_lt
  have h16 := channel_toInt (c.argb alpha) (k := 16) (by decide)
  have h8 := channel_toInt (c.argb alpha) (k := 8) (by decide)
  have h0 := channel_toInt (c.argb alpha) (k := 0) (by decide)
  rw [argb_toNat] at h16 h8 h0
  refine ⟨h16.trans ?_, h8.trans ?_, ?_⟩
  · norm_cast; omega
  · norm_cast; omega
  · have hblue : blueOf (c.argb alpha) =
        ((c.argb alpha &&& (255#32 <<< 0)).sshiftRight 0).toInt := by
      rw [blueOf, BitVec.sshiftRight_zero]; rfl
    rw [hblue, h0]
    norm_cast
    omega

/-! ## The frames the samplers leave -/

section Frames

variable {width height : Int} {sample : Block Int} {L : Ledger} {dest : Array2d} {abi : Abi}

/-- A frame of the grid shows the gray of `entry`, each row the one listed at its place. -/
theorem gridImage_shows {rows : List Nat} {entry : Nat → Nat → Int × UInt8}
    {hrows : rows.length = (height / sampleFactor width height).toNat} :
    (gridImage width height rows hrows entry).Shows fun x y => (entry (rows.getD y 0) x).2 := by
  intro x y hx hy
  have hy' : y < rows.length := by rw [hrows]; exact hy
  show ((gridEntries rows _ entry).map Prod.snd)[_]? = _
  rw [List.getElem?_map]
  exact congrArg _ (getElem?_gridEntries entry hy' hx)

/-- The colour of pixel `k` of an `RGBA` buffer. -/
def rgbaPixel (bytes : Nat → UInt8) (k : Nat) : Rgb :=
  ⟨bytes (4 * k), bytes (4 * k + 1), bytes (4 * k + 2)⟩

/-- The number, in the memory order of its layout, of the pixel the cell of sampled row `i` and
column `j` is taken from. -/
def gridPixel (width height : Int) (i j : Nat) : Nat :=
  ((i : Int) * sampleFactor width height * width + j * sampleFactor width height).toNat

theorem textureEntry_gray {bytes : Nat → UInt8} {i j : Nat} (hw : 240 ≤ width) :
    (textureEntry abi bytes width height i j).2 =
      abi.gray (abi.charToInt (rgbaPixel bytes (gridPixel width height i j)).red)
        (abi.charToInt (rgbaPixel bytes (gridPixel width height i j)).green)
        (abi.charToInt (rgbaPixel bytes (gridPixel width height i j)).blue) := by
  have hs := one_le_sampleFactor height hw
  have hnn : 0 ≤ (i : Int) * sampleFactor width height * width + j * sampleFactor width height :=
    gridIndex_nonneg (by omega) (by omega) (Int.natCast_nonneg i) (Int.natCast_nonneg j)
  simp only [textureEntry, rgbaPixel, gridPixel]
  generalize (i : Int) * sampleFactor width height * width + j * sampleFactor width height = k
    at hnn
  have h0 : (4 * k).toNat = 4 * k.toNat := by omega
  have h1 : (4 * k + 1).toNat = 4 * k.toNat + 1 := by omega
  have h2 : (4 * k + 2).toNat = 4 * k.toNat + 2 := by omega
  rw [h0, h1, h2]

/-- **`samplingTexture`, on the layout of `glReadPixels`.** The frame is the down-sampling counted
from the bottom row, whenever the promotion of `char` leaves the sampled bytes alone. -/
theorem samplingTexture_shows {bytes : Nat → UInt8} {out : Sampled} {img : Image}
    (hw : 240 ≤ width)
    (hout : SampledFrom width height (textureRows width height)
      (textureEntry abi bytes width height) L out)
    (himg : out.dest.view = .ok img) :
    img.Shows fun x y =>
      let c := rgbaPixel bytes (gridPixel width height (img.nr.toNat - 1 - y) x)
      abi.gray (abi.charToInt c.red) (abi.charToInt c.green) (abi.charToInt c.blue) := by
  obtain rfl := Except.ok.inj (hout.view.symm.trans himg)
  intro x y hx hy
  rw [gridImage_shows x y hx hy]
  dsimp only
  rw [getD_textureRows hy]
  exact congrArg some (textureEntry_gray hw)

/-- **`sampling`, on the layout of a bitmap**: the down-sampling of the picture, on every ABI. -/
theorem sampling_shows {pixels : Nat → BitVec 32} (colour : Nat → Rgb) (alpha : Nat → UInt8)
    {out : Sampled} {img : Image} (hp : ∀ k, pixels k = (colour k).argb (alpha k))
    (hout : SampledFrom width height (intRows width height) (intEntry abi pixels width height)
      L out)
    (himg : out.dest.view = .ok img) :
    img.Shows fun x y => (colour (gridPixel width height y x)).gray := by
  obtain rfl := Except.ok.inj (hout.view.symm.trans himg)
  intro x y hx hy
  rw [gridImage_shows x y hx hy]
  dsimp only
  rw [getD_intRows hy]
  obtain ⟨hred, hgreen, hblue⟩ := channels_argb (colour (gridPixel width height y x))
    (alpha (gridPixel width height y x))
  simp only [intEntry]
  rw [← gridPixel, hp, hred, hgreen, hblue, Abi.gray_eq]

end Frames

end DlibAndroid
