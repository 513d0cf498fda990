import DlibAndroid.Frame.Factor
import DlibAndroid.Detector.Track

/-!
# From the frame back to the picture

`calculateSample` divides the longer side by `MAX_SIZE` to get the factor, and both sides by the
factor to get the frame; `reduction` multiplies what was found on the frame by the factor again.
Here is what the two truncated divisions leave of the sizes (`FrameBounds`), and why the way back
is safe: a coordinate of the frame, scaled, is the top left corner of a whole block of the picture,
so it is far inside `int` (`RescaleLaw`).
-/

set_option autoImplicit false

namespace DlibAndroid.Dlib

open CCore

variable {width height s destWidth destHeight x y : Int} {sample : Block Int} {L : Ledger}

/-- What the sizes of picture and frame have to do with the factor. -/
structure FrameBounds (width height s destWidth destHeight : Int) : Prop where
  longer_ge : 240 ≤ max destWidth destHeight
  longer_le : max destWidth destHeight ≤ 479
  width_ge : destWidth * s ≤ width
  width_lt : width < (destWidth + 1) * s
  height_ge : destHeight * s ≤ height
  height_lt : height < (destHeight + 1) * s

/-- A pixel of the frame. -/
def InFrame (destWidth destHeight x y : Int) : Prop :=
  (0 ≤ x ∧ x < destWidth) ∧ 0 ≤ y ∧ y < destHeight

/-- The pairs of coordinates in the first `2 * n` cells of an array are pixels of the frame. -/
def PairsInFrame (destWidth destHeight : Int) (n : Nat) (f : Nat → Int32) : Prop :=
  ∀ k, k < n → InFrame destWidth destHeight (f (2 * k)).toInt (f (2 * k + 1)).toInt

/-- What rescaling does to the coordinates of a frame: they stay in the picture, with a whole block
to spare, and no two of them meet. `reduction` leaves these and nothing else wherever it finishes,
and it finishes on arrays that hold pixels of the frame. -/
structure RescaleLaw (width height s destWidth destHeight : Int) : Prop where
  inside : ∀ x y, InFrame destWidth destHeight x y →
    (0 ≤ s * x ∧ s * x ≤ width - s) ∧ 0 ≤ s * y ∧ s * y ≤ height - s
  distinct : ∀ x y x' y' : Int, s * x = s * x' → s * y = s * y' → x = x' ∧ y = y'
  maps : ∀ (rect points rect' points' : Block Int32) (f g : Nat → Int32),
    rect.Holds 4 f → points.Holds 136 g →
    reduction rect points s = .ok (rect', points') → Reports rect' 4 s f ∧ Reports points' 136 s g
  total : ∀ (rect points : Block Int32) (f g : Nat → Int32),
    rect.Holds 4 f → points.Holds 136 g →
    PairsInFrame destWidth destHeight 2 f → PairsInFrame destWidth destHeight 68 g →
    ∃ out, reduction rect points s = .ok out

/-! ## The sizes -/

/-- Dividing the sides divides the longer one. -/
theorem max_ediv {m n : Int} (hs : 0 < s) : max (m / s) (n / s) = max m n / s := by
  have hmono : Monotone fun k : Int => k / s := fun _ _ h => Int.ediv_le_ediv hs h
  exact hmono.map_max.symm

theorem frameBounds (height : Int) (hw : 240 ≤ width) :
    FrameBounds width height (sampleFactor width height) (width / sampleFactor width height)
      (height / sampleFactor width height) := by
  have hs : 0 < sampleFactor width height := one_le_sampleFactor height hw
  have hdef : sampleFactor width height = max width height / 240 := rfl
  have hle : 240 * sampleFactor width height ≤ max width height := by omega
  have hlt : max width height < 480 * sampleFactor width height := by omega
  have hmax := max_ediv (m := width) (n := height) hs
  constructor
  · rw [hmax]
    exact (Int.le_ediv_iff_mul_le hs).mpr hle
  · rw [hmax]
    exact Int.le_of_lt_add_one (Int.ediv_lt_of_lt_mul hs hlt)
  · exact (Int.le_ediv_iff_mul_le hs).mp le_rfl
  · exact Int.lt_ediv_add_one_mul_self _ hs
  · exact (Int.le_ediv_iff_mul_le hs).mp le_rfl
  · exact Int.lt_ediv_add_one_mul_self _ hs

/-! ## The way back -/

/-- A coordinate of the frame, scaled, has a whole block of the picture after it. -/
theorem block_inside {n k : Int} (hs : 0 < s) (hk : 0 ≤ k) (hkn : k < n / s) :
    0 ≤ s * k ∧ s * k ≤ n - s := by
  have hblock : (k + 1) * s ≤ n := (Int.le_ediv_iff_mul_le hs).mp hkn
  exact ⟨mul_nonneg hs.le hk, by linarith⟩

theorem inside (hs : 0 < s) (h : InFrame (width / s) (height / s) x y) :
    (0 ≤ s * x ∧ s * x ≤ width - s) ∧ 0 ≤ s * y ∧ s * y ≤ height - s := by
  obtain ⟨⟨hx, hxw⟩, hy, hyh⟩ := h
  exact ⟨block_inside hs hx hxw, block_inside hs hy hyh⟩

/-- The products `reduction` forms from frame coordinates are `int`s. -/
theorem fits_of_inFrame {n : Nat} {f : Nat → Int32} (hs : 0 < s) (hwm : width ≤ 2147483647)
    (hhm : height ≤ 2147483647) (hf : PairsInFrame (width / s) (height / s) n f) :
    ∀ k, k < 2 * n → Fits ((f k).toInt * s) := by
  intro k hk
  obtain ⟨⟨hx, hxw⟩, hy, hyh⟩ := inside hs (hf (k / 2) (by omega))
  rw [mul_comm]
  -- an even cell holds an x, an odd one a y
  rcases Nat.mod_two_eq_zero_or_one k with hmod | hmod
  · have heq : 2 * (k / 2) = k := by omega
    rw [heq] at hx hxw
    exact ⟨by omega, by omega⟩
  · have heq : 2 * (k / 2) + 1 = k := by omega
    rw [heq] at hy hyh
    exact ⟨by omega, by omega⟩

theorem rescaleLaw (hs : 0 < s) (hwm : width ≤ 2147483647) (hhm : height ≤ 2147483647) :
    RescaleLaw width height s (width / s) (height / s) where
  inside x y h := inside hs h
  distinct x y x' y' hx hy := ⟨mul_left_cancel₀ hs.ne' hx, mul_left_cancel₀ hs.ne' hy⟩
  maps rect points rect' points' f g hr hp hrun := by
    obtain ⟨⟨hfitsr, hur⟩, hfitsp, hup⟩ := (reduction_eq_ok hr hp).mp hrun
    exact ⟨.of_scaled hur.holds hfitsr, .of_scaled hup.holds hfitsp⟩
  total rect points f g hr hp hf hg := by
    have hfitsr := fits_of_inFrame hs hwm hhm hf
    have hfitsp := fits_of_inFrame hs hwm hhm hg
    have hur := Block.updated_overwrite (f := fun k => scaled s (f k)) hr.le_size
    have hup := Block.updated_overwrite (f := fun k => scaled s (g k)) hp.le_size
    exact ⟨(_, _), (reduction_eq_ok hr hp).mpr ⟨⟨hfitsr, hur⟩, hfitsp, hup⟩⟩

/-- **The frame and the way back**, with the factor and the sides as `calculateSample` returns
them. -/
theorem calculateSample_rescales (hw : 240 ≤ width) (hwm : width ≤ 2147483647) (hh : 1 ≤ height)
    (hhm : height ≤ 2147483647) (hs : sample.size = 1) :
    ∃ out s destWidth destHeight, calculateSample width height sample L = .ok out ∧
      Gives out s destWidth destHeight ∧ FrameBounds width height s destWidth destHeight ∧
      RescaleLaw width height s destWidth destHeight :=
  ⟨_, _, _, _, calculateSample_ok hw hwm hh hhm hs, ⟨rfl, rfl, rfl⟩, frameBounds height hw,
    rescaleLaw (one_le_sampleFactor height hw) hwm hhm⟩

/-- Just below a multiple of `MAX_SIZE`. -/
theorem calculateSample_rescales_below : ∃ out s destWidth destHeight,
    calculateSample 719 479 (.uninit 1 (by decide)) .empty = .ok out ∧
      Gives out s destWidth destHeight ∧ FrameBounds 719 479 s destWidth destHeight ∧
      RescaleLaw 719 479 s destWidth destHeight :=
  calculateSample_rescales (by decide) (by decide) (by decide) (by decide) rfl

end DlibAndroid.Dlib
