import DlibAndroid.Frame.SamplingSpec

/-!
# `calculateSample` on every size

The other modules call `calculateSample` on pictures at least `MAX_SIZE` wide. The bridge lets any
size through, and the last branch of the function is there for the small ones: a factor below 1 is
put right. It comes too late. Both sides have been divided by the factor before it is looked at,
and the first factor is computed from the width alone, so a picture less than `MAX_SIZE` wide
divides by zero whatever its height (`calculateSample_narrow`).

`sampleLaw_iff` says for which sizes the function does what it is there for, in either orientation:
both sides reach `MAX_SIZE`, and neither is so short that no whole block fits along it.
-/

set_option autoImplicit false

namespace DlibAndroid

open CCore

variable {width height : Int} {sample : Block Int} {L : Ledger}

/-- The factor the function is there to compute: the longer side over `MAX_SIZE`, and 1 for a
picture smaller than that. -/
def wantedFactor (width height : Int) : Int := max 1 (max width height / maxSize)

theorem wantedFactor_comm : wantedFactor height width = wantedFactor width height := by
  rw [wantedFactor, wantedFactor, max_comm height width]

theorem one_le_wantedFactor : 1 ≤ wantedFactor width height := le_max_left _ _

theorem wantedFactor_eq (hw : 240 ≤ width) :
    wantedFactor width height = sampleFactor width height :=
  max_eq_right (one_le_sampleFactor height hw)

/-- The factor is in `sample`, and the two cells of the result are the sides of the frame. -/
def Gives (out : Owned (Block Int) × Block Int × Ledger) (s destWidth destHeight : Int) : Prop :=
  out.2.1.read 0 = .ok s ∧ out.1.val.read 0 = .ok destWidth ∧ out.1.val.read 1 = .ok destHeight

/-- The function finishes, with the wanted factor and a frame that has a cell. -/
structure Settles (width height : Int) (sample : Block Int) (L : Ledger) : Prop where
  gives : ∃ out, calculateSample width height sample L = .ok out ∧
    Gives out (wantedFactor width height) (width / wantedFactor width height)
      (height / wantedFactor width height)
  destWidth_pos : 1 ≤ width / wantedFactor width height
  destHeight_pos : 1 ≤ height / wantedFactor width height

/-- It does so, and for the picture on its side it gives the same factor and the frame on its
side. -/
structure SampleLaw (width height : Int) (sample : Block Int) (L : Ledger) : Prop where
  settles : Settles width height sample L
  swapped : ∃ out, calculateSample height width sample L = .ok out ∧
    Gives out (wantedFactor width height) (height / wantedFactor width height)
      (width / wantedFactor width height)

/-- A picture that is too narrow, however tall. -/
theorem calculateSample_narrow (hw : 1 ≤ width) (hlt : width < 240) (hs : sample.size = 1) :
    calculateSample width height sample L = .error .divByZero := by
  have hzero : divInt width maxSize = .ok 0 := by
    rw [divInt_of_nonneg (by omega) (by omega) (by decide),
      Int.ediv_eq_zero_of_lt (by omega) (by exact hlt)]
  have hdiv : divInt width 0 = .error .divByZero := rfl
  have hfirst : divideSides width width height sample = .error .divByZero := by
    rw [divideSides, hzero, ok_bind, Block.write_single hs, ok_bind, read_single, ok_bind, hdiv]
    rfl
  rw [calculateSample, hfirst]
  rfl

theorem wide_of_ok {out : Owned (Block Int) × Block Int × Ledger} (hw : 1 ≤ width)
    (hs : sample.size = 1) (h : calculateSample width height sample L = .ok out) :
    240 ≤ width := by
  by_contra hlt
  rw [calculateSample_narrow hw (not_le.mp hlt) hs] at h
  cases h

theorem gives_of_wide (hw : 240 ≤ width) (hwm : width ≤ 2147483647) (hh : 1 ≤ height)
    (hhm : height ≤ 2147483647) (hs : sample.size = 1) :
    ∃ out, calculateSample width height sample L = .ok out ∧
      Gives out (wantedFactor width height) (width / wantedFactor width height)
        (height / wantedFactor width height) := by
  rw [wantedFactor_eq hw]
  exact ⟨_, calculateSample_ok hw hwm hh hhm hs, rfl, rfl, rfl⟩

/-- A whole block fits along a side exactly when the side is no shorter than the block. -/
theorem one_le_dest_iff {n : Int} :
    1 ≤ n / wantedFactor width height ↔ wantedFactor width height ≤ n := by
  have hpos : 0 < wantedFactor width height := one_le_wantedFactor
  rw [Int.le_ediv_iff_mul_le hpos, one_mul]

/-- **One orientation.** -/
theorem settles_iff (hw : 1 ≤ width) (hwm : width ≤ 2147483647) (hh : 1 ≤ height)
    (hhm : height ≤ 2147483647) (hs : sample.size = 1) :
    Settles width height sample L ↔
      240 ≤ width ∧ wantedFactor width height ≤ min width height := by
  rw [le_min_iff, ← one_le_dest_iff, ← one_le_dest_iff]
  constructor
  · rintro ⟨⟨out, hout, -⟩, hdw, hdh⟩
    exact ⟨wide_of_ok hw hs hout, hdw, hdh⟩
  · rintro ⟨hwide, hdw, hdh⟩
    exact ⟨gives_of_wide hwide hwm hh hhm hs, hdw, hdh⟩

/-- **When `calculateSample` is total and blind to the orientation.** -/
theorem sampleLaw_iff (hw : 1 ≤ width) (hwm : width ≤ 2147483647) (hh : 1 ≤ height)
    (hhm : height ≤ 2147483647) (hs : sample.size = 1) :
    SampleLaw width height sample L ↔
      240 ≤ min width height ∧ wantedFactor width height ≤ min width height := by
  constructor
  · rintro ⟨hsettles, out, hout, -⟩
    obtain ⟨hwide, hle⟩ := (settles_iff hw hwm hh hhm hs).mp hsettles
    exact ⟨le_min hwide (wide_of_ok hh hs hout), hle⟩
  · rintro ⟨hmin, hle⟩
    obtain ⟨hwide, htall⟩ := le_min_iff.mp hmin
    refine ⟨(settles_iff hw hwm hh hhm hs).mpr ⟨hwide, hle⟩, ?_⟩
    rw [← wantedFactor_comm]
    exact gives_of_wide htall hhm hw hwm hs

/-- Both orientations of the usual camera size. -/
theorem sampleLaw_camera : SampleLaw 640 480 (.uninit 1 (by decide)) .empty :=
  (sampleLaw_iff (by decide) (by decide) (by decide) (by decide) rfl).mpr (by decide)

/-- A picture small enough to be taken as it is. -/
theorem sampleLaw_fails_small :
    calculateSample 100 100 (.uninit 1 (by decide)) .empty = .error .divByZero ∧
      ¬ SampleLaw 100 100 (.uninit 1 (by decide)) .empty := by
  refine ⟨calculateSample_narrow (by decide) (by decide) rfl, fun h => ?_⟩
  obtain ⟨out, hout, -⟩ := h.settles.gives
  exact absurd (wide_of_ok (by decide) rfl hout) (by decide)

end DlibAndroid
