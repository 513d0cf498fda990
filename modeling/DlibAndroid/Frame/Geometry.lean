import DlibAndroid.Frame.SamplingSpec

/-!
# Where the pixels of a frame come from

A coordinate found on the frame is multiplied by the sample factor to be drawn over the picture.
That lands on the right spot when the pixel a cell was read from lies in the `s × s` block whose
corner the cell is sent to. The ghost log of a sampler says which index each cell was read from;
`textureOrigin` and `bitmapOrigin` turn an index into a column and a row of the picture, rows
counted from the top.

`sampling` starts at the top and keeps every corner. `samplingTexture` starts at the *bottom* row
of the picture, so the rows `height % s` that are left over are left over at the top: every cell
is read `height % s` rows below where the block would allow (`textureOrigin_row`).
-/

set_option autoImplicit false

namespace DlibAndroid

open CCore

/-- Column and row of the pixel whose first byte is at `index` of a texture buffer. -/
def textureOrigin (width height index : Int) : Int × Int :=
  (index / 4 % width, height - 1 - index / 4 / width)

/-- Column and row of the pixel at `index` of a bitmap. -/
def bitmapOrigin (width index : Int) : Int × Int := (index % width, index / width)

/-- The pixel lies in the `s × s` block that starts where `(x, y)` is sent. -/
def InBlock (s x y : Int) (pixel : Int × Int) : Prop :=
  s * x ≤ pixel.1 ∧ pixel.1 < s * x + s ∧ s * y ≤ pixel.2 ∧ pixel.2 < s * y + s

instance (s x y : Int) (pixel : Int × Int) : Decidable (InBlock s x y pixel) :=
  inferInstanceAs (Decidable (_ ∧ _ ∧ _ ∧ _))

/-- Every cell of the frame has one origin, and it lies in the cell's block. -/
def Sampled.Aligned (out : Sampled) (origin : Int → Int × Int) : Prop :=
  ∃ s, out.sample.read 0 = .ok s ∧
    ∀ x y, x < out.dest.nc.toNat → y < out.dest.nr.toNat →
      ∃ index, (∀ i, (i, y * out.dest.nc.toNat + x) ∈ out.log ↔ i = index) ∧
        InBlock s x y (origin index)

/-- Both samplers succeed on a picture of this size, from whatever frame and factor they find, and
leave frames whose cells come from their own blocks. -/
def CoordinatesSurvive (abi : Abi) (buffer : Block UInt8) (src : Block (BitVec 32))
    (width height : Int) : Prop :=
  ∀ (sample : Block Int) (dest : Array2d) (L : Ledger), sample.size = 1 →
    (∃ out, samplingTexture abi buffer width height sample dest L = .ok out ∧
      out.Aligned (textureOrigin width height)) ∧
    ∃ out, sampling abi src width height sample dest L = .ok out ∧
      out.Aligned (bitmapOrigin width)

section Origins

variable {width height s : Int} {i j : Nat}

/-! ## The origin of a cell -/

theorem grid_column (hs : 1 ≤ s) (hj : (j : Int) < width / s) :
    (i * s * width + j * s) % width = s * j := by
  have hj' : ((j : Int) + 1) * s ≤ width := (Int.le_ediv_iff_mul_le (by omega)).mp (by omega)
  have hjs : (0 : Int) ≤ j * s := by positivity
  rw [add_comm, Int.add_mul_emod_self_right, Int.emod_eq_of_lt hjs (by linarith), mul_comm]

theorem grid_row (hs : 1 ≤ s) (hj : (j : Int) < width / s) :
    (i * s * width + j * s) / width = s * i := by
  have hj' : ((j : Int) + 1) * s ≤ width := (Int.le_ediv_iff_mul_le (by omega)).mp (by omega)
  have hjs : (0 : Int) ≤ j * s := by positivity
  rw [add_comm, Int.add_mul_ediv_right _ _ (by linarith), Int.ediv_eq_zero_of_lt hjs (by linarith),
    zero_add, mul_comm]

/-- `sampling` reads the corner of the block. -/
theorem bitmapOrigin_inBlock (hs : 1 ≤ s) (hj : (j : Int) < width / s) :
    InBlock s j i (bitmapOrigin width (i * s * width + j * s)) := by
  rw [bitmapOrigin, grid_column hs hj, grid_row hs hj]
  exact ⟨le_refl _, by omega, le_refl _, by omega⟩

/-- The sampled row `i` from the bottom is `height % s` rows below the first row of its block, plus
the `s - 1` a count from the other end costs. -/
theorem textureOrigin_row (hs : 1 ≤ s) (hj : (j : Int) < width / s) :
    textureOrigin width height (4 * (i * s * width + j * s)) =
      (s * j, s * (height / s - 1 - i) + (height % s + s - 1)) := by
  have h4 : 4 * ((i : Int) * s * width + j * s) / 4 = i * s * width + j * s := by omega
  have hheight := Int.mul_ediv_add_emod height s
  rw [textureOrigin, h4, grid_column hs hj, grid_row hs hj, Prod.mk.injEq]
  exact ⟨rfl, by linarith⟩

/-- `samplingTexture` stays inside the block only when no row of the picture is left over. -/
theorem textureOrigin_inBlock_iff (hs : 1 ≤ s) (hj : (j : Int) < width / s) :
    InBlock s j (height / s - 1 - i) (textureOrigin width height (4 * (i * s * width + j * s))) ↔
      s ∣ height := by
  have hmod := Int.emod_nonneg height (show s ≠ 0 by omega)
  rw [textureOrigin_row hs hj, InBlock, Int.dvd_iff_emod_eq_zero]
  constructor
  · rintro ⟨-, -, -, h⟩
    linarith
  · intro h
    rw [h]
    exact ⟨le_refl _, by omega, by omega, by omega⟩

end Origins

/-! ## The frames of the samplers -/

section Frames

variable {width height : Int} {rows : List Nat} {entry : Nat → Nat → Int × UInt8} {L : Ledger}
  {out : Sampled}

/-- The log names one origin for each cell. -/
theorem SampledFrom.aligned_iff (h : SampledFrom width height rows entry L out)
    (origin : Int → Int × Int) :
    out.Aligned origin ↔ ∀ x y, x < (width / sampleFactor width height).toNat →
      y < (height / sampleFactor width height).toNat →
      InBlock (sampleFactor width height) x y (origin (entry (rows.getD y 0) x).1) := by
  obtain ⟨hnr, hnc, -⟩ := Array2d.view_eq_ok.mp h.view
  have hread : out.sample.read 0 = .ok (sampleFactor width height) := by rw [h.sample]; rfl
  have hlog : ∀ x y, x < (width / sampleFactor width height).toNat →
      y < (height / sampleFactor width height).toNat → ∀ i,
      (i, y * (width / sampleFactor width height).toNat + x) ∈ out.log ↔
        i = (entry (rows.getD y 0) x).1 := by
    intro x y hx hy i
    have hy' : y < rows.length := by rw [h.rows_length]; exact hy
    rw [h.log, List.mem_zipIdx_iff_getElem?, List.getElem?_map, getElem?_gridEntries entry hy' hx,
      Option.map_some, Option.some.injEq, eq_comm]
  simp only [gridImage] at hnr hnc
  rw [Sampled.Aligned, ← hnr, ← hnc]
  constructor
  · rintro ⟨s, hs, hall⟩ x y hx hy
    obtain rfl := Except.ok.inj (hread.symm.trans hs)
    obtain ⟨index, hindex, hin⟩ := hall x y hx hy
    rwa [← (hlog x y hx hy index).mp ((hindex index).mpr rfl)]
  · intro hall
    exact ⟨_, hread, fun x y hx hy => ⟨_, hlog x y hx hy, hall x y hx hy⟩⟩

variable {abi : Abi} {buffer : Block UInt8} {src : Block (BitVec 32)} {bytes : Nat → UInt8}
  {pixels : Nat → BitVec 32}

theorem sampling_aligned (hw : 240 ≤ width)
    (h : SampledFrom width height (intRows width height) (intEntry abi pixels width height) L out) :
    out.Aligned (bitmapOrigin width) := by
  rw [h.aligned_iff]
  intro x y hx hy
  rw [getD_intRows hy]
  exact bitmapOrigin_inBlock (one_le_sampleFactor height hw) (by omega)

theorem samplingTexture_aligned_iff (hw : 240 ≤ width) (hh : 1 ≤ height)
    (h : SampledFrom width height (textureRows width height)
      (textureEntry abi bytes width height) L out) :
    out.Aligned (textureOrigin width height) ↔
      sampleFactor width height ∣ height ∨ height < sampleFactor width height ∨
        width < sampleFactor width height := by
  have hs := one_le_sampleFactor height hw
  have hdh : 0 ≤ height / sampleFactor width height := Int.ediv_nonneg (by omega) (by omega)
  rw [h.aligned_iff]
  -- at each cell there is, the question is the same
  have hcell : ∀ x y, x < (width / sampleFactor width height).toNat →
      y < (height / sampleFactor width height).toNat →
      (InBlock (sampleFactor width height) x y (textureOrigin width height
        (textureEntry abi bytes width height ((textureRows width height).getD y 0) x).1) ↔
        sampleFactor width height ∣ height) := by
    intro x y hx hy
    rw [getD_textureRows hy]
    have hrow : (y : Int) = height / sampleFactor width height - 1 -
        (((height / sampleFactor width height).toNat - 1 - y : Nat) : Int) := by omega
    rw [hrow]
    exact textureOrigin_inBlock_iff hs (by omega)
  constructor
  · intro hall
    by_cases hempty : height < sampleFactor width height ∨ width < sampleFactor width height
    · exact Or.inr hempty
    · have hone : ∀ n, sampleFactor width height ≤ n →
          0 < (n / sampleFactor width height).toNat := by
        intro n hn
        have hdiv : 1 ≤ n / sampleFactor width height :=
          (Int.le_ediv_iff_mul_le (by omega)).mpr (by omega)
        omega
      have hx := hone width (by omega)
      have hy := hone height (by omega)
      exact Or.inl ((hcell 0 0 hx hy).mp (hall 0 0 hx hy))
  · rintro (hdvd | hlt | hlt) x y hx hy
    · exact (hcell x y hx hy).mpr hdvd
    · rw [Int.ediv_eq_zero_of_lt (by omega) hlt] at hy
      exact absurd hy (Nat.not_lt_zero _)
    · rw [Int.ediv_eq_zero_of_lt (by omega) hlt] at hx
      exact absurd hx (Nat.not_lt_zero _)

/-- **When coordinates survive the trip.** For every picture that is there to be sampled, exactly
when the factor divides the height, or is so large that the frame has no cell at all. -/
theorem coordinatesSurvive_iff (abi : Abi) (hw : 240 ≤ width) (hh : 1 ≤ height)
    (hbuffer : buffer.Holds (4 * (width * height)).toNat bytes)
    (hsrc : src.Holds (width * height).toNat pixels) :
    CoordinatesSurvive abi buffer src width height ↔
      sampleFactor width height ∣ height ∨ height < sampleFactor width height ∨
        width < sampleFactor width height := by
  have hfit : 4 * (width * height) ≤ 2147483647 := by
    have := hbuffer.le_maxBlock
    unfold maxBlock at this
    omega
  have htexture := fun sample dest L (hs : Block.size sample = 1) =>
    samplingTexture_ok abi dest L hw hh hfit hbuffer hs
  constructor
  · intro h
    obtain ⟨⟨out, hrun, haligned⟩, -⟩ := h (factorBlock width height) .new .empty rfl
    obtain ⟨out', hrun', hout⟩ := htexture (factorBlock width height) .new .empty rfl
    obtain rfl := Except.ok.inj (hrun.symm.trans hrun')
    exact (samplingTexture_aligned_iff hw hh hout).mp haligned
  · intro h sample dest L hs
    obtain ⟨texture, hT, houtT⟩ := htexture sample dest L hs
    obtain ⟨ints, hI, houtI⟩ := sampling_ok abi dest L hw hh (by omega) hsrc hs
    exact ⟨⟨texture, hT, (samplingTexture_aligned_iff hw hh houtT).mpr h⟩,
      ints, hI, sampling_aligned hw houtI⟩

end Frames

/-- Factor 2, and no row left over. -/
theorem coordinatesSurvive_square : CoordinatesSurvive .armeabiV7a
    (.tabulate 921600 (fun _ => 0) (by decide)) (.tabulate 230400 (fun _ => 0) (by decide))
    480 480 :=
  (coordinatesSurvive_iff .armeabiV7a (by decide) (by decide) (Block.holds_tabulate (by decide))
    (Block.holds_tabulate (by decide))).mpr (Or.inl (by decide))

/-- Factor 2, and one row left over. -/
theorem coordinatesLost_oddHeight : ¬ CoordinatesSurvive .armeabiV7a
    (.tabulate 462720 (fun _ => 0) (by decide)) (.tabulate 115680 (fun _ => 0) (by decide))
    480 241 := by
  intro h
  have hbuffer : (Block.tabulate 462720 (fun _ => (0 : UInt8)) (by decide)).Holds
      (4 * (480 * 241) : Int).toNat fun _ => 0 := Block.holds_tabulate (by decide)
  obtain ⟨⟨out, hrun, haligned⟩, -⟩ := h (factorBlock 480 241) .new .empty rfl
  obtain ⟨out', hrun', hout⟩ := samplingTexture_ok .armeabiV7a .new .empty (by decide) (by decide)
    (by decide) hbuffer (show (factorBlock 480 241).size = 1 from rfl)
  obtain rfl := Except.ok.inj (hrun.symm.trans hrun')
  exact absurd ((samplingTexture_aligned_iff (by decide) (by decide) hout).mp haligned) (by decide)

end DlibAndroid
