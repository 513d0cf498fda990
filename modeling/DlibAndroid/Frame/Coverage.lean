import DlibAndroid.Frame.Factor

/-!
# Every cell once, nothing outside

The running pointer of a sampler against the grid it is meant to fill. `Covers` says what that
takes: the pointer goes through the storage of the frame from its first cell to its last, and the
cell of row `r`, column `c` gets what was read at `index r c`, an index of the input.

Which rows the outer loop lists, and in which order, is all that differs between the samplers;
`SampledFrom.covers` is stated for any list of rows. The frame may be empty: a side shorter than
the factor leaves no row or no column.
-/

set_option autoImplicit false

namespace DlibAndroid

open CCore

variable {width height : Int} {sample : Block Int} {L : Ledger} {out : Sampled}

/-- The frame has `nr` rows and `nc` columns, and the pointer was advanced once for each cell. The
cell of row `r` and column `c` was written from the elements `index r c` to `index r c + more` of
an input of `n`, by this one step, and holds `gray r c`. -/
structure Covers (n nr nc more : Int) (index : Nat → Nat → Int) (gray : Nat → Nat → UInt8)
    (out : Sampled) : Prop where
  nr_eq : out.dest.nr = nr
  nc_eq : out.dest.nc = nc
  advanced : out.log.length = nc.toNat * nr.toNat
  once : out.log.map Prod.snd = List.range out.dest.data.size
  inside : ∀ r c, r < nr.toNat → c < nc.toNat → 0 ≤ index r c ∧ index r c + more < n
  origin : ∀ r c, r < nr.toNat → c < nc.toNat →
    out.log[r * nc.toNat + c]? = some (index r c, r * nc.toNat + c)
  cell : ∀ r c, r < nr.toNat → c < nc.toNat →
    out.dest.data.cells[r * nc.toNat + c]? = some (some (gray r c))

/-- What a sampler leaves, cell by cell, whatever rows its outer loop lists. -/
theorem SampledFrom.covers {rows : List Nat} {entry : Nat → Nat → Int × UInt8} {n more : Int}
    {index : Nat → Nat → Int} {gray : Nat → Nat → UInt8}
    (h : SampledFrom width height rows entry L out)
    (hentry : ∀ r c : Nat, (r : Int) < height / sampleFactor width height →
      (c : Int) < width / sampleFactor width height →
      entry (rows.getD r 0) c = (index r c, gray r c))
    (hinside : ∀ r c : Nat, (r : Int) < height / sampleFactor width height →
      (c : Int) < width / sampleFactor width height → 0 ≤ index r c ∧ index r c + more < n) :
    Covers n (height / sampleFactor width height) (width / sampleFactor width height) more
      index gray out := by
  obtain ⟨hnr, hnc, hcells⟩ := Array2d.view_eq_ok.mp h.view
  have hlen : out.log.length = rows.length * (width / sampleFactor width height).toNat := by
    rw [h.log, List.length_zipIdx, List.length_map, length_gridEntries]
  -- what the loops put for row `r`, column `c` of the grid
  have hgrid : ∀ r c, r < (height / sampleFactor width height).toNat →
      c < (width / sampleFactor width height).toNat →
      (gridEntries rows (width / sampleFactor width height).toNat entry)[r *
        (width / sampleFactor width height).toNat + c]? = some (index r c, gray r c) := by
    intro r c hr hc
    have hr' : r < rows.length := by rw [h.rows_length]; exact hr
    rw [getElem?_gridEntries entry hr' hc, hentry r c (by omega) (by omega)]
  refine ⟨hnr.symm, hnc.symm, ?_, ?_, fun r c hr hc => ?_, fun r c hr hc => ?_, fun r c hr hc => ?_⟩
  · rw [hlen, h.rows_length, Nat.mul_comm]
  · have hsize : out.dest.data.size = out.log.length := by
      rw [hlen, out.dest.size_eq, ← hnr, ← hnc, gridImage, h.rows_length]
    rw [hsize, h.log, List.zipIdx_map_snd, List.range_eq_range', List.length_zipIdx]
  · exact hinside r c (by omega) (by omega)
  · rw [h.log, List.getElem?_zipIdx, List.getElem?_map, hgrid r c hr hc]
    simp
  · rw [hcells, gridImage, List.getElem?_map, List.getElem?_map, hgrid r c hr hc]
    rfl

/-! ## The two samplers -/

/-- The element `sampling` reads for a cell, with factor `s`. -/
def intOrigin (width s : Int) (r c : Nat) : Int := r * s * width + c * s

/-- The first of the three bytes `samplingTexture` reads for a cell, with factor `s` and
`destHeight` rows. -/
def textureOffset (width s destHeight : Int) (r c : Nat) : Int :=
  4 * ((destHeight - 1 - r) * s * width + c * s)

/-- The gray of an element of the array. -/
def intGray (abi : Abi) (pixels : Nat → BitVec 32) (k : Int) : UInt8 :=
  let clr := pixels k.toNat
  abi.gray (redOf clr) (greenOf clr) (blueOf clr)

/-- The gray of three bytes of the buffer. -/
def textureGray (abi : Abi) (bytes : Nat → UInt8) (k : Int) : UInt8 :=
  abi.gray (abi.charToInt (bytes k.toNat)) (abi.charToInt (bytes (k + 1).toNat))
    (abi.charToInt (bytes (k + 2).toNat))

theorem intOrigin_inside {s : Int} {r c : Nat} (hs : 0 < s) (hw : 0 ≤ width)
    (hr : (r : Int) < height / s) (hc : (c : Int) < width / s) :
    0 ≤ intOrigin width s r c ∧ intOrigin width s r c < width * height :=
  ⟨gridIndex_nonneg hs.le hw (Int.natCast_nonneg r) (Int.natCast_nonneg c),
    gridIndex_lt hs hw hr hc⟩

theorem textureOffset_inside {s : Int} {r c : Nat} (hs : 0 < s) (hw : 0 ≤ width)
    (hr : (r : Int) < height / s) (hc : (c : Int) < width / s) :
    0 ≤ textureOffset width s (height / s) r c ∧
      textureOffset width s (height / s) r c + 2 < 4 * (width * height) := by
  have hrow : height / s - 1 - r < height / s := by omega
  have hlt := gridIndex_lt hs hw hrow hc
  have hnn := gridIndex_nonneg (i := height / s - 1 - r) hs.le hw (by omega)
    (Int.natCast_nonneg c)
  unfold textureOffset
  exact ⟨by linarith, by omega⟩

theorem sampling_covers (abi : Abi) (dest : Array2d) (L : Ledger) {src : Block (BitVec 32)}
    {pixels : Nat → BitVec 32} (hw : 240 ≤ width) (hh : 1 ≤ height)
    (hfit : width * height ≤ 2147483647) (hb : src.Holds (width * height).toNat pixels)
    (hs : sample.size = 1) :
    ∃ out, sampling abi src width height sample dest L = .ok out ∧
      Covers (width * height) (height / sampleFactor width height)
        (width / sampleFactor width height) 0 (intOrigin width (sampleFactor width height))
        (fun r c => intGray abi pixels (intOrigin width (sampleFactor width height) r c)) out := by
  obtain ⟨out, hout, hfrom⟩ := sampling_ok abi dest L hw hh hfit hb hs
  have hs1 : 0 < sampleFactor width height := one_le_sampleFactor height hw
  refine ⟨out, hout, hfrom.covers (fun r c hr hc => ?_) fun r c hr hc => ?_⟩
  · rw [getD_intRows (by omega)]
    rfl
  · rw [add_zero]
    exact intOrigin_inside hs1 (by omega) hr hc

theorem samplingTexture_covers (abi : Abi) (dest : Array2d) (L : Ledger) {buffer : Block UInt8}
    {bytes : Nat → UInt8} (hw : 240 ≤ width) (hh : 1 ≤ height)
    (hfit : 4 * (width * height) ≤ 2147483647)
    (hb : buffer.Holds (4 * (width * height)).toNat bytes) (hs : sample.size = 1) :
    ∃ out, samplingTexture abi buffer width height sample dest L = .ok out ∧
      Covers (4 * (width * height)) (height / sampleFactor width height)
        (width / sampleFactor width height) 2
        (textureOffset width (sampleFactor width height) (height / sampleFactor width height))
        (fun r c => textureGray abi bytes (textureOffset width (sampleFactor width height)
          (height / sampleFactor width height) r c)) out := by
  obtain ⟨out, hout, hfrom⟩ := samplingTexture_ok abi dest L hw hh hfit hb hs
  have hs1 : 0 < sampleFactor width height := one_le_sampleFactor height hw
  refine ⟨out, hout, hfrom.covers (fun r c hr hc => ?_) fun r c hr hc => ?_⟩
  · -- the rows are counted down, so row `r` of the frame is row `destHeight - 1 - r` of the loop
    have hrow : (((height / sampleFactor width height).toNat - 1 - r : Nat) : Int) =
        height / sampleFactor width height - 1 - r := by omega
    rw [getD_textureRows (by omega), textureEntry, hrow]
    rfl
  · exact textureOffset_inside hs1 (by omega) hr hc

/-- **Both samplers**, with the factor and the sides as `calculateSample` returns them: from any
frame and any factor an earlier call has left, the new frame is covered, and only from inside the
input. -/
theorem samplers_cover (abi : Abi) (dest dest' : Array2d) (L L' : Ledger) {sample' : Block Int}
    {src : Block (BitVec 32)} {pixels : Nat → BitVec 32} {buffer : Block UInt8}
    {bytes : Nat → UInt8} (hw : 240 ≤ width) (hh : 1 ≤ height)
    (hfit : 4 * (width * height) ≤ 2147483647)
    (hsrc : src.Holds (width * height).toNat pixels)
    (hbuffer : buffer.Holds (4 * (width * height)).toNat bytes)
    (hs : sample.size = 1) (hs' : sample'.size = 1) :
    ∃ size s dw dh, calculateSample width height sample L = .ok size ∧ Gives size s dw dh ∧
      (∃ out, sampling abi src width height sample dest L = .ok out ∧
        Covers (width * height) dh dw 0 (intOrigin width s)
          (fun r c => intGray abi pixels (intOrigin width s r c)) out) ∧
      ∃ out, samplingTexture abi buffer width height sample' dest' L' = .ok out ∧
        Covers (4 * (width * height)) dh dw 2 (textureOffset width s dh)
          (fun r c => textureGray abi bytes (textureOffset width s dh r c)) out :=
  ⟨_, _, _, _, calculateSample_ok hw (by nlinarith) hh (by nlinarith) hs, ⟨rfl, rfl, rfl⟩,
    sampling_covers abi dest L hw hh (by omega) hsrc hs,
    samplingTexture_covers abi dest' L' hw hh hfit hbuffer hs'⟩

/-- A strip one row high, into frames that were never filled. -/
theorem samplers_cover_strip : ∃ size s dw dh,
    calculateSample 480 2 (.uninit 1 (by decide)) .empty = .ok size ∧ Gives size s dw dh ∧
      (∃ out, sampling .x86 (.tabulate 960 (fun _ => 0) (by decide)) 480 2 (.uninit 1 (by decide))
          .new .empty = .ok out ∧
        Covers (480 * 2) dh dw 0 (intOrigin 480 s)
          (fun r c => intGray .x86 (fun _ => 0) (intOrigin 480 s r c)) out) ∧
      ∃ out, samplingTexture .x86 (.tabulate 3840 (fun _ => 0) (by decide)) 480 2
          (.uninit 1 (by decide)) .new .empty = .ok out ∧
        Covers (4 * (480 * 2)) dh dw 2 (textureOffset 480 s dh)
          (fun r c => textureGray .x86 (fun _ => 0) (textureOffset 480 s dh r c)) out :=
  samplers_cover .x86 .new .new .empty .empty (by decide) (by decide) (by decide)
    (Block.holds_tabulate rfl) (Block.holds_tabulate rfl) rfl rfl

end DlibAndroid
