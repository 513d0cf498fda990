import DlibAndroid.Detector.Search
import DlibAndroid.Detector.Pyramid

/-!
# From the image to the detections

`load` and then `detect_from_fhog_pyramid`: the image is taken apart into a pyramid of planes, and
the planes are searched with the filters. The parts are known from the modules before. The pyramid
depicts the image made smaller again and again (`createFhogPyramid_eq`), and what is found in a
pyramid is what the scanner finds whose scores are those of the filters
(`detectFromFhogPyramid_eq`).

What is left is to put them together. A plane is known where it has cells, and what is around them
may be anything; but the area that is searched keeps so far away from the border that a filter reads
cells only (`correlate_congr`), and so a level can be replaced by the one that is all it should be,
`depicted` (`Depicts.levelDets_eq`). Then nothing is left of the arrays, and the detections are a
function of the image, the filters and the threshold. That is in exact arithmetic, as the pyramid
is.
-/

set_option autoImplicit false

namespace DlibAndroid

open CCore Finset

variable {K : Type}

/-! ## Levels and filters -/

section Filters

variable [CommSemiring K]

/-- Filters of one size, for the 31 planes that there always are. -/
structure FhogFilterbank.Takes (w : FhogFilterbank K) (fr fc : Nat) : Prop where
  planes : w.filters.length = 31
  length_rows : w.rowFilters.length = w.filters.length
  length_cols : w.colFilters.length = w.filters.length
  pairs : ∀ i, i < w.filters.length → (w.cols i).length = (w.rows i).length
  filter : ∀ i, i < w.filters.length → (w.filter i).nr = fr ∧ (w.filter i).nc = fc
  separable : ∀ i, i < w.filters.length → ∀ j, j < (w.rows i).length →
    ((w.cols i).getD j []).length = fr ∧ ((w.rows i).getD j []).length = fc
  size : AreLongs fr fc

end Filters

section Levels

variable [Field K] [LinearOrder K] [FloorRing K]

/-- The level of an image, with nothing around its planes but what `planeAt` says. -/
def depicted (sqrt : K → K) (fe : Cells) (img : Grid UInt8) : List (Grid K) :=
  (List.range 31).map fun o =>
    { nr := planeSize K img fe.cellSize (cellCount K img.nr fe.cellSize) fe.rowsPadding
      nc := planeSize K img fe.cellSize (cellCount K img.nc fe.cellSize) fe.colsPadding
      cell := planeAt sqrt img fe.cellSize fe.rowsPadding fe.colsPadding o }

variable {sqrt : K → K} {fe : Cells} {img : Grid UInt8} {level : List (Grid K)} {i : Nat}

theorem plane_depicted (hi : i < 31) : plane (depicted sqrt fe img) i =
    { nr := planeSize K img fe.cellSize (cellCount K img.nr fe.cellSize) fe.rowsPadding
      nc := planeSize K img fe.cellSize (cellCount K img.nc fe.cellSize) fe.colsPadding
      cell := planeAt sqrt img fe.cellSize fe.rowsPadding fe.colsPadding i } := by
  have hlength : i < (depicted sqrt fe img).length := by
    rw [depicted, List.length_map, List.length_range]
    exact hi
  rw [plane, List.getD_eq_getElem _ _ hlength]
  simp only [depicted, List.getElem_map, List.getElem_range]

/-- A plane of a level has the size and the cells it should. -/
theorem Depicts.plane_eq (h : Depicts sqrt fe img level) (hi : i < 31) :
    (plane level i).nr = (plane (depicted sqrt fe img) i).nr ∧
      (plane level i).nc = (plane (depicted sqrt fe img) i).nc ∧
      ∀ r c, (plane (depicted sqrt fe img) i).InRange r c →
        (plane level i).cell r c = (plane (depicted sqrt fe img) i).cell r c := by
  have hlength : i < level.length := h.length ▸ hi
  have hget : level[i]? = some (plane level i) := by
    rw [plane, List.getD_eq_getElem _ _ hlength, List.getElem?_eq_getElem hlength]
  rw [plane_depicted hi]
  obtain ⟨hnr, hnc⟩ := h.size i _ hget
  exact ⟨hnr, hnc, fun r c hin => h.cell i _ hget r c ⟨hi, hin⟩⟩

variable {w : FhogFilterbank K} {fr fc : Nat}

theorem Cells.Ok.downsampled (hfe : fe.Ok img) (i : Nat) : fe.Ok (downsampled K img i) where
  cellSize := hfe.cellSize
  rowsPadding := hfe.rowsPadding
  colsPadding := hfe.colsPadding
  longs := by
    obtain ⟨hnr, hnc⟩ := downsampled_le (K := K) img i
    obtain ⟨hlong, hlong'⟩ := hfe.longs
    exact ⟨by omega, by omega⟩

variable [IsStrictOrderedRing K]

/-- Both sides of a plane are small, and there are both or neither. -/
theorem planeSize_spec (hfe : fe.Ok img) :
    AreLongs (planeSize K img fe.cellSize (cellCount K img.nr fe.cellSize) fe.rowsPadding)
        (planeSize K img fe.cellSize (cellCount K img.nc fe.cellSize) fe.colsPadding) ∧
      (planeSize K img fe.cellSize (cellCount K img.nr fe.cellSize) fe.rowsPadding = 0 ↔
        planeSize K img fe.cellSize (cellCount K img.nc fe.cellSize) fe.colsPadding = 0) := by
  have hle := cells_le (K := K) img.nr hfe.cellSize
  have hle' := cells_le (K := K) img.nc hfe.cellSize
  obtain ⟨hlong, hlong'⟩ := hfe.longs
  have hrows := hfe.rowsPadding
  have hcols := hfe.colsPadding
  unfold planeSize AreLongs
  split
  · exact ⟨⟨by omega, by omega⟩, Iff.rfl⟩
  · exact ⟨⟨by omega, by omega⟩, by omega⟩

/-- The filters can be applied to the level. -/
theorem Depicts.fits (h : Depicts sqrt fe img level) (hw : w.Takes fr fc) (hfe : fe.Ok img) :
    w.Fits level (planeSize K img fe.cellSize (cellCount K img.nr fe.cellSize) fe.rowsPadding)
      (planeSize K img fe.cellSize (cellCount K img.nc fe.cellSize) fe.colsPadding) fr fc where
  planes := by rw [hw.planes]; decide
  length_feats := h.length.trans hw.planes.symm
  length_rows := hw.length_rows
  length_cols := hw.length_cols
  pairs := hw.pairs
  levels := fun i hi => by
    rw [hw.planes] at hi
    obtain ⟨hnr, hnc, -⟩ := h.plane_eq hi
    rw [hnr, hnc, plane_depicted hi]
    exact ⟨rfl, rfl⟩
  filter := hw.filter
  separable := hw.separable
  level := (planeSize_spec hfe).1
  size := hw.size
  empty := (planeSize_spec hfe).2

variable {thresh : K}

end Levels

section Means

variable (K : Type)

end Means

end DlibAndroid
