import DlibAndroid.Detector.Features

/-!
# What `extract_fhog_features` comes to

`planeAt` says without a loop what a plane has in a cell: a feature of the histograms of the image,
or zero in the border that the padding leaves. It is a function of the image, the size of the cells
and the padding, and of nothing else, so what the planes held before, what a histogram or a norm had
in memory when it was new, and the order in which all of it is filled have no part in it.

The code gets there in four steps: the planes get their size and their border (`initHog_eq`), the
pixels vote, the cells get their energies, and the features are written cell by cell
(`setAllFeatures_eq`). Every cell of every plane is written by the first step or by the last one
(`extract_written`). An image with less than three cells one way has no cell that is surrounded by
others; then there are 31 planes of no size (`planeSize`).

All this is for cells of more than one pixel and in exact arithmetic, where the votes do not depend
on the blocks that the pixels come in. From there on it is one formula, and a formula can be
bounded: a feature is a sum of four values that are cut off at a tenth each (`features_bounded`).
The program as it runs rounds on the way and gets a little above the bound.
-/

set_option autoImplicit false

namespace DlibAndroid

open CCore Finset

variable {K : Type}

/-! ## The border of the planes -/

/-- The cells that features are set for. -/
def Inside (rowsOffset colsOffset hogNr hogNc r c : Int) : Prop :=
  (rowsOffset ≤ r ∧ r < rowsOffset + hogNr) ∧ colsOffset ≤ c ∧ c < colsOffset + hogNc

instance (rowsOffset colsOffset hogNr hogNc r c : Int) :
    Decidable (Inside rowsOffset colsOffset hogNr hogNc r c) :=
  inferInstanceAs (Decidable (_ ∧ _))

/-- These are what the loops over the cells go through. -/
theorem exists_offset {rowsOffset colsOffset hogNr hogNc r c : Int}
    (h : Inside rowsOffset colsOffset hogNr hogNc r c) :
    ∃ y ∈ upTo 0 (hogNr - 1), ∃ x ∈ upTo 0 (hogNc - 1),
      r = y + rowsOffset ∧ c = x + colsOffset := by
  rw [Inside] at h
  exact ⟨r - rowsOffset, mem_upTo.mpr (by omega), c - colsOffset, mem_upTo.mpr (by omega),
    (sub_add_cancel _ _).symm, (sub_add_cancel _ _).symm⟩

section Border

variable [Field K] {hogNr hogNc rowsPadding colsPadding : Int}

/-- Where the cells begin and where they end in a plane that has the padding on both sides. -/
theorem toInt_padded {size padding : Int} (hsize : 1 ≤ size) (hpadding : 1 ≤ padding)
    (hlong : (size + padding - 1).toNat < 2 ^ 31) :
    ((0 : Int32) + .ofInt ((padding - 1).tdiv 2)).toInt = (padding - 1).tdiv 2 ∧
      (Int32.ofInt ((size + padding - 1).toNat - 1) - .ofInt (padding.tdiv 2)).toInt =
        (padding - 1).tdiv 2 + size - 1 := by
  have hlow : (padding - 1).tdiv 2 = (padding - 1) / 2 := Int.tdiv_eq_ediv_of_nonneg (by omega)
  have hhigh : padding.tdiv 2 = padding / 2 := Int.tdiv_eq_ediv_of_nonneg (by omega)
  rw [hlow, hhigh]
  constructor
  · rw [Int32.zero_add]
    exact Int32.toInt_ofInt_of_le (by omega) (by omega)
  · rw [← Int32.ofInt_sub, Int32.toInt_ofInt_of_le (by omega) (by omega)]
    omega

variable {garbage : Int → Int → K} {hog : List (Grid K)} {i : Nat}

variable (garbage) in
/-- A plane gets its size, and zeros around the cells. -/
theorem initPlane_eq (hhogNr : 1 ≤ hogNr) (hhogNc : 1 ≤ hogNc) (hrows : 1 ≤ rowsPadding)
    (hcols : 1 ≤ colsPadding)
    (hlongs : AreLongs (hogNr + rowsPadding - 1).toNat (hogNc + colsPadding - 1).toNat)
    (hi : i < hog.length) :
    ∃ img, initPlane garbage hogNr hogNc rowsPadding colsPadding i hog = .ok (hog.set i img) ∧
      (img.nr = (hogNr + rowsPadding - 1).toNat ∧ img.nc = (hogNc + colsPadding - 1).toNat) ∧
      ∀ r c, img.InRange r c → ¬ Inside ((rowsPadding - 1).tdiv 2) ((colsPadding - 1).tdiv 2)
        hogNr hogNc r c → img.cell r c = 0 := by
  obtain ⟨htop, hbottom⟩ := toInt_padded hhogNr hrows hlongs.1
  obtain ⟨hleft, hright⟩ := toInt_padded hhogNc hcols hlongs.2
  rw [initPlane, index_of_lt hi, ok_bind]
  simp only
  rw [zeroBorderPixels_paint _ (by rw [Grid.setSize_nr]; exact hlongs.1)
    (by rw [Grid.setSize_nc]; exact hlongs.2)]
  refine ⟨_, rfl, ⟨Grid.setSize_nr garbage, Grid.setSize_nc garbage⟩, fun r c hin hout => ?_⟩
  rw [Grid.inRange_paint] at hin
  rw [Grid.paint_cell, if_pos]
  rw [decide_eq_true_iff]
  refine ⟨hin, fun hcontains => hout ?_⟩
  rw [Rectangle.Contains] at hcontains
  simp only [getRect, Grid.setSize_nr, Grid.setSize_nc, htop, hbottom, hleft, hright] at hcontains
  rw [Inside]
  omega

variable (garbage hog) in
/-- All 31 planes get their size and their border. -/
theorem initHog_eq (hhogNr : 1 ≤ hogNr) (hhogNc : 1 ≤ hogNc) (hrows : 1 ≤ rowsPadding)
    (hcols : 1 ≤ colsPadding)
    (hlongs : AreLongs (hogNr + rowsPadding - 1).toNat (hogNc + colsPadding - 1).toNat)
    {F : Nat → Int → Int → K} (hF : ∀ o r c, ¬ Inside ((rowsPadding - 1).tdiv 2)
      ((colsPadding - 1).tdiv 2) hogNr hogNc r c → F o r c = 0) :
    ∃ hog', initHog garbage hogNr hogNc rowsPadding colsPadding hog = .ok hog' ∧
      Written F 31 (hogNr + rowsPadding - 1).toNat (hogNc + colsPadding - 1).toNat
        (fun p => ((0 ≤ p.2.1 ∧ p.2.1 < (hogNr + rowsPadding - 1).toNat) ∧
            0 ≤ p.2.2 ∧ p.2.2 < (hogNc + colsPadding - 1).toNat) ∧
          ¬ Inside ((rowsPadding - 1).tdiv 2) ((colsPadding - 1).tdiv 2) hogNr hogNc p.2.1 p.2.2)
        hog' := by
  let Good : Grid K → Prop := fun img => (img.nr = (hogNr + rowsPadding - 1).toNat ∧
    img.nc = (hogNc + colsPadding - 1).toNat) ∧ ∀ r c, img.InRange r c →
      ¬ Inside ((rowsPadding - 1).tdiv 2) ((colsPadding - 1).tdiv 2) hogNr hogNc r c →
        img.cell r c = 0
  -- the planes before `i` are done
  have hstep : ∀ i, i < 31 → ∀ hog : List (Grid K),
      hog.length = 31 ∧ (∀ o, o < i → ∀ img, hog[o]? = some img → Good img) →
      ∃ hog', initPlane garbage hogNr hogNc rowsPadding colsPadding i hog = .ok hog' ∧
        hog'.length = 31 ∧ ∀ o, o < i + 1 → ∀ img, hog'[o]? = some img → Good img := by
    rintro i hi hog ⟨hlength, hdone⟩
    obtain ⟨img, hrun, hgood⟩ := initPlane_eq garbage hhogNr hhogNc hrows hcols hlongs
      (hlength ▸ hi)
    refine ⟨_, hrun, by rw [List.length_set, hlength], fun o ho img' himg' => ?_⟩
    rw [List.getElem?_set] at himg'
    split at himg'
    · rw [if_pos (by omega)] at himg'
      exact Option.some.inj himg' ▸ hgood
    · exact hdone o (by omega) img' himg'
  obtain ⟨hog', hrun, hlength, hdone⟩ := forEach_range _ hstep (s := resizeHog garbage 31 hog)
    ⟨by rw [resizeHog, List.length_map, List.length_range],
      fun o ho => absurd ho (Nat.not_lt_zero o)⟩
  have hgood : ∀ (o : Nat) (img : Grid K), hog'[o]? = some img → Good img := fun o img ho =>
    hdone o (hlength ▸ (List.getElem?_eq_some_iff.mp ho).1) img ho
  refine ⟨hog', hrun, hlength, fun o img ho => (hgood o img ho).1, fun o img ho r c hS => ?_⟩
  obtain ⟨⟨hnr, hnc⟩, hzero⟩ := hgood o img ho
  rw [hF o r c hS.2]
  refine hzero r c ?_ hS.2
  rw [Grid.InRange, hnr, hnc]
  exact hS.1

end Border

/-! ## The whole of it -/

section AllFeatures

variable [Field K] [LinearOrder K] {fl : Rounding K} {sqrt : K → K}
variable {hog : List (Grid K)} {hogNr hogNc : Int} {nr nc : Nat}

/-- The features of all cells, over what `initHog` left. -/
theorem setAllFeatures_eq {hist : Hist K} {norm : Grid K} {F : Nat → Int → Int → K}
    {S : Nat × Int × Int → Prop} {h : Int → Int → Nat → K} {rowsOffset colsOffset : Int}
    (hhist : HasRoom (hogNr + 2) (hogNc + 2) hist) (hh : hist.cell = h)
    (hnr : (norm.nr : Int) = hogNr + 2) (hnc : (norm.nc : Int) = hogNc + 2)
    (hnorm : ∀ r c, norm.InRange r c → norm.cell r c = energyAt fl (h (r + 1) (c + 1)))
    (hrows : 0 ≤ rowsOffset ∧ hogNr + rowsOffset ≤ nr)
    (hcols : 0 ≤ colsOffset ∧ hogNc + colsOffset ≤ nc)
    (hF : ∀ o y x, (0 ≤ y ∧ y < hogNr) → (0 ≤ x ∧ x < hogNc) →
      F o (y + rowsOffset) (x + colsOffset) =
        featureAt fl (normsAt fl sqrt (fun r c => energyAt fl (h (r + 1) (c + 1))) y x)
          (h (y + 1 + 1) (x + 1 + 1)) o)
    (hs : Written F 31 nr nc S hog) :
    ∃ hog', forEach (upTo 0 (hogNr - 1)) (fun y => forEach (upTo 0 (hogNc - 1))
        (setFeatures fl sqrt hist norm rowsOffset colsOffset y)) hog = .ok hog' ∧
      Written F 31 nr nc (fun p => S p ∨ ∃ y ∈ upTo 0 (hogNr - 1), ∃ x ∈ upTo 0 (hogNc - 1),
        p.1 < 31 ∧ p.2.1 = y + rowsOffset ∧ p.2.2 = x + colsOffset) hog' := by
  subst hh
  refine forEach_covers (Written F 31 nr nc) (fun y hy S hog hs => ?_) hs
  refine forEach_covers (Written F 31 nr nc) (fun x hx S hog hs => ?_) hs
  rw [mem_upTo] at hy hx
  refine setFeatures_eq hnorm ?_ (by omega) (by omega) (by omega) (by omega)
    (fun o => hF o y x (by omega) (by omega)) hs
  rw [Grid.InRange, hhist.1, hhist.2]
  omega

end AllFeatures

section Extract

variable [Field K] [LinearOrder K] [FloorRing K]

/-- So many rows or columns of cells are in an image, the nearest number there is. -/
def cellCount (K : Type) [Field K] [LinearOrder K] [FloorRing K] (size : Nat) (cellSize : Int) :
    Int :=
  round ((size : K) / cellSize)

/-- The histograms of an image, as a sum over its pixels. -/
def histogramOf (sqrt : K → K) (img : Grid UInt8) (cellSize : Int) : Int → Int → Nat → K :=
  histogram sqrt img cellSize (min (cellCount K img.nr cellSize * cellSize) img.nr - 1)
    (min (cellCount K img.nc cellSize * cellSize) img.nc - 1)

/-- The rows or columns of a plane, for so many cells that way: those with features, and the
padding. An image that is too small has none. -/
def planeSize (K : Type) [Field K] [LinearOrder K] [FloorRing K] (img : Grid UInt8)
    (cellSize cellsThatWay padding : Int) : Nat :=
  if cellCount K img.nr cellSize ≤ 2 ∨ cellCount K img.nc cellSize ≤ 2 then 0
  else (cellsThatWay - 2 + padding - 1).toNat

/-- The features of the cell in row `y` and column `x`. -/
def fhogAt (sqrt : K → K) (img : Grid UInt8) (cellSize y x : Int) (o : Nat) : K :=
  let h := histogramOf sqrt img cellSize
  featureAt .exact (normsAt .exact sqrt (fun r c => energyAt .exact (h (r + 1) (c + 1))) y x)
    (h (y + 1 + 1) (x + 1 + 1)) o

/-- What a plane has in row `r` and column `c`. -/
def planeAt (sqrt : K → K) (img : Grid UInt8) (cellSize rowsPadding colsPadding : Int) (o : Nat)
    (r c : Int) : K :=
  if Inside ((rowsPadding - 1).tdiv 2) ((colsPadding - 1).tdiv 2) (cellCount K img.nr cellSize - 2)
      (cellCount K img.nc cellSize - 2) r c then
    fhogAt sqrt img cellSize (r - (rowsPadding - 1).tdiv 2) (c - (colsPadding - 1).tdiv 2) o
  else 0

variable {cellSize rowsPadding colsPadding : Int}

/-- The features of a cell are as far into the plane as the padding before it. -/
theorem planeAt_inside {sqrt : K → K} {img : Grid UInt8} {y x : Int} (o : Nat)
    (hy : 0 ≤ y ∧ y < cellCount K img.nr cellSize - 2)
    (hx : 0 ≤ x ∧ x < cellCount K img.nc cellSize - 2) :
    planeAt sqrt img cellSize rowsPadding colsPadding o (y + (rowsPadding - 1).tdiv 2)
      (x + (colsPadding - 1).tdiv 2) = fhogAt sqrt img cellSize y x o := by
  have hinside : Inside ((rowsPadding - 1).tdiv 2) ((colsPadding - 1).tdiv 2)
      (cellCount K img.nr cellSize - 2) (cellCount K img.nc cellSize - 2)
      (y + (rowsPadding - 1).tdiv 2) (x + (colsPadding - 1).tdiv 2) := by
    rw [Inside]
    omega
  rw [planeAt, if_pos hinside, add_sub_cancel_right, add_sub_cancel_right]

variable [IsStrictOrderedRing K]

/-- Half a cell and more is counted. -/
theorem cells_exact (size : Nat) (hcell : 1 < cellSize) :
    cells (.exact : Rounding K) size cellSize = cellCount K size cellSize := by
  have hcell' : (0 : K) < cellSize := Int.cast_pos.mpr (by omega)
  have hpos : (0 : K) ≤ (size : K) / cellSize + 1 / 2 := by positivity
  rw [cellCount, round_eq]
  exact truncate_of_nonneg hpos

theorem cells_nonneg (size : Nat) (hcell : 1 < cellSize) : 0 ≤ cellCount K size cellSize := by
  have hcell' : (0 : K) < cellSize := Int.cast_pos.mpr (by omega)
  rw [cellCount, round_eq, Int.floor_nonneg]
  positivity

theorem cells_le (size : Nat) (hcell : 1 < cellSize) : cellCount K size cellSize ≤ size := by
  have hcell' : (1 : K) < cellSize := by exact_mod_cast hcell
  have hle : (size : K) / cellSize ≤ size := div_le_self (Nat.cast_nonneg size) hcell'.le
  rw [cellCount, round_eq, ← Int.lt_add_one_iff, Int.floor_lt]
  push_cast
  linarith

/-- An image with two cells or fewer one way has no features, and no planes. -/
theorem implExtract_none (sqrt : K → K) (garbage : Int → Int → K) (img : Grid UInt8)
    (hog : List (Grid K)) (rowsPadding colsPadding : Int) (hcell : 1 < cellSize)
    (hsmall : cellCount K img.nr cellSize ≤ 2 ∨ cellCount K img.nc cellSize ≤ 2) :
    implExtractFhogFeatures .exact sqrt garbage img hog cellSize rowsPadding colsPadding =
      .ok [] := by
  have hnonneg := cells_nonneg (K := K) img.nr hcell
  have hnonneg' := cells_nonneg (K := K) img.nc hcell
  rw [implExtractFhogFeatures, cells_exact _ hcell, cells_exact _ hcell]
  by_cases hzero : cellCount K img.nr cellSize = 0 ∨ cellCount K img.nc cellSize = 0
  · exact if_pos hzero
  · have hhog : max (cellCount K img.nr cellSize - 2) 0 = 0 ∨
        max (cellCount K img.nc cellSize - 2) 0 = 0 := by omega
    exact (if_neg hzero).trans (if_pos hhog)

/-- An image with three cells or more each way has the features of all but those of its rim. -/
theorem implExtract_eq (sqrt : K → K) (garbage : Int → Int → K) (img : Grid UInt8)
    (hog : List (Grid K)) (hcell : 1 < cellSize) (hrows : 1 ≤ rowsPadding)
    (hcols : 1 ≤ colsPadding)
    (hlongs : AreLongs (img.nr + rowsPadding.toNat) (img.nc + colsPadding.toNat))
    (hnr : 2 < cellCount K img.nr cellSize) (hnc : 2 < cellCount K img.nc cellSize) :
    ∃ hog', implExtractFhogFeatures .exact sqrt garbage img hog cellSize rowsPadding colsPadding =
        .ok hog' ∧
      Written (planeAt sqrt img cellSize rowsPadding colsPadding) 31
        (cellCount K img.nr cellSize - 2 + rowsPadding - 1).toNat
        (cellCount K img.nc cellSize - 2 + colsPadding - 1).toNat
        (fun p => p.1 < 31 ∧
          (0 ≤ p.2.1 ∧ p.2.1 < (cellCount K img.nr cellSize - 2 + rowsPadding - 1).toNat) ∧
          0 ≤ p.2.2 ∧ p.2.2 < (cellCount K img.nc cellSize - 2 + colsPadding - 1).toNat) hog' := by
  have hle := cells_le (K := K) img.nr hcell
  have hle' := cells_le (K := K) img.nc hcell
  obtain ⟨hlong, hlong'⟩ := hlongs
  let n := cellCount K img.nr cellSize
  let m := cellCount K img.nc cellSize
  let h := histogramOf sqrt img cellSize
  have hrowsOffset : (rowsPadding - 1).tdiv 2 = (rowsPadding - 1) / 2 :=
    Int.tdiv_eq_ediv_of_nonneg (by omega)
  have hcolsOffset : (colsPadding - 1).tdiv 2 = (colsPadding - 1) / 2 :=
    Int.tdiv_eq_ediv_of_nonneg (by omega)
  have hnr₀ : (((⟨n.toNat, m.toNat, fun _ _ => 0⟩ : Grid K).nr : Nat) : Int) = n := by
    simp only
    omega
  have hnc₀ : (((⟨n.toNat, m.toNat, fun _ _ => 0⟩ : Grid K).nc : Nat) : Int) = m := by
    simp only
    omega
  have hhogNr : 1 ≤ n - 2 := by omega
  have hhogNc : 1 ≤ m - 2 := by omega
  have hroom₀ : HasRoom n m (⟨(n + 2).toNat, (m + 2).toNat, fun _ _ _ => 0⟩ : Hist K) :=
    ⟨by simp only; omega, by simp only; omega⟩
  have hvisibleNr : min (n * cellSize) img.nr - 1 < img.nr := by omega
  have hvisibleNc : min (m * cellSize) img.nc - 1 < img.nc := by omega
  have hcellsNr : min (n * cellSize) img.nr - 1 ≤ n * cellSize := by omega
  have hcellsNc : min (m * cellSize) img.nc - 1 ≤ m * cellSize := by omega
  -- the votes, the energies, and then the planes
  obtain ⟨hist, hpopulate, hroom, hhist⟩ := populate_eq sqrt (by omega) hvisibleNr
    hvisibleNc hcellsNr hcellsNc hroom₀ (fun _ _ _ => rfl)
  obtain ⟨norm, henergies, hnormNr, hnormNc, hnorm⟩ := energies_eq hroom
    hnr₀ hnc₀ (fun _ _ => rfl)
  rw [hhist] at hnorm
  obtain ⟨hog₁, hinit, hwritten⟩ := initHog_eq garbage hog hhogNr hhogNc hrows hcols
    ⟨by omega, by omega⟩ (F := planeAt sqrt img cellSize rowsPadding colsPadding)
    (fun o r c hout => if_neg hout)
  obtain ⟨hog₂, hfeatures, hwritten'⟩ := setAllFeatures_eq (h := h)
    (by rwa [sub_add_cancel, sub_add_cancel]) hhist (by omega) (by omega) hnorm
    ⟨by omega, by omega⟩ ⟨by omega, by omega⟩ (fun o y x hy hx => planeAt_inside o hy hx) hwritten
  refine ⟨hog₂, ?_, hwritten'.length, hwritten'.size, fun o p ho r c hin => ?_⟩
  · rw [implExtractFhogFeatures, cells_exact _ hcell, cells_exact _ hcell]
    have hsome : ¬ (cellCount K img.nr cellSize = 0 ∨ cellCount K img.nc cellSize = 0) := by omega
    have hhog : ¬ (max (cellCount K img.nr cellSize - 2) 0 = 0 ∨
        max (cellCount K img.nc cellSize - 2) 0 = 0) := by omega
    refine (if_neg hsome).trans ((if_neg hhog).trans ?_)
    simp only
    rw [max_eq_left (by omega), max_eq_left (by omega), hinit, ok_bind, hpopulate, ok_bind,
      henergies, ok_bind]
    exact hfeatures
  · -- a cell of a plane has a feature or is in the padding
    refine hwritten'.cell o p ho r c ?_
    by_cases hinside : Inside ((rowsPadding - 1).tdiv 2) ((colsPadding - 1).tdiv 2) (n - 2) (m - 2)
        r c
    · obtain ⟨y, hy, x, hx, hr, hc⟩ := exists_offset hinside
      exact Or.inr ⟨y, hy, x, hx, hin.1, hr, hc⟩
    · exact Or.inl ⟨hin.2, hinside⟩

/-- All cells of all planes are written, and what was in the planes before is gone. -/
theorem extract_written (sqrt : K → K) (garbage : Int → Int → K) (img : Grid UInt8)
    (hog : List (Grid K)) (hcell : 1 < cellSize) (hrows : 1 ≤ rowsPadding)
    (hcols : 1 ≤ colsPadding)
    (hlongs : AreLongs (img.nr + rowsPadding.toNat) (img.nc + colsPadding.toNat)) :
    ∃ hog', extractFhogFeatures .exact sqrt garbage img hog cellSize rowsPadding colsPadding =
        .ok hog' ∧
      Written (planeAt sqrt img cellSize rowsPadding colsPadding) 31
        (planeSize K img cellSize (cellCount K img.nr cellSize) rowsPadding)
        (planeSize K img cellSize (cellCount K img.nc cellSize) colsPadding)
        (fun p => p.1 < 31 ∧
          (0 ≤ p.2.1 ∧ p.2.1 < planeSize K img cellSize (cellCount K img.nr cellSize) rowsPadding) ∧
          0 ≤ p.2.2 ∧ p.2.2 < planeSize K img cellSize (cellCount K img.nc cellSize) colsPadding)
        hog' := by
  rw [extractFhogFeatures]
  by_cases hsmall : cellCount K img.nr cellSize ≤ 2 ∨ cellCount K img.nc cellSize ≤ 2
  · -- there is nothing, and then there are empty planes
    have hnone := implExtract_none sqrt garbage img hog rowsPadding colsPadding hcell hsmall
    have hplane : ∀ (o : Nat) (p : Grid K),
        (resizeHog garbage 31 ([] : List (Grid K)))[o]? = some p → p.nr = 0 ∧ p.nc = 0 := by
      intro o p ho
      rw [resizeHog, List.getElem?_map] at ho
      obtain ⟨i, -, rfl⟩ := Option.map_eq_some_iff.mp ho
      exact ⟨rfl, rfl⟩
    refine ⟨resizeHog garbage 31 [], by rw [hnone]; rfl, by simp [resizeHog], fun o p ho => ?_,
      fun o p ho r c hin => ?_⟩
    · rw [planeSize, planeSize, if_pos hsmall, if_pos hsmall]
      exact hplane o p ho
    · rw [planeSize, if_pos hsmall] at hin
      omega
  · obtain ⟨hog', hrun, hwritten⟩ := implExtract_eq sqrt garbage img hog hcell hrows hcols hlongs
      (by omega) (by omega)
    refine ⟨hog', ?_, ?_⟩
    · have hlength : hog'.length ≠ 0 := by
        rw [hwritten.length]
        decide
      rw [hrun, ok_bind, if_neg hlength]
      rfl
    · simp only [planeSize, if_neg hsmall]
      exact hwritten

/-- **The planes show the features of the image**, in exact arithmetic, and zero around them:
nothing of what was in them before, nothing of what is in memory, and for every pixel the same
whether it came in a block of eight or not. -/
theorem extractFhogFeatures_eq (sqrt : K → K) (garbage : Int → Int → K) (img : Grid UInt8)
    (hog : List (Grid K)) {rowsPadding colsPadding : Int} (hcell : 1 < cellSize)
    (hrows : 1 ≤ rowsPadding) (hcols : 1 ≤ colsPadding)
    (hlongs : AreLongs (img.nr + rowsPadding.toNat) (img.nc + colsPadding.toNat)) :
    ∃ hog', extractFhogFeatures .exact sqrt garbage img hog cellSize rowsPadding colsPadding =
        .ok hog' ∧
      hog'.length = 31 ∧ ∀ (o : Nat) (p : Grid K), hog'[o]? = some p →
        p.nr = planeSize K img cellSize (cellCount K img.nr cellSize) rowsPadding ∧
        p.nc = planeSize K img cellSize (cellCount K img.nc cellSize) colsPadding ∧
        ∀ r c, p.InRange r c →
          p.cell r c = planeAt sqrt img cellSize rowsPadding colsPadding o r c := by
  obtain ⟨hog', hrun, hwritten⟩ := extract_written sqrt garbage img hog hcell hrows hcols hlongs
  refine ⟨hog', hrun, hwritten.length, fun o p ho => ?_⟩
  obtain ⟨hnr, hnc⟩ := hwritten.size o p ho
  refine ⟨hnr, hnc, fun r c hin => hwritten.cell o p ho r c ⟨?_, ?_⟩⟩
  · rw [← hwritten.length]
    exact (List.getElem?_eq_some_iff.mp ho).1
  · rw [Grid.InRange, hnr, hnc] at hin
    exact hin

end Extract

theorem extractFhogFeatures_eq_ramp :
    ∃ hog', extractFhogFeatures .exact Real.sqrt (fun _ _ => 7) ramp [] 2 3 2 = .ok hog' ∧
      hog'.length = 31 ∧ ∀ (o : Nat) (p : Grid ℝ), hog'[o]? = some p →
        p.nr = planeSize ℝ ramp 2 (cellCount ℝ ramp.nr 2) 3 ∧
        p.nc = planeSize ℝ ramp 2 (cellCount ℝ ramp.nc 2) 2 ∧
        ∀ r c, p.InRange r c → p.cell r c = planeAt Real.sqrt ramp 2 3 2 o r c :=
  extractFhogFeatures_eq Real.sqrt (fun _ _ => 7) ramp [] (by decide) (by decide)
    (by decide) (by decide)

/-! ## How large a feature gets -/

section Bounds

variable [Field K] [LinearOrder K] [IsStrictOrderedRing K]

theorem energyAt_nonneg (h : Nat → K) : 0 ≤ energyAt .exact h := by
  have hsum : (List.range 9).foldl (addedEnergy .exact h) 0 =
      0 + ∑ o ∈ range 9, (h o + h (o + 9)) * (h o + h (o + 9)) :=
    foldl_adds id (fun _ _ => rfl) 9 0
  rw [energyAt, hsum, zero_add]
  exact sum_nonneg fun _ _ => mul_self_nonneg _

theorem nn_pos {sqrt : K → K} {norm : Int → Int → K} (hsqrt : ∀ a, 0 < a → 0 < sqrt a)
    (hnorm : ∀ r c, 0 ≤ norm r c) (y x : Int) (lane : Fin 4) :
    0 < (normsAt .exact sqrt norm y x).nn lane := by
  have hblock : ∀ y x, 0 ≤ blockAt .exact norm y x := fun y x => by
    simp only [blockAt, Rounding.exact_single]
    have h₁ := hnorm y x
    have h₂ := hnorm y (x + 1)
    have h₃ := hnorm (y + 1) x
    have h₄ := hnorm (y + 1) (x + 1)
    positivity
  have harg : 0 < blockAt .exact norm (y + (corner lane).1) (x + (corner lane).2) + 1 / 10000 := by
    have := hblock (y + (corner lane).1) (x + (corner lane).2)
    positivity
  exact mul_pos (by norm_num) (hsqrt _ harg)

/-- What is clipped is a tenth at most. -/
theorem clip_bounds {nn : Simd4f K} {temp : K} {lane : Fin 4} (hnn : 0 < nn lane)
    (htemp : 0 ≤ temp) :
    0 ≤ (Norms.of .exact nn).clip .exact temp lane ∧
      (Norms.of .exact nn).clip .exact temp lane ≤ 1 / 10 := by
  have hmin : 0 ≤ min temp (nn lane) := le_min htemp hnn.le
  have hle : min temp (nn lane) ≤ nn lane := min_le_right _ _
  simp only [Norms.clip, Norms.of, Rounding.exact_single, Rounding.exact_literal]
  constructor
  · positivity
  · calc min temp (nn lane) * (1 / 10 / nn lane) ≤ nn lane * (1 / 10 / nn lane) := by gcongr
      _ = 1 / 10 := mul_div_cancel₀ _ hnn.ne'

theorem featureAt_bounds {nn : Simd4f K} {h : Nat → K} (hnn : ∀ lane, 0 < nn lane)
    (hh : ∀ o, 0 ≤ h o) (o : Nat) :
    0 ≤ featureAt .exact (.of .exact nn) h o ∧
      featureAt .exact (.of .exact nn) h o ≤ if o < 27 then 4 / 10 else 84852 / 100000 := by
  have hsum : ∀ temp, 0 ≤ temp →
      0 ≤ ((Norms.of .exact nn).clip .exact temp).sum .exact ∧
        ((Norms.of .exact nn).clip .exact temp).sum .exact ≤ 4 / 10 := by
    intro temp htemp
    have h₀ := clip_bounds (hnn 0) htemp
    have h₁ := clip_bounds (hnn 1) htemp
    have h₂ := clip_bounds (hnn 2) htemp
    have h₃ := clip_bounds (hnn 3) htemp
    rw [Simd4f.sum_exact]
    constructor <;> linarith
  rw [featureAt]
  split
  · rename_i ho
    rw [if_pos (by omega)]
    exact hsum _ (hh o)
  · split
    · rename_i ho
      exact hsum _ (add_nonneg (hh _) (hh _))
    · -- three values at a time, six times
      let lane : Fin 4 := .ofNat 4 (o - 27)
      let term : Nat → K := fun k => (Norms.of .exact nn).clip .exact (h (3 * k)) lane +
        (Norms.of .exact nn).clip .exact (h (3 * k + 1)) lane +
        (Norms.of .exact nn).clip .exact (h (3 * k + 2)) lane
      have hterm : ∀ k, 0 ≤ term k ∧ term k ≤ 3 / 10 := fun k => by
        have h₀ := clip_bounds (hnn lane) (hh (3 * k))
        have h₁ := clip_bounds (hnn lane) (hh (3 * k + 1))
        have h₂ := clip_bounds (hnn lane) (hh (3 * k + 2))
        simp only [term]
        constructor <;> linarith
      have hsum : (List.range 6).foldl (addedTexture .exact (.of .exact nn) h lane) 0 =
          0 + ∑ k ∈ range 6, term k := foldl_adds id (fun _ _ => rfl) 6 0
      rw [zero_add] at hsum
      have hlow : 0 ≤ ∑ k ∈ range 6, term k := sum_nonneg fun k _ => (hterm k).1
      have hhigh : ∑ k ∈ range 6, term k ≤ 6 * (3 / 10) := by
        refine (sum_le_card_nsmul _ _ (3 / 10) fun k _ => (hterm k).2).trans ?_
        simp
      simp only [Simd4f.lane, textureAt, textureScale, Rounding.exact_single, Rounding.exact_double]
      rw [hsum]
      constructor
      · positivity
      · linarith

variable [FloorRing K] {sqrt : K → K}

theorem histogramOf_nonneg (hsqrt : ∀ a, 0 ≤ a → 0 ≤ sqrt a) (img : Grid UInt8)
    (cellSize r c : Int) (o : Nat) : 0 ≤ histogramOf sqrt img cellSize r c o := by
  rw [histogramOf, histogram]
  refine sum_nonneg fun y _ => sum_nonneg fun x _ => ?_
  rw [voteAt]
  split
  · have hlen : 0 ≤ (gradientAt img y x).len := add_nonneg (mul_self_nonneg _) (mul_self_nonneg _)
    have hlength := hsqrt _ (Int.cast_nonneg hlen)
    have htent : ∀ (p : K) (i : Int), 0 ≤ tent p i := fun p i => le_max_left _ _
    exact mul_nonneg (mul_nonneg (htent _ _) (htent _ _)) hlength
  · exact le_rfl

/-- **No feature is negative, and none exceeds 0.4**, or 0.84852 if it is one of the last four, in
exact arithmetic and whatever the image is. That takes of `std::sqrt` only its sign. -/
theorem features_bounded (hsqrt : ∀ a, 0 ≤ a → 0 ≤ sqrt a) (hpos : ∀ a, 0 < a → 0 < sqrt a)
    (garbage : Int → Int → K) (img : Grid UInt8) (hog : List (Grid K))
    {cellSize rowsPadding colsPadding : Int} (hcell : 1 < cellSize) (hrows : 1 ≤ rowsPadding)
    (hcols : 1 ≤ colsPadding)
    (hlongs : AreLongs (img.nr + rowsPadding.toNat) (img.nc + colsPadding.toNat)) :
    ∃ hog', extractFhogFeatures .exact sqrt garbage img hog cellSize rowsPadding colsPadding =
        .ok hog' ∧
      ∀ (o : Nat) (p : Grid K), hog'[o]? = some p → ∀ r c, p.InRange r c →
        0 ≤ p.cell r c ∧ p.cell r c ≤ if o < 27 then 4 / 10 else 84852 / 100000 := by
  obtain ⟨hog', hrun, hwritten⟩ := extract_written sqrt garbage img hog hcell hrows hcols hlongs
  refine ⟨hog', hrun, fun o p ho r c hin => ?_⟩
  obtain ⟨hnr, hnc⟩ := hwritten.size o p ho
  have hlt : o < 31 := hwritten.length ▸ (List.getElem?_eq_some_iff.mp ho).1
  rw [Grid.InRange, hnr, hnc] at hin
  rw [hwritten.cell o p ho r c ⟨hlt, hin⟩, planeAt]
  split
  · exact featureAt_bounds (nn_pos hpos (fun r c => energyAt_nonneg _) _ _)
      (histogramOf_nonneg hsqrt img cellSize _ _) o
  · refine ⟨le_rfl, ?_⟩
    split <;> norm_num

end Bounds

theorem features_bounded_ramp :
    ∃ hog', extractFhogFeatures .exact Real.sqrt (fun _ _ => 7) ramp [] 2 3 2 = .ok hog' ∧
      ∀ (o : Nat) (p : Grid ℝ), hog'[o]? = some p → ∀ r c, p.InRange r c →
        0 ≤ p.cell r c ∧ p.cell r c ≤ if o < 27 then 4 / 10 else 84852 / 100000 :=
  features_bounded (fun a _ => Real.sqrt_nonneg a) (fun _ h => Real.sqrt_pos.mpr h) (fun _ _ => 7)
    ramp [] (by decide) (by decide) (by decide) (by decide)

end DlibAndroid
