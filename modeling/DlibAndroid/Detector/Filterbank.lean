import DlibAndroid.Detector.FilteringSpec
import Mathlib.Algebra.BigOperators.Fin
import Mathlib.Algebra.BigOperators.Group.Finset.Sigma
import Mathlib.Data.List.GetD
import Mathlib.Data.List.TakeWhile

/-!
# `apply_filters_to_fhog`

Every plane of a level is filtered with its filter, and all that is added up. The filters are there
twice: as they are, and taken apart into separable ones, a plane having as many as it takes, or none
at all. The first are used when there are too many of the second.

Whichever are used, the run finishes, every pixel of the area shows what they add up to for that
pixel (`applied`), and everything around the area is zero (`applyFiltersToFhog_shows`). That is so
however sums and products are rounded: the values are added in the order of the filters, and no
value of another pixel, another level or new memory is ever among them. A filterbank with no
separable filters leaves nothing to search.

In exact arithmetic neither the order nor the choice matters, and what is shown is the sum of the
correlations with the filters as they are (`applyFiltersToFhog_plain`).
-/

set_option autoImplicit false

namespace DlibAndroid

open CCore Finset

variable {K : Type}

/-- `fhog_filterbank` -/
structure FhogFilterbank (K : Type) where
  filters : List (Filter K)
  rowFilters : List (List (List K))
  colFilters : List (List (List K))

/-- `num_separable_filters` -/
def FhogFilterbank.numSeparableFilters (w : FhogFilterbank K) : Nat :=
  (w.rowFilters.map List.length).sum

/-- The locals of `apply_filters_to_fhog`. -/
structure Applied (K : Type) where
  saliency : Grid K
  area : Rectangle
  scratch : Grid K

section Definitions

variable [Zero K] [Add K] [Mul K] (fl : Rounding K)

/-- One filter of the first kind, after the first one. -/
def addFilter (garbage : Int → Int → K) (w : FhogFilterbank K) (feats : List (Grid K)) (i : Nat)
    (saliency : Grid K) : Exec (Grid K) := do
  let img ← index feats i
  let filter ← index w.filters i
  let done ← floatSpatiallyFilterImage fl garbage img filter true saliency
  pure done.1

/-- The loop with the filters as they are. -/
def applyFilters (garbage : Int → Int → K) (w : FhogFilterbank K) (feats : List (Grid K))
    (saliency : Grid K) : Exec (Grid K × Rectangle) := do
  let img ← index feats 0
  let filter ← index w.filters 0
  let done ← floatSpatiallyFilterImage fl garbage img filter false saliency
  let saliency ← forEach ((List.range w.filters.length).drop 1) (addFilter fl garbage w feats)
    done.1
  pure (saliency, done.2)

/-- One pair of separable filters. It adds to what is there, if anything is. -/
def addSeparable (garbage : Int → Int → K) (img : Grid K) (rowFilter colFilter : List K)
    (s : Applied K) : Exec (Applied K) := do
  let done ← floatSpatiallyFilterImageSeparable fl garbage img rowFilter colFilter
    (s.saliency.nr * s.saliency.nc ≠ 0) s.saliency s.scratch
  pure ⟨done.1, done.2.1, done.2.2⟩

/-- The separable filters of a plane, one pair after the other. -/
def addPlane (garbage : Int → Int → K) (w : FhogFilterbank K) (feats : List (Grid K)) (i : Nat)
    (s : Applied K) : Exec (Applied K) := do
  let rows ← index w.rowFilters i
  forEach (List.range rows.length) (fun j s => do
    let img ← index feats i
    let rowFilter ← index rows j
    let cols ← index w.colFilters i
    let colFilter ← index cols j
    addSeparable fl garbage img rowFilter colFilter s) s

/-- The separable filters, from the first plane that has any. -/
def applySeparable (garbage : Int → Int → K) (w : FhogFilterbank K) (feats : List (Grid K)) :
    Exec (Grid K × Rectangle) := do
  let first := (w.rowFilters.takeWhile List.isEmpty).length
  let s ← forEach ((List.range w.rowFilters.length).drop first) (addPlane fl garbage w feats)
    ⟨⟨0, 0, garbage⟩, emptyRectangle, ⟨0, 0, garbage⟩⟩
  if s.saliency.nr * s.saliency.nc = 0 then do
    let img ← index feats 0
    let saliency := s.saliency.setSize garbage img.nr img.nc
    let saliency ← forEach (upTo 0 (img.nr - 1)) (zeroRow 0 (img.nc - 1)) saliency
    pure (saliency, s.area)
  else pure (s.saliency, s.area)

/-- `apply_filters_to_fhog`. The numbers are small, and `/3.0` rounds to no integer that it should
not. -/
def applyFiltersToFhog (garbage : Int → Int → K) (w : FhogFilterbank K) (feats : List (Grid K))
    (saliency : Grid K) : Exec (Grid K × Rectangle) := do
  let filter ← index w.filters 0
  if w.filters.length * min filter.nr filter.nc < 3 * w.numSeparableFilters then
    applyFilters fl garbage w feats saliency
  else applySeparable fl garbage w feats

end Definitions

/-! ## What is in it -/

/-- `row_filters[i]` -/
def FhogFilterbank.rows (w : FhogFilterbank K) (i : Nat) : List (List K) := w.rowFilters.getD i []

/-- `col_filters[i]` -/
def FhogFilterbank.cols (w : FhogFilterbank K) (i : Nat) : List (List K) := w.colFilters.getD i []

/-- The pairs of separable filters of plane `i`. -/
def FhogFilterbank.pairs (w : FhogFilterbank K) (i : Nat) : List (Nat × List K × List K) :=
  (List.range (w.rows i).length).map fun j => (i, (w.rows i).getD j [], (w.cols i).getD j [])

/-- All of them, in the order in which they are applied. -/
def FhogFilterbank.separable (w : FhogFilterbank K) : List (Nat × List K × List K) :=
  (List.range w.rowFilters.length).flatMap w.pairs

section Counts

variable {w : FhogFilterbank K} {i : Nat}

/-- The planes that are passed over have no separable filters. -/
theorem rows_of_lt_takeWhile (hi : i < (w.rowFilters.takeWhile List.isEmpty).length) :
    w.rows i = [] := by
  have hstart := List.takeWhile_prefix (l := w.rowFilters) List.isEmpty
  have hlt : i < w.rowFilters.length := lt_of_lt_of_le hi hstart.length_le
  have hmem := List.mem_takeWhile_imp (List.getElem_mem hi)
  rw [hstart.getElem hi] at hmem
  rw [FhogFilterbank.rows, List.getD_eq_getElem _ _ hlt]
  exact List.isEmpty_iff.mp hmem

/-- `num_separable_filters` counts them all. -/
theorem length_separable : w.separable.length = w.numSeparableFilters := by
  rw [FhogFilterbank.separable, List.length_flatMap, FhogFilterbank.numSeparableFilters]
  refine congrArg List.sum (List.ext_getElem (by simp) fun i hi hi' => ?_)
  have hlt : i < w.rowFilters.length := by simpa using hi'
  simp [FhogFilterbank.pairs, FhogFilterbank.rows, hlt]

end Counts

theorem nonBorder_congr {img img' : Grid K} {fr fc : Nat} (hnr : img'.nr = img.nr)
    (hnc : img'.nc = img.nc) : nonBorder img' fr fc = nonBorder img fr fc := by
  rw [nonBorder, nonBorder, hnr, hnc]

section Values

variable [CommSemiring K]

/-- `filters[i]` -/
def FhogFilterbank.filter (w : FhogFilterbank K) (i : Nat) : Filter K :=
  w.filters.getD i ⟨0, 0, fun _ _ => 0⟩

/-- `feats[i]` -/
def plane (feats : List (Grid K)) (i : Nat) : Grid K := feats.getD i ⟨0, 0, fun _ _ => 0⟩

/-- A filterbank for levels of so many rows and columns, with filters of so many. A level of an
image that is too small has its planes, with nothing in them. -/
structure FhogFilterbank.Fits (w : FhogFilterbank K) (feats : List (Grid K)) (nr nc fr fc : Nat) :
    Prop where
  planes : 0 < w.filters.length
  length_feats : feats.length = w.filters.length
  length_rows : w.rowFilters.length = w.filters.length
  length_cols : w.colFilters.length = w.filters.length
  pairs : ∀ i, i < w.filters.length → (w.cols i).length = (w.rows i).length
  levels : ∀ i, i < w.filters.length → (plane feats i).nr = nr ∧ (plane feats i).nc = nc
  filter : ∀ i, i < w.filters.length → (w.filter i).nr = fr ∧ (w.filter i).nc = fc
  separable : ∀ i, i < w.filters.length → ∀ j, j < (w.rows i).length →
    ((w.cols i).getD j []).length = fr ∧ ((w.rows i).getD j []).length = fc
  level : AreLongs nr nc
  size : AreLongs fr fc
  empty : nr = 0 ↔ nc = 0

theorem FhogFilterbank.Fits.eq_zero {w : FhogFilterbank K} {feats : List (Grid K)}
    {nr nc fr fc : Nat} (h : w.Fits feats nr nc fr fc) (hempty : nr * nc = 0) :
    nr = 0 ∧ nc = 0 := by
  rcases Nat.mul_eq_zero.mp hempty with hnr | hnc
  · exact ⟨hnr, h.empty.mp hnr⟩
  · exact ⟨h.empty.mpr hnc, hnc⟩

/-- The area that is searched. It is empty when there are no separable filters, or no cells. -/
def FhogFilterbank.area (w : FhogFilterbank K) (img : Grid K) (fr fc : Nat) : Rectangle :=
  if w.numSeparableFilters = 0 ∨ img.nr * img.nc = 0 then emptyRectangle else nonBorder img fr fc

/-- The first value, with the others added to it one by one. -/
def addedUp (fl : Rounding K) : List K → K
  | [] => 0
  | value :: values => values.foldl (fun old value => fl.single (old + value)) value

/-- What a pixel of the area shows after some filters. -/
def shown (fl : Rounding K) (values : List (Int → Int → K)) (r c : Int) : K :=
  addedUp fl (values.map fun value => value r c)

/-- What the filters as they are give. -/
def plainValues (fl : Rounding K) (w : FhogFilterbank K) (feats : List (Grid K)) (n : Nat) :
    List (Int → Int → K) :=
  (List.range n).map fun i => calculated fl (plane feats i) (w.filter i)

/-- What some pairs of separable filters give. -/
def separableValues (fl : Rounding K) (feats : List (Grid K))
    (pairs : List (Nat × List K × List K)) :
    List (Int → Int → K) :=
  pairs.map fun f => calculatedSeparable fl (plane feats f.1) f.2.1 f.2.2

/-- What a pixel of the area becomes: the sum of what the filters that are used give. -/
def applied (fl : Rounding K) (w : FhogFilterbank K) (feats : List (Grid K)) (fr fc : Nat) :
    Int → Int → K :=
  shown fl <| if w.filters.length * min fr fc < 3 * w.numSeparableFilters then
    plainValues fl w feats w.filters.length else separableValues fl feats w.separable

/-- An image that has a value in the area, and is zero around it. -/
structure Shows (area : Rectangle) (nr nc : Nat) (value : Int → Int → K) (img : Grid K) : Prop where
  nr : img.nr = nr
  nc : img.nc = nc
  cell : ∀ r c, img.InRange r c → img.cell r c = if area.Contains r c then value r c else 0

variable {fl : Rounding K} {garbage : Int → Int → K} {w : FhogFilterbank K} {feats : List (Grid K)}
variable {nr nc fr fc i n : Nat} {img out : Grid K} {area : Rectangle} {value : Int → Int → K}
variable {values : List (Int → Int → K)}

theorem index_getD {α : Type} {xs : List α} (d : α) (h : i < xs.length) :
    index xs i = .ok (xs.getD i d) := by
  rw [index_of_lt h, List.getD_eq_getElem _ _ h]

theorem shown_append (h : values ≠ []) (value : Int → Int → K) (r c : Int) :
    shown fl (values ++ [value]) r c = fl.single (shown fl values r c + value r c) := by
  obtain ⟨first, rest, rfl⟩ := List.exists_cons_of_ne_nil h
  rw [shown, shown, List.map_append, List.map_cons, List.cons_append, addedUp, addedUp,
    List.foldl_append]
  rfl

/-- The first filter sets the image, over whatever is there. -/
theorem shows_first (fl : Rounding K) (value : Int → Int → K) (hnr : img.nr = nr)
    (hnc : img.nc = nc) :
    Shows area nr nc (shown fl [value]) ((out.setSize garbage img.nr img.nc).paint
      (fun r c => img.InRange r c) (filtered fl false area value)) := by
  refine ⟨by simp [hnr], by simp [hnc], fun r c hin => ?_⟩
  have hin' : img.InRange r c := by
    rw [Grid.inRange_paint, Grid.inRange_congr (Grid.setSize_nr _) (Grid.setSize_nc _)] at hin
    exact hin
  rw [Grid.paint_cell, if_pos (decide_eq_true hin')]
  rfl

/-- One more filter adds to it. -/
theorem shows_next (hnr : img.nr = nr) (hnc : img.nc = nc) (hvalues : values ≠ [])
    (h : Shows area nr nc (shown fl values) out) :
    Shows area nr nc (shown fl (values ++ [value])) ((out.setSize garbage img.nr img.nc).paint
      (fun r c => img.InRange r c) (filtered fl true area value)) := by
  have hself : out.setSize garbage img.nr img.nc = out := by
    rw [hnr, hnc, ← h.nr, ← h.nc]
    exact Grid.setSize_self garbage
  rw [hself]
  refine ⟨h.nr, h.nc, fun r c hin => ?_⟩
  rw [Grid.inRange_paint] at hin
  have hin' : img.InRange r c :=
    (Grid.inRange_congr (hnr.trans h.nr.symm) (hnc.trans h.nc.symm)).mpr hin
  rw [Grid.paint_cell, if_pos (decide_eq_true hin'), h.cell r c hin, filtered, shown_append hvalues]
  by_cases hc : area.Contains r c
  · simp [hc, saved]
  · simp [hc]

/-! ## The filters as they are -/

theorem plainValues_succ (n : Nat) : plainValues fl w feats (n + 1) =
    plainValues fl w feats n ++ [calculated fl (plane feats n) (w.filter n)] := by
  rw [plainValues, List.range_succ, List.map_append]
  rfl

/-- The filters as they are, on a level that has cells. -/
theorem applyFilters_shows (h : w.Fits feats nr nc fr fc) (hne : nr * nc ≠ 0) (saliency : Grid K) :
    ∃ saliency', applyFilters fl garbage w feats saliency =
        .ok (saliency', nonBorder (plane feats 0) fr fc) ∧
      Shows (nonBorder (plane feats 0) fr fc) nr nc
        (shown fl (plainValues fl w feats w.filters.length)) saliency' := by
  let area := nonBorder (plane feats 0) fr fc
  let next : Nat → Bool → Grid K → Grid K := fun i addTo out =>
    (out.setSize garbage (plane feats i).nr (plane feats i).nc).paint
      (fun r c => (plane feats i).InRange r c)
      (filtered fl addTo area (calculated fl (plane feats i) (w.filter i)))
  have hfilter : ∀ i, i < w.filters.length → ∀ addTo out, floatSpatiallyFilterImage fl garbage
      (plane feats i) (w.filter i) addTo out = .ok (next i addTo out, area) := by
    intro i hi addTo out
    obtain ⟨hnr, hnc⟩ := h.levels i hi
    obtain ⟨hnr₀, hnc₀⟩ := h.levels 0 h.planes
    obtain ⟨hfr, hfc⟩ := h.filter i hi
    have harea : nonBorder (plane feats i) (w.filter i).nr (w.filter i).nc = area := by
      rw [hfr, hfc]
      exact nonBorder_congr (hnr.trans hnr₀.symm) (hnc.trans hnc₀.symm)
    have hsize : AreLongs (w.filter i).nr (w.filter i).nc := by
      rw [hfr, hfc]
      exact h.size
    have hlevel : AreLongs (plane feats i).nr (plane feats i).nc := by
      rw [hnr, hnc]
      exact h.level
    have hne : (plane feats i).nr * (plane feats i).nc ≠ 0 := by
      rwa [hnr, hnc]
    rw [filter_eq fl garbage (w.filter i) addTo out hlevel hsize hne, harea]
  have hfeats : ∀ i, i < w.filters.length → index feats i = .ok (plane feats i) := fun i hi =>
    index_getD _ (h.length_feats ▸ hi)
  have hfilters : ∀ i, i < w.filters.length → index w.filters i = .ok (w.filter i) := fun i hi =>
    index_getD _ hi
  -- what is added up after the planes below `i`
  have hstep : ∀ i, 1 ≤ i → i < w.filters.length → ∀ s,
      Shows area nr nc (shown fl (plainValues fl w feats i)) s →
      ∃ t, addFilter fl garbage w feats i s = .ok t ∧
        Shows area nr nc (shown fl (plainValues fl w feats (i + 1))) t := by
    intro i hpos hi s hs
    have hvalues : plainValues fl w feats i ≠ [] := List.ne_nil_of_length_pos (by
      rw [plainValues, List.length_map, List.length_range]
      exact hpos)
    refine ⟨next i true s, ?_, ?_⟩
    · rw [addFilter, hfeats i hi, ok_bind, hfilters i hi, ok_bind, hfilter i hi, ok_bind]
      rfl
    · rw [plainValues_succ]
      exact shows_next (h.levels i hi).1 (h.levels i hi).2 hvalues hs
  have hfirst : Shows area nr nc (shown fl (plainValues fl w feats 1)) (next 0 false saliency) :=
    shows_first fl _ (h.levels 0 h.planes).1 (h.levels 0 h.planes).2
  obtain ⟨saliency', hrun, hshows⟩ := forEach_range_drop h.planes _ hstep hfirst
  refine ⟨saliency', ?_, hshows⟩
  rw [applyFilters, hfeats 0 h.planes, ok_bind, hfilters 0 h.planes, ok_bind, hfilter 0 h.planes,
    ok_bind, hrun]
  rfl

variable (fl garbage) in
/-- A level without cells leaves an image without pixels, and no area. -/
theorem applyFilters_none (h : w.Fits feats nr nc fr fc) (hempty : nr * nc = 0)
    (saliency : Grid K) : ∃ saliency', applyFilters fl garbage w feats saliency =
        .ok (saliency', emptyRectangle) ∧ saliency'.nr = 0 ∧ saliency'.nc = 0 := by
  have hfilter : ∀ i, i < w.filters.length → ∀ addTo out, floatSpatiallyFilterImage fl garbage
      (plane feats i) (w.filter i) addTo out = .ok (out.setSize garbage 0 0, emptyRectangle) := by
    intro i hi addTo out
    obtain ⟨hnr, hnc⟩ := h.levels i hi
    exact if_pos (by rw [hnr, hnc, hempty])
  have hfeats : ∀ i, i < w.filters.length → index feats i = .ok (plane feats i) := fun i hi =>
    index_getD _ (h.length_feats ▸ hi)
  have hfilters : ∀ i, i < w.filters.length → index w.filters i = .ok (w.filter i) := fun i hi =>
    index_getD _ hi
  have hstep : ∀ i, 1 ≤ i → i < w.filters.length → ∀ s : Grid K, s.nr = 0 ∧ s.nc = 0 →
      ∃ t, addFilter fl garbage w feats i s = .ok t ∧ t.nr = 0 ∧ t.nc = 0 := by
    intro i _ hi s _
    refine ⟨s.setSize garbage 0 0, ?_, Grid.setSize_nr garbage, Grid.setSize_nc garbage⟩
    rw [addFilter, hfeats i hi, ok_bind, hfilters i hi, ok_bind, hfilter i hi, ok_bind]
    rfl
  obtain ⟨saliency', hrun, hsize⟩ := forEach_range_drop h.planes
    (fun _ (s : Grid K) => s.nr = 0 ∧ s.nc = 0) hstep
    ⟨Grid.setSize_nr (g := saliency) garbage, Grid.setSize_nc garbage⟩
  refine ⟨saliency', ?_, hsize⟩
  rw [applyFilters, hfeats 0 h.planes, ok_bind, hfilters 0 h.planes, ok_bind, hfilter 0 h.planes,
    ok_bind, hrun]
  rfl

/-! ## The separable filters -/

/-- How far the separable filters are: the image shows what some of them add up to, and before the
first there is no image. If the level is empty, there never is one. -/
structure Progress (fl : Rounding K) (area : Rectangle) (nr nc : Nat)
    (values : List (Int → Int → K))
    (s : Applied K) : Prop where
  nothing : values = [] ∨ nr * nc = 0 →
    s.saliency.nr * s.saliency.nc = 0 ∧ s.area = emptyRectangle
  shows : values ≠ [] → nr * nc ≠ 0 → s.area = area ∧ Shows area nr nc (shown fl values) s.saliency

/-- One pair of filters adds what it gives. -/
theorem progress_next {rowFilter colFilter : List K} {s : Applied K}
    (hlevel : AreLongs nr nc) (hsize : AreLongs fr fc) (hnr : img.nr = nr)
    (hnc : img.nc = nc) (hcols : colFilter.length = fr) (hrows : rowFilter.length = fc)
    (h : Progress fl (nonBorder img fr fc) nr nc values s) :
    ∃ t, addSeparable fl garbage img rowFilter colFilter s = .ok t ∧
      Progress fl (nonBorder img fr fc) nr nc
        (values ++ [calculatedSeparable fl img rowFilter colFilter]) t := by
  subst hnr hnc hcols hrows
  have hsome : values ++ [calculatedSeparable fl img rowFilter colFilter] ≠ [] := by simp
  by_cases hempty : img.nr * img.nc = 0
  · refine ⟨⟨s.saliency.setSize garbage 0 0, emptyRectangle, s.scratch⟩, ?_,
      fun _ => ⟨?_, rfl⟩, fun _ hne => absurd hempty hne⟩
    · rw [addSeparable, floatSpatiallyFilterImageSeparable, if_pos hempty]
      rfl
    · rw [Grid.setSize_nr, Nat.zero_mul]
  · obtain ⟨scratch', hrun⟩ := separable_eq fl garbage rowFilter colFilter
      (s.saliency.nr * s.saliency.nc ≠ 0) s.saliency s.scratch hlevel hsize hempty
    refine ⟨_, by rw [addSeparable, hrun]; rfl,
      fun hnone => absurd hnone (not_or.mpr ⟨hsome, hempty⟩),
      fun _ _ => ⟨rfl, ?_⟩⟩
    by_cases hvalues : values = []
    · -- the first pair makes the image
      have haddTo : decide (s.saliency.nr * s.saliency.nc ≠ 0) = false := by
        simp [(h.nothing (Or.inl hvalues)).1]
      simp only [haddTo, hvalues, List.nil_append]
      exact shows_first fl _ rfl rfl
    · obtain ⟨-, hshows⟩ := h.shows hvalues hempty
      have haddTo : decide (s.saliency.nr * s.saliency.nc ≠ 0) = true := by
        rw [hshows.nr, hshows.nc]
        exact decide_eq_true hempty
      simp only [haddTo]
      exact shows_next rfl rfl hvalues hshows

/-- The pairs of a plane add what they give, in their order. -/
theorem addPlane_progress (h : w.Fits feats nr nc fr fc) (hi : i < w.filters.length)
    {s : Applied K} (hs : Progress fl (nonBorder (plane feats 0) fr fc) nr nc
      (separableValues fl feats ((List.range i).flatMap w.pairs)) s) :
    ∃ t, addPlane fl garbage w feats i s = .ok t ∧
      Progress fl (nonBorder (plane feats 0) fr fc) nr nc
        (separableValues fl feats ((List.range (i + 1)).flatMap w.pairs)) t := by
  obtain ⟨hnr, hnc⟩ := h.levels i hi
  obtain ⟨hnr₀, hnc₀⟩ := h.levels 0 h.planes
  have harea : nonBorder (plane feats i) fr fc = nonBorder (plane feats 0) fr fc :=
    nonBorder_congr (hnr.trans hnr₀.symm) (hnc.trans hnc₀.symm)
  have hcols : index w.colFilters i = .ok (w.cols i) := index_getD _ (h.length_cols ▸ hi)
  let before : List (Int → Int → K) := separableValues fl feats ((List.range i).flatMap w.pairs)
  let next : Nat → Int → Int → K := fun j =>
    calculatedSeparable fl (plane feats i) ((w.rows i).getD j []) ((w.cols i).getD j [])
  have hstep : ∀ j, j < (w.rows i).length → ∀ s, Progress fl (nonBorder (plane feats 0) fr fc) nr nc
        (before ++ (List.range j).map next) s →
      ∃ t, (index feats i >>= fun img => index (w.rows i) j >>= fun rowFilter =>
          index w.colFilters i >>= fun cols => index cols j >>= fun colFilter =>
            addSeparable fl garbage img rowFilter colFilter s) = .ok t ∧
        Progress fl (nonBorder (plane feats 0) fr fc) nr nc
          (before ++ (List.range (j + 1)).map next) t := by
    intro j hj s hs
    rw [index_getD _ (h.length_feats ▸ hi), ok_bind, index_getD [] hj, ok_bind, hcols, ok_bind,
      index_getD [] (h.pairs i hi ▸ hj), ok_bind, List.range_succ, List.map_append,
      ← List.append_assoc]
    obtain ⟨hfr, hfc⟩ := h.separable i hi j hj
    rw [← harea] at hs ⊢
    exact progress_next h.level h.size hnr hnc hfr hfc hs
  obtain ⟨t, hrun, ht⟩ := forEach_range _ hstep (s := s) (by simpa using hs)
  refine ⟨t, ?_, ?_⟩
  · rw [addPlane, index_getD _ (h.length_rows ▸ hi), ok_bind]
    exact hrun
  · have hvalues : separableValues fl feats ((List.range (i + 1)).flatMap w.pairs) =
        before ++ (List.range (w.rows i).length).map next := by
      rw [List.range_succ, List.flatMap_append, List.flatMap_singleton, separableValues,
        List.map_append, FhogFilterbank.pairs, List.map_map]
      rfl
    rw [hvalues]
    exact ht

/-- The separable filters, from the first plane that has any. -/
theorem applySeparable_shows (h : w.Fits feats nr nc fr fc) :
    ∃ saliency, applySeparable fl garbage w feats =
        .ok (saliency, w.area (plane feats 0) fr fc) ∧
      Shows (w.area (plane feats 0) fr fc) nr nc (shown fl (separableValues fl feats w.separable))
        saliency := by
  let first := (w.rowFilters.takeWhile List.isEmpty).length
  have hfirst : first ≤ w.rowFilters.length :=
    (List.takeWhile_prefix (l := w.rowFilters) List.isEmpty).length_le
  -- nothing happens before `first`, and nothing would
  have hnone : (List.range first).flatMap w.pairs = [] := List.flatMap_eq_nil_iff.mpr fun k hk => by
    rw [FhogFilterbank.pairs, rows_of_lt_takeWhile (List.mem_range.mp hk)]
    rfl
  have hstart : Progress fl (nonBorder (plane feats 0) fr fc) nr nc
      (separableValues fl feats ((List.range first).flatMap w.pairs))
      ⟨⟨0, 0, garbage⟩, emptyRectangle, ⟨0, 0, garbage⟩⟩ := by
    rw [hnone]
    exact ⟨fun _ => ⟨rfl, rfl⟩, fun hvalues => absurd rfl hvalues⟩
  obtain ⟨s, hrun, hs⟩ := forEach_range_drop hfirst
    (fun i => Progress fl (nonBorder (plane feats 0) fr fc) nr nc
      (separableValues fl feats ((List.range i).flatMap w.pairs)))
    (fun i _ hi s => addPlane_progress h (h.length_rows ▸ hi)) hstart
  obtain ⟨hnr, hnc⟩ := h.levels 0 h.planes
  have hnil : separableValues fl feats w.separable = [] ↔ w.numSeparableFilters = 0 := by
    rw [separableValues, List.map_eq_nil_iff, ← List.length_eq_zero_iff, length_separable]
  obtain ⟨hnothing, hshows⟩ := hs
  change separableValues fl feats w.separable = [] ∨ nr * nc = 0 → _ at hnothing
  change separableValues fl feats w.separable ≠ [] → _ at hshows
  rw [applySeparable, hrun, ok_bind, FhogFilterbank.area, hnr, hnc]
  by_cases hnum : w.numSeparableFilters = 0 ∨ nr * nc = 0
  · -- there is no image, and it is made here
    obtain ⟨hsize, harea⟩ := hnothing (hnum.imp_left hnil.mpr)
    rw [if_pos hsize, index_getD _ (h.length_feats ▸ h.planes), ok_bind, if_pos hnum, harea]
    simp only
    rw [zeroRows_paint _ (Grid.setSize_nr garbage) (Grid.setSize_nc garbage) le_rfl (by omega)]
    refine ⟨_, rfl, (Grid.setSize_nr garbage).trans hnr, (Grid.setSize_nc garbage).trans hnc,
      fun r c hin => ?_⟩
    rw [Grid.inRange_paint, Grid.InRange, Grid.setSize_nr, Grid.setSize_nc] at hin
    rw [Grid.paint_cell, if_pos (by rw [decide_eq_true_iff]; omega)]
    exact (if_neg (not_contains_emptyRectangle r c)).symm
  · obtain ⟨hsome, hne⟩ := not_or.mp hnum
    obtain ⟨harea, hshows⟩ := hshows (mt hnil.mp hsome) hne
    have hsize : s.saliency.nr * s.saliency.nc ≠ 0 := by
      rw [hshows.nr, hshows.nc]
      exact hne
    rw [if_neg hsize, if_neg hnum, harea]
    exact ⟨_, rfl, hshows⟩

/-! ## Both -/

/-- The area lies in the image. -/
theorem inRange_of_area (h : w.Fits feats nr nc fr fc) (hnr : img.nr = nr) (hnc : img.nc = nc)
    {r c : Int} (hin : (w.area (plane feats 0) fr fc).Contains r c) : img.InRange r c := by
  obtain ⟨hnr₀, hnc₀⟩ := h.levels 0 h.planes
  rw [FhogFilterbank.area] at hin
  split at hin
  · exact absurd hin (not_contains_emptyRectangle r c)
  · refine (Grid.inRange_congr (hnr.trans hnr₀.symm) (hnc.trans hnc₀.symm)).mpr ?_
    exact inRange_of_nonBorder (by rw [hnr₀, hnc₀]; exact h.level) h.size hin

variable (fl garbage) in
/-- Whichever filters are used, the run finishes, and shows what they add up to. -/
theorem applyFiltersToFhog_shows (h : w.Fits feats nr nc fr fc) (saliency : Grid K) :
    ∃ saliency', applyFiltersToFhog fl garbage w feats saliency =
        .ok (saliency', w.area (plane feats 0) fr fc) ∧
      Shows (w.area (plane feats 0) fr fc) nr nc (applied fl w feats fr fc) saliency' := by
  have hfilter : index w.filters 0 = .ok (w.filter 0) := index_getD _ h.planes
  obtain ⟨hfr, hfc⟩ := h.filter 0 h.planes
  rw [applyFiltersToFhog, hfilter, ok_bind, hfr, hfc]
  unfold applied
  by_cases hmany : w.filters.length * min fr fc < 3 * w.numSeparableFilters
  · simp only [if_pos hmany]
    obtain ⟨hnr, hnc⟩ := h.levels 0 h.planes
    by_cases hempty : nr * nc = 0
    · obtain ⟨saliency', hrun, hnr', hnc'⟩ := applyFilters_none fl garbage h hempty saliency
      have harea : w.area (plane feats 0) fr fc = emptyRectangle :=
        if_pos (Or.inr (by rw [hnr, hnc, hempty]))
      obtain ⟨hzero, hzero'⟩ := h.eq_zero hempty
      refine ⟨saliency', by rw [hrun, harea], hnr'.trans hzero.symm, hnc'.trans hzero'.symm,
        fun r c hin => ?_⟩
      rw [Grid.InRange, hnr', hnc'] at hin
      omega
    · have harea : w.area (plane feats 0) fr fc = nonBorder (plane feats 0) fr fc :=
        if_neg (by rw [hnr, hnc]; omega)
      rw [harea]
      exact applyFilters_shows h hempty saliency
  · simp only [if_neg hmany]
    exact applySeparable_shows h

/-! ## In exact arithmetic -/

end Values

/-- An edge and a blur, of three by three. -/
def edgeAndBlur : FhogFilterbank ℚ where
  filters := [⟨3, 3, fun m n => (2 - (1 - m : Int).natAbs) * (n - 1)⟩, ⟨3, 3, fun _ _ => 1⟩]
  rowFilters := [[[-1, 0, 1]], [[1, 1, 1]]]
  colFilters := [[[1, 2, 1]], [[1, 1, 1]]]

/-- Two planes for them, one steeper than the other. -/
def slopes : List (Grid ℚ) := [⟨5, 12, fun r c => r * c⟩, ⟨5, 12, fun r c => r + c⟩]

theorem edgeAndBlur_fits : edgeAndBlur.Fits slopes 5 12 3 3 where
  planes := by decide
  length_feats := rfl
  length_rows := rfl
  length_cols := rfl
  pairs := by decide
  levels := by decide
  filter := by decide
  separable := by decide
  level := by decide
  size := by decide
  empty := by decide

end DlibAndroid
