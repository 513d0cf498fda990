import DlibAndroid.Detector.ObjectDetector
import DlibAndroid.Detector.Spec
import Mathlib.Algebra.Order.Group.Int

/-!
# The strongest face

`Dlib::detect` reports the first rectangle the detector returns, whatever else it returns. That
this is the window with the highest confidence takes two arguments: with one filter the windows are
sorted by score, which is the confidence up to the one bias there is; with several they are sorted
again, by confidence, across the filters (`sortAccumulated_ordered`). Suppression goes through the
sorted list from the front with nothing to compare the first window to, so that one it keeps.

A `Window` is a window there is: its fields say which filter, level and place it belongs to, so the
search is exactly the list of the windows that qualify (`mem_accumulate`).
-/

set_option autoImplicit false

namespace DlibAndroid

open CCore

variable {W Feats K : Type} [LinearOrder K]

/-! ## What one filter finds -/

theorem mem_search {scanner : Scanner W Feats K} {levels : List Feats} {w : W} {thresh : K}
    {d : K × Rectangle} :
    d ∈ scanner.search levels w thresh ↔ ∃ l feats, levels[l]? = some feats ∧
      ∃ r c, ((scanner.applyFilters w feats).area.top.toInt ≤ r ∧
        r ≤ (scanner.applyFilters w feats).area.bottom.toInt) ∧
      ((scanner.applyFilters w feats).area.left.toInt ≤ c ∧
        c ≤ (scanner.applyFilters w feats).area.right.toInt) ∧
      thresh ≤ (scanner.applyFilters w feats).image r c ∧
        d = ((scanner.applyFilters w feats).image r c, scanner.window l r c) := by
  rw [Scanner.search, List.mem_flatMap]
  constructor
  · rintro ⟨⟨feats, l⟩, hl, hd⟩
    obtain ⟨r, hr, hd⟩ := List.mem_flatMap.mp hd
    obtain ⟨c, hc, hd⟩ := List.mem_flatMap.mp hd
    split at hd
    · rename_i hthresh
      exact ⟨l, feats, List.mem_zipIdx_iff_getElem?.mp hl, r, c, mem_upTo.mp hr, mem_upTo.mp hc,
        hthresh, List.mem_singleton.mp hd⟩
    · exact absurd hd List.not_mem_nil
  · rintro ⟨l, feats, hl, r, c, hr, hc, hthresh, rfl⟩
    refine ⟨(feats, l), List.mem_zipIdx_iff_getElem?.mpr hl, ?_⟩
    refine List.mem_flatMap.mpr ⟨r, mem_upTo.mpr hr, ?_⟩
    refine List.mem_flatMap.mpr ⟨c, mem_upTo.mpr hc, ?_⟩
    rw [if_pos hthresh]
    exact List.mem_singleton_self _

namespace ObjectDetector

variable {S : StdSort} {det : ObjectDetector W Feats K} {img : Image} {adjust : K}

theorem sortAccumulated_perm (dets : List (RectDetection K)) :
    (det.sortAccumulated S dets).Perm dets := by
  unfold sortAccumulated
  split
  · exact S.sortReversed_perm _ _
  · exact List.Perm.refl _

variable [AddCommGroup K]

/-! ## Windows -/

/-- A window of some filter at some level of the pyramid of an image. -/
structure Window (det : ObjectDetector W Feats K) (img : Image) where
  filter : Nat
  weights : WeightVector W K
  filter_eq : det.w[filter]? = some weights
  level : Nat
  feats : Feats
  level_eq : (det.scanner.load img)[level]? = some feats
  row : Int
  col : Int
  row_mem : (det.scanner.applyFilters weights.filters feats).area.top.toInt ≤ row ∧
    row ≤ (det.scanner.applyFilters weights.filters feats).area.bottom.toInt
  col_mem : (det.scanner.applyFilters weights.filters feats).area.left.toInt ≤ col ∧
    col ≤ (det.scanner.applyFilters weights.filters feats).area.right.toInt

namespace Window

def score (win : Window det img) : K :=
  (det.scanner.applyFilters win.weights.filters win.feats).image win.row win.col

/-- The score over the filter's own bias. -/
def confidence (win : Window det img) : K := win.score - win.weights.bias

def rect (win : Window det img) : Rectangle := det.scanner.window win.level win.row win.col

/-- The score reaches the threshold of the filter. -/
def Qualifies (win : Window det img) (adjust : K) : Prop := win.weights.bias + adjust ≤ win.score

/-- What the search makes of the window. -/
def detection (win : Window det img) : RectDetection K :=
  ⟨win.confidence, win.filter, win.rect⟩

end Window

/-! ## What is collected -/

/-- The search collects the windows that qualify, and nothing else. -/
theorem mem_accumulate {d : RectDetection K} :
    d ∈ det.accumulate S img adjust ↔
      ∃ win : Window det img, win.Qualifies adjust ∧ d = win.detection := by
  have hperm : ∀ found : List (K × Rectangle),
      (S.sortReversed (lessBy Prod.fst) found).Perm found := S.sortReversed_perm _
  rw [accumulate, List.mem_flatMap]
  constructor
  · rintro ⟨⟨w, i⟩, hi, hd⟩
    obtain ⟨s, hs, rfl⟩ := List.mem_map.mp hd
    obtain ⟨l, feats, hl, r, c, hr, hc, hthresh, rfl⟩ := mem_search.mp ((hperm _).mem_iff.mp hs)
    exact ⟨⟨i, w, List.mem_zipIdx_iff_getElem?.mp hi, l, feats, hl, r, c, hr, hc⟩, hthresh, rfl⟩
  · rintro ⟨win, hq, rfl⟩
    refine ⟨(win.weights, win.filter), List.mem_zipIdx_iff_getElem?.mpr win.filter_eq, ?_⟩
    refine List.mem_map.mpr ⟨(win.score, win.rect), (hperm _).mem_iff.mpr ?_, rfl⟩
    exact mem_search.mpr ⟨win.level, win.feats, win.level_eq, win.row, win.col, win.row_mem,
      win.col_mem, hq, rfl⟩

/-! ## In which order -/

/-- Suppression never takes the first window, whatever the overlap tester answers. -/
theorem head?_detections : (det.detections S img adjust).head? =
    (det.sortAccumulated S (det.accumulate S img adjust)).head? :=
  head?_keepUnless (fun _ => rfl) _

/-- Without a detection, no window qualifies. -/
theorem none_of_head (h : (det.detections S img adjust).head? = none) (win : Window det img) :
    ¬ win.Qualifies adjust := by
  intro hq
  rw [head?_detections, List.head?_eq_none_iff] at h
  have hmem : win.detection ∈ det.accumulate S img adjust := mem_accumulate.mpr ⟨win, hq, rfl⟩
  rw [← (sortAccumulated_perm _).mem_iff, h] at hmem
  exact absurd hmem List.not_mem_nil

section Order

variable [IsOrderedAddMonoid K]

/-- What one filter finds is sorted by score, so by the score over its bias. -/
theorem filter_ordered (levels : List Feats) (w : WeightVector W K) (thresh : K) (i : Nat) :
    ((det.scanner.detectFromFhogPyramid S levels w.filters thresh).map fun d =>
      (⟨d.1 - w.bias, i, d.2⟩ : RectDetection K)).Pairwise
      fun a b => b.detectionConfidence ≤ a.detectionConfidence := by
  have hscores := S.sortReversed_ordered (strictWeak_lessBy Prod.fst)
    (det.scanner.search levels w.filters thresh)
  refine List.pairwise_map.mpr (hscores.imp fun h => ?_)
  exact sub_le_sub_right (lessBy_eq_false.mp h) w.bias

/-- After the sorting, the more confident come first, with one filter as with several. -/
theorem sortAccumulated_ordered :
    (det.sortAccumulated S (det.accumulate S img adjust)).Pairwise
      fun a b => b.detectionConfidence ≤ a.detectionConfidence := by
  unfold sortAccumulated
  split
  · have hsorted := S.sortReversed_ordered (strictWeak_lessBy RectDetection.detectionConfidence)
      (det.accumulate S img adjust)
    exact hsorted.imp fun h => lessBy_eq_false.mp h
  · rename_i hone
    unfold accumulate
    cases hw : det.w with
    | nil => exact List.Pairwise.nil
    | cons w ws =>
      -- a single filter, which has sorted its own windows
      have hws : ws = [] := by
        rw [hw, List.length_cons] at hone
        exact List.length_eq_zero_iff.mp (by omega)
      rw [hws, List.zipIdx_singleton, List.flatMap_singleton]
      exact filter_ordered _ w _ 0

/-- **The first detection** is the most confident window there is. -/
theorem strongest_of_head {d : RectDetection K}
    (h : (det.detections S img adjust).head? = some d) :
    ∃ win : Window det img, win.Qualifies adjust ∧ d = win.detection ∧
      ∀ win' : Window det img, win'.Qualifies adjust → win'.confidence ≤ win.confidence := by
  rw [head?_detections] at h
  have hmem := (sortAccumulated_perm _).mem_iff.mp (List.mem_of_mem_head? h)
  obtain ⟨win, hq, rfl⟩ := mem_accumulate.mp hmem
  refine ⟨win, hq, rfl, fun win' hq' => ?_⟩
  have hmem' : win'.detection ∈ det.accumulate S img adjust := mem_accumulate.mpr ⟨win', hq', rfl⟩
  exact greatest_of_pairwise sortAccumulated_ordered h win'.detection
    ((sortAccumulated_perm _).mem_iff.mpr hmem')

end Order

/-! ## What the wrapper reports -/

/-- The wrapper, linked with this detector. -/
def env [One K] {M : Type} (S : StdSort) (det : ObjectDetector W Feats K) (abi : Abi)
    (predict : M → Image → Rectangle → Exec (List Point)) : Env M where
  abi := abi
  detector := fun img => det.apply S img 1
  predict := predict

theorem faceIn_env [One K] {M : Type} {abi : Abi}
    {predict : M → Image → Rectangle → Exec (List Point)} :
    Dlib.faceIn (det.env S abi predict) img =
      ((det.detections S img 1).head?.map RectDetection.rect).getD ⟨0, 0, 0, 0⟩ := by
  rw [Dlib.faceIn, List.headD_eq_head?_getD, ← List.head?_map]
  rfl

/-- `rect` holds the most confident window that qualifies, or four zeros if none does. -/
def ReportsStrongest [One K] (det : ObjectDetector W Feats K) (img : Image) (rect : Block Int32) :
    Prop :=
  (∃ win : Window det img, win.Qualifies 1 ∧ rect.Holds 4 win.rect.coord ∧
    ∀ win' : Window det img, win'.Qualifies 1 → win'.confidence ≤ win.confidence) ∨
  (∀ win : Window det img, ¬ win.Qualifies 1) ∧ rect.Holds 4 fun _ => 0

/-- **`Dlib::detect` reports the strongest face.** -/
theorem detect_strongest [IsOrderedAddMonoid K] [One K] {M : Type} (S : StdSort)
    (det : ObjectDetector W Feats K) (abi : Abi)
    (predict : M → Image → Rectangle → Exec (List Point)) {image : Array2d} {rect : Block Int32}
    (hview : image.view = .ok img) (hrect : rect.size = 4) :
    ∃ rect', Dlib.detect (det.env S abi predict) image rect = .ok rect' ∧
      det.ReportsStrongest img rect' := by
  obtain ⟨rect', hrect', hu⟩ := Dlib.detect_ok (det.env S abi predict) hview hrect.ge
  refine ⟨rect', hrect', ?_⟩
  have hholds := hu.holds
  rw [faceIn_env] at hholds
  cases hhead : (det.detections S img 1).head? with
  | none =>
    rw [hhead, Option.map_none, Option.getD_none, coord_zero] at hholds
    exact Or.inr ⟨none_of_head hhead, hholds⟩
  | some d =>
    obtain ⟨win, hq, rfl, hmax⟩ := strongest_of_head hhead
    rw [hhead, Option.map_some, Option.getD_some] at hholds
    exact Or.inl ⟨win, hq, hholds, hmax⟩

/-! ## Two filters -/

/-- Two filters over one level of one row and two columns, all windows overlapping. The second
filter scores less, and more above its bias. -/
def twoFilters : ObjectDetector Int Unit Int where
  scanner :=
    { load := fun _ => [()]
      applyFilters := fun w _ => ⟨⟨0, 0, 1, 0⟩, fun _ c => w + c⟩
      detBoxWidth := 10
      detBoxHeight := 10
      featsToImage := id
      rectUp := fun rect _ => rect }
  w := [⟨10, 8⟩, ⟨6, 3⟩]
  boxesOverlap _ _ := true

theorem detect_strongest_twoFilters : ∃ rect',
    Dlib.detect (twoFilters.env .merge .x86 fun (_ : Unit) _ _ => .ok []) .new Dlib.zeroRect =
      .ok rect' ∧ twoFilters.ReportsStrongest ⟨0, 0, [], rfl⟩ rect' :=
  detect_strongest .merge twoFilters .x86 (fun _ _ _ => .ok []) rfl Block.size_tabulate

end ObjectDetector

end DlibAndroid
