import DlibAndroid.Lib.Greedy
import DlibAndroid.Detector.Rectangle
import DlibAndroid.Detector.Strongest
import Mathlib.Algebra.Order.Ring.Rat
import Mathlib.Data.List.Perm.Basic

/-!
# Non-max suppression

`test_box_overlap`, and what `operator()` leaves of the windows with it: `Suppressed`, a selection
of the windows that qualify in which no two overlap, and which answers for every window that was
left out with one at least as confident that overlaps it.

The tester asks about the pair (kept, new) only. That no two overlap in either order is its
symmetry (`test_comm`), and `rectangle::operator+` is not symmetric: of two empty rectangles it
returns the left one. The tester does not get there.

The areas are `unsigned long`s, which wrap. Their division as `double`s is left to `quotient`.
-/

set_option autoImplicit false

namespace DlibAndroid

open CCore

/-! ## The tester -/

/-- `test_box_overlap` -/
structure TestBoxOverlap (K : Type) where
  iouThresh : K
  percentCoveredThresh : K

variable {W Feats K : Type} [LinearOrder K] {quotient : Nat → Nat → K} {tester : TestBoxOverlap K}

/-- `test_box_overlap::operator()` -/
def TestBoxOverlap.test (quotient : Nat → Nat → K) (tester : TestBoxOverlap K)
    (a b : Rectangle) : Bool :=
  let inner := (a.intersect b).area
  if inner = 0 then false
  else
    let outer := (a.add b).area
    tester.iouThresh < quotient inner outer ∨ tester.percentCoveredThresh < quotient inner a.area ∨
      tester.percentCoveredThresh < quotient inner b.area

/-- **The tester is symmetric**, though the rectangle around both is not. -/
theorem TestBoxOverlap.test_comm (a b : Rectangle) :
    tester.test quotient a b = tester.test quotient b a := by
  simp only [test, Rectangle.intersect_comm b a]
  by_cases hinner : (a.intersect b).area = 0
  · rw [if_pos hinner, if_pos hinner]
  · have ha : a.isEmpty = false := by
      by_contra ha
      exact hinner (Rectangle.area_of_isEmpty (Rectangle.isEmpty_intersect (by simpa using ha) b))
    have hb : b.isEmpty = false := by
      by_contra hb
      rw [Rectangle.intersect_comm] at hinner
      exact hinner (Rectangle.area_of_isEmpty (Rectangle.isEmpty_intersect (by simpa using hb) a))
    rw [if_neg hinner, if_neg hinner, Rectangle.add_comm_of_nonempty ha hb, decide_eq_decide]
    exact or_congr_right or_comm

namespace ObjectDetector

/-- The windows that reach the higher threshold are those of the lower one that reach it. -/
theorem search_filter {scanner : Scanner W Feats K} {levels : List Feats} {w : W} {t t' : K}
    (h : t ≤ t') : scanner.search levels w t' =
      (scanner.search levels w t).filter fun d => t' ≤ d.1 := by
  simp only [Scanner.search, List.filter_flatMap]
  refine List.flatMap_congr fun l _ => List.flatMap_congr fun r _ =>
    List.flatMap_congr fun c _ => ?_
  by_cases ht' : t' ≤ (scanner.applyFilters w l.1).image r c
  · simp [ht', h.trans ht']
  · rw [if_neg ht']
    split
    · simp [ht']
    · rfl

variable [AddCommGroup K] {S : StdSort} {det : ObjectDetector W Feats K} {img : Image}
  {adjust : K} {dets : List (RectDetection K)}

/-! ## What is left -/

/-- What the detector is meant to return: windows that qualify, the more confident first, no two of
them overlapping, and for every other window that qualifies one that suppresses it. -/
structure Suppressed (det : ObjectDetector W Feats K) (img : Image) (adjust : K)
    (dets : List (RectDetection K)) : Prop where
  ordered : dets.Pairwise fun a b => b.detectionConfidence ≤ a.detectionConfidence
  apart : dets.Pairwise fun a b =>
    det.boxesOverlap a.rect b.rect = false ∧ det.boxesOverlap b.rect a.rect = false
  sound : ∀ d ∈ dets, ∃ win : Window det img, win.Qualifies adjust ∧ d = win.detection
  complete : ∀ win : Window det img, win.Qualifies adjust → win.detection ∈ dets ∨
    ∃ d ∈ dets, det.boxesOverlap d.rect win.rect = true ∧ win.confidence ≤ d.detectionConfidence

theorem detections_eq : det.detections S img adjust =
    keepUnless (anyOf fun a b : RectDetection K => det.boxesOverlap a.rect b.rect)
      (det.sortAccumulated S (det.accumulate S img adjust)) := rfl

/-- **`operator()`**, with a tester that is symmetric. -/
theorem suppressed_detections [IsOrderedAddMonoid K]
    (hcomm : ∀ a b, det.boxesOverlap a b = det.boxesOverlap b a) :
    det.Suppressed img adjust (det.detections S img adjust) := by
  have hsorted : (det.sortAccumulated S (det.accumulate S img adjust)).Pairwise
      fun a b => b.detectionConfidence ≤ a.detectionConfidence := sortAccumulated_ordered
  have hmem : ∀ d, d ∈ det.sortAccumulated S (det.accumulate S img adjust) ↔
      ∃ win : Window det img, win.Qualifies adjust ∧ d = win.detection := fun d =>
    (sortAccumulated_perm _).mem_iff.trans mem_accumulate
  rw [detections_eq]
  constructor
  · exact hsorted.sublist (keepUnless_sublist _ _)
  · exact (pairwise_keepUnless _ _).imp fun h => ⟨h, hcomm _ _ ▸ h⟩
  · exact fun d hd => (hmem d).mp ((keepUnless_sublist _ _).subset hd)
  · intro win hq
    exact mem_keepUnless_or hsorted ((hmem win.detection).mpr ⟨win, hq, rfl⟩)

/-- **The detector of the library**, whose tester is `test_box_overlap`. -/
theorem detections_suppressed [IsOrderedAddMonoid K] (S : StdSort) (det : ObjectDetector W Feats K)
    (quotient : Nat → Nat → K) (tester : TestBoxOverlap K)
    (htester : det.boxesOverlap = tester.test quotient) (img : Image) (adjust : K) :
    det.Suppressed img adjust (det.detections S img adjust) :=
  suppressed_detections (htester ▸ TestBoxOverlap.test_comm)

/-- The quotient, before it is rounded. -/
def ratio (inner outer : Nat) : ℚ := (inner : ℚ) / outer

/-- One filter over one level of one row and four columns, with the thresholds of the library. All
windows overlap, and the third one scores most. -/
def fourWindows : ObjectDetector Unit Unit ℚ where
  scanner :=
    { load := fun _ => [()]
      applyFilters := fun _ _ => ⟨⟨0, 0, 3, 0⟩, fun _ c => if c = 2 then 9 else c⟩
      detBoxWidth := 10
      detBoxHeight := 10
      featsToImage := id
      rectUp := fun rect _ => rect }
  w := [⟨(), 0⟩]
  boxesOverlap := TestBoxOverlap.test ratio ⟨1 / 2, 1⟩

theorem detections_suppressed_fourWindows :
    fourWindows.Suppressed ⟨0, 0, [], rfl⟩ 1 (fourWindows.detections .merge ⟨0, 0, [], rfl⟩ 1) :=
  detections_suppressed .merge fourWindows ratio ⟨1 / 2, 1⟩ rfl _ 1

/-! ## A higher threshold -/

variable [IsOrderedAddMonoid K] {adjust' : K}

theorem accumulate_perm (h : adjust ≤ adjust') : (det.accumulate S img adjust').Perm
    ((det.accumulate S img adjust).filter fun d => adjust' ≤ d.detectionConfidence) := by
  rw [accumulate, accumulate, List.filter_flatMap]
  refine List.Perm.flatMap_left _ fun wi _ => ?_
  have hsearch : det.scanner.search (det.scanner.load img) wi.1.filters (wi.1.bias + adjust') =
      (det.scanner.search (det.scanner.load img) wi.1.filters (wi.1.bias + adjust)).filter
        fun d => wi.1.bias + adjust' ≤ d.1 := search_filter (add_le_add_right h wi.1.bias)
  have hconfidence : ((fun d : RectDetection K => decide (adjust' ≤ d.detectionConfidence)) ∘
      fun d : K × Rectangle => ⟨d.1 - wi.1.bias, wi.2, d.2⟩) =
      fun d => decide (wi.1.bias + adjust' ≤ d.1) := by
    funext d
    exact decide_eq_decide.mpr le_sub_iff_add_le'
  rw [List.filter_map, hconfidence]
  refine List.Perm.map _ ?_
  refine (S.sortReversed_perm _ _).trans ?_
  rw [hsearch]
  exact ((S.sortReversed_perm _ _).filter _).symm

/-- **A higher threshold takes detections away and never brings another one to light**, in exact
arithmetic and where the windows that tie are the same. With rounding, a threshold that is raised by
less than the last digit of the sum with the bias lets a window through that the difference of score
and bias is below. -/
theorem detections_raised (S : StdSort) (det : ObjectDetector W Feats K) (img : Image)
    (h : adjust ≤ adjust') (hties : ∀ win win' : Window det img, win.Qualifies adjust →
      win'.Qualifies adjust → win.confidence = win'.confidence → win.detection = win'.detection) :
    det.detections S img adjust' =
      (det.detections S img adjust).filter fun d => adjust' ≤ d.detectionConfidence := by
  have hsorted : (det.sortAccumulated S (det.accumulate S img adjust)).Pairwise
      fun a b => b.detectionConfidence ≤ a.detectionConfidence := sortAccumulated_ordered
  have heq : det.sortAccumulated S (det.accumulate S img adjust') =
      (det.sortAccumulated S (det.accumulate S img adjust)).filter
        fun d => adjust' ≤ d.detectionConfidence := by
    have hperm : (det.sortAccumulated S (det.accumulate S img adjust')).Perm
        ((det.sortAccumulated S (det.accumulate S img adjust)).filter
          fun d => adjust' ≤ d.detectionConfidence) :=
      (sortAccumulated_perm _).trans ((accumulate_perm h).trans
        ((sortAccumulated_perm _).filter _).symm)
    refine List.Perm.eq_of_pairwise (fun a b ha hb hba hab => ?_) sortAccumulated_ordered
      (hsorted.filter _) hperm
    have hmem : ∀ d ∈ det.sortAccumulated S (det.accumulate S img adjust),
        ∃ win : Window det img, win.Qualifies adjust ∧ d = win.detection := fun d hd =>
      mem_accumulate.mp ((sortAccumulated_perm _).mem_iff.mp hd)
    obtain ⟨win, hq, rfl⟩ := hmem a (List.mem_filter.mp (hperm.mem_iff.mp ha)).1
    obtain ⟨win', hq', rfl⟩ := hmem b (List.mem_filter.mp hb).1
    exact hties win win' hq hq' (le_antisymm hab hba)
  rw [detections_eq, detections_eq, heq, keepUnless_filter adjust' hsorted]

/-- The four windows are told apart by their columns. -/
theorem fourWindows_detection {img : Image} (win : Window fourWindows img) :
    (0 ≤ win.col ∧ win.col ≤ 3) ∧ win.detection =
      ⟨if win.col = 2 then 9 else win.col, 0, fourWindows.scanner.window 0 0 win.col⟩ := by
  obtain ⟨filter, weights, hfilter, level, feats, hlevel, row, col, hrow, hcol⟩ := win
  match filter, hfilter with
  | 0, rfl =>
    match level, hlevel with
    | 0, rfl =>
      obtain rfl : row = 0 := le_antisymm hrow.2 hrow.1
      refine ⟨hcol, ?_⟩
      rw [Window.detection, Window.confidence, Window.score]
      exact congrArg (fun k : ℚ => (⟨k, 0, fourWindows.scanner.window 0 0 col⟩ : RectDetection ℚ))
        (sub_zero _)

theorem detections_raised_fourWindows :
    fourWindows.detections .merge ⟨0, 0, [], rfl⟩ 4 =
      (fourWindows.detections .merge ⟨0, 0, [], rfl⟩ 1).filter
        fun d => 4 ≤ d.detectionConfidence := by
  refine detections_raised .merge fourWindows _ (by decide) fun win win' _ _ heq => ?_
  obtain ⟨hcol, hwin⟩ := fourWindows_detection win
  obtain ⟨hcol', hwin'⟩ := fourWindows_detection win'
  have hconf : win.detection.detectionConfidence = win'.detection.detectionConfidence := heq
  have hsame : win.col = win'.col := by
    rw [hwin, hwin'] at hconf
    simp only at hconf
    split at hconf <;> split at hconf
    · omega
    · have : 9 = win'.col := by exact_mod_cast hconf
      omega
    · have : win.col = 9 := by exact_mod_cast hconf
      omega
    · exact Int.cast_inj.mp hconf
  rw [hwin, hwin', hsame]

end ObjectDetector

end DlibAndroid
