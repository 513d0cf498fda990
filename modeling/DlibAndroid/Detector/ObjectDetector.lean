import DlibAndroid.Lib.Loop
import DlibAndroid.Lib.Select
import DlibAndroid.Frame.Array2d
import Mathlib.Algebra.Order.Group.Defs

/-!
# The face detector

`object_detector::operator()` over `scan_fhog_pyramid`: every filter is slid over every level of a
pyramid, the windows that score high enough are collected and sorted, and of those that overlap
only one is kept.

The arithmetic under it is left to `Scanner`: the features of the levels, the scores a filter gives
to the windows of a level, and the way from a window of a level to a rectangle of the image. Scores
are elements of any ordered group `K`. `std::sort` is any `StdSort`, and the overlap tester is any
function: which windows tie, and which suppress which, is left open.
-/

set_option autoImplicit false

namespace DlibAndroid

open CCore

variable {W Feats K : Type}

/-- What `apply_filters_to_fhog` gives for a filter and a level: the area that can be searched, and
`saliency_image[r][c]`. -/
structure Saliency (K : Type) where
  area : Rectangle
  image : Int → Int → K

/-- `scan_fhog_pyramid`. `load` gives the levels of the pyramid, `feats`. -/
structure Scanner (W Feats K : Type) where
  load : Image → List Feats
  applyFilters : W → Feats → Saliency K
  detBoxWidth : Int
  detBoxHeight : Int
  featsToImage : Rectangle → Rectangle
  rectUp : Rectangle → Nat → Rectangle

/-- `processed_weight_vector`: the filters, and the last element of `w`, the bias. -/
structure WeightVector (W K : Type) where
  filters : W
  bias : K

/-- `rect_detection` -/
structure RectDetection (K : Type) where
  detectionConfidence : K
  weightIndex : Nat
  rect : Rectangle

/-- `object_detector` -/
structure ObjectDetector (W Feats K : Type) where
  scanner : Scanner W Feats K
  w : List (WeightVector W K)
  boxesOverlap : Rectangle → Rectangle → Bool

/-! ## One filter -/

/-- `centered_rect` -/
def centeredRect (x y width height : Int) : Rectangle where
  left := .ofInt (x - width.tdiv 2)
  top := .ofInt (y - height.tdiv 2)
  right := .ofInt (x - width.tdiv 2 + width - 1)
  bottom := .ofInt (y - height.tdiv 2 + height - 1)

/-- The rectangle of the image for the window at row `r`, column `c` of level `l`. -/
def Scanner.window (scanner : Scanner W Feats K) (l : Nat) (r c : Int) : Rectangle :=
  scanner.rectUp (scanner.featsToImage
    (centeredRect c r scanner.detBoxWidth scanner.detBoxHeight)) l

/-- The loops of `detect_from_fhog_pyramid`, and what they push. -/
def Scanner.search [LinearOrder K] (scanner : Scanner W Feats K) (feats : List Feats) (w : W)
    (thresh : K) : List (K × Rectangle) :=
  feats.zipIdx.flatMap fun (feat, l) =>
    let saliency := scanner.applyFilters w feat
    (upTo saliency.area.top.toInt saliency.area.bottom.toInt).flatMap fun r =>
      (upTo saliency.area.left.toInt saliency.area.right.toInt).flatMap fun c =>
        if thresh ≤ saliency.image r c then [(saliency.image r c, scanner.window l r c)] else []

/-- `detect_from_fhog_pyramid`, which `scan_fhog_pyramid::detect` calls. `compare_pair_rect`
compares the scores. -/
def Scanner.detectFromFhogPyramid [LinearOrder K] (S : StdSort) (scanner : Scanner W Feats K)
    (feats : List Feats) (w : W) (thresh : K) : List (K × Rectangle) :=
  S.sortReversed (lessBy Prod.fst) (scanner.search feats w thresh)

/-! ## All filters -/

namespace ObjectDetector

section Operator

variable [LinearOrder K] [AddCommGroup K]

/-- The first loop of `operator()`: what every filter finds, with its confidence over the bias. -/
def accumulate (S : StdSort) (det : ObjectDetector W Feats K) (img : Image)
    (adjustThreshold : K) : List (RectDetection K) :=
  det.w.zipIdx.flatMap fun (w, i) =>
    (det.scanner.detectFromFhogPyramid S (det.scanner.load img) w.filters
      (w.bias + adjustThreshold)).map fun d => ⟨d.1 - w.bias, i, d.2⟩

/-- `if (w.size() > 1) std::sort(dets_accum.rbegin(), dets_accum.rend());` -/
def sortAccumulated (S : StdSort) (det : ObjectDetector W Feats K)
    (dets : List (RectDetection K)) : List (RectDetection K) :=
  if 1 < det.w.length then S.sortReversed (lessBy RectDetection.detectionConfidence) dets else dets

/-- `overlaps_any_box` -/
def overlapsAnyBox (det : ObjectDetector W Feats K) (rects : List (RectDetection K))
    (rect : Rectangle) : Bool :=
  rects.any fun r => det.boxesOverlap r.rect rect

/-- `operator()(img, final_dets, adjust_threshold)` -/
def detections (S : StdSort) (det : ObjectDetector W Feats K) (img : Image)
    (adjustThreshold : K) : List (RectDetection K) :=
  keepUnless (fun finalDets d => det.overlapsAnyBox finalDets d.rect)
    (det.sortAccumulated S (det.accumulate S img adjustThreshold))

/-- `operator()(img, adjust_threshold)`, the one that returns the rectangles. -/
def apply (S : StdSort) (det : ObjectDetector W Feats K) (img : Image) (adjustThreshold : K) :
    List Rectangle :=
  (det.detections S img adjustThreshold).map RectDetection.rect

end Operator

end ObjectDetector

end DlibAndroid
