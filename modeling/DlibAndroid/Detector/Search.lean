import DlibAndroid.Detector.Filterbank
import DlibAndroid.Detector.Strongest

/-!
# `detect_from_fhog_pyramid`

The filterbank is applied to every level, and the windows of the area that score high enough are
pushed. The saliency image is one for all levels, so a level starts with what the one before it left
there.

`Scanner` has scores for the windows of a level, from wherever they come. Here they come from the
filters, and the run of the code is the search of the scanner whose scores are what the filters add
up to (`detectFromFhogPyramid_eq`): no pixel of another level, of a border or of a scratch image is
ever taken for a score, and no pixel is read outside the image. A window scores what the filters
give it in the order of the code and with all its rounding, and it is that which is compared with
the threshold; in exact arithmetic it is the correlation with the filters (`applied_exact`).
-/

set_option autoImplicit false

namespace DlibAndroid

open CCore Finset

variable {K : Type}

/-- The locals of `detect_from_fhog_pyramid`, and `dets`. -/
structure Found (K : Type) where
  saliencyImage : Grid K
  dets : List (K × Rectangle)

section Definitions

variable [LinearOrder K]

/-- A pixel of the area: its window is pushed if the score is high enough. -/
def searchPixel (window : Int → Int → Rectangle) (thresh : K) (saliencyImage : Grid K) (r c : Int)
    (dets : List (K × Rectangle)) : Exec (List (K × Rectangle)) := do
  let score ← saliencyImage.read r c
  pure (dets ++ if thresh ≤ score then [(score, window r c)] else [])

/-- All pixels of the area, row by row. -/
def searchArea (window : Int → Int → Rectangle) (thresh : K) (saliencyImage : Grid K)
    (area : Rectangle) : List (K × Rectangle) → Exec (List (K × Rectangle)) :=
  forEach (upTo area.top.toInt area.bottom.toInt) fun r =>
    forEach (upTo area.left.toInt area.right.toInt) (searchPixel window thresh saliencyImage r)

variable [Zero K] [Add K] [Mul K] (fl : Rounding K)

/-- A level of the pyramid is filtered and searched. -/
def searchLevel (garbage : Int → Int → K) (window : Nat → Int → Int → Rectangle)
    (w : FhogFilterbank K) (thresh : K) (level : List (Grid K) × Nat) (s : Found K) :
    Exec (Found K) := do
  let done ← applyFiltersToFhog fl garbage w level.1 s.saliencyImage
  let dets ← searchArea (window level.2) thresh done.1 done.2 s.dets
  pure ⟨done.1, dets⟩

/-- `detect_from_fhog_pyramid` -/
def detectFromFhogPyramid (S : StdSort) (garbage : Int → Int → K)
    (window : Nat → Int → Int → Rectangle) (feats : List (List (Grid K))) (w : FhogFilterbank K)
    (thresh : K) : Exec (List (K × Rectangle)) := do
  let s ← forEach feats.zipIdx (searchLevel fl garbage window w thresh) ⟨⟨0, 0, garbage⟩, []⟩
  pure (S.sortReversed (lessBy Prod.fst) s.dets)

end Definitions

/-! ## The scanner it is -/

section Refinement

variable [CommSemiring K]

/-- A scanner whose scores are what the filters add up to. -/
def Scanner.correlating (scanner : Scanner (FhogFilterbank K) (List (Grid K)) K) (fl : Rounding K)
    (fr fc : Nat) : Scanner (FhogFilterbank K) (List (Grid K)) K :=
  { scanner with
    applyFilters := fun w feats => ⟨w.area (plane feats 0) fr fc, applied fl w feats fr fc⟩ }

variable [LinearOrder K] {fl : Rounding K} {S : StdSort} {garbage : Int → Int → K}
variable {w : FhogFilterbank K} {nr nc fr fc : Nat} {thresh : K}

/-- The windows that a level gives, from what its pixels come to. -/
def levelDets (fl : Rounding K) (window : Nat → Int → Int → Rectangle) (w : FhogFilterbank K)
    (fr fc : Nat) (thresh : K) (level : List (Grid K) × Nat) : List (K × Rectangle) :=
  let area := w.area (plane level.1 0) fr fc
  (upTo area.top.toInt area.bottom.toInt).flatMap fun r =>
    (upTo area.left.toInt area.right.toInt).flatMap fun c =>
      if thresh ≤ applied fl w level.1 fr fc r c then
        [(applied fl w level.1 fr fc r c, window level.2 r c)] else []

theorem searchArea_eq {window : Int → Int → Rectangle} {image : Grid K} {area : Rectangle}
    {value : Int → Int → K} (hshows : Shows area nr nc value image)
    (harea : ∀ r c, area.Contains r c → image.InRange r c) (dets : List (K × Rectangle)) :
    searchArea window thresh image area dets =
      .ok (dets ++ (upTo area.top.toInt area.bottom.toInt).flatMap fun r =>
        (upTo area.left.toInt area.right.toInt).flatMap fun c =>
          if thresh ≤ value r c then [(value r c, window r c)] else []) := by
  refine forEach_pushes (fun r hr dets => ?_) dets
  refine forEach_pushes (fun c hc dets => ?_) dets
  have hin : area.Contains r c := ⟨mem_upTo.mp hr, mem_upTo.mp hc⟩
  rw [searchPixel, Grid.read_of_inRange (harea r c hin), ok_bind, hshows.cell r c (harea r c hin),
    if_pos hin]
  rfl

variable (fl garbage thresh) in
/-- A level gives its windows. What was in the image before does not matter. -/
theorem searchLevel_eq (window : Nat → Int → Int → Rectangle) {level : List (Grid K) × Nat}
    (h : w.Fits level.1 nr nc fr fc) (s : Found K) :
    ∃ image, searchLevel fl garbage window w thresh level s =
      .ok ⟨image, s.dets ++ levelDets fl window w fr fc thresh level⟩ := by
  obtain ⟨image, hrun, hshows⟩ := applyFiltersToFhog_shows fl garbage h s.saliencyImage
  -- what is searched was written for this level
  have harea : ∀ r c, (w.area (plane level.1 0) fr fc).Contains r c → image.InRange r c :=
    fun r c => inRange_of_area h hshows.nr hshows.nc
  refine ⟨image, ?_⟩
  rw [searchLevel, hrun, ok_bind, searchArea_eq hshows harea]
  rfl

variable (fl garbage thresh) in
/-- All levels give theirs, one after the other. -/
theorem searchLevels_eq (window : Nat → Int → Int → Rectangle)
    (levels : List (List (Grid K) × Nat))
    (h : ∀ level ∈ levels, ∃ nr nc, w.Fits level.1 nr nc fr fc) (s : Found K) :
    ∃ image, forEach levels (searchLevel fl garbage window w thresh) s =
      .ok ⟨image, s.dets ++ levels.flatMap (levelDets fl window w fr fc thresh)⟩ := by
  induction levels generalizing s with
  | nil => exact ⟨s.saliencyImage, by rw [List.flatMap_nil, List.append_nil]; rfl⟩
  | cons level levels ih =>
    obtain ⟨nr, nc, hfits⟩ := h level List.mem_cons_self
    obtain ⟨image, hlevel⟩ := searchLevel_eq fl garbage thresh window hfits s
    obtain ⟨image', hlevels⟩ := ih (fun l hl => h l (List.mem_cons_of_mem _ hl))
      ⟨image, s.dets ++ levelDets fl window w fr fc thresh level⟩
    refine ⟨image', ?_⟩
    rw [forEach_cons, hlevel, ok_bind, hlevels, List.flatMap_cons, List.append_assoc]

/-- **The code finds what the scanner finds**, however sums and products are rounded. The levels may
be of any size, smaller than the filters or empty too, and every one has the planes of the
filterbank. -/
theorem detectFromFhogPyramid_eq (scanner : Scanner (FhogFilterbank K) (List (Grid K)) K)
    (feats : List (List (Grid K))) (h : ∀ level ∈ feats, ∃ nr nc, w.Fits level nr nc fr fc) :
    detectFromFhogPyramid fl S garbage scanner.window feats w thresh =
      .ok ((scanner.correlating fl fr fc).detectFromFhogPyramid S feats w thresh) := by
  have hlevels : ∀ level ∈ feats.zipIdx, ∃ nr nc, w.Fits level.1 nr nc fr fc := fun level hl =>
    h level.1 (List.fst_mem_of_mem_zipIdx hl)
  obtain ⟨image, hrun⟩ := searchLevels_eq fl garbage thresh scanner.window feats.zipIdx hlevels
    ⟨⟨0, 0, garbage⟩, []⟩
  rw [detectFromFhogPyramid, hrun, ok_bind, List.nil_append]
  rfl

end Refinement

/-- A level of an image that is too small. -/
def tooSmall : List (Grid ℚ) := [⟨0, 0, fun _ _ => 3⟩, ⟨0, 0, fun _ _ => 3⟩]

theorem tooSmall_fits : edgeAndBlur.Fits tooSmall 0 0 3 3 where
  planes := by decide
  length_feats := rfl
  length_rows := rfl
  length_cols := rfl
  pairs := by decide
  levels := by decide
  filter := by decide
  separable := by decide
  level := by decide
  size := by decide
  empty := by decide

/-- A scanner with windows of one by one. -/
def pixelScanner : Scanner (FhogFilterbank ℚ) (List (Grid ℚ)) ℚ where
  load _ := [slopes, tooSmall]
  applyFilters _ _ := ⟨emptyRectangle, fun _ _ => 0⟩
  detBoxWidth := 1
  detBoxHeight := 1
  featsToImage rect := rect
  rectUp rect _ := rect

theorem detectFromFhogPyramid_pixelScanner :
    detectFromFhogPyramid .ieee .merge (fun _ _ => 7) pixelScanner.window [slopes, tooSmall]
        edgeAndBlur 120 =
      .ok ((pixelScanner.correlating .ieee 3 3).detectFromFhogPyramid .merge [slopes, tooSmall]
        edgeAndBlur 120) :=
  detectFromFhogPyramid_eq pixelScanner _ fun level hlevel => by
    rcases List.mem_cons.mp hlevel with rfl | hlevel
    · exact ⟨5, 12, edgeAndBlur_fits⟩
    · obtain rfl := List.mem_singleton.mp hlevel
      exact ⟨0, 0, tooSmall_fits⟩

end DlibAndroid
