import DlibAndroid.Detector.Capture

/-!
# What a call reports

The coordinates a caller gets ought to be those of the picture passed in: `s` times what the
detector and the predictor say about the frame (`Reports`). Two properties are settled here, each
by an exact condition on what the detector and the predictor answer.

`AllOrNothing`: a tracking call reports a face and its landmarks, or leaves both arrays alone.
The code writes the landmarks before it asks `found()`, and `found()` takes a face for missing as
soon as one of its four coordinates is zero (`allOrNothing_iff`).

`EntryPointsAgree`: the three methods report in the same coordinates. Two of them do not scale, so
this holds for the pictures with factor 1 only (`entryPointsAgree_iff`).
-/

set_option autoImplicit false

namespace DlibAndroid.Dlib

open CCore

variable {M : Type} {env : Env M} {model : M} {d : Dlib M} {calls : List Call} {malloc : Bool}
  {picture : Nat → UInt8} {width height s : Int} {rect points rect' points' : Block Int32}
  {img : Image} {marks : Image → Rectangle → List Point} {leaked : List Nat}

/-- The predictor answers with 68 landmarks, whatever they are. -/
def Landmarked (env : Env M) (model : M) (marks : Image → Rectangle → List Point) : Prop :=
  ∀ img r, env.predict model img r = .ok (marks img r) ∧ (marks img r).length = 68

/-- The first `n` cells hold `s` times the coordinates `g`, as integers. -/
def Reports (b : Block Int32) (n : Nat) (s : Int) (g : Nat → Int32) : Prop :=
  ∀ k, k < n → ∃ v, b.cells[k]? = some (some v) ∧ v.toInt = s * (g k).toInt

/-- A reported face and its landmarks, or two arrays nobody touched. -/
def Outcome (env : Env M) (marks : Image → Rectangle → List Point) (img : Image) (s : Int)
    (rect points rect' points' : Block Int32) : Prop :=
  match env.detector img with
  | [] => rect' = rect ∧ points' = points
  | face :: _ =>
      Reports rect' 4 s face.coord ∧ Reports points' 136 s (landmarkCoord (marks img face))

/-- The tracking call completes with one of the two outcomes, for the frame and the factor it
leaves in the object. -/
def AllOrNothing (env : Env M) (marks : Image → Rectangle → List Point) (malloc : Bool)
    (picture : Nat → UInt8) (width height : Int) (rect points : Block Int32) (d : Dlib M) : Prop :=
  ∃ d' rect' points' frame img sample s,
    trackTexture env malloc picture width height rect points d = .ok (d', rect', points') ∧
    d'.frame = some frame ∧ frame.val.view = .ok img ∧
    d'.sample = some sample ∧ sample.val.read 0 = .ok s ∧
    Outcome env marks img s rect points rect' points'

/-- When the answers for the frame `img` are reported as they should be. Without a face, the
landmarks predicted for the zero rectangle have to be there already. A face that touches a
coordinate axis is not reported, so its scaled rectangle has to be there already too, and the
landmarks must not need scaling. -/
def Reportable (env : Env M) (marks : Image → Rectangle → List Point) (img : Image) (s : Int)
    (rect points : Block Int32) : Prop :=
  match env.detector img with
  | [] => points.Holds 136 (landmarkCoord (marks img ⟨0, 0, 0, 0⟩))
  | face :: _ =>
      if face.AllNonzero then
        (∀ k, k < 4 → Fits ((face.coord k).toInt * s)) ∧
          ∀ k, k < 136 → Fits ((landmarkCoord (marks img face) k).toInt * s)
      else
        Reports rect 4 s face.coord ∧ ∀ k, k < 136 →
          (landmarkCoord (marks img face) k).toInt = s * (landmarkCoord (marks img face) k).toInt

theorem reportable_of_found {face : Rectangle} {faces : List Rectangle}
    (hsome : env.detector img = face :: faces) (hall : face.AllNonzero)
    (hrect : ∀ k, k < 4 → Fits ((face.coord k).toInt * s))
    (hpoints : ∀ k, k < 136 → Fits ((landmarkCoord (marks img face) k).toInt * s)) :
    Reportable env marks img s rect points := by
  simp only [Reportable, hsome, if_pos hall]
  exact ⟨hrect, hpoints⟩

/-! ## Arrays that hold, and arrays that report -/

theorem Reports.of_scaled {b : Block Int32} {n : Nat} {g : Nat → Int32}
    (h : b.Holds n fun k => scaled s (g k)) (hfits : ∀ k, k < n → Fits ((g k).toInt * s)) :
    Reports b n s g := by
  intro k hk
  exact ⟨_, h k hk, by rw [toInt_scaled (hfits k hk), mul_comm]⟩

/-- An array that holds coordinates reports others exactly when they are the multiples. -/
theorem reports_iff {b : Block Int32} {n : Nat} {f g : Nat → Int32} (h : b.Holds n f) :
    Reports b n s g ↔ ∀ k, k < n → (f k).toInt = s * (g k).toInt := by
  constructor
  · intro hr k hk
    obtain ⟨v, hv, hval⟩ := hr k hk
    rwa [h.value_unique hk hv] at hval
  · intro hall k hk
    exact ⟨f k, h k hk, hall k hk⟩

theorem updated_eq_self_iff {b b' : Block Int32} {n : Nat} {f : Nat → Int32}
    (h : b.Updated n f b') : b' = b ↔ b.Holds n f := by
  constructor
  · intro heq
    exact heq ▸ h.holds
  · intro hb
    exact h.unique ⟨rfl, hb, fun _ _ => rfl⟩

theorem reduction_eq_ok {f g : Nat → Int32} (hr : rect.Holds 4 f) (hp : points.Holds 136 g) :
    reduction rect points s = .ok (rect', points') ↔
      ((∀ k, k < 4 → Fits ((f k).toInt * s)) ∧ rect.Updated 4 (fun k => scaled s (f k)) rect') ∧
      (∀ k, k < 136 → Fits ((g k).toInt * s)) ∧
        points.Updated 136 (fun k => scaled s (g k)) points' := by
  unfold reduction
  rw [bind_eq_ok]
  constructor
  · rintro ⟨r, hrect, h⟩
    obtain ⟨p, hpoints, h⟩ := bind_eq_ok.mp h
    obtain ⟨rfl, rfl⟩ := Prod.mk.inj (Except.ok.inj h)
    exact ⟨(scale_eq_ok hr).mp hrect, (scale_eq_ok hp).mp hpoints⟩
  · rintro ⟨hrect, hpoints⟩
    refine ⟨rect', (scale_eq_ok hr).mpr hrect, ?_⟩
    rw [(scale_eq_ok hp).mpr hpoints]
    rfl

/-! ## All or nothing -/

theorem tracking_none (hmarks : Landmarked env model marks) (hpoints : points.size = 136)
    (hnone : env.detector img = []) :
    (∃ rect' points', tracking env model img s rect points = .ok (rect', points') ∧
        Outcome env marks img s rect points rect' points') ↔
      Reportable env marks img s rect points := by
  have hface : faceIn env img = ⟨0, 0, 0, 0⟩ := by rw [faceIn, hnone]; rfl
  obtain ⟨hpredict, hlen⟩ := hmarks img ⟨0, 0, 0, 0⟩
  obtain ⟨p, hp, hu⟩ := landmarks_ok (by rw [hface]; exact hpredict) (by omega)
    (show 136 ≤ points.size by omega)
  have hrun : tracking env model img s rect points = .ok (rect, p) := by
    rw [tracking, hp, ok_bind, hface, if_neg (by decide), pure_eq_ok]
  simp only [Outcome, Reportable, hnone, hrun, Except.ok.injEq, Prod.mk.injEq]
  rw [← updated_eq_self_iff hu]
  constructor
  · rintro ⟨rect', points', ⟨rfl, rfl⟩, -, heq⟩
    exact heq
  · intro heq
    exact ⟨rect, p, ⟨rfl, rfl⟩, rfl, heq⟩

theorem tracking_found {face : Rectangle} {faces : List Rectangle}
    (hmarks : Landmarked env model marks) (hrect : rect.size = 4) (hpoints : points.size = 136)
    (hsome : env.detector img = face :: faces) :
    (∃ rect' points', tracking env model img s rect points = .ok (rect', points') ∧
        Outcome env marks img s rect points rect' points') ↔
      Reportable env marks img s rect points := by
  have hface : faceIn env img = face := by rw [faceIn, hsome]; rfl
  obtain ⟨hpredict, hlen⟩ := hmarks img face
  obtain ⟨p, hp, hu⟩ := landmarks_ok (by rw [hface]; exact hpredict) (by omega)
    (show 136 ≤ points.size by omega)
  simp only [Outcome, Reportable, hsome, tracking, hp, ok_bind, hface]
  by_cases hall : face.AllNonzero
  · -- reported, when `reduction` gets through
    obtain ⟨r, hr, hru⟩ := writeRect_ok face (show 4 ≤ rect.size by omega)
    simp only [if_pos hall, hr, ok_bind, reduction_eq_ok hru.holds hu.holds]
    constructor
    · rintro ⟨rect', points', ⟨⟨hfits, -⟩, hfits', -⟩, -⟩
      exact ⟨hfits, hfits'⟩
    · rintro ⟨hfits, hfits'⟩
      have hr' := Block.updated_overwrite (f := fun k => scaled s (face.coord k)) hru.holds.le_size
      have hp' := Block.updated_overwrite
        (f := fun k => scaled s (landmarkCoord (marks img face) k)) hu.holds.le_size
      exact ⟨_, _, ⟨⟨hfits, hr'⟩, hfits', hp'⟩, .of_scaled hr'.holds hfits,
        .of_scaled hp'.holds hfits'⟩
  · -- taken for missing: the arrays are `rect` as it was and the landmarks as predicted
    simp only [if_neg hall, pure_eq_ok, Except.ok.injEq, Prod.mk.injEq]
    rw [← reports_iff hu.holds]
    constructor
    · rintro ⟨rect', points', ⟨rfl, rfl⟩, hreports⟩
      exact hreports
    · intro hreports
      exact ⟨rect, p, ⟨rfl, rfl⟩, hreports⟩

theorem tracking_outcome_iff (hmarks : Landmarked env model marks) (hrect : rect.size = 4)
    (hpoints : points.size = 136) :
    (∃ rect' points', tracking env model img s rect points = .ok (rect', points') ∧
        Outcome env marks img s rect points rect' points') ↔
      Reportable env marks img s rect points := by
  cases hdetector : env.detector img with
  | nil => exact tracking_none hmarks hpoints hdetector
  | cons face faces => exact tracking_found hmarks hrect hpoints hdetector

/-- On any object that owns its blocks. -/
theorem allOrNothing_of_owns (hd : d.Owns leaked) (hmarks : Landmarked env d.featureModel marks)
    (hw : 240 ≤ width) (hh : 1 ≤ height) (hrect : rect.size = 4) (hpoints : points.size = 136) :
    AllOrNothing env marks malloc picture width height rect points d ↔
      d.Served malloc width height ∧
        Reportable env marks (textureFrame env.abi picture width height)
          (sampleFactor width height) rect points := by
  constructor
  · rintro ⟨d', rect', points', frame, img, sample, s, htrack, hframe, hview, hsample, hread,
      houtcome⟩
    have hserved : d.Served malloc width height := by
      obtain ⟨face, d₁, faceRect, points₁, -, hdetect, -⟩ := trackTexture_eq_ok htrack
      exact served_of_detectTexture hw hh hdetect
    refine ⟨hserved, ?_⟩
    obtain ⟨d₁, hcap, heq⟩ := trackTexture_eq env picture rect points hd hw hh hserved
    rw [heq, bind_eq_ok] at htrack
    obtain ⟨⟨r, p⟩, htracking, hout⟩ := htrack
    obtain ⟨rfl, hrp⟩ := Prod.mk.inj (Except.ok.inj hout)
    obtain ⟨rfl, rfl⟩ := Prod.mk.inj hrp
    -- the frame and the factor named by the outcome are the ones captured
    obtain rfl := hcap.view_unique hframe hview
    obtain rfl := hcap.factor_unique hsample hread
    exact (tracking_outcome_iff hmarks hrect hpoints).mp ⟨r, p, htracking, houtcome⟩
  · rintro ⟨hserved, hreportable⟩
    obtain ⟨d', hcap, heq⟩ := trackTexture_eq env picture rect points hd hw hh hserved
    obtain ⟨rect', points', htracking, houtcome⟩ :=
      (tracking_outcome_iff hmarks hrect hpoints).mpr hreportable
    obtain ⟨frame, hframe, hview⟩ := hcap.frame
    obtain ⟨sample, hsample, hfactor⟩ := hcap.sample
    refine ⟨d', rect', points', frame, _, sample, _, ?_, hframe, hview, hsample, ?_, houtcome⟩
    · rw [heq, htracking]
      rfl
    · rw [hfactor]
      rfl

/-- **When a tracking call is all or nothing.** For every object a history of calls can leave: the
call has to be served with a texture buffer, and the answers for its frame have to be
`Reportable`. -/
theorem allOrNothing_iff (hrun : run env model calls = .ok d) (hmarks : Landmarked env model marks)
    (hw : 240 ≤ width) (hh : 1 ≤ height) (hrect : rect.size = 4) (hpoints : points.size = 136) :
    AllOrNothing env marks malloc picture width height rect points d ↔
      d.Served malloc width height ∧
        Reportable env marks (textureFrame env.abi picture width height)
          (sampleFactor width height) rect points := by
  obtain ⟨leaked, -, hd⟩ := run_owns hrun
  exact allOrNothing_of_owns hd (by rw [run_featureModel hrun]; exact hmarks) hw hh hrect hpoints

theorem landmarked_sameAnswer (faces : List Rectangle) :
    Landmarked (sameAnswer faces) () fun _ _ => List.replicate 68 ⟨60, 80⟩ :=
  fun _ _ => ⟨rfl, List.length_replicate⟩

/-- The first call on a new object, for a picture of factor 2 and a face well inside it. -/
theorem allOrNothing_inside : AllOrNothing (sameAnswer [⟨30, 40, 120, 130⟩])
    (fun _ _ => List.replicate 68 ⟨60, 80⟩) true (fun _ => 0) 480 480 zeroRect zeroPoints
    (new ()) := by
  refine (allOrNothing_iff (show run _ () [] = _ from rfl) (landmarked_sameAnswer _) (by decide)
    (by decide) Block.size_tabulate Block.size_tabulate).mpr ⟨⟨by decide, rfl⟩, ?_⟩
  exact reportable_of_found rfl (by decide) (by decide) (by decide)

/-- A face at the left edge of the frame is found and not reported. -/
theorem allOrNothing_fails_leftEdge : ¬ AllOrNothing (sameAnswer [⟨0, 40, 90, 130⟩])
    (fun _ _ => List.replicate 68 ⟨60, 80⟩) true (fun _ => 0) 480 480 zeroRect zeroPoints
    (new ()) := by
  intro h
  have hreportable := ((allOrNothing_of_owns (new_owns ()) (landmarked_sameAnswer _) (by decide)
    (by decide) Block.size_tabulate Block.size_tabulate).mp h).2
  have hreports : Reports zeroRect 4 _ _ := hreportable.1
  exact absurd ((reports_iff (Block.holds_tabulate rfl)).mp hreports 1 (by decide)) (by decide)

/-! ## One coordinate system -/

/-- The call completes, a face was found on the frame it leaves in the object, and the arrays hold
that face and its landmarks in the coordinates of the input. -/
def ReportsInput (env : Env M) (marks : Image → Rectangle → List Point)
    (result : Exec (Dlib M × Block Int32 × Block Int32)) : Prop :=
  ∃ d' rect' points' frame img sample s face faces, result = .ok (d', rect', points') ∧
    d'.frame = some frame ∧ frame.val.view = .ok img ∧
    d'.sample = some sample ∧ sample.val.read 0 = .ok s ∧
    env.detector img = face :: faces ∧ Reports rect' 4 s face.coord ∧
    Reports points' 136 s (landmarkCoord (marks img face))

/-- The three methods on one object, one picture and one pair of arrays. -/
def EntryPointsAgree (env : Env M) (marks : Image → Rectangle → List Point)
    (src : Block (BitVec 32)) (malloc : Bool) (picture : Nat → UInt8) (width height : Int)
    (rect points : Block Int32) (d : Dlib M) : Prop :=
  ReportsInput env marks (detectIntArray env src width height rect points d) ∧
  ReportsInput env marks (detectTexture env malloc picture width height rect points d) ∧
  ReportsInput env marks (trackTexture env malloc picture width height rect points d) ∧
  ∃ d₁ d₂ rect' points',
    detectTexture env malloc picture width height rect points d = .ok (d₁, rect', points') ∧
    trackTexture env malloc picture width height rect points d = .ok (d₂, rect', points')

/-- The detector finds a face on the frame, with no coordinate on an axis. -/
def FaceOn (env : Env M) (img : Image) (face : Rectangle) : Prop :=
  (∃ faces, env.detector img = face :: faces) ∧ face.AllNonzero

section OneFace

variable {face : Rectangle} {result : Exec (Dlib M × Block Int32 × Block Int32)}

theorem FaceOn.faceIn_eq (h : FaceOn env img face) : faceIn env img = face := by
  obtain ⟨⟨faces, hsome⟩, -⟩ := h
  rw [faceIn, hsome]
  rfl

theorem detection_ok (hmarks : Landmarked env model marks) (hface : FaceOn env img face)
    (hrect : rect.size = 4) (hpoints : points.size = 136) :
    ∃ rect' points', detection env model img rect points = .ok (rect', points') ∧
      rect.Updated 4 face.coord rect' ∧
      points.Updated 136 (landmarkCoord (marks img face)) points' := by
  have heq := hface.faceIn_eq
  obtain ⟨hpredict, hlen⟩ := hmarks img face
  obtain ⟨r, hr, hru⟩ := writeRect_ok face (show 4 ≤ rect.size by omega)
  obtain ⟨p, hp, hpu⟩ := landmarks_ok (by rw [heq]; exact hpredict) (by omega)
    (show 136 ≤ points.size by omega)
  exact ⟨r, p, by rw [detection, heq, hr, ok_bind, hp]; rfl, hru, hpu⟩

/-- A multiple that changes nothing is the multiple by one. -/
theorem factor_eq_one {v : Int32} (hv : v ≠ 0) (h : v.toInt = s * v.toInt) : s = 1 := by
  have hne : v.toInt ≠ 0 := fun h0 => hv (Int32.toInt_inj.mp h0)
  have hmul : s * v.toInt = 1 * v.toInt := by rw [← h, one_mul]
  exact mul_right_cancel₀ hne hmul

/-- A detection writes the coordinates of the frame, so it reports the input's only at factor 1. -/
theorem reportsInput_detection (hmarks : Landmarked env model marks)
    (hface : FaceOn env img face) (hrect : rect.size = 4) (hpoints : points.size = 136)
    (hcap : d.Captured img width height)
    (hresult : result = detection env model img rect points >>= fun rp => .ok (d, rp.1, rp.2)) :
    ReportsInput env marks result ↔ sampleFactor width height = 1 := by
  obtain ⟨r, p, hdetection, hru, hpu⟩ := detection_ok hmarks hface hrect hpoints
  obtain ⟨⟨faces, hsome⟩, hleft, -⟩ := hface
  rw [hdetection, ok_bind] at hresult
  constructor
  · rintro ⟨d', rect', points', frame, img', sample, s, face', faces', hok, hframe, hview, hsample,
      hread, hsome', hreports, -⟩
    obtain ⟨rfl, hrp⟩ := Prod.mk.inj (Except.ok.inj (hresult.symm.trans hok))
    obtain ⟨rfl, rfl⟩ := Prod.mk.inj hrp
    obtain rfl := hcap.view_unique hframe hview
    obtain rfl := hcap.factor_unique hsample hread
    obtain ⟨rfl, -⟩ := List.cons.inj (hsome.symm.trans hsome')
    exact factor_eq_one hleft ((reports_iff hru.holds).mp hreports 0 (by decide))
  · intro hone
    obtain ⟨frame, hframe, hview⟩ := hcap.frame
    obtain ⟨sample, hsample, hfactor⟩ := hcap.sample
    have hread : sample.val.read 0 = .ok 1 := by rw [hfactor, ← hone]; rfl
    refine ⟨d, r, p, frame, img, sample, 1, face, faces, hresult, hframe, hview, hsample, hread,
      hsome, ?_, ?_⟩
    · exact (reports_iff hru.holds).mpr fun k _ => (one_mul _).symm
    · exact (reports_iff hpu.holds).mpr fun k _ => (one_mul _).symm

theorem scaled_one (v : Int32) : scaled 1 v = v := by
  rw [scaled, mul_one, Int32.ofInt_toInt]

/-- At factor 1 a tracking call leaves the same arrays as a detection. -/
theorem tracking_eq_detection (hmarks : Landmarked env model marks) (hface : FaceOn env img face)
    (hrect : rect.size = 4) (hpoints : points.size = 136) :
    tracking env model img 1 rect points = detection env model img rect points := by
  have heq := hface.faceIn_eq
  obtain ⟨hpredict, hlen⟩ := hmarks img face
  obtain ⟨r, hr, hru⟩ := writeRect_ok face (show 4 ≤ rect.size by omega)
  obtain ⟨p, hp, hpu⟩ := landmarks_ok (by rw [heq]; exact hpredict) (by omega)
    (show 136 ≤ points.size by omega)
  have hfits : ∀ v : Int32, Fits (v.toInt * 1) := by
    intro v
    rw [mul_one]
    exact ⟨v.le_toInt, by have := v.toInt_lt; omega⟩
  have hreduction : reduction r p 1 = .ok (r, p) := by
    refine (reduction_eq_ok hru.holds hpu.holds).mpr
      ⟨⟨fun k _ => hfits _, ?_⟩, fun k _ => hfits _, ?_⟩
    · simp only [scaled_one]
      exact ⟨rfl, hru.holds, fun _ _ => rfl⟩
    · simp only [scaled_one]
      exact ⟨rfl, hpu.holds, fun _ _ => rfl⟩
  rw [tracking, detection, heq, hp, hr, ok_bind, ok_bind, if_pos hface.2, ok_bind, hreduction,
    ok_bind, pure_eq_ok]

end OneFace

/-- The factor is 1 for the pictures under twice `MAX_SIZE`. -/
theorem sampleFactor_eq_one_iff (hw : 240 ≤ width) :
    sampleFactor width height = 1 ↔ max width height < 480 := by
  have hmax := le_max_left width height
  unfold sampleFactor maxSize
  omega

/-- On any object that owns its blocks. -/
theorem entryPointsAgree_of_owns {faceI faceT : Rectangle} {src : Block (BitVec 32)}
    {pixels : Nat → BitVec 32} (hd : d.Owns leaked)
    (hmarks : Landmarked env d.featureModel marks) (hw : 240 ≤ width) (hh : 1 ≤ height)
    (hrect : rect.size = 4) (hpoints : points.size = 136)
    (hsrc : src.Holds (width * height).toNat pixels)
    (hfaceI : FaceOn env (bitmapFrame env.abi pixels width height) faceI)
    (hfaceT : FaceOn env (textureFrame env.abi picture width height) faceT) :
    EntryPointsAgree env marks src malloc picture width height rect points d ↔
      max width height < 480 ∧ d.Served malloc width height := by
  have hfit : width * height ≤ 2147483647 := by
    have hle := hsrc.le_maxBlock
    unfold maxBlock at hle
    omega
  rw [← sampleFactor_eq_one_iff hw]
  constructor
  · rintro ⟨hints, htexture, -, -⟩
    obtain ⟨dI, hcapI, -, hrunI⟩ := detectIntArray_eq env points hd hw hh hfit hsrc
      (show 4 ≤ rect.size by omega)
    refine ⟨(reportsInput_detection hmarks hfaceI hrect hpoints hcapI hrunI).mp hints, ?_⟩
    obtain ⟨d', rect', points', -, -, -, -, -, -, hok, -⟩ := htexture
    exact served_of_detectTexture hw hh hok
  · rintro ⟨hone, hserved⟩
    obtain ⟨dI, hcapI, -, hrunI⟩ := detectIntArray_eq env points hd hw hh hfit hsrc
      (show 4 ≤ rect.size by omega)
    obtain ⟨dT, hcapT, -, hrunT⟩ := detectTexture_eq env picture points hd hw hh hserved
      (show 4 ≤ rect.size by omega)
    obtain ⟨dK, hcapK, hrunK⟩ := trackTexture_eq env picture rect points hd hw hh hserved
    rw [hone, tracking_eq_detection hmarks hfaceT hrect hpoints] at hrunK
    obtain ⟨r, p, hdetection, -, -⟩ := detection_ok hmarks hfaceT hrect hpoints
    refine ⟨(reportsInput_detection hmarks hfaceI hrect hpoints hcapI hrunI).mpr hone,
      (reportsInput_detection hmarks hfaceT hrect hpoints hcapT hrunT).mpr hone,
      (reportsInput_detection hmarks hfaceT hrect hpoints hcapK hrunK).mpr hone,
      dT, dK, r, p, ?_, ?_⟩
    · rw [hrunT, hdetection]
      rfl
    · rw [hrunK, hdetection]
      rfl

/-- **When the entry points agree**, for an object any history can leave and a face found on both
frames of the picture. -/
theorem entryPointsAgree_iff {faceI faceT : Rectangle} {src : Block (BitVec 32)}
    {pixels : Nat → BitVec 32} (hrun : run env model calls = .ok d)
    (hmarks : Landmarked env model marks) (hw : 240 ≤ width) (hh : 1 ≤ height)
    (hrect : rect.size = 4) (hpoints : points.size = 136)
    (hsrc : src.Holds (width * height).toNat pixels)
    (hfaceI : FaceOn env (bitmapFrame env.abi pixels width height) faceI)
    (hfaceT : FaceOn env (textureFrame env.abi picture width height) faceT) :
    EntryPointsAgree env marks src malloc picture width height rect points d ↔
      max width height < 480 ∧ d.Served malloc width height := by
  obtain ⟨leaked, -, hd⟩ := run_owns hrun
  exact entryPointsAgree_of_owns hd (by rw [run_featureModel hrun]; exact hmarks) hw hh hrect
    hpoints hsrc hfaceI hfaceT

theorem faceOn_sameAnswer {face : Rectangle} (img : Image) (h : face.AllNonzero) :
    FaceOn (sameAnswer [face]) img face := ⟨⟨[], rfl⟩, h⟩

/-- Factor 1. -/
theorem entryPointsAgree_small : EntryPointsAgree (sameAnswer [⟨30, 40, 120, 130⟩])
    (fun _ _ => List.replicate 68 ⟨60, 80⟩) (.tabulate 76800 (fun _ => 0) (by decide)) true
    (fun _ => 0) 320 240 zeroRect zeroPoints (new ()) :=
  (entryPointsAgree_iff (show run _ () [] = _ from rfl) (landmarked_sameAnswer _) (by decide)
    (by decide) Block.size_tabulate Block.size_tabulate (Block.holds_tabulate (by decide))
    (faceOn_sameAnswer _ (by decide)) (faceOn_sameAnswer _ (by decide))).mpr
    ⟨by decide, by decide, rfl⟩

/-- Factor 2. -/
theorem entryPoints_disagree : ¬ EntryPointsAgree (sameAnswer [⟨30, 40, 120, 130⟩])
    (fun _ _ => List.replicate 68 ⟨60, 80⟩) (.tabulate 230400 (fun _ => 0) (by decide)) true
    (fun _ => 0) 480 480 zeroRect zeroPoints (new ()) := by
  intro h
  have hsmall := ((entryPointsAgree_of_owns (new_owns ()) (landmarked_sameAnswer _) (by decide)
    (by decide) Block.size_tabulate Block.size_tabulate (Block.holds_tabulate (by decide))
    (faceOn_sameAnswer _ (by decide)) (faceOn_sameAnswer _ (by decide))).mp h).1
  exact absurd hsmall (by decide)

end DlibAndroid.Dlib
