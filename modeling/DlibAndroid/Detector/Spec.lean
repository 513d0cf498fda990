import DlibAndroid.Detector.Dlib
import DlibAndroid.Frame.SamplingSpec

/-!
# What the methods do to the caller's arrays

One lemma for each helper of `Detector/Dlib.lean` that reads or writes `rect` and `points`. Each
says which cells it rewrites and with what, through `Block.Updated`, so that the callers compose
them without looking at a single `write`.

The face `detect` stores is `faceIn`, the first rectangle found or the zero rectangle; after
`analyse` the arrays hold `faceIn` and the landmarks the predictor gives *for that rectangle*,
found or not (`analyse_eq`). `reduction` is exact in both directions (`scale_eq_ok`): it succeeds
precisely when no product leaves `int`.
-/

set_option autoImplicit false

namespace DlibAndroid

open CCore

/-! ## Coordinates, by their place in the arrays -/

/-- The coordinates in the order `rect` holds them. -/
def Rectangle.coord (r : Rectangle) : Nat → Int32
  | 0 => r.left
  | 1 => r.top
  | 2 => r.right
  | _ => r.bottom

theorem coord_zero : Rectangle.coord ⟨0, 0, 0, 0⟩ = fun _ => 0 := by
  funext k
  unfold Rectangle.coord
  split <;> rfl

/-- The coordinates in the order `points` holds them. -/
def landmarkCoord (parts : List Point) (k : Nat) : Int32 :=
  let p := parts.getD (k / 2) ⟨0, 0⟩
  if k % 2 = 0 then p.x else p.y

/-- `found` on a rectangle. -/
def Rectangle.AllNonzero (r : Rectangle) : Prop :=
  r.left ≠ 0 ∧ r.top ≠ 0 ∧ r.right ≠ 0 ∧ r.bottom ≠ 0

instance (r : Rectangle) : Decidable r.AllNonzero := inferInstanceAs (Decidable (_ ∧ _ ∧ _ ∧ _))

namespace Dlib

variable {M : Type} {env : Env M} {model : M} {rect rect' points points' b b' : Block Int32}
  {r : Rectangle} {image : Array2d} {img : Image} {parts : List Point} {s : Int}

/-- The rectangle `detect` stores. -/
def faceIn (env : Env M) (img : Image) : Rectangle := (env.detector img).headD ⟨0, 0, 0, 0⟩

theorem writeRect_ok (r : Rectangle) (h : 4 ≤ rect.size) :
    ∃ rect', writeRect rect r = .ok rect' ∧ rect.Updated 4 r.coord rect' := by
  obtain ⟨b₁, h₁, u₁⟩ := (Block.Updated.zero (f := r.coord)).write_ok (show 0 < rect.size by omega)
  obtain ⟨b₂, h₂, u₂⟩ := u₁.write_ok (by omega)
  obtain ⟨b₃, h₃, u₃⟩ := u₂.write_ok (by omega)
  obtain ⟨b₄, h₄, u₄⟩ := u₃.write_ok (by omega)
  refine ⟨b₄, ?_, u₄⟩
  show (rect.write 0 (r.coord 0) >>= fun b => b.write 1 (r.coord 1) >>= fun b =>
    b.write 2 (r.coord 2) >>= fun b => b.write 3 (r.coord 3)) = .ok b₄
  exact bind_eq_ok.mpr ⟨b₁, h₁, bind_eq_ok.mpr ⟨b₂, h₂, bind_eq_ok.mpr ⟨b₃, h₃, h₄⟩⟩⟩

theorem readRect_ok (h : rect.Holds 4 r.coord) : readRect rect = .ok r := by
  have h0 : rect.read 0 = .ok r.left := h.read (k := 0) (by decide)
  have h1 : rect.read 1 = .ok r.top := h.read (k := 1) (by decide)
  have h2 : rect.read 2 = .ok r.right := h.read (k := 2) (by decide)
  have h3 : rect.read 3 = .ok r.bottom := h.read (k := 3) (by decide)
  simp only [readRect, h0, h1, h2, h3, ok_bind, pure_eq_ok]

theorem found_ok (h : rect.Holds 4 r.coord) : found rect = .ok (decide r.AllNonzero) := by
  have h0 : rect.read 0 = .ok r.left := h.read (k := 0) (by decide)
  have h1 : rect.read 1 = .ok r.top := h.read (k := 1) (by decide)
  have h2 : rect.read 2 = .ok r.right := h.read (k := 2) (by decide)
  have h3 : rect.read 3 = .ok r.bottom := h.read (k := 3) (by decide)
  simp only [found, h0, h1, h2, h3, ok_bind, pure_eq_ok, Rectangle.AllNonzero]
  split_ifs <;> simp_all

theorem detect_ok (env : Env M) (hview : image.view = .ok img) (h : 4 ≤ rect.size) :
    ∃ rect', detect env image rect = .ok rect' ∧ rect.Updated 4 (faceIn env img).coord rect' := by
  unfold detect faceIn
  rw [hview, ok_bind]
  cases env.detector img with
  | nil => exact writeRect_ok ⟨0, 0, 0, 0⟩ h
  | cons face faces => exact writeRect_ok face h

/-- The two stores for one landmark. -/
theorem writePart_ok {i : Nat} (h : points.Updated (i * 2) (landmarkCoord parts) b)
    (hi : i < parts.length) (hsize : i * 2 + 1 < points.size) :
    ∃ b', writePart parts i b = .ok b' ∧ points.Updated ((i + 1) * 2) (landmarkCoord parts) b' := by
  obtain ⟨b₁, h₁, u₁⟩ := h.write_ok (by omega)
  obtain ⟨b₂, h₂, u₂⟩ := u₁.write_ok hsize
  have hpart : part parts i = .ok (parts.getD i ⟨0, 0⟩) := by
    rw [part, index_of_lt hi, List.getD_eq_getElem?_getD, List.getElem?_eq_getElem hi,
      Option.getD_some]
  have hx : landmarkCoord parts (i * 2) = (parts.getD i ⟨0, 0⟩).x := by
    simp only [landmarkCoord, Nat.mul_mod_left, if_true, Nat.mul_div_cancel i Nat.two_pos]
  have hy : landmarkCoord parts (i * 2 + 1) = (parts.getD i ⟨0, 0⟩).y := by
    have hdiv : (i * 2 + 1) / 2 = i := by omega
    have hmod : ¬ (i * 2 + 1) % 2 = 0 := by omega
    simp only [landmarkCoord, hdiv, hmod, if_false]
  rw [hx] at h₁
  rw [hy] at h₂
  refine ⟨b₂, ?_, (by rwa [Nat.succ_mul])⟩
  rw [writePart, hpart, ok_bind, h₁, ok_bind, h₂]

theorem writeParts_ok (hparts : 68 ≤ parts.length) (h : 136 ≤ points.size) :
    ∃ points', forEach (List.range 68) (writePart parts) points = .ok points' ∧
      points.Updated 136 (landmarkCoord parts) points' :=
  forEach_range (fun i b => points.Updated (i * 2) (landmarkCoord parts) b)
    (fun i hi _ hb => writePart_ok hb (by omega) (by omega)) Block.Updated.zero

/-- Landmarks can be stored only if there are 68 of them. -/
theorem length_of_writeParts
    (h : forEach (List.range 68) (writePart parts) points = .ok points') : 68 ≤ parts.length := by
  obtain ⟨u, v, hlast⟩ := forEach_ok_mem h (List.mem_range.mpr (show 67 < 68 by decide))
  obtain ⟨p, hp, -⟩ := bind_eq_ok.mp hlast
  exact exists_index_eq_ok.mp ⟨p, hp⟩

/-! ## Scaling in place -/

/-- `v * sample`, as `int` stores it. -/
def scaled (s : Int) (v : Int32) : Int32 := .ofInt (v.toInt * s)

theorem toInt_scaled {v : Int32} (h : Fits (v.toInt * s)) : (scaled s v).toInt = v.toInt * s :=
  Int32.toInt_ofInt_of_le h.1 (by have := h.2; omega)

theorem scaleAt_eq_ok {n : Nat} {g : Nat → Int32} {c : Block Int32} (hb : b.Holds (n + 1) g)
    (hc : b.Updated n (fun k => scaled s (g k)) c) :
    scaleAt s n c = .ok b' ↔
      Fits ((g n).toInt * s) ∧ b.Updated (n + 1) (fun k => scaled s (g k)) b' := by
  have hcell : c.cells[n]? = some (some (g n)) :=
    (hc.rest n (Nat.le_refl n)).trans (hb n (Nat.lt_succ_self n))
  have hlt : n < b.size := by
    have hlt := (List.getElem?_eq_some_iff.mp hcell).1
    rw [← hc.size]
    exact hlt
  unfold scaleAt
  rw [Block.read_nat hcell, ok_bind, bind_eq_ok]
  constructor
  · rintro ⟨m, hm, hw⟩
    obtain ⟨hfits, rfl⟩ := mulInt_eq_ok.mp hm
    exact ⟨hfits, hc.write hw⟩
  · rintro ⟨hfits, hu⟩
    obtain ⟨b₂, hw, hu₂⟩ := hc.write_ok hlt
    exact ⟨_, mulInt_of_fits hfits, by rw [hu.unique hu₂]; exact hw⟩

/-- **`reduction` on one array**, both ways: it succeeds exactly when every product fits. -/
theorem scale_eq_ok {n : Nat} {g : Nat → Int32} (hb : b.Holds n g) :
    forEach (List.range n) (scaleAt s) b = .ok b' ↔
      (∀ k, k < n → Fits ((g k).toInt * s)) ∧ b.Updated n (fun k => scaled s (g k)) b' := by
  induction n generalizing b' with
  | zero =>
    rw [List.range_zero, forEach_nil, Except.ok.injEq]
    constructor
    · rintro rfl
      exact ⟨fun k hk => absurd hk (Nat.not_lt_zero k), .zero⟩
    · rintro ⟨-, hu⟩
      exact Block.Updated.zero.unique hu
  | succ n ih =>
    have hbn := hb.mono (Nat.le_succ n)
    rw [List.range_succ, forEach_concat_eq_ok]
    constructor
    · rintro ⟨c, hc, hlast⟩
      obtain ⟨hfits, hu⟩ := (ih hbn).mp hc
      obtain ⟨hfit, hu'⟩ := (scaleAt_eq_ok hb hu).mp hlast
      refine ⟨fun k hk => ?_, hu'⟩
      rcases Nat.lt_succ_iff_lt_or_eq.mp hk with hlt | rfl
      · exact hfits k hlt
      · exact hfit
    · rintro ⟨hfits, hu⟩
      have hc := Block.updated_overwrite (f := fun k => scaled s (g k)) hbn.le_size
      exact ⟨_, (ih hbn).mpr ⟨fun k hk => hfits k (Nat.lt_succ_of_lt hk), hc⟩,
        (scaleAt_eq_ok hb hc).mpr ⟨hfits n (Nat.lt_succ_self n), hu⟩⟩

/-! ## `findFeature` -/

/-- `findFeature` stays in range exactly when the predictor does, with landmarks enough. -/
theorem exists_findFeature_eq_ok (hview : image.view = .ok img) (hrect : rect.Holds 4 r.coord)
    (hpoints : 136 ≤ points.size) :
    (∃ points', findFeature env model image rect points = .ok points') ↔
      ∃ parts, env.predict model img r = .ok parts ∧ 68 ≤ parts.length := by
  rw [findFeature, hview, ok_bind, readRect_ok hrect, ok_bind]
  constructor
  · rintro ⟨points', h⟩
    obtain ⟨parts, hparts, hstore⟩ := bind_eq_ok.mp h
    exact ⟨parts, hparts, length_of_writeParts hstore⟩
  · rintro ⟨parts, hparts, hlen⟩
    obtain ⟨points', hstore, -⟩ := writeParts_ok hlen hpoints
    exact ⟨points', by rw [hparts, ok_bind, hstore]⟩

/-! ## `detect` and `findFeature` together -/

/-- The landmarks stored for a frame: the predictor's, for the rectangle `detect` stores. -/
def landmarks (env : Env M) (model : M) (img : Image) (points : Block Int32) :
    Exec (Block Int32) := do
  let parts ← env.predict model img (faceIn env img)
  forEach (List.range 68) (writePart parts) points

/-- What a detection leaves in the arrays. -/
def detection (env : Env M) (model : M) (img : Image) (rect points : Block Int32) :
    Exec (Block Int32 × Block Int32) := do
  let rect ← writeRect rect (faceIn env img)
  let points ← landmarks env model img points
  pure (rect, points)

theorem landmarks_ok (hpredict : env.predict model img (faceIn env img) = .ok parts)
    (hparts : 68 ≤ parts.length) (h : 136 ≤ points.size) :
    ∃ points', landmarks env model img points = .ok points' ∧
      points.Updated 136 (landmarkCoord parts) points' := by
  rw [landmarks, hpredict, ok_bind]
  exact writeParts_ok hparts h

/-- **The second half of a call** depends on the frame, the model and the arrays only. -/
theorem analyse_eq {d : Dlib M} {o : Owned Array2d} (hframe : d.frame = some o)
    (hlive : d.heap.Live o.id) (hview : o.val.view = .ok img) (h : 4 ≤ rect.size) :
    analyse env d rect points = detection env d.featureModel img rect points := by
  obtain ⟨rect', hwrite, hu⟩ := writeRect_ok (faceIn env img) h
  have hdetect : detect env o.val rect = .ok rect' := by
    obtain ⟨rect'', hdetect, hu'⟩ := detect_ok env hview h
    rw [hdetect, hu'.unique hu]
  unfold analyse findFeature detection landmarks
  rw [hframe, Owned.deref_of_live hlive, ok_bind, hdetect, ok_bind, hwrite, ok_bind, hview, ok_bind,
    readRect_ok hu.holds, ok_bind]

/-! ## A detector and a predictor that always give the same answer -/

/-- The face `face`, and 68 landmarks in one place. -/
def sameAnswer (faces : List Rectangle) : Env Unit where
  abi := .armeabiV7a
  detector := fun _ => faces
  predict := fun _ _ _ => .ok (List.replicate 68 ⟨60, 80⟩)

/-- The caller's arrays, all zero. -/
def zeroRect : Block Int32 := .tabulate 4 (fun _ => 0) (by decide)

def zeroPoints : Block Int32 := .tabulate 136 (fun _ => 0) (by decide)

end Dlib

end DlibAndroid
