import DlibAndroid.Predictor.Cascade
import DlibAndroid.Predictor.Serialize
import DlibAndroid.Detector.Spec

/-!
# A model that loads

Nothing stands between the bytes of a model file and the indices they supply: what
`deserialize` accepts is every stream of the right shape, and the assertions of the library are
compiled out. So a model that loads is safe to use exactly when its arrays happen to fit together
(`modelFile_safe_iff`); `ShapePredictor.Consistent` is the check the constructor leaves out. A model
with five landmarks, as good as any to the library, already fails it (`fiveLandmarks_unsafe`).
-/

set_option autoImplicit false

namespace DlibAndroid

open CCore

variable {F : Type}

/-- The wrapper, linked with the predictor of the library. -/
def predictorEnv (abi : Abi) (detector : Image → List Rectangle) (arith : Arith F) :
    Env (ShapePredictor F) where
  abi := abi
  detector := detector
  predict := fun p img rect => p.apply arith img rect

/-- The constructor is through with the file, and has got the model `m`. -/
def Accepted (format : Format F) (file : ModelFile F) (m : ShapePredictor F) : Prop :=
  ∃ rest, load format file = (m, .ok rest)

/-- `findFeature` with this model makes no access out of range: for every frame, every rectangle
and landmark array of the right length, and whatever the float instructions answer. -/
def SafeToUse (m : ShapePredictor F) : Prop :=
  ∀ abi detector (arith : Arith F) (image : Array2d) img (rect points : Block Int32)
    (r : Rectangle), image.view = .ok img → rect.Holds 4 r.coord → points.size = 136 →
    ∃ points', Dlib.findFeature (predictorEnv abi detector arith) m image rect points = .ok points'

theorem zeroRect_holds : Dlib.zeroRect.Holds 4 (Rectangle.coord ⟨0, 0, 0, 0⟩) := by
  rw [coord_zero]
  exact Block.holds_tabulate rfl

/-- **Safe is consistent.** -/
theorem safeToUse_iff (m : ShapePredictor F) : SafeToUse m ↔ m.Consistent := by
  constructor
  · intro hsafe
    have hview : Array2d.new.view = .ok ⟨0, 0, [], rfl⟩ := rfl
    have hsize : Dlib.zeroPoints.size = 136 := Block.size_tabulate
    refine ShapePredictor.consistent_of_apply ⟨0, 0, [], rfl⟩ ⟨0, 0, 0, 0⟩ fun k => ?_
    have hok := hsafe .armeabiV7a (fun _ => []) (ShapePredictor.steered k) .new _ Dlib.zeroRect
      Dlib.zeroPoints ⟨0, 0, 0, 0⟩ hview zeroRect_holds hsize
    exact (Dlib.exists_findFeature_eq_ok hview zeroRect_holds hsize.ge).mp hok
  · intro hm abi detector arith image img rect points r hview hrect hpoints
    exact (Dlib.exists_findFeature_eq_ok hview hrect hpoints.ge).mpr (hm.apply_ok arith img r)

/-- **When a model that loads is safe to use.** -/
theorem modelFile_safe_iff (format : Format F) (file : ModelFile F) :
    (∀ m, Accepted format file m → SafeToUse m) ↔ ∀ m, Accepted format file m → m.Consistent :=
  forall_congr' fun m => imp_congr_right fun _ => safeToUse_iff m

/-! ## Models without a cascade -/

/-- Floats as the pairs they are stored as. -/
def details : Format (Int × Int) where
  zero := (0, 0)
  infinity := (0, 32000)
  negInfinity := (0, 32001)
  quietNaN := (0, 32002)
  ldexp mantissa exponent := (mantissa, exponent)
  scan item _ := (item, none)

/-- A model of `n` landmarks, all of them at the origin, that no tree moves. -/
def landmarkFile (n : Nat) : ModelFile (Int × Int) where
  filename := "landmarks.dat"
  content := some ([1, 1, 0x81, .ofNat (2 * n), 0x81, 1] ++
    (List.replicate (2 * n) [1, 0, 1, 0]).flatten ++ [1, 0, 1, 0, 1, 0])
  grants _ _ := true
  garbage _ _ := (0, 0)

def landmarkModel (n : Nat) : ShapePredictor (Int × Int) :=
  { ShapePredictor.empty with initialShape := List.replicate (2 * n) (0, 0) }

/-- Arithmetic that moves no point and finds every comparison false. -/
def still : Arith (Int × Int) where
  add a _ := a
  rotate _ v := v
  toImage _ _ := ⟨60, 80⟩
  exceeds _ _ _ _ _ _ := false

theorem accepted_fiveLandmarks : Accepted details (landmarkFile 5) (landmarkModel 5) := ⟨[], rfl⟩

set_option maxRecDepth 20000 in
theorem accepted_sixtyEightLandmarks : Accepted details (landmarkFile 68) (landmarkModel 68) :=
  ⟨[], rfl⟩

/-- With 68 landmarks the arrays fit together, since there is no level to need any. -/
theorem sixtyEightLandmarks_safe :
    Accepted details (landmarkFile 68) (landmarkModel 68) ∧
      ∀ m, Accepted details (landmarkFile 68) m → SafeToUse m := by
  refine ⟨accepted_sixtyEightLandmarks, (modelFile_safe_iff details (landmarkFile 68)).mpr ?_⟩
  rintro m ⟨rest, hload⟩
  obtain ⟨rest', hload'⟩ := accepted_sixtyEightLandmarks
  obtain rfl : m = landmarkModel 68 := congrArg Prod.fst (hload.symm.trans hload')
  constructor
  · intro iter forest h
    exact absurd h (by simp [landmarkModel, ShapePredictor.empty])
  · intro size hsize
    rw [List.mem_singleton.mp (show size ∈ [136] from hsize)]

set_option maxRecDepth 20000 in
/-- A model of five landmarks loads, and `part(5)` is past its end. -/
theorem fiveLandmarks_unsafe :
    Dlib.findFeature (predictorEnv .armeabiV7a (fun _ => []) still) (landmarkModel 5) .new
        Dlib.zeroRect Dlib.zeroPoints = .error .outOfRange ∧
      ¬ ∀ m, Accepted details (landmarkFile 5) m → SafeToUse m := by
  have hrun : Dlib.findFeature (predictorEnv .armeabiV7a (fun _ => []) still) (landmarkModel 5)
      .new Dlib.zeroRect Dlib.zeroPoints = .error .outOfRange := by rfl
  refine ⟨hrun, fun hall => ?_⟩
  obtain ⟨points, hpoints⟩ := hall _ accepted_fiveLandmarks .armeabiV7a (fun _ => []) still .new
    ⟨0, 0, [], rfl⟩ Dlib.zeroRect Dlib.zeroPoints ⟨0, 0, 0, 0⟩ rfl zeroRect_holds
    Block.size_tabulate
  rw [hrun] at hpoints
  cases hpoints

end DlibAndroid
