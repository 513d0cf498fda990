import DlibAndroid.Predictor.Accepted
import DlibAndroid.Detector.Isolation
import DlibAndroid.Jni.Lifecycle

/-!
# A model that does not load

The constructor swallows what `deserialize` throws, and goes on with whatever is in `featureModel`
by then: the fields read so far, a part of the one being read, and nothing of those after it.
Every leftover was filled in order (`load_inOrder`), and its vectors fit into memory, which is why
an index in a tree never wraps (`load_childrenFit`).

Of a failed load one would want that it leaves the empty predictor, that the object can be called
all the same, and that a later `init` can repair it. No file gives the first two together, since
the empty predictor has no `part(0)`; and none gives the third, since `init` looks at the pointer
and not at the model (`failedLoad_never_clean`).
-/

set_option autoImplicit false

namespace DlibAndroid

open CCore

variable {F : Type} {format : Format F} {file : ModelFile F} {m : ShapePredictor F}

/-! ## What every leftover has in common -/

/-- A vector that fits into a block, with elements of `sizeof` bytes that satisfy `P`. -/
def Bounded {T : Type} (sizeof : Nat) (P : T → Prop) (item : List T) : Prop :=
  item.length * sizeof ≤ maxBlock ∧ ∀ x ∈ item, P x

theorem bounded_nil {T : Type} {sizeof : Nat} {P : T → Prop} : Bounded sizeof P [] :=
  ⟨by simp, fun x hx => absurd hx List.not_mem_nil⟩

theorem resize_keeps {T : Type} {sizeof size : Nat} {value : T} {P : T → Prop} (hvalue : P value) :
    (resize file sizeof value size).Keeps (Bounded sizeof P) := by
  rintro item bytes ⟨hlen, hall⟩
  unfold resize
  split_ifs with hle hgrant
  · have hshort : (item.take size).length ≤ item.length := by
      rw [List.length_take]
      exact Nat.min_le_right _ _
    exact ⟨(Nat.mul_le_mul_right sizeof hshort).trans hlen,
      fun x hx => hall x (List.mem_of_mem_take hx)⟩
  · have hsize : item.length + (size - item.length) = size := by omega
    refine ⟨by rw [List.length_append, List.length_replicate, hsize]; exact hgrant.1, ?_⟩
    intro x hx
    rcases List.mem_append.mp hx with hx | hx
    · exact hall x hx
    · rw [List.eq_of_mem_replicate hx]
      exact hvalue
  · exact ⟨hlen, hall⟩

theorem deserializeVector_keeps {T : Type} {sizeof : Nat} {value : T} {P : T → Prop}
    {deserialize : Load Thrown T} (hvalue : P value) (h : deserialize.Keeps P) :
    (deserializeVector file sizeof value deserialize).Keeps (Bounded sizeof P) := by
  refine Load.Keeps.onError (Load.keeps_withLocal fun size => ?_) fun _ _ hitem => hitem
  refine (resize_keeps hvalue).andThen ?_
  rintro item bytes ⟨hlen, hall⟩
  exact ⟨by rw [Load.length_each]; exact hlen, h.each item bytes hall⟩

/-- The splits of the tree fit into a block. -/
def RegressionTree.Bounded (tree : RegressionTree F) : Prop := tree.splits.length * 12 ≤ maxBlock

theorem deserializeRegressionTree_keeps :
    (deserializeRegressionTree format file).Keeps RegressionTree.Bounded := by
  have hsplits : (deserializeSplits format file).Keeps (Bounded 12 fun _ => True) :=
    deserializeVector_keeps trivial fun _ _ h => h
  refine Load.Keeps.andThen ?_ (Load.keeps_inField fun _ _ h => h)
  exact hsplits.inField (fun tree h => ⟨h, fun _ _ => trivial⟩) fun tree splits _ h => h.1

def ShapePredictor.Bounded (p : ShapePredictor F) : Prop :=
  DlibAndroid.Bounded 12 (DlibAndroid.Bounded 24 RegressionTree.Bounded) p.forests

theorem deserializeShapePredictor_keeps :
    (deserializeShapePredictor format file).Keeps ShapePredictor.Bounded := by
  have hforests : (deserializeForests format file).Keeps
      (Bounded 12 (Bounded 24 RegressionTree.Bounded)) :=
    deserializeVector_keeps bounded_nil
      (deserializeVector_keeps (Nat.zero_le _) deserializeRegressionTree_keeps)
  refine Load.keeps_withLocal fun version => ?_
  split
  · exact Load.keeps_throw _
  · -- only the second of the four fields matters
    refine Load.Keeps.andThen (Load.keeps_inField fun _ _ h => h) (Load.Keeps.andThen ?_
      (Load.Keeps.andThen (Load.keeps_inField fun _ _ h => h) (Load.keeps_inField fun _ _ h => h)))
    exact hforests.inField (fun p h => h) fun p forests _ h => h

theorem doit_keeps (content : List UInt8) :
    (doit format file content).Keeps ShapePredictor.Bounded := by
  refine Load.Keeps.onError ?_ fun _ _ h => h
  split
  · exact Load.keeps_throw _
  · exact deserializeShapePredictor_keeps

theorem load_bounded (format : Format F) (file : ModelFile F) : (load format file).1.Bounded := by
  unfold load
  cases file.content with
  | none => exact bounded_nil
  | some content => exact doit_keeps content _ content bounded_nil

/-- In every tree, the index of a child of a split fits `unsigned long`. -/
def ShapePredictor.ChildrenFit (p : ShapePredictor F) : Prop :=
  ∀ forest ∈ p.forests, ∀ tree ∈ forest, ∀ i, i < tree.splits.length →
    ∀ left, child left i < 2 ^ 32

/-- A tree of a predictor that was loaded, if only in part, can be walked down without an index that
wraps. -/
theorem load_childrenFit (format : Format F) (file : ModelFile F) :
    (load format file).1.ChildrenFit := by
  intro forest hforest tree htree i hi left
  have hsplits : tree.Bounded := ((load_bounded format file).2 forest hforest).2 tree htree
  have hchild : child left i ≤ 2 * tree.splits.length := child_le hi
  unfold RegressionTree.Bounded maxBlock at hsplits
  omega

/-- `deserialize` throws. -/
def Refused (format : Format F) (file : ModelFile F) : Prop :=
  ∃ e, (load format file).2 = .error e

/-- The constructed object has the default-constructed predictor. -/
def Untouched (format : Format F) (file : ModelFile F) : Prop :=
  (construct format file).featureModel = .empty

/-- No later call goes out of range, after any history of calls. -/
def LaterCallsSafe (format : Format F) (file : ModelFile F) : Prop :=
  ∀ abi detector (arith : Arith F) calls c d, (∀ c ∈ calls, c.Proper) → c.Proper →
    forEach calls (Dlib.step (predictorEnv abi detector arith)) (construct format file) = .ok d →
    Dlib.call (predictorEnv abi detector arith) c d ≠ .error .outOfRange

/-- A later `init` with a valid file, whatever was called in between, puts its model to use. -/
def Retries (format : Format F) (file : ModelFile F) : Prop :=
  ∀ good m, Accepted format good m → ∀ uses : List (Dlib (ShapePredictor F) →
    Dlib (ShapePredictor F)), ∃ p o,
    forEach (.init file :: uses.map Jni.Call.use ++ [.init good]) (Jni.step (construct format))
      .start = .ok p ∧ p.detector = some o ∧ o.val.featureModel = m

/-! ## The calls after a load -/

section Calls

open Dlib

variable {env : Env (ShapePredictor F)} {c : Call} {abi : Abi}
  {detector : Image → List Rectangle} {arith : Arith F}

/-- With a predictor that gives landmarks enough, no proper call goes out of range. -/
theorem outcome_ne_outOfRange (hc : c.Proper)
    (hpredict : ∀ img r, ∃ parts, env.predict m img r = .ok parts ∧ 68 ≤ parts.length) :
    outcome env m c ≠ .error .outOfRange := by
  refine outcome_ne_error (by decide) hc fun img points hpoints hfault => ?_
  obtain ⟨parts, hparts, hlen⟩ := hpredict img (faceIn env img)
  obtain ⟨points', hok, -⟩ := landmarks_ok hparts hlen hpoints.ge
  exact absurd (hok.symm.trans hfault) (by simp)

/-- A call that does not go out of range has been given landmarks enough. -/
theorem apply_of_largeCall
    (h : outcome (predictorEnv abi (fun _ => []) arith) m largeCall ≠ .error .outOfRange) :
    ∃ parts, m.apply arith (largeCall.frame abi) ⟨0, 0, 0, 0⟩ = .ok parts ∧ 68 ≤ parts.length := by
  generalize henv : predictorEnv abi (fun _ => []) arith = env at h
  have hpredict : ∀ img r, env.predict m img r = m.apply arith img r := by
    intro img r
    rw [← henv]
    rfl
  have hface : ∀ img, faceIn env img = ⟨0, 0, 0, 0⟩ := by
    intro img
    rw [← henv]
    rfl
  have habi : env.abi = abi := by rw [← henv]; rfl
  cases hrun : landmarks env m (largeCall.frame abi) zeroPoints with
  | ok points =>
    obtain ⟨parts, hparts, hstore⟩ := bind_eq_ok.mp hrun
    rw [hpredict, hface] at hparts
    exact ⟨parts, hparts, length_of_writeParts hstore⟩
  | error e =>
    have hsize : zeroRect.size = 4 := Block.size_tabulate
    obtain ⟨r, hr, -⟩ := writeRect_ok (faceIn env (largeCall.frame abi)) hsize.ge
    have houtcome : outcome env m largeCall = .error e := by
      rw [largeCall, outcome, ← largeCall, habi, detection, hr, ok_bind, hrun]
      rfl
    by_cases he : e = .outOfRange
    · exact absurd (he ▸ houtcome) h
    · refine absurd hrun (landmarks_ne_error he fun img r => ?_)
      rw [hpredict]
      exact ShapePredictor.apply_ne_error he

/-- **When the calls after a load are safe**: when what the load left is consistent, whether the
load finished or not. -/
theorem laterCallsSafe_iff (format : Format F) (file : ModelFile F) :
    LaterCallsSafe format file ↔ (load format file).1.Consistent := by
  constructor
  · intro hsafe
    refine ShapePredictor.consistent_of_apply (largeCall.frame .armeabiV7a) ⟨0, 0, 0, 0⟩ fun k => ?_
    have hcall := hsafe .armeabiV7a (fun _ => []) (ShapePredictor.steered k) [] largeCall _
      (fun c hc => absurd hc List.not_mem_nil) largeCall_proper rfl
    obtain ⟨d', -, -, heq⟩ := call_eq (predictorEnv .armeabiV7a (fun _ => [])
      (ShapePredictor.steered k)) largeCall_proper (new_owns (load format file).1)
      (new_sizeExact (load format file).1)
    refine apply_of_largeCall fun hfault => hcall (heq.trans ?_)
    rw [show (new (load format file).1).featureModel = (load format file).1 from rfl, hfault]
    rfl
  · intro hm abi detector arith calls c d hcalls hc hrun
    obtain ⟨⟨leaked, hd⟩, hexact⟩ := run_proper hcalls hrun
    obtain ⟨d', -, -, hcall⟩ := call_eq (predictorEnv abi detector arith) hc hd hexact
    have hmodel : d.featureModel = (load format file).1 := run_featureModel hrun
    rw [hcall, hmodel]
    exact bind_ne_error (outcome_ne_outOfRange hc fun img r => hm.apply_ok arith img r)
      fun rp _ => ok_ne_error

end Calls

/-! ## No file gives them -/

theorem empty_not_consistent : ¬ (ShapePredictor.empty : ShapePredictor F).Consistent := by
  intro h
  exact absurd (h.parts 0 (List.mem_singleton.mpr rfl)) (by decide)

/-- A valid model of `n` levels' anchors, no landmarks and no trees. -/
def anchorFile (format : Format F) (n : Nat) : ModelFile F where
  filename := "anchors.dat"
  content := some ([1, 1, 1, 0, 1, 1, 1, 0, 1, .ofNat n] ++
    (List.replicate n [1, 0]).flatten ++ [1, 0])
  grants _ _ := true
  garbage _ _ := format.zero

theorem accepted_anchorFile_zero (format : Format F) :
    Accepted format (anchorFile format 0) ⟨[], [], [], []⟩ := ⟨[], rfl⟩

theorem accepted_anchorFile_one (format : Format F) :
    Accepted format (anchorFile format 1) ⟨[], [], [[]], []⟩ := ⟨[], rfl⟩

/-- The first `init` decides, whatever it made of its file. -/
theorem init_twice (format : Format F) (file good : ModelFile F) :
    forEach [.init file, .init good] (Jni.step (construct format)) .start =
      .ok ⟨some ⟨0, construct format file⟩, Ledger.empty.alloc⟩ := rfl

theorem not_retries (format : Format F) (file : ModelFile F) : ¬ Retries format file := by
  intro hretry
  have hmodel : ∀ good m, Accepted format good m → (construct format file).featureModel = m := by
    intro good m hgood
    obtain ⟨p, o, hrun, hptr, rfl⟩ := hretry good m hgood []
    obtain rfl := Except.ok.inj ((init_twice format file good).symm.trans hrun)
    obtain rfl := Option.some.inj hptr
    rfl
  have hzero := hmodel _ _ (accepted_anchorFile_zero format)
  have hone := hmodel _ _ (accepted_anchorFile_one format)
  exact absurd (congrArg ShapePredictor.anchorIdx (hzero.symm.trans hone)) (by simp)

/-- **A failed load is never clean**, whatever the file. -/
theorem failedLoad_never_clean (format : Format F) (file : ModelFile F) :
    ¬ (Untouched format file ∧ LaterCallsSafe format file) ∧ ¬ Retries format file := by
  refine ⟨?_, not_retries format file⟩
  rintro ⟨huntouched, hsafe⟩
  have hm := (laterCallsSafe_iff format file).mp hsafe
  rw [show (load format file).1 = .empty from huntouched] at hm
  exact empty_not_consistent hm

/-! ## A file cut short -/

/-- One landmark and one level of one tree, cut off before the anchors. -/
def truncatedFile : ModelFile (Int × Int) where
  filename := "truncated.dat"
  content := some [1, 1, 0x81, 2, 0x81, 1, 1, 5, 1, 0, 1, 5, 1, 0,
    1, 1, 1, 1, 1, 0, 1, 1, 0x81, 2, 0x81, 1, 1, 1, 1, 0, 1, 1, 1, 0]
  grants _ _ := true
  garbage _ _ := (0, 0)

/-- What it leaves: a forest, and neither anchors nor deltas. -/
theorem load_truncatedFile : ∃ e, load details truncatedFile =
    (⟨[(5, 0), (5, 0)], [[⟨[], [[(1, 0), (1, 0)]]⟩]], [], []⟩, .error e) := ⟨_, rfl⟩

theorem truncatedFile_all_fail :
    Refused details truncatedFile ∧ ¬ Untouched details truncatedFile ∧
      ¬ LaterCallsSafe details truncatedFile ∧ ¬ Retries details truncatedFile := by
  obtain ⟨e, hload⟩ := load_truncatedFile
  refine ⟨⟨e, by rw [hload]⟩, fun huntouched => ?_, fun hsafe => ?_, not_retries _ _⟩
  · rw [Untouched, construct, hload] at huntouched
    have hforests := congrArg ShapePredictor.forests huntouched
    exact absurd hforests (by simp [Dlib.new, ShapePredictor.empty])
  · have hm := (laterCallsSafe_iff details truncatedFile).mp hsafe
    rw [hload] at hm
    obtain ⟨anchorIdx, -, hanchor, -⟩ := hm.level 0 _ rfl
    exact absurd hanchor (by simp)

end DlibAndroid
