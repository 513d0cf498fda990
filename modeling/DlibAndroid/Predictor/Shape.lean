import DlibAndroid.Lib.Descent
import DlibAndroid.Frame.Array2d

/-!
# The shape predictor

`image_processing/shape_predictor.h`: a cascade of forests of regression trees. Each level samples
pixels around the points of the current shape and lets its trees move the points; what is left
after the last level is the answer. Five arrays supply the indices (the anchors, the two of every
split, and, through their sizes, the deltas and the leaves), and the assertions that would relate
them to one another are compiled out. So every access is an `index`, which faults.

Numbers of type `float` are an arbitrary type `F`, and what the instructions make of them is the
parameter `Arith`: no index depends on a number except through the comparisons that steer the
descents. A comparison is told where in the cascade it is made, and may go either way there.

`unsigned long` has 32 bits, which shows in `location`, where twice an index may wrap. A vector of
splits is far too short for `2 * i + 2` to do so.
-/

set_option autoImplicit false

namespace DlibAndroid

open CCore

variable {F : Type}

/-- `dlib::vector<float,2>` -/
structure Vector2 (F : Type) where
  x : F
  y : F

/-- `impl::split_feature` -/
structure SplitFeature (F : Type) where
  idx1 : Nat
  idx2 : Nat
  thresh : F

/-- `impl::regression_tree`. A `matrix<float,0,1>` is a column, the list of its elements. -/
structure RegressionTree (F : Type) where
  splits : List (SplitFeature F)
  leafValues : List (List F)

/-- `shape_predictor` -/
structure ShapePredictor (F : Type) where
  initialShape : List F
  forests : List (List (RegressionTree F))
  anchorIdx : List (List Nat)
  deltas : List (List (Vector2 F))

/-- The default constructor. -/
def ShapePredictor.empty : ShapePredictor F := ⟨[], [], [], []⟩

/-- What the code computes with floats. `rotate` is the matrix of a transform found between two
shapes, point by point, or the identity for `none`; `toImage` is the transform of a rectangle,
rounded to a `point`. `exceeds iter i node` is the comparison `a - b > thresh` at one node of tree
`i` of level `iter`. -/
structure Arith (F : Type) where
  add : F → F → F
  rotate : Option (List (Vector2 F × Vector2 F)) → Vector2 F → Vector2 F
  toImage : Rectangle → Vector2 F → Point
  exceeds : Nat → Nat → Nat → UInt8 → UInt8 → F → Bool

/-- `impl::location` -/
def location (shape : List F) (idx : Nat) : Exec (Vector2 F) := do
  let x ← index shape (idx * 2 % 2 ^ 32)
  let y ← index shape ((idx * 2 + 1) % 2 ^ 32)
  pure ⟨x, y⟩

/-- `impl::find_tform_between_shapes`: the pairs of points the transform is fitted to, and `none`
for the identity. -/
def findTformBetweenShapes (fromShape toShape : List F) :
    Exec (Option (List (Vector2 F × Vector2 F))) :=
  let num := fromShape.length / 2
  if num = 1 then pure none
  else do
    let points ← collect num fun i => do
      let a ← location fromShape i
      let b ← location toShape i
      pure (a, b)
    pure (some points)

/-- `area.contains(p) ? get_pixel_intensity(img[p.y()][p.x()]) : 0`, with `area` the rectangle of
the image. -/
def pixelAt (img : Image) (p : Point) : Exec UInt8 :=
  if p.x.toInt < 0 ∨ img.nc - 1 < p.x.toInt ∨ p.y.toInt < 0 ∨ img.nr - 1 < p.y.toInt then pure 0
  else index img.data (p.y.toInt * img.nc + p.x.toInt).toNat

def Arith.plus (arith : Arith F) (a b : Vector2 F) : Vector2 F :=
  ⟨arith.add a.x b.x, arith.add a.y b.y⟩

/-- `impl::extract_feature_pixel_values` -/
def extractFeaturePixelValues (arith : Arith F) (img : Image) (rect : Rectangle)
    (currentShape referenceShape : List F) (anchorIdx : List Nat) (deltas : List (Vector2 F)) :
    Exec (List UInt8) := do
  let tform ← findTformBetweenShapes referenceShape currentShape
  collect deltas.length fun i => do
    let delta ← index deltas i
    let anchor ← index anchorIdx i
    let point ← location currentShape anchor
    pixelAt img (arith.toImage rect (arith.plus (arith.rotate tform delta) point))

/-- The loop of `regression_tree::operator()`: the first index that is no split. -/
def RegressionTree.descend (tree : RegressionTree F) (exceeds : Nat → UInt8 → UInt8 → F → Bool)
    (values : List UInt8) (i : Nat) : Exec Nat :=
  if h : i < tree.splits.length then do
    let split := tree.splits[i]
    let a ← index values split.idx1
    let b ← index values split.idx2
    tree.descend exceeds values (child (exceeds i a b split.thresh) i)
  else pure i
termination_by tree.splits.length - i
decreasing_by exact Nat.sub_lt_sub_left h lt_child

/-- `regression_tree::operator()` -/
def RegressionTree.apply (tree : RegressionTree F) (exceeds : Nat → UInt8 → UInt8 → F → Bool)
    (values : List UInt8) : Exec (List F) := do
  let i ← tree.descend exceeds values 0
  index tree.leafValues (i - tree.splits.length)

/-- `shape += leaf`. Columns of the same length are added; any other column is replaced. -/
def addColumn (arith : Arith F) (shape leaf : List F) : List F :=
  if shape.length = leaf.length then List.zipWith arith.add shape leaf else leaf

namespace ShapePredictor

/-- `current_shape += forests[iter][i](feature_pixel_values, leaf_idx);` -/
def applyTree (arith : Arith F) (iter : Nat) (values : List UInt8)
    (forest : List (RegressionTree F)) (i : Nat) (shape : List F) : Exec (List F) := do
  let tree ← index forest i
  let leaf ← tree.apply (arith.exceeds iter i) values
  pure (addColumn arith shape leaf)

/-- The trees of one level, one after the other. -/
def applyForest (arith : Arith F) (iter : Nat) (values : List UInt8)
    (forest : List (RegressionTree F)) (shape : List F) : Exec (List F) :=
  forEach (List.range forest.length) (applyTree arith iter values forest) shape

/-- One level of the cascade. -/
def applyLevel (p : ShapePredictor F) (arith : Arith F) (img : Image) (rect : Rectangle)
    (iter : Nat) (currentShape : List F) : Exec (List F) := do
  let forest ← index p.forests iter
  let anchorIdx ← index p.anchorIdx iter
  let deltas ← index p.deltas iter
  let values ←
    extractFeaturePixelValues arith img rect currentShape p.initialShape anchorIdx deltas
  applyForest arith iter values forest currentShape

/-- The first `n` levels. -/
def applyLevels (p : ShapePredictor F) (arith : Arith F) (img : Image) (rect : Rectangle)
    (n : Nat) : Exec (List F) :=
  forEach (List.range n) (p.applyLevel arith img rect) p.initialShape

/-- `shape_predictor::operator()`: the parts of the detection it returns. -/
def apply (p : ShapePredictor F) (arith : Arith F) (img : Image) (rect : Rectangle) :
    Exec (List Point) := do
  let shape ← p.applyLevels arith img rect p.forests.length
  collect (shape.length / 2) fun i => do
    let point ← location shape i
    pure (arith.toImage rect point)

end ShapePredictor

end DlibAndroid
