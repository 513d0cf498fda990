import DlibAndroid.Detector.Filtering
import Mathlib.Algebra.Order.Floor.Ring
import Mathlib.Algebra.Field.Defs

/-!
# `fhog.h`

`extract_fhog_features`, for images of `unsigned char` and a `dlib::array` of planes: every pixel
votes for a direction, in the four cells around it, and the planes say how the votes in a cell
compare to those around it. As in `spatial_filtering.h`, eight pixels are taken at once as long as
there are eight.

A `float` or a `double` is an element of an ordered field `K` that has a floor, and `fl` rounds
every result to the type that it has in the code. `std::sqrt` is a function of its own, `sqrt`,
which does its own rounding. Lengths of gradients are integers below `2^24`, so they are left as
they are. `impl_extract_fhog_features_cell_size_1`, which is used for cells of one pixel, is not
here.
-/

set_option autoImplicit false

namespace DlibAndroid

open CCore

variable {K : Type}

/-- `array2d<matrix<float,18,1> >` -/
abbrev Hist (K : Type) : Type := Grid (Nat → K)

/-! ## Gradients -/

/-- `grad`, of an image of intensities. -/
structure Gradient where
  x : Int
  y : Int

/-- `length_squared(grad)` -/
def Gradient.len (grad : Gradient) : Int := grad.x * grad.x + grad.y * grad.y

/-- `(int)get_pixel_intensity(img[r][c])` -/
def intensity (img : Grid UInt8) (r c : Int) : Exec Int := do
  let pixel ← img.read r c
  pure pixel.toNat

/-- `simd8i left((int)img[r][c], ..., (int)img[r][c+7]);` -/
def intensities (img : Grid UInt8) (r c : Int) : Exec (Fin 8 → Int) :=
  if img.InRange r c ∧ img.InRange r (c + 7) then
    .ok fun lane => (img.cell r (c + lane.val)).toNat
  else .error .outOfRange

/-- `get_gradient`, with a `matrix`. -/
def getGradient (img : Grid UInt8) (r c : Int) : Exec Gradient := do
  let right ← intensity img r (c + 1)
  let left ← intensity img r (c - 1)
  let bottom ← intensity img (r + 1) c
  let top ← intensity img (r - 1) c
  pure ⟨right - left, bottom - top⟩

/-- `get_gradient`, with `simd8f`. -/
def getGradients (img : Grid UInt8) (r c : Int) : Exec (Fin 8 → Gradient) := do
  let left ← intensities img r (c - 1)
  let right ← intensities img r (c + 1)
  let top ← intensities img (r - 1) c
  let bottom ← intensities img (r + 1) c
  pure fun lane => ⟨right lane - left lane, bottom lane - top lane⟩

/-! ## Votes -/

section Votes

variable [Field K] (fl : Rounding K)

/-- `directions` -/
def directions : List (K × K) :=
  [(fl.literal 1, fl.literal 0), (fl.literal (9397 / 10000), fl.literal (3420 / 10000)),
    (fl.literal (7660 / 10000), fl.literal (6428 / 10000)),
    (fl.literal (500 / 1000), fl.literal (8660 / 10000)),
    (fl.literal (1736 / 10000), fl.literal (9848 / 10000)),
    (fl.literal (-1736 / 10000), fl.literal (9848 / 10000)),
    (fl.literal (-5000 / 10000), fl.literal (8660 / 10000)),
    (fl.literal (-7660 / 10000), fl.literal (6428 / 10000)),
    (fl.literal (-9397 / 10000), fl.literal (3420 / 10000))]

/-- `dlib::dot(directions[o], grad)` -/
def dot (o : Nat) (grad : Gradient) : K :=
  let direction := (directions fl).getD o (0, 0)
  fl.single (fl.single (direction.1 * grad.x) + fl.single (direction.2 * grad.y))

/-- `best_dot` and `best_o` -/
structure Best (K : Type) where
  dot : K
  o : Nat

variable [LinearOrder K]

/-- A round of the loop that snaps a gradient to a direction. -/
def Best.next (grad : Gradient) (best : Best K) (o : Nat) : Best K :=
  let dot := DlibAndroid.dot fl o grad
  if best.dot < dot then ⟨dot, o⟩
  else if best.dot < -dot then ⟨-dot, o + 9⟩
  else best

/-- The same with `select`. -/
def Best.selectNext (grad : Gradient) (best : Best K) (o : Nat) : Best K :=
  let dot := DlibAndroid.dot fl o grad
  let bestDot := if best.dot < dot then dot else best.dot
  let bestO := if best.dot < dot then o else best.o
  -- the other direction is tried as well, where the plain loop has an `else`
  let dot := fl.single (dot * -1)
  ⟨if bestDot < dot then dot else bestDot, if bestDot < dot then o + 9 else bestO⟩

/-- The one of the 18 directions that goes with the gradient most. -/
def snap (grad : Gradient) : Nat := ((List.range 9).foldl (Best.next fl grad) ⟨0, 0⟩).o

/-- The same in a lane, where there are no branches. -/
def snapLane (grad : Gradient) : Nat := ((List.range 9).foldl (Best.selectNext fl grad) ⟨0, 0⟩).o

/-- `hist[r][c](o) += v;` -/
def addVote (r c : Int) (o : Nat) (v : K) (hist : Hist K) : Exec (Hist K) :=
  if o < 18 then do
    let h ← hist.read r c
    hist.write r c (Function.update h o (fl.single (h o + v)))
  else .error .outOfRange

variable [FloorRing K]

/-- Where a row votes: `iyp`, `vy0` and `vy1`. -/
structure Vertical (K : Type) where
  iyp : Int
  vy0 : K
  vy1 : K

/-- `(y + 0.5)/cell_size - 0.5`, as a `float`: where a row or a column is among the cells. -/
def center (y cellSize : K) : K :=
  fl.single (fl.double (fl.double (fl.double (y + 1 / 2) / cellSize) - 1 / 2))

/-- They are the same for all pixels of a row. -/
def Vertical.of (cellSize y : Int) : Vertical K :=
  let yp := center fl (fl.single y) (fl.single cellSize)
  let iyp := ⌊yp⌋
  let vy0 := fl.single (yp - fl.single iyp)
  ⟨iyp, vy0, fl.single (fl.double (1 - vy0))⟩

/-- The vote of a pixel that is on its own. -/
def votePixel (sqrt : K → K) (img : Grid UInt8) (cellSize : Int) (row : Vertical K) (y x : Int)
    (hist : Hist K) : Exec (Hist K) := do
  let grad ← getGradient img y x
  let o := snap fl grad
  let v := sqrt grad.len
  let xp := center fl (fl.double x) (fl.double cellSize)
  let ixp := ⌊xp⌋
  let vx0 := fl.single (xp - fl.single ixp)
  let vx1 := fl.single (fl.double (1 - vx0))
  let hist ← addVote fl (row.iyp + 1) (ixp + 1) o (fl.single (fl.single (row.vy1 * vx1) * v)) hist
  let hist ← addVote fl (row.iyp + 1 + 1) (ixp + 1) o
    (fl.single (fl.single (row.vy0 * vx1) * v)) hist
  let hist ← addVote fl (row.iyp + 1) (ixp + 1 + 1) o
    (fl.single (fl.single (row.vy1 * vx0) * v)) hist
  addVote fl (row.iyp + 1 + 1) (ixp + 1 + 1) o (fl.single (fl.single (row.vy0 * vx0) * v)) hist

/-- One of eight pixels, from what was worked out for all of them. -/
def voteLane (sqrt : K → K) (cellSize : Int) (row : Vertical K) (x : Int)
    (grads : Fin 8 → Gradient) (lane : Fin 8) (hist : Hist K) : Exec (Hist K) := do
  let xx := fl.single ((x + (lane.val : Int) : Int) : K)
  let v := (grads lane).len
  -- a cell more than `center`, so that the conversion may cut off what the floor would
  let xp := fl.single (fl.single (fl.single (xx + 1 / 2) / fl.single cellSize) + 1 / 2)
  let ixp := truncate xp
  let vx0 := fl.single (xp - fl.single ixp)
  let vx1 := fl.single (1 - vx0)
  let v := sqrt v
  let o := snapLane fl (grads lane)
  let vx1 := fl.single (vx1 * v)
  let vx0 := fl.single (vx0 * v)
  let hist ← addVote fl (row.iyp + 1) ixp o (fl.single (row.vy1 * vx1)) hist
  let hist ← addVote fl (row.iyp + 1 + 1) ixp o (fl.single (row.vy0 * vx1)) hist
  let hist ← addVote fl (row.iyp + 1) (ixp + 1) o (fl.single (row.vy1 * vx0)) hist
  addVote fl (row.iyp + 1 + 1) (ixp + 1) o (fl.single (row.vy0 * vx0)) hist

/-- The votes of eight pixels, one after the other. -/
def voteBlock (sqrt : K → K) (img : Grid UInt8) (cellSize : Int) (row : Vertical K) (y x : Int)
    (hist : Hist K) : Exec (Hist K) := do
  let grads ← getGradients img y x
  forEach (List.finRange 8) (voteLane fl sqrt cellSize row x grads) hist

/-- The loop over the rows and, in each, over the blocks of eight and the pixels that are left. -/
def populate (sqrt : K → K) (img : Grid UInt8) (cellSize visibleNr visibleNc : Int) :
    Hist K → Exec (Hist K) :=
  forEach (upTo 1 (visibleNr - 1)) fun y hist => do
    let row := Vertical.of fl cellSize y
    let hist ← forEach (blocks 1 visibleNc) (voteBlock fl sqrt img cellSize row y) hist
    forEach (remaining 1 visibleNc) (votePixel fl sqrt img cellSize row y) hist

end Votes

/-! ## Features -/

section Features

variable [Field K] (fl : Rounding K)

/-- `norm[r][c] += ...` for one of the nine directions. -/
def addEnergy (hist : Hist K) (r c : Int) (o : Nat) (norm : Grid K) : Exec (Grid K) := do
  let h ← hist.read (r + 1) (c + 1)
  let p ← norm.read r c
  norm.write r c
    (fl.single (p + fl.single (fl.single (h o + h (o + 9)) * fl.single (h o + h (o + 9)))))

/-- `norm`, the energy of every cell. -/
def energies (hist : Hist K) (cellsNr cellsNc : Int) : Grid K → Exec (Grid K) :=
  forEach (upTo 0 (cellsNr - 1)) fun r =>
    forEach (upTo 0 (cellsNc - 1)) fun c =>
      forEach (List.range 9) (addEnergy fl hist r c)

/-- `simd4f z(norm[..][..], norm[..][..], norm[..][..], norm[..][..]);` -/
def Simd4f.read (norm : Grid K) (a b c d : Int × Int) : Exec (Simd4f K) := do
  let a ← norm.read a.1 a.2
  let b ← norm.read b.1 b.2
  let c ← norm.read c.1 c.2
  let d ← norm.read d.1 d.2
  pure ![a, b, c, d]

/-- `nn` and `n` -/
structure Norms (K : Type) where
  nn : Simd4f K
  n : Simd4f K

/-- `n = 0.1/nn` -/
def Norms.of (nn : Simd4f K) : Norms K :=
  ⟨nn, fun lane => fl.single (fl.literal (1 / 10) / nn lane)⟩

/-- `0.2*sqrt(energy + eps)` -/
def blockNorm (sqrt : K → K) (energy : K) : K :=
  fl.single (fl.literal (2 / 10) * sqrt (fl.single (energy + fl.literal (1 / 10000))))

/-- The norms of the four blocks that a cell is in. -/
def blockNorms (sqrt : K → K) (norm : Grid K) (y x : Int) : Exec (Norms K) := do
  let z1 ← Simd4f.read norm (y + 1, x + 1) (y, x + 1) (y + 1, x) (y, x)
  let z2 ← Simd4f.read norm (y + 1, x + 2) (y, x + 2) (y + 1, x + 1) (y, x + 1)
  let z3 ← Simd4f.read norm (y + 2, x + 1) (y + 1, x + 1) (y + 2, x) (y + 1, x)
  let z4 ← Simd4f.read norm (y + 2, x + 2) (y + 1, x + 2) (y + 2, x + 1) (y + 1, x + 1)
  pure (.of fl fun lane => blockNorm fl sqrt
    (fl.single (fl.single (fl.single (z1 lane + z2 lane) + z3 lane) + z4 lane)))

/-- `set_hog` -/
def setHog (o : Nat) (x y : Int) (value : K) (hog : List (Grid K)) : Exec (List (Grid K)) := do
  let img ← index hog o
  let img ← img.write y x value
  pure (hog.set o img)

variable [LinearOrder K]

/-- `min(temp,nn)*n` -/
def Norms.clip (norms : Norms K) (temp : K) : Simd4f K := fun lane =>
  fl.single (min temp (norms.nn lane) * norms.n lane)

/-- Three contrast-sensitive features. `t` goes with the planes. -/
def setSensitive (norms : Norms K) (h : Nat → K) (x y : Int) (o : Nat)
    (s : List (Grid K) × Simd4f K) : Exec (List (Grid K) × Simd4f K) := do
  let h0 := norms.clip fl (h o)
  let h1 := norms.clip fl (h (o + 1))
  let h2 := norms.clip fl (h (o + 2))
  let hog ← setHog o x y (h0.sum fl) s.1
  let hog ← setHog (o + 1) x y (h1.sum fl) hog
  let hog ← setHog (o + 2) x y (h2.sum fl) hog
  pure (hog, fun lane => fl.single (s.2 lane + fl.single (fl.single (h0 lane + h1 lane) + h2 lane)))

/-- Three contrast-insensitive features, in a round of the second loop. -/
def setInsensitive (norms : Norms K) (h : Nat → K) (x y : Int) (o : Nat) (hog : List (Grid K)) :
    Exec (List (Grid K)) := do
  let h0 := norms.clip fl (fl.single (h o + h (o + 9)))
  let h1 := norms.clip fl (fl.single (h (o + 1) + h (o + 9 + 1)))
  let h2 := norms.clip fl (fl.single (h (o + 2) + h (o + 9 + 2)))
  let hog ← setHog (o + 18) x y (h0.sum fl) hog
  let hog ← setHog (o + 18 + 1) x y (h1.sum fl) hog
  setHog (o + 18 + 2) x y (h2.sum fl) hog

/-- `2*0.2357`, as a `float`. -/
def textureScale : K := fl.single (fl.double (2 * fl.double (2357 / 10000)))

/-- The features of a cell, written to all planes. -/
def setFeatures (sqrt : K → K) (hist : Hist K) (norm : Grid K) (rowsOffset colsOffset : Int)
    (y x : Int) (hog : List (Grid K)) : Exec (List (Grid K)) := do
  let yy := y + rowsOffset
  let norms ← blockNorms fl sqrt norm y x
  let xx := x + colsOffset
  let h ← hist.read (y + 1 + 1) (x + 1 + 1)
  let s ← forEach [0, 3, 6, 9, 12, 15] (setSensitive fl norms h xx yy) (hog, 0)
  let t : Simd4f K := fun lane => fl.single (s.2 lane * textureScale fl)
  let hog ← forEach [0, 3, 6] (setInsensitive fl norms h xx yy) s.1
  let hog ← setHog 27 xx yy (t.lane 0) hog
  let hog ← setHog 28 xx yy (t.lane 1) hog
  let hog ← setHog 29 xx yy (t.lane 2) hog
  setHog 30 xx yy (t.lane 3) hog

end Features

/-! ## The whole of it -/

section Extract

variable [Field K]

/-- `hog.resize(n)`. A new plane is empty. -/
def resizeHog (garbage : Int → Int → K) (n : Nat) (hog : List (Grid K)) : List (Grid K) :=
  (List.range n).map fun i => hog.getD i ⟨0, 0, garbage⟩

/-- A plane of `init_hog`. -/
def initPlane (garbage : Int → Int → K) (hogNr hogNc rowsPadding colsPadding : Int) (i : Nat)
    (hog : List (Grid K)) : Exec (List (Grid K)) := do
  let img ← index hog i
  let img := img.setSize garbage (hogNr + rowsPadding - 1).toNat (hogNc + colsPadding - 1).toNat
  let rect := getRect img
  let rect : Rectangle := ⟨rect.left + .ofInt ((colsPadding - 1).tdiv 2),
    rect.top + .ofInt ((rowsPadding - 1).tdiv 2), rect.right - .ofInt (colsPadding.tdiv 2),
    rect.bottom - .ofInt (rowsPadding.tdiv 2)⟩
  let img ← zeroBorderPixels rect img
  pure (hog.set i img)

/-- `init_hog` -/
def initHog (garbage : Int → Int → K) (hogNr hogNc rowsPadding colsPadding : Int)
    (hog : List (Grid K)) : Exec (List (Grid K)) :=
  forEach (List.range 31) (initPlane garbage hogNr hogNc rowsPadding colsPadding)
    (resizeHog garbage 31 hog)

variable [LinearOrder K] [FloorRing K] (fl : Rounding K)

/-- `cells_nr` and `cells_nc` -/
def cells (size : Nat) (cellSize : Int) : Int :=
  truncate (fl.double (fl.single (fl.single size / fl.single cellSize) + 1 / 2))

/-- `impl_extract_fhog_features`, for cells of more than one pixel. -/
def implExtractFhogFeatures (sqrt : K → K) (garbage : Int → Int → K) (img : Grid UInt8)
    (hog : List (Grid K)) (cellSize rowsPadding colsPadding : Int) : Exec (List (Grid K)) :=
  let cellsNr := cells fl img.nr cellSize
  let cellsNc := cells fl img.nc cellSize
  if cellsNr = 0 ∨ cellsNc = 0 then pure []
  else
    let hist : Hist K := ⟨(cellsNr + 2).toNat, (cellsNc + 2).toNat, fun _ _ _ => 0⟩
    let norm : Grid K := ⟨cellsNr.toNat, cellsNc.toNat, fun _ _ => 0⟩
    let hogNr := max (cellsNr - 2) 0
    let hogNc := max (cellsNc - 2) 0
    -- a cell has features only if there are cells on all sides of it
    if hogNr = 0 ∨ hogNc = 0 then pure []
    else do
      let rowsOffset := (rowsPadding - 1).tdiv 2
      let colsOffset := (colsPadding - 1).tdiv 2
      let hog ← initHog garbage hogNr hogNc rowsPadding colsPadding hog
      let visibleNr := min (cellsNr * cellSize) img.nr - 1
      let visibleNc := min (cellsNc * cellSize) img.nc - 1
      let hist ← populate fl sqrt img cellSize visibleNr visibleNc hist
      let norm ← energies fl hist cellsNr cellsNc norm
      forEach (upTo 0 (hogNr - 1)) (fun y =>
        forEach (upTo 0 (hogNc - 1)) (setFeatures fl sqrt hist norm rowsOffset colsOffset y)) hog

/-- `extract_fhog_features`. There are always 31 planes. -/
def extractFhogFeatures (sqrt : K → K) (garbage : Int → Int → K) (img : Grid UInt8)
    (hog : List (Grid K)) (cellSize rowsPadding colsPadding : Int) : Exec (List (Grid K)) := do
  let hog ← implExtractFhogFeatures fl sqrt garbage img hog cellSize rowsPadding colsPadding
  pure (if hog.length = 0 then resizeHog garbage 31 hog else hog)

end Extract

end DlibAndroid
