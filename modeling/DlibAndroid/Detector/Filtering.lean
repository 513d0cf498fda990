import DlibAndroid.Detector.Rectangle
import DlibAndroid.Detector.Simd
import DlibAndroid.Lib.Loop

/-!
# `spatial_filtering.h`, for float images

`float_spatially_filter_image` and `float_spatially_filter_image_separable`, which slide a filter
over a level of the pyramid. Eight pixels are filtered at once as long as there are eight, with
three sums side by side, and the others one by one with a single sum. The results are not the same
when sums are rounded.

A `float` is an element of any `K` with the operations that are used, and `fl` rounds every result.
-/

set_option autoImplicit false

namespace DlibAndroid

open CCore

variable {K : Type}

/-- `matrix<float>` -/
structure Filter (K : Type) where
  nr : Nat
  nc : Nat
  coeff : Nat → Nat → K

/-! ## Where the loops go -/

/-- The values of `for (; c < last-7; c+=8)`, from `first`. -/
def blocks (first last : Int) : List Int :=
  (List.range ((last - first).toNat / 8)).map fun k : Nat => first + 8 * k

/-- The values of `for (; c < last; ++c)` after it. -/
def remaining (first last : Int) : List Int :=
  upTo (first + 8 * ((last - first).toNat / 8 : Nat)) (last - 1)

/-- Some rows of an image, each of them between two columns. -/
def sweep (rows : List Int) (first last : Int) (block pixel : Int → Int → Grid K → Exec (Grid K)) :
    Grid K → Exec (Grid K) :=
  forEach rows fun r out => do
    let out ← forEach (blocks first last) (block r) out
    forEach (remaining first last) (pixel r) out

/-- `get_rect(img)` -/
def getRect (img : Grid K) : Rectangle := ⟨0, 0, .ofInt (img.nc - 1), .ofInt (img.nr - 1)⟩

/-- `non_border`, for a filter of so many rows and columns. -/
def nonBorder (img : Grid K) (nr nc : Nat) : Rectangle where
  left := .ofInt (nc / 2 : Nat)
  top := .ofInt (nr / 2 : Nat)
  right := .ofInt (img.nc - ((nc - 1) / 2 : Nat) - 1)
  bottom := .ofInt (img.nr - ((nr - 1) / 2 : Nat) - 1)

/-! ## The border -/

section Border

variable [Zero K]

/-- `for (long c = first; c <= last; ++c) assign_pixel(img[r][c], 0);` -/
def zeroRow (first last r : Int) (img : Grid K) : Exec (Grid K) :=
  forEach (upTo first last) (fun c img => img.write r c 0) img

/-- `zero_border_pixels`. With nothing inside, `assign_all_pixels`. -/
def zeroBorderPixels (inside : Rectangle) (img : Grid K) : Exec (Grid K) :=
  let inside := inside.intersect (getRect img)
  let nr : Int := img.nr
  let nc : Int := img.nc
  if inside.isEmpty then forEach (upTo 0 (nr - 1)) (zeroRow 0 (nc - 1)) img
  else do
    let img ← forEach (upTo 0 (inside.top.toInt - 1)) (zeroRow 0 (nc - 1)) img
    let img ← forEach (upTo inside.top.toInt inside.bottom.toInt) (fun r img => do
      let img ← zeroRow 0 (inside.left.toInt - 1) r img
      zeroRow (inside.right.toInt + 1) (nc - 1) r img) img
    forEach (upTo (inside.bottom.toInt + 1) (nr - 1)) (zeroRow 0 (nc - 1)) img

/-- `if (!add_to) zero_border_pixels(out_img, non_border);` -/
def clearBorder (addTo : Bool) (area : Rectangle) (out : Grid K) : Exec (Grid K) :=
  if addTo = false then zeroBorderPixels area out else pure out

end Border

/-! ## Adding up -/

/-- `temp`, `temp2`, `temp3` -/
structure Temps (K : Type) where
  temp : Simd8f K
  temp2 : Simd8f K
  temp3 : Simd8f K

section Sums

variable [Add K] (fl : Rounding K)

/-- `temp += temp2+temp3;` -/
def Temps.total (t : Temps K) : Simd8f K := fun lane =>
  fl.single (t.temp lane + fl.single (t.temp2 lane + t.temp3 lane))

/-- What was summed up for eight pixels goes to the output, over what is there or added to it. -/
def saveBlock (addTo : Bool) (temp : Simd8f K) (r c : Int) (out : Grid K) : Exec (Grid K) :=
  if addTo = false then temp.store r c out
  else do
    let p ← Simd8f.load out r c
    let temp : Simd8f K := fun lane => fl.single (temp lane + p lane)
    temp.store r c out

/-- The same for one pixel. The old value comes first here. -/
def savePixel (addTo : Bool) (temp : K) (r c : Int) (out : Grid K) : Exec (Grid K) :=
  if addTo = false then out.write r c temp
  else do
    let p ← out.read r c
    out.write r c (fl.single (p + temp))

variable [Mul K]

/-- `temp += p*coeff;` -/
def addProduct (temp p coeff : K) : K := fl.single (temp + fl.single (p * coeff))

/-- A round of the unrolled loop: three coefficients, one for each of the three sums. -/
def Temps.addThree (load : Nat → Exec (Simd8f K)) (coeff : Nat → K) (n : Nat) (t : Temps K) :
    Exec (Temps K) := do
  let p ← load n
  let p2 ← load (n + 1)
  let p3 ← load (n + 2)
  pure ⟨fun lane => addProduct fl (t.temp lane) (p lane) (coeff n),
    fun lane => addProduct fl (t.temp2 lane) (p2 lane) (coeff (n + 1)),
    fun lane => addProduct fl (t.temp3 lane) (p3 lane) (coeff (n + 2))⟩

/-- One of the coefficients that are left, all of which go to the first sum. -/
def Temps.addOne (load : Nat → Exec (Simd8f K)) (coeff : Nat → K) (n : Nat) (t : Temps K) :
    Exec (Temps K) := do
  let p ← load n
  pure { t with temp := fun lane => addProduct fl (t.temp lane) (p lane) (coeff n) }

/-- The loop over `size` coefficients. -/
def unrolled (load : Nat → Exec (Simd8f K)) (coeff : Nat → K) (size : Nat) (t : Temps K) :
    Exec (Temps K) := do
  let t ← forEach (List.range (size / 3)) (fun k => Temps.addThree fl load coeff (3 * k)) t
  forEach (List.range (size % 3)) (fun k => Temps.addOne fl load coeff (3 * (size / 3) + k)) t

/-- The loop for one pixel, which is not unrolled. -/
def plain (load : Nat → Exec K) (coeff : Nat → K) (size : Nat) (temp : K) : Exec K :=
  forEach (List.range size) (fun n temp => do
    let p ← load n
    pure (addProduct fl temp p (coeff n))) temp

end Sums

/-! ## The two functions -/

section Functions

variable [Zero K] [Add K] [Mul K] (fl : Rounding K)

/-- Eight pixels of `float_spatially_filter_image`. -/
def filterBlock (img : Grid K) (filter : Filter K) (addTo : Bool) (r c : Int) (out : Grid K) :
    Exec (Grid K) := do
  let firstRow : Int := (filter.nr / 2 : Nat)
  let firstCol : Int := (filter.nc / 2 : Nat)
  let t ← forEach (List.range filter.nr) (fun m =>
    unrolled fl (fun n => Simd8f.load img (r - firstRow + m) (c - firstCol + n)) (filter.coeff m)
      filter.nc) ⟨0, 0, 0⟩
  saveBlock fl addTo (t.total fl) r c out

/-- A single pixel of `float_spatially_filter_image`, at the end of a row. -/
def filterPixel (img : Grid K) (filter : Filter K) (addTo : Bool) (r c : Int) (out : Grid K) :
    Exec (Grid K) := do
  let firstRow : Int := (filter.nr / 2 : Nat)
  let firstCol : Int := (filter.nc / 2 : Nat)
  let temp ← forEach (List.range filter.nr) (fun m =>
    plain fl (fun n => img.read (r - firstRow + m) (c - firstCol + n)) (filter.coeff m) filter.nc) 0
  savePixel fl addTo temp r c out

/-- `float_spatially_filter_image`. Returns the rectangle as well. -/
def floatSpatiallyFilterImage (garbage : Int → Int → K) (img : Grid K) (filter : Filter K)
    (addTo : Bool) (out : Grid K) : Exec (Grid K × Rectangle) :=
  if img.nr * img.nc = 0 then pure (out.setSize garbage 0 0, emptyRectangle)
  else do
    let out := out.setSize garbage img.nr img.nc
    let firstRow : Int := (filter.nr / 2 : Nat)
    let firstCol : Int := (filter.nc / 2 : Nat)
    let lastRow : Int := img.nr - ((filter.nr - 1) / 2 : Nat)
    let lastCol : Int := img.nc - ((filter.nc - 1) / 2 : Nat)
    let area := nonBorder img filter.nr filter.nc
    let out ← clearBorder addTo area out
    let out ← sweep (upTo firstRow (lastRow - 1)) firstCol lastCol (filterBlock fl img filter addTo)
      (filterPixel fl img filter addTo) out
    pure (out, area)

/-- Eight pixels of the row filter. -/
def rowBlock (img : Grid K) (rowFilter : List K) (r c : Int) (scratch : Grid K) :
    Exec (Grid K) := do
  let firstCol : Int := (rowFilter.length / 2 : Nat)
  let t ← unrolled fl (fun n => Simd8f.load img r (c - firstCol + n)) (rowFilter.getD · 0)
    rowFilter.length ⟨0, 0, 0⟩
  (t.total fl).store r c scratch

/-- A single pixel of the row filter. -/
def rowPixel (img : Grid K) (rowFilter : List K) (r c : Int) (scratch : Grid K) :
    Exec (Grid K) := do
  let firstCol : Int := (rowFilter.length / 2 : Nat)
  let temp ← plain fl (fun n => img.read r (c - firstCol + n)) (rowFilter.getD · 0)
    rowFilter.length 0
  scratch.write r c temp

/-- Eight pixels of the column filter. -/
def colBlock (scratch : Grid K) (colFilter : List K) (addTo : Bool) (r c : Int) (out : Grid K) :
    Exec (Grid K) := do
  let firstRow : Int := (colFilter.length / 2 : Nat)
  let t ← unrolled fl (fun m => Simd8f.load scratch (r - firstRow + m) c) (colFilter.getD · 0)
    colFilter.length ⟨0, 0, 0⟩
  saveBlock fl addTo (t.total fl) r c out

/-- A single pixel of the column filter. -/
def colPixel (scratch : Grid K) (colFilter : List K) (addTo : Bool) (r c : Int) (out : Grid K) :
    Exec (Grid K) := do
  let firstRow : Int := (colFilter.length / 2 : Nat)
  let temp ← plain fl (fun m => scratch.read (r - firstRow + m) c) (colFilter.getD · 0)
    colFilter.length 0
  savePixel fl addTo temp r c out

/-- `float_spatially_filter_image_separable`. Returns `scratch` as well. -/
def floatSpatiallyFilterImageSeparable (garbage : Int → Int → K) (img : Grid K)
    (rowFilter colFilter : List K) (addTo : Bool) (out scratch : Grid K) :
    Exec (Grid K × Rectangle × Grid K) :=
  if img.nr * img.nc = 0 then pure (out.setSize garbage 0 0, emptyRectangle, scratch)
  else do
    let out := out.setSize garbage img.nr img.nc
    let firstRow : Int := (colFilter.length / 2 : Nat)
    let firstCol : Int := (rowFilter.length / 2 : Nat)
    let lastRow : Int := img.nr - ((colFilter.length - 1) / 2 : Nat)
    let lastCol : Int := img.nc - ((rowFilter.length - 1) / 2 : Nat)
    let area := nonBorder img colFilter.length rowFilter.length
    let out ← clearBorder addTo area out
    let scratch := scratch.setSize garbage img.nr img.nc
    let scratch ← sweep (upTo 0 (img.nr - 1)) firstCol lastCol (rowBlock fl img rowFilter)
      (rowPixel fl img rowFilter) scratch
    let out ← sweep (upTo firstRow (lastRow - 1)) firstCol lastCol
      (colBlock fl scratch colFilter addTo) (colPixel fl scratch colFilter addTo) out
    pure (out, area, scratch)

end Functions

end DlibAndroid
