import DlibAndroid.Lib.Grid
import DlibAndroid.Lib.Loop
import DlibAndroid.Detector.Simd

/-!
# `resize_image`

Bilinear interpolation, for two images of `unsigned char`. Four columns are made at once until one
of them needs a pixel that the image does not have, and the rest one by one. The width of the image
that is written is not looked at in the first loop; whether it stays inside depends on how its
`float`s are rounded, and so does every pixel that is made.

The scales, the row and the single columns are `double`s, what is done four at a time is `float`,
and `fl` rounds every result to the one or the other. The place of a row and of a column is not
worked out from its number: it is the one before it and a step more, so that the rounding adds up
along the row.

The lemmas here are about the loops, for any rounding. What they ask for is what one round of a loop
does: that the pixels it needs are there, and that what it makes of them is what the new image is to
have (`f`), given what is known of the places by then (`I` and `J`, which are the invariants of the
two loops). What they give is the row (`simdColumns_run`, `resizeRow_run`), all rows
(`resizeRows_run`) and the image (`resizeImage_run`), with every pixel written and nothing else.
With what the rounds do is `ResizeSpec`, once for arithmetic that rounds nothing and once for images
of one size.
-/

set_option autoImplicit false

namespace DlibAndroid

open CCore

variable {K : Type}

section Definitions

variable [Field K] [LinearOrder K] [FloorRing K]

/-- `static_cast<unsigned char>(val)`, of a value that has one. -/
def toUChar (val : K) : Exec UInt8 :=
  if 0 ≤ truncate val ∧ truncate val ≤ 255 then .ok (.ofNat (truncate val).toNat)
  else .error .overflow

/-- `assign_pixel(dest, val)` -/
def assignPixel (val : K) : Exec UInt8 :=
  if val ≤ 255 then
    if 0 ≤ val then toUChar val else pure 0
  else pure 255

/-- A row of `out_img`: `top`, `bottom` and `tb_frac`. -/
structure Between (K : Type) where
  top : Int
  bottom : Int
  tbFrac : K

/-- `simd4f tl(img[r][cols[0]], img[r][cols[1]], img[r][cols[2]], img[r][cols[3]]);` -/
def gather (img : Grid UInt8) (r : Int) (cols : Fin 4 → Int) : Exec (Simd4f K) := do
  let pixels ← Simd4f.gather fun lane => img.read r (cols lane)
  pure fun lane => ((pixels lane).toNat : K)

/-- `out_img[r][c] = static_cast<T>(val);` -/
def storePixel (r : Int) (c : Nat) (val : K) (out : Grid UInt8) : Exec (Grid UInt8) := do
  let pixel ← toUChar val
  out.write r c pixel

variable (fl : Rounding K)

/-- `x_scale` and `y_scale` -/
def scale (inSize outSize : Nat) : K :=
  fl.double (fl.double ((inSize : Int) - 1 : Int) / fl.double (max ((outSize : Int) - 1) 1 : Int))

/-- The row at `y`. Below the last row there is no other. -/
def Between.of (img : Grid UInt8) (y : K) : Between K :=
  let top := ⌊y⌋
  ⟨top, min (top + 1) (img.nr - 1), fl.double (y - fl.double top)⟩

/-- `tlf*tl + trf*tr + blf*bl + brf*br` -/
def blend (row : Between K) (lrFrac tl tr bl br : Simd4f K) : Simd4f K := fun lane =>
  let tbFrac := fl.single row.tbFrac
  let invTbFrac := fl.single (fl.double (1 - row.tbFrac))
  let invLrFrac := fl.single (1 - lrFrac lane)
  let tlf := fl.single (invTbFrac * invLrFrac)
  let trf := fl.single (invTbFrac * lrFrac lane)
  let blf := fl.single (tbFrac * invLrFrac)
  let brf := fl.single (tbFrac * lrFrac lane)
  fl.single (fl.single (fl.single (fl.single (tlf * tl lane) + fl.single (trf * tr lane)) +
    fl.single (blf * bl lane)) + fl.single (brf * br lane))

/-- A round of the first loop, once the pixels it needs are known to be there. -/
def fourColumns (img : Grid UInt8) (row : Between K) (r : Int) (c : Nat) (x : Simd4f K)
    (left right : Fin 4 → Int) (out : Grid UInt8) : Exec (Grid UInt8) := do
  let tl ← gather img row.top left
  let tr ← gather img row.top right
  let bl ← gather img row.bottom left
  let br ← gather img row.bottom right
  let fout := blend fl row (fun lane => fl.single (x lane - fl.single (left lane))) tl tr bl br
  forEach (List.finRange 4) (fun lane => storePixel r (c + lane) (fout lane)) out

/-- `_x += _x_scale;` -/
def nextLanes (xScale : K) (x : Simd4f K) : Simd4f K := fun lane =>
  fl.single (x lane + fl.single (fl.double (4 * xScale)))

/-- `for (;; c+=4)`, and the column where it is left. -/
def simdColumns (img : Grid UInt8) (row : Between K) (xScale : K) (r : Int) :
    Nat → Nat → Simd4f K → Grid UInt8 → Exec (Option (Nat × Grid UInt8))
  | 0, _, _, _ => pure none
  | n + 1, c, x, out => do
    let x := nextLanes fl xScale x
    let left : Fin 4 → Int := fun lane => truncate (x lane)
    let right : Fin 4 → Int := fun lane => left lane + 1
    if (img.nc : Int) ≤ right (Fin.last 3) then pure (some (c, out))
    else do
      let out ← fourColumns fl img row r c x left right out
      simdColumns img row xScale r n (c + 4) x out

/-- `(1-tb_frac)*((1-lr_frac)*tl + lr_frac*tr) + tb_frac*((1-lr_frac)*bl + lr_frac*br)` -/
def blendOne (row : Between K) (lrFrac tl tr bl br : K) : K :=
  let top := fl.single (fl.single (fl.single (1 - lrFrac) * tl) + fl.single (lrFrac * tr))
  let bottom := fl.single (fl.single (fl.single (1 - lrFrac) * bl) + fl.single (lrFrac * br))
  fl.single (fl.double (fl.double (fl.double (1 - row.tbFrac) * top) +
    fl.double (row.tbFrac * bottom)))

/-- A round of the second loop makes one column. `x` goes with the image. -/
def oneColumn (img : Grid UInt8) (row : Between K) (xScale : K) (r : Int) (c : Nat)
    (s : K × Grid UInt8) : Exec (K × Grid UInt8) := do
  let x := fl.double (s.1 + xScale)
  let left := ⌊x⌋
  let right := min (left + 1) ((img.nc : Int) - 1)
  let lrFrac := fl.single (fl.double (x - fl.double left))
  let tl ← img.read row.top left
  let tr ← img.read row.top right
  let bl ← img.read row.bottom left
  let br ← img.read row.bottom right
  let pixel ← assignPixel (blendOne fl row lrFrac tl.toNat tr.toNat bl.toNat br.toNat)
  let out ← s.2.write r c pixel
  pure (x, out)

/-- `simd4f _x(x, x+x_scale, x+2*x_scale, x+3*x_scale);` -/
def firstLanes (xScale : K) : Simd4f K := fun lane =>
  let x := fl.double (-4 * xScale)
  fl.single (fl.double (x + fl.double (lane.val * xScale)))

/-- A row is made in two loops. `y` goes with the image. -/
def resizeRow (n : Nat) (img : Grid UInt8) (xScale yScale : K) (r : Nat) (s : K × Grid UInt8) :
    Exec (Option (K × Grid UInt8)) :=
  let y := fl.double (s.1 + yScale)
  let row := Between.of fl img y
  thenRun (simdColumns fl img row xScale r n 0 (firstLanes fl xScale) s.2) fun done => do
    let s ← forEach ((List.range done.2.nc).drop done.1) (oneColumn fl img row xScale r)
      (fl.double (-xScale + fl.double (done.1 * xScale)), done.2)
    pure (some (y, s.2))

/-- `resize_image`, going round so often in a row at most. -/
def resizeImage (n : Nat) (img out : Grid UInt8) : Exec (Option (Grid UInt8)) :=
  if out.nr * out.nc = 0 ∨ img.nr * img.nc = 0 then pure (some out)
  else
    let xScale := scale fl img.nc out.nc
    let yScale := scale fl img.nr out.nr
    thenRun (forEach (List.range out.nr)
      (fun r s => thenRun (pure s) (resizeRow fl n img xScale yScale r)) (some (-yScale, out)))
      fun s => pure (some s.2)

end Definitions

/-! ## What is written -/

/-- The first `c` columns of a row, which are done when the loop gets to column `c`. -/
def done (r : Int) (c : Nat) : Int → Int → Bool := fun r' c' => r' = r ∧ 0 ≤ c' ∧ c' < c

/-- The first `r` rows. -/
def above (nc r : Nat) : Int → Int → Bool := fun r' c' => (0 ≤ r' ∧ r' < r) ∧ 0 ≤ c' ∧ c' < nc

section Written

variable {out : Grid UInt8} {f : Int → Int → UInt8} {r : Int} {c nc : Nat}

/-- The image when some of its pixels are made and the others are as they were. -/
def made (out : Grid UInt8) (R : Int → Int → Bool) (f : Int → Int → UInt8) : Grid UInt8 :=
  out.paint R fun r c _ => f r c

/-- Writing the next pixel of the row makes one column more. -/
theorem write_next (hr : 0 ≤ r ∧ r < out.nr) (hc : c < out.nc) :
    (made out (done r c) f).write r c (f r c) = .ok (made out (done r (c + 1)) f) := by
  have hin : (made out (done r c) f).InRange r c := ⟨hr, by omega, by exact_mod_cast hc⟩
  rw [Grid.write_of_inRange hin]
  refine congrArg Except.ok (Grid.ext rfl rfl (funext fun r' => funext fun c' => ?_))
  simp only [made, Grid.paint_cell, done, decide_eq_true_eq]
  by_cases hcell : r' = r ∧ c' = c
  · obtain ⟨rfl, rfl⟩ := hcell
    rw [if_pos ⟨rfl, rfl⟩, if_pos ⟨rfl, by omega, by omega⟩]
  · rw [if_neg hcell]
    refine if_congr ?_ rfl rfl
    omega

theorem made_none {R : Int → Int → Bool} (h : ∀ r c, R r c = false) : made out R f = out :=
  Grid.paint_none h

theorem above_next (r : Nat) :
    made (made out (above nc r) f) (done r nc) f = made out (above nc (r + 1)) f := by
  rw [made, made, made, Grid.paint_paint]
  · refine Grid.paint_region fun r' c' => ?_
    simp only [above, done, Bool.or_eq_true, decide_eq_true_eq]
    omega
  · intro r' c' h
    simp only [above, done, decide_eq_true_eq, decide_eq_false_iff_not] at h ⊢
    omega

/-- When all rows are made, so is every pixel. -/
theorem made_cell {c : Int} (h : out.InRange r c) :
    (made out (above out.nc out.nr) f).cell r c = f r c := by
  have habove : above out.nc out.nr r c = true := decide_eq_true h
  rw [made, Grid.paint_cell, if_pos habove]

theorem gather_eq [Field K] {img : Grid UInt8} {cols : Fin 4 → Int} {i : Int}
    (hi : 0 ≤ i ∧ i < img.nr) (hcols : ∀ lane, 0 ≤ cols lane ∧ cols lane < img.nc) :
    gather (K := K) img i cols = .ok fun lane => ((img.cell i (cols lane)).toNat : K) := by
  rw [gather, Simd4f.gather_eq fun lane => Grid.read_of_inRange ⟨hi, hcols lane⟩, ok_bind]
  rfl

end Written

/-! ## The loops -/

section Loops

variable [Field K] [LinearOrder K] [FloorRing K] {fl : Rounding K}
variable {img out : Grid UInt8} {f : Int → Int → UInt8} {r : Int} {c n : Nat} {xScale yScale : K}
variable {row : Between K}

/-- A pixel of four is stored like any other. -/
theorem storePixel_next {val : K} (hr : 0 ≤ r ∧ r < out.nr) (hc : c < out.nc)
    (hval : toUChar val = .ok (f r c)) :
    storePixel r c val (made out (done r c) f) = .ok (made out (done r (c + 1)) f) := by
  rw [storePixel, hval, ok_bind, write_next hr hc]

theorem storeFour_eq {fout : Simd4f K} (hr : 0 ≤ r ∧ r < out.nr) (hc : c + 3 < out.nc)
    (hfout : ∀ lane : Fin 4, toUChar (fout lane) = .ok (f r (c + lane.val : Nat))) :
    forEach (List.finRange 4) (fun lane => storePixel r (c + lane) (fout lane))
        (made out (done r c) f) = .ok (made out (done r (c + 4)) f) := by
  have hstore₀ := storePixel_next (c := c) hr (by omega) (hfout 0)
  have hstore₁ := storePixel_next (c := c + 1) hr (by omega) (hfout 1)
  have hstore₂ := storePixel_next (c := c + 2) hr (by omega) (hfout 2)
  have hstore₃ := storePixel_next (c := c + 3) hr (by omega) (hfout 3)
  have hlanes : List.finRange 4 = [0, 1, 2, 3] := rfl
  rw [hlanes]
  change (storePixel r c (fout 0) _ >>= fun out => storePixel r (c + 1) (fout 1) out >>= fun out =>
    storePixel r (c + 2) (fout 2) out >>= fun out => storePixel r (c + 3) (fout 3) out >>= .ok) = _
  rw [hstore₀, ok_bind, hstore₁, ok_bind, hstore₂, ok_bind, hstore₃, ok_bind]

/-- Four columns are made, when they need pixels that are there and these give what they should. -/
theorem fourColumns_run {x : Simd4f K} {left : Fin 4 → Int} (hr : 0 ≤ r ∧ r < out.nr)
    (hc : c + 3 < out.nc) (htop : 0 ≤ row.top ∧ row.top < img.nr)
    (hbottom : 0 ≤ row.bottom ∧ row.bottom < img.nr)
    (hleft : ∀ lane, 0 ≤ left lane ∧ left lane + 1 < img.nc)
    (hvalue : ∀ lane : Fin 4, toUChar (blend fl row
      (fun lane => fl.single (x lane - fl.single (left lane)))
      (fun lane => ((img.cell row.top (left lane)).toNat : K))
      (fun lane => ((img.cell row.top (left lane + 1)).toNat : K))
      (fun lane => ((img.cell row.bottom (left lane)).toNat : K))
      (fun lane => ((img.cell row.bottom (left lane + 1)).toNat : K)) lane) =
        .ok (f r (c + lane.val : Nat))) :
    fourColumns fl img row r c x left (fun lane => left lane + 1) (made out (done r c) f) =
      .ok (made out (done r (c + 4)) f) := by
  have hleft' : ∀ lane, 0 ≤ left lane ∧ left lane < img.nc := fun lane => by
    have := hleft lane
    omega
  have hright : ∀ lane, 0 ≤ left lane + 1 ∧ left lane + 1 < img.nc := fun lane => by
    have := hleft lane
    omega
  rw [fourColumns, gather_eq htop hleft', ok_bind, gather_eq htop hright, ok_bind,
    gather_eq hbottom hleft', ok_bind, gather_eq hbottom hright, ok_bind]
  exact storeFour_eq hr hc hvalue

/-- **The loop over four columns ends**, and what is left of the row is up to the other loop. `I` is
what is known of the lanes. -/
theorem simdColumns_run (I : Nat → Simd4f K → Prop)
    (hstep : ∀ c x, c ≤ out.nc → I c x →
      truncate (nextLanes fl xScale x (Fin.last 3)) + 1 < img.nc →
        c + 4 ≤ out.nc ∧ I (c + 4) (nextLanes fl xScale x) ∧
        fourColumns fl img row r c (nextLanes fl xScale x)
          (fun lane => truncate (nextLanes fl xScale x lane))
          (fun lane => truncate (nextLanes fl xScale x lane) + 1) (made out (done r c) f) =
            .ok (made out (done r (c + 4)) f))
    {x : Simd4f K} (hc : c ≤ out.nc) (hn : out.nc < 4 * n + c) (hI : I c x) :
    ∃ c', c' ≤ out.nc ∧ simdColumns fl img row xScale r n c x (made out (done r c) f) =
      .ok (some (c', made out (done r c') f)) := by
  induction n generalizing c x with
  | zero => omega
  | succ n ih =>
    rw [simdColumns]
    -- the fourth column is the first to run out of pixels
    by_cases hbreak : (img.nc : Int) ≤ truncate (nextLanes fl xScale x (Fin.last 3)) + 1
    · exact ⟨c, hc, if_pos hbreak⟩
    · obtain ⟨hc', hI', hrun⟩ := hstep c x hc hI (not_le.mp hbreak)
      obtain ⟨c', hle, hrest⟩ := ih hc' (by omega) hI'
      refine ⟨c', hle, (if_neg hbreak).trans ?_⟩
      rw [hrun, ok_bind]
      exact hrest

/-- A whole row is made, its columns four at a time and then one by one. `J` is what is known of
`x`. -/
theorem resizeRow_run {r : Nat} {y : K} (I : Nat → Simd4f K → Prop) (J : Nat → K → Prop)
    (hn : out.nc < 4 * n) (hI : I 0 (firstLanes fl xScale))
    (hJ : ∀ c, c ≤ out.nc → J c (fl.double (-xScale + fl.double (c * xScale))))
    (hfour : ∀ c x, c ≤ out.nc → I c x →
      truncate (nextLanes fl xScale x (Fin.last 3)) + 1 < img.nc →
        c + 4 ≤ out.nc ∧ I (c + 4) (nextLanes fl xScale x) ∧
        fourColumns fl img (.of fl img (fl.double (y + yScale))) r c (nextLanes fl xScale x)
          (fun lane => truncate (nextLanes fl xScale x lane))
          (fun lane => truncate (nextLanes fl xScale x lane) + 1) (made out (done r c) f) =
            .ok (made out (done r (c + 4)) f))
    (hone : ∀ c x, c < out.nc → J c x → ∃ x', J (c + 1) x' ∧
      oneColumn fl img (.of fl img (fl.double (y + yScale))) xScale r c
        (x, made out (done r c) f) = .ok (x', made out (done r (c + 1)) f)) :
    resizeRow fl n img xScale yScale r (y, out) =
      .ok (some (fl.double (y + yScale), made out (done r out.nc) f)) := by
  have hnone : made out (done r 0) f = out := made_none fun r' c' => by
    simp only [done, decide_eq_false_iff_not]
    omega
  obtain ⟨c', hc', hrun⟩ := simdColumns_run I hfour (Nat.zero_le _) (by omega) hI
  rw [hnone] at hrun
  -- the columns that are left
  have hstep : ∀ c, c' ≤ c → c < out.nc → ∀ s : K × Grid UInt8,
      (J c s.1 ∧ s.2 = made out (done r c) f) →
      ∃ t, oneColumn fl img (.of fl img (fl.double (y + yScale))) xScale r c s = .ok t ∧
        J (c + 1) t.1 ∧ t.2 = made out (done r (c + 1)) f := by
    rintro c _ hc ⟨x, s⟩ ⟨hx, rfl⟩
    obtain ⟨x', hx', hcolumn⟩ := hone c x hc hx
    exact ⟨_, hcolumn, hx', rfl⟩
  obtain ⟨t, hrest, -, ht⟩ := forEach_range_drop hc' _ hstep
    (s := (fl.double (-xScale + fl.double (c' * xScale)), made out (done r c') f)) ⟨hJ c' hc', rfl⟩
  rw [resizeRow, thenRun_some hrun]
  change (forEach ((List.range out.nc).drop c') _ _ >>= _) = _
  rw [hrest, ok_bind, ht]
  rfl

/-- All rows are made, one after the other. `I` is what is known of `y`. -/
theorem resizeRows_run (I : Nat → K → Prop) (hfirst : I 0 (-yScale))
    (hrow : ∀ r y, r < out.nr → I r y → ∀ out' : Grid UInt8, out'.nr = out.nr → out'.nc = out.nc →
      I (r + 1) (fl.double (y + yScale)) ∧ resizeRow fl n img xScale yScale r (y, out') =
        .ok (some (fl.double (y + yScale), made out' (done r out'.nc) f))) :
    ∃ y, forEach (List.range out.nr)
        (fun r s => thenRun (pure s) (resizeRow fl n img xScale yScale r)) (some (-yScale, out)) =
      .ok (some (y, made out (above out.nc out.nr) f)) := by
  have hstep : ∀ r, r < out.nr → ∀ s : Option (K × Grid UInt8),
      (∃ y, I r y ∧ s = some (y, made out (above out.nc r) f)) →
      ∃ t, thenRun (pure s) (resizeRow fl n img xScale yScale r) = .ok t ∧
        ∃ y, I (r + 1) y ∧ t = some (y, made out (above out.nc (r + 1)) f) := by
    rintro r hr s ⟨y, hy, rfl⟩
    obtain ⟨hnext, hrun⟩ := hrow r y hr hy (made out (above out.nc r) f) rfl rfl
    refine ⟨_, hrun, _, hnext, ?_⟩
    rw [← above_next]
    rfl
  have hzero : made out (above out.nc 0) f = out := made_none fun r' c' => by
    simp only [above, decide_eq_false_iff_not]
    omega
  obtain ⟨t, hrun, y, -, rfl⟩ := forEach_range _ hstep ⟨-yScale, hfirst, by rw [hzero]⟩
  exact ⟨y, hrun⟩

/-- The whole image is made, if there is a pixel on either side. -/
theorem resizeImage_run (I : Nat → K → Prop) (hout : out.nr * out.nc ≠ 0)
    (himg : img.nr * img.nc ≠ 0)
    (hfirst : I 0 (-scale fl img.nr out.nr))
    (hrow : ∀ r y, r < out.nr → I r y → ∀ out' : Grid UInt8, out'.nr = out.nr → out'.nc = out.nc →
      I (r + 1) (fl.double (y + scale fl img.nr out.nr)) ∧
        resizeRow fl n img (scale fl img.nc out.nc) (scale fl img.nr out.nr) r (y, out') =
          .ok (some (fl.double (y + scale fl img.nr out.nr), made out' (done r out'.nc) f))) :
    resizeImage fl n img out = .ok (some (made out (above out.nc out.nr) f)) := by
  obtain ⟨y, hrun⟩ := resizeRows_run I hfirst hrow
  rw [resizeImage, if_neg (not_or.mpr ⟨hout, himg⟩)]
  simp only
  rw [thenRun_some hrun]
  rfl

end Loops

end DlibAndroid
