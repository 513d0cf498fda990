import DlibAndroid.Detector.Filtering
import Mathlib.Algebra.BigOperators.Pi
import Mathlib.Algebra.BigOperators.Ring.Finset
import Mathlib.Tactic.Ring

/-!
# What filtering an image comes to

No access leaves its row, whatever the sizes are, and every pixel of the area gets the sum of the
pixels below the filter, each times its coefficient, while the border gets zero or what there was. A
pixel on its own is summed up in another order than one in a block of eight, where three sums are
kept and added in the end; `weighted` says which products are added in which order, and `calculated`
and `calculatedSeparable` what that gives for a pixel of the image. With these, both functions are
known for any rounding (`filter_eq`, `separable_eq`).

In exact arithmetic the order does not matter (`weighted_exact`). Then a filter gives the sum that
`correlate` is, and a row filter and a column filter come to the filter that is their product
(`filters_agree`).
-/

set_option autoImplicit false

namespace DlibAndroid

open CCore Finset

variable {K : Type}

/-! ## What the loops come to -/

section Loops

variable {first last r c : Int} {img out : Grid K}

theorem nodup_blocks (first last : Int) : (blocks first last).Nodup :=
  List.Nodup.map (fun a b h => by simpa using h) List.nodup_range

theorem mem_blocks : c ∈ blocks first last ↔ first ≤ c ∧ c < last - 7 ∧ (c - first) % 8 = 0 := by
  rw [blocks, List.mem_map]
  constructor
  · rintro ⟨k, hk, rfl⟩
    rw [List.mem_range] at hk
    omega
  · rintro ⟨hfirst, hlast, hmod⟩
    exact ⟨((c - first) / 8).toNat, List.mem_range.mpr (by omega), by omega⟩

section Row

variable {nr nc : Nat} {f : Int → Int → K → K} {body : Int → Grid K → Exec (Grid K)}

theorem blocks_paint (hbody : ∀ c ∈ blocks first last, ∀ out : Grid K,
      out.nr = nr → out.nc = nc →
        body c out = .ok (out.paint (fun r' c' => r' = r ∧ c ≤ c' ∧ c' ≤ c + 7) f))
    (hnr : out.nr = nr) (hnc : out.nc = nc) :
    forEach (blocks first last) body out = .ok (out.paint
      (fun r' c => r' = r ∧ first ≤ c ∧ c < first + 8 * ((last - first).toNat / 8 : Nat)) f) := by
  let R : Int → Int → Int → Bool := fun c r' c' => r' = r ∧ c ≤ c' ∧ c' ≤ c + 7
  rw [Grid.forEach_paint (R := R) (fun _ c' => first + 8 * ((c' - first) / 8)) ?_
    (nodup_blocks first last) ?_ hnr hnc]
  · refine congrArg Except.ok (Grid.paint_region fun r' c' => ?_)
    simp only [R, decide_eq_true_eq, mem_blocks]
    omega
  · intro c hc r' c' hR
    simp only [R, decide_eq_true_eq] at hR
    have hmod := (mem_blocks.mp hc).2.2
    omega
  · exact hbody

/-- A loop over columns paints the columns it goes through. -/
theorem upTo_paint (hbody : ∀ c, first ≤ c → c ≤ last → ∀ out : Grid K,
      out.nr = nr → out.nc = nc → body c out = .ok (out.paint (fun r' c' => r' = r ∧ c' = c) f))
    (hnr : out.nr = nr) (hnc : out.nc = nc) :
    forEach (upTo first last) body out =
      .ok (out.paint (fun r' c => r' = r ∧ first ≤ c ∧ c ≤ last) f) := by
  let R : Int → Int → Int → Bool := fun c r' c' => r' = r ∧ c' = c
  rw [Grid.forEach_paint (R := R) (fun _ c' => c') ?_ (nodup_upTo _ _) ?_ hnr hnc]
  · refine congrArg Except.ok (Grid.paint_region fun r' c' => ?_)
    simp [R, mem_upTo, and_comm]
  · intro c hc r' c' hR
    simp only [R, decide_eq_true_eq] at hR
    exact hR.2
  · intro c hc out
    obtain ⟨hfirst, hlast⟩ := mem_upTo.mp hc
    exact hbody c hfirst hlast out

/-- A loop over rows paints the rows it goes through, if each of them paints the same columns. -/
theorem rows_paint {C : Int → Bool} {top bottom : Int} (hbody : ∀ r, top ≤ r → r ≤ bottom →
      ∀ out : Grid K, out.nr = nr → out.nc = nc →
        body r out = .ok (out.paint (fun r' c => r' = r ∧ C c = true) f))
    (hnr : out.nr = nr) (hnc : out.nc = nc) :
    forEach (upTo top bottom) body out =
      .ok (out.paint (fun r c => (top ≤ r ∧ r ≤ bottom) ∧ C c = true) f) := by
  let R : Int → Int → Int → Bool := fun r r' c => r' = r ∧ C c = true
  rw [Grid.forEach_paint (R := R) (fun r' _ => r') ?_ (nodup_upTo _ _) ?_ hnr hnc]
  · refine congrArg Except.ok (Grid.paint_region fun r' c' => ?_)
    simp [R, mem_upTo]
  · intro r hr r' c' hR
    simp only [R, decide_eq_true_eq] at hR
    exact hR.1
  · intro r hr out
    obtain ⟨htop, hbottom⟩ := mem_upTo.mp hr
    exact hbody r htop hbottom out

end Row

/-- **A sweep paints the rows between the two columns**, if the blocks and the pixels do their
parts. -/
theorem sweep_paint {nr nc : Nat} {f : Int → Int → K → K} {top bottom : Int}
    {block pixel : Int → Int → Grid K → Exec (Grid K)}
    (hblock : ∀ r, top ≤ r → r ≤ bottom → ∀ c ∈ blocks first last, ∀ out : Grid K,
      out.nr = nr → out.nc = nc →
        block r c out = .ok (out.paint (fun r' c' => r' = r ∧ c ≤ c' ∧ c' ≤ c + 7) f))
    (hpixel : ∀ r, top ≤ r → r ≤ bottom → ∀ c ∈ remaining first last, ∀ out : Grid K,
      out.nr = nr → out.nc = nc →
        pixel r c out = .ok (out.paint (fun r' c' => r' = r ∧ c' = c) f))
    (hnr : out.nr = nr) (hnc : out.nc = nc) :
    sweep (upTo top bottom) first last block pixel out =
      .ok (out.paint (fun r c => (top ≤ r ∧ r ≤ bottom) ∧ first ≤ c ∧ c < last) f) := by
  rw [sweep, rows_paint (f := f) (C := fun c => first ≤ c ∧ c < last) ?_ hnr hnc]
  · simp only [decide_eq_true_eq]
  · intro r htop hbottom out hnr hnc
    let c₀ : Int := first + 8 * ((last - first).toNat / 8 : Nat)
    have hrest : ∀ out : Grid K, out.nr = nr → out.nc = nc →
        forEach (remaining first last) (pixel r) out =
          .ok (out.paint (fun r' c => r' = r ∧ c₀ ≤ c ∧ c ≤ last - 1) f) := fun out =>
      upTo_paint fun c hfirst hlast => hpixel r htop hbottom c (mem_upTo.mpr ⟨hfirst, hlast⟩)
    rw [blocks_paint (hblock r htop hbottom) hnr hnc, ok_bind,
      hrest (out.paint _ f) hnr hnc, Grid.paint_paint]
    · refine congrArg Except.ok (Grid.paint_region fun r' c' => ?_)
      simp only [decide_eq_true_eq, Bool.or_eq_true]
      omega
    · intro r' c' hR
      simp only [decide_eq_true_eq, decide_eq_false_iff_not] at hR ⊢
      omega

end Loops

/-! ## The border in one piece -/

section Border

variable [Zero K] {img out : Grid K} {nr nc : Nat} {first last r : Int}

theorem zeroRow_paint (h : ∀ c, first ≤ c → c ≤ last → img.InRange r c) :
    zeroRow first last r img =
      .ok (img.paint (fun r' c => r' = r ∧ first ≤ c ∧ c ≤ last) fun _ _ _ => 0) := by
  refine upTo_paint (fun c hfirst hlast out hnr hnc => ?_) rfl rfl
  exact Grid.write_of_inRange ((Grid.inRange_congr hnr hnc).mpr (h c hfirst hlast))

/-- Whole rows are set to zero. -/
theorem zeroRows_paint {top bottom : Int} (img : Grid K) (hnr : img.nr = nr) (hnc : img.nc = nc)
    (htop : 0 ≤ top) (hbottom : bottom < nr) :
    forEach (upTo top bottom) (zeroRow 0 (nc - 1)) img =
      .ok (img.paint (fun r c => (top ≤ r ∧ r ≤ bottom) ∧ 0 ≤ c ∧ c ≤ (nc : Int) - 1)
        fun _ _ _ => 0) := by
  rw [rows_paint (f := fun _ _ _ => 0) (C := fun c => 0 ≤ c ∧ c ≤ (nc : Int) - 1) ?_ hnr hnc]
  · simp only [decide_eq_true_eq]
  · intro r hr hr' out hnr hnc
    rw [zeroRow_paint]
    · simp only [decide_eq_true_eq]
    · intro c hc hc'
      rw [Grid.InRange, hnr, hnc]
      omega

/-- Rows are set to zero, but for a part in the middle. -/
theorem zeroSides_paint {top bottom left right : Int} (img : Grid K) (hnr : img.nr = nr)
    (hnc : img.nc = nc) (htop : 0 ≤ top) (hbottom : bottom < nr) (hleft : 0 ≤ left)
    (hright : right < nc) (hle : left ≤ right) :
    forEach (upTo top bottom) (fun r img => do
        let img ← zeroRow 0 (left - 1) r img
        zeroRow (right + 1) (nc - 1) r img) img =
      .ok (img.paint (fun r c => (top ≤ r ∧ r ≤ bottom) ∧
        ((0 ≤ c ∧ c < left) ∨ (right < c ∧ c < nc))) fun _ _ _ => 0) := by
  let C : Int → Bool := fun c => (0 ≤ c ∧ c < left) ∨ (right < c ∧ c < nc)
  rw [rows_paint (f := fun _ _ _ => 0) (C := C) ?_ hnr hnc]
  · simp only [C, decide_eq_true_eq]
  · intro r hr hr' out hnr hnc
    have hrange : ∀ c : Int, 0 ≤ c → c < nc → out.InRange r c := fun c hc hc' => by
      rw [Grid.InRange, hnr, hnc]
      omega
    have hlast : ∀ out' : Grid K, out'.nr = out.nr → out'.nc = out.nc →
        zeroRow (right + 1) (nc - 1) r out' = .ok (out'.paint
          (fun r' c => r' = r ∧ right + 1 ≤ c ∧ c ≤ (nc : Int) - 1) fun _ _ _ => 0) :=
      fun out' hnr hnc => zeroRow_paint fun c hc hc' =>
        (Grid.inRange_congr hnr hnc).mpr (hrange c (by omega) (by omega))
    rw [zeroRow_paint fun c hc hc' => hrange c hc (by omega), ok_bind,
      hlast (out.paint _ _) rfl rfl, Grid.paint_paint]
    · refine congrArg Except.ok (Grid.paint_region fun r' c => ?_)
      simp only [C, Bool.or_eq_true, decide_eq_true_eq]
      omega
    · intro r' c h
      simp only [decide_eq_true_eq, decide_eq_false_iff_not] at h ⊢
      omega

theorem toInt_size {n : Nat} (h : n < 2 ^ 31) : (Int32.ofInt ((n : Int) - 1)).toInt = n - 1 :=
  Int32.toInt_ofInt_of_le (by omega) (by omega)

/-- The rows above, the sides, and the rows below. -/
theorem zeroAround_paint {top bottom left right : Int} (img : Grid K) (htop : 0 ≤ top)
    (hrows : top ≤ bottom) (hbottom : bottom < img.nr) (hleft : 0 ≤ left) (hcols : left ≤ right)
    (hright : right < img.nc) :
    (forEach (upTo 0 (top - 1)) (zeroRow 0 (img.nc - 1)) img >>= fun img' =>
      forEach (upTo top bottom) (fun r img' => do
        let img' ← zeroRow 0 (left - 1) r img'
        zeroRow (right + 1) (img.nc - 1) r img') img' >>= fun img' =>
      forEach (upTo (bottom + 1) (img.nr - 1)) (zeroRow 0 (img.nc - 1)) img') =
    .ok (img.paint (fun r c => img.InRange r c ∧ ¬ ((top ≤ r ∧ r ≤ bottom) ∧ left ≤ c ∧ c ≤ right))
      fun _ _ _ => 0) := by
  have hsides : ∀ img' : Grid K, img'.nr = img.nr → img'.nc = img.nc →
      forEach (upTo top bottom) (fun r img' => do
        let img' ← zeroRow 0 (left - 1) r img'
        zeroRow (right + 1) (img.nc - 1) r img') img' =
      .ok (img'.paint (fun r c => (top ≤ r ∧ r ≤ bottom) ∧
        ((0 ≤ c ∧ c < left) ∨ (right < c ∧ c < img.nc))) fun _ _ _ => 0) :=
    fun img' hnr hnc => zeroSides_paint img' hnr hnc htop hbottom hleft hright hcols
  have hbelow : ∀ img' : Grid K, img'.nr = img.nr → img'.nc = img.nc →
      forEach (upTo (bottom + 1) (img.nr - 1)) (zeroRow 0 (img.nc - 1)) img' =
      .ok (img'.paint (fun r c => (bottom + 1 ≤ r ∧ r ≤ (img.nr : Int) - 1) ∧
        0 ≤ c ∧ c ≤ (img.nc : Int) - 1) fun _ _ _ => 0) :=
    fun img' hnr hnc => zeroRows_paint img' hnr hnc (by omega) (by omega)
  rw [zeroRows_paint img rfl rfl le_rfl (by omega), ok_bind, hsides (img.paint _ _) rfl rfl,
    ok_bind,
    hbelow ((img.paint _ _).paint _ _) rfl rfl, Grid.paint_paint, Grid.paint_paint]
  · refine congrArg Except.ok (Grid.paint_region fun r c => ?_)
    rw [decide_eq_true_iff, Grid.InRange]
    simp only [Bool.or_eq_true, decide_eq_true_eq]
    omega
  · intro r c hR
    simp only [decide_eq_true_eq, Bool.or_eq_false_iff, decide_eq_false_iff_not] at hR ⊢
    omega
  · intro r c hR
    simp only [decide_eq_true_eq, decide_eq_false_iff_not] at hR ⊢
    omega

/-- **`zero_border_pixels`** sets what is not inside to zero, and nothing else. -/
theorem zeroBorderPixels_paint (inside : Rectangle) (hnr : img.nr < 2 ^ 31)
    (hnc : img.nc < 2 ^ 31) :
    zeroBorderPixels inside img =
      .ok (img.paint (fun r c => img.InRange r c ∧ ¬ inside.Contains r c) fun _ _ _ => 0) := by
  have htop : (inside.intersect (getRect img)).top.toInt = max inside.top.toInt 0 :=
    Rectangle.toInt_ofInt_max _ _
  have hleft : (inside.intersect (getRect img)).left.toInt = max inside.left.toInt 0 :=
    Rectangle.toInt_ofInt_max _ _
  have hbottom : (inside.intersect (getRect img)).bottom.toInt =
      min inside.bottom.toInt (img.nr - 1) :=
    (Rectangle.toInt_ofInt_min _ _).trans (congrArg _ (toInt_size hnr))
  have hright : (inside.intersect (getRect img)).right.toInt =
      min inside.right.toInt (img.nc - 1) :=
    (Rectangle.toInt_ofInt_min _ _).trans (congrArg _ (toInt_size hnc))
  have hempty := Rectangle.isEmpty_eq_true (a := inside.intersect (getRect img))
  rw [htop, hleft, hbottom, hright] at hempty
  rw [zeroBorderPixels]
  simp only [htop, hleft, hbottom, hright]
  split
  · rename_i h
    rw [zeroRows_paint img rfl rfl le_rfl (by omega)]
    refine congrArg Except.ok (Grid.paint_region fun r c => ?_)
    rw [decide_eq_true_iff, decide_eq_true_iff, Grid.InRange, Rectangle.Contains]
    have := hempty.mp h
    omega
  · rename_i h
    have hnonempty := mt hempty.mpr h
    rw [zeroAround_paint img (by omega) (by omega) (by omega) (by omega) (by omega) (by omega)]
    refine congrArg Except.ok (Grid.paint_region fun r c => ?_)
    rw [decide_eq_true_iff, decide_eq_true_iff, Grid.InRange, Rectangle.Contains]
    omega

end Border

/-! ## The area -/

/-- The dimensions of something are `long`s. -/
def AreLongs (nr nc : Nat) : Prop := nr < 2 ^ 31 ∧ nc < 2 ^ 31

instance (nr nc : Nat) : Decidable (AreLongs nr nc) := inferInstanceAs (Decidable (_ ∧ _))

theorem nonBorder_contains {img : Grid K} {r c : Int} {nr nc : Nat} (himg : AreLongs img.nr img.nc)
    (hfilter : AreLongs nr nc) :
    (nonBorder img nr nc).Contains r c ↔
      (((nr / 2 : Nat) : Int) ≤ r ∧ r ≤ img.nr - ((nr - 1) / 2 : Nat) - 1) ∧
        ((nc / 2 : Nat) : Int) ≤ c ∧ c < img.nc - ((nc - 1) / 2 : Nat) := by
  obtain ⟨hnr, hnc⟩ := himg
  obtain ⟨hnr', hnc'⟩ := hfilter
  have htop : (nonBorder img nr nc).top.toInt = (nr / 2 : Nat) :=
    Int32.toInt_ofInt_of_le (by omega) (by omega)
  have hleft : (nonBorder img nr nc).left.toInt = (nc / 2 : Nat) :=
    Int32.toInt_ofInt_of_le (by omega) (by omega)
  have hbottom : (nonBorder img nr nc).bottom.toInt = img.nr - ((nr - 1) / 2 : Nat) - 1 :=
    Int32.toInt_ofInt_of_le (by omega) (by omega)
  have hright : (nonBorder img nr nc).right.toInt = img.nc - ((nc - 1) / 2 : Nat) - 1 :=
    Int32.toInt_ofInt_of_le (by omega) (by omega)
  rw [Rectangle.Contains, htop, hleft, hbottom, hright]
  omega

/-- The area is part of the image. -/
theorem inRange_of_nonBorder {img : Grid K} {r c : Int} {nr nc : Nat}
    (himg : AreLongs img.nr img.nc) (hfilter : AreLongs nr nc)
    (h : (nonBorder img nr nc).Contains r c) : img.InRange r c := by
  rw [nonBorder_contains himg hfilter] at h
  rw [Grid.InRange]
  omega

/-- A sweep over the area paints the area. -/
theorem sweep_area {img out : Grid K} {nr nc : Nat} {f : Int → Int → K → K}
    (himg : AreLongs img.nr img.nc) (hfilter : AreLongs nr nc)
    {block pixel : Int → Int → Grid K → Exec (Grid K)}
    (hblock : ∀ r, ((nr / 2 : Nat) : Int) ≤ r → r ≤ img.nr - ((nr - 1) / 2 : Nat) - 1 →
      ∀ c ∈ blocks (nc / 2 : Nat) (img.nc - ((nc - 1) / 2 : Nat)), ∀ out : Grid K,
        out.nr = img.nr → out.nc = img.nc →
          block r c out = .ok (out.paint (fun r' c' => r' = r ∧ c ≤ c' ∧ c' ≤ c + 7) f))
    (hpixel : ∀ r, ((nr / 2 : Nat) : Int) ≤ r → r ≤ img.nr - ((nr - 1) / 2 : Nat) - 1 →
      ∀ c ∈ remaining (nc / 2 : Nat) (img.nc - ((nc - 1) / 2 : Nat)), ∀ out : Grid K,
        out.nr = img.nr → out.nc = img.nc →
          pixel r c out = .ok (out.paint (fun r' c' => r' = r ∧ c' = c) f))
    (hnr : out.nr = img.nr) (hnc : out.nc = img.nc) :
    sweep (upTo (nr / 2 : Nat) (img.nr - ((nr - 1) / 2 : Nat) - 1)) (nc / 2 : Nat)
      (img.nc - ((nc - 1) / 2 : Nat)) block pixel out =
        .ok (out.paint (fun r c => (nonBorder img nr nc).Contains r c) f) := by
  rw [sweep_paint hblock hpixel hnr hnc]
  refine congrArg Except.ok (Grid.paint_region fun r c => ?_)
  rw [decide_eq_true_iff, decide_eq_true_iff, nonBorder_contains himg hfilter]

/-- A tap of a filter of `n` rows or columns is in the image. -/
theorem tap_inside {n k size : Nat} {i : Int} (hk : k < n) (hlow : ((n / 2 : Nat) : Int) ≤ i)
    (hhigh : i < size - ((n - 1) / 2 : Nat)) :
    0 ≤ i - (n / 2 : Nat) + k ∧ i - (n / 2 : Nat) + k < size := by
  omega

/-! ## Sums -/

/-- The three sums of a lane, which the code keeps side by side for eight lanes. -/
structure Sums (K : Type) where
  temp : K
  temp2 : K
  temp3 : K

def Temps.lane (t : Temps K) (lane : Fin 8) : Sums K := ⟨t.temp lane, t.temp2 lane, t.temp3 lane⟩

section Sums

variable [Zero K] [Add K] [Mul K] (fl : Rounding K)

def Sums.total (s : Sums K) : K := fl.single (s.temp + fl.single (s.temp2 + s.temp3))

/-- Three coefficients, one for each sum. -/
def Sums.addThree (v coeff : Nat → K) (n : Nat) (s : Sums K) : Sums K :=
  ⟨addProduct fl s.temp (v n) (coeff n), addProduct fl s.temp2 (v (n + 1)) (coeff (n + 1)),
    addProduct fl s.temp3 (v (n + 2)) (coeff (n + 2))⟩

def Sums.addOne (v coeff : Nat → K) (n : Nat) (s : Sums K) : Sums K :=
  { s with temp := addProduct fl s.temp (v n) (coeff n) }

/-- A row of coefficients, three at a time and then those that are left. -/
def Sums.addRow (v coeff : Nat → K) (size : Nat) (s : Sums K) : Sums K :=
  let s := (List.range (size / 3)).foldl (fun s k => s.addThree fl v coeff (3 * k)) s
  (List.range (size % 3)).foldl (fun s k => s.addOne fl v coeff (3 * (size / 3) + k)) s

/-- A row of coefficients, in a single sum. -/
def addRow (v coeff : Nat → K) (size : Nat) (temp : K) : K :=
  (List.range size).foldl (fun temp n => addProduct fl temp (v n) (coeff n)) temp

/-- The sum over some rows. It is taken in one order for a pixel in a block of eight, and in another
for a pixel on its own. -/
def weighted (block : Bool) (rows cols : Nat) (v coeff : Nat → Nat → K) : K :=
  if block then
    ((List.range rows).foldl (fun s m => s.addRow fl (v m) (coeff m) cols)
      ⟨0, 0, 0⟩ : Sums K).total fl
  else (List.range rows).foldl (fun temp m => addRow fl (v m) (coeff m) cols temp) 0

end Sums

/-- Whether a column is in a block of eight. -/
def inBlock (first last c : Int) : Bool := c < first + 8 * ((last - first).toNat / 8 : Nat)

theorem inBlock_of_mem {first last c c' : Int} (h : c ∈ blocks first last) (hle : c ≤ c')
    (hle' : c' ≤ c + 7) : inBlock first last c' = true := by
  have hc := mem_blocks.mp h
  rw [inBlock, decide_eq_true_eq]
  omega

theorem not_inBlock_of_mem {first last c : Int} (h : c ∈ remaining first last) :
    inBlock first last c = false := by
  have hc := mem_upTo.mp h
  rw [inBlock, decide_eq_false_iff_not]
  omega

theorem mem_remaining {first last c : Int} (h : c ∈ remaining first last) :
    first ≤ c ∧ c < last := by
  have hc := mem_upTo.mp h
  omega

/-! ## In exact arithmetic -/

section Exact

variable [CommSemiring K] {v coeff : Nat → K} {size : Nat}

theorem total_addRow_exact (s : Sums K) :
    (s.addRow .exact v coeff size).total .exact =
      s.total .exact + ∑ n ∈ range size, v n * coeff n := by
  let term : Nat → K := fun n => v n * coeff n
  -- three terms go to three sums, and come together in the total in some order
  have hthree : ∀ (s : Sums K) (k : Nat), (s.addThree .exact v coeff (3 * k)).total .exact =
      s.total .exact + (term (3 * k) + (term (3 * k + 1) + term (3 * k + 2))) := by
    intro s k
    simp only [Sums.total, Sums.addThree, addProduct, Rounding.exact_single, term]
    ring
  have hone : ∀ (s : Sums K) (k : Nat),
      (s.addOne .exact v coeff (3 * (size / 3) + k)).total .exact =
        s.total .exact + term (3 * (size / 3) + k) := by
    intro s k
    simp only [Sums.total, Sums.addOne, addProduct, Rounding.exact_single, term]
    ring
  rw [Sums.addRow, foldl_adds (Sums.total .exact) hone, foldl_adds (Sums.total .exact) hthree,
    add_assoc, sum_three_rest]

theorem addRow_exact (temp : K) :
    addRow .exact v coeff size temp = temp + ∑ n ∈ range size, v n * coeff n :=
  foldl_adds id (fun _ _ => rfl) size temp

/-- In exact arithmetic the order does not matter. -/
theorem weighted_exact (block : Bool) (rows cols : Nat) (v coeff : Nat → Nat → K) :
    weighted .exact block rows cols v coeff =
      ∑ m ∈ range rows, ∑ n ∈ range cols, v m n * coeff m n := by
  cases block with
  | true =>
    have hzero : Sums.total .exact (⟨0, 0, 0⟩ : Sums K) = 0 := by simp [Sums.total]
    have hrow : ∀ (s : Sums K) (m : Nat), (s.addRow .exact (v m) (coeff m) cols).total .exact =
        s.total .exact + ∑ n ∈ range cols, v m n * coeff m n := fun s m => total_addRow_exact s
    rw [weighted, if_pos rfl, foldl_adds (Sums.total .exact) hrow, hzero, zero_add]
  | false =>
    simp only [weighted, addRow_exact]
    exact (foldl_adds id (fun _ _ => rfl) rows 0).trans (zero_add _)

end Exact

/-- In binary32 it does: two small values survive together and are lost one by one. -/
example : weighted .ieee true 1 3 (fun _ n => if n = 0 then 1 else 1 / 2 ^ 24) (fun _ _ => 1) =
    1 + 1 / 2 ^ 23 ∧
    weighted .ieee false 1 3 (fun _ n => if n = 0 then 1 else 1 / 2 ^ 24) (fun _ _ => 1) = 1 := by
  decide +kernel

/-! ## Pixels -/

section Values

variable [CommSemiring K] {fl : Rounding K} {img out : Grid K} {r c : Int}

/-- Eight sums at once are the sums of eight lanes. -/
theorem unrolled_eq {load : Nat → Exec (Simd8f K)} {coeff : Nat → K} {size : Nat}
    {v : Nat → Simd8f K} (hload : ∀ n, n < size → load n = .ok (v n)) (t : Temps K) :
    ∃ t', unrolled fl load coeff size t = .ok t' ∧
      ∀ lane, t'.lane lane = (t.lane lane).addRow fl (fun n => v n lane) coeff size := by
  let view : Fin 8 → Temps K → Sums K := fun lane t => t.lane lane
  have hthree : ∀ k ∈ List.range (size / 3), ∀ t : Temps K,
      ∃ t', Temps.addThree fl load coeff (3 * k) t = .ok t' ∧ ∀ lane,
        view lane t' = (view lane t).addThree fl (fun n => v n lane) coeff (3 * k) := by
    intro k hk t
    have hlt := List.mem_range.mp hk
    refine ⟨_, by rw [Temps.addThree, hload _ (by omega), hload _ (by omega),
      hload _ (by omega)]; rfl, ?_⟩
    exact fun lane => rfl
  have hone : ∀ k ∈ List.range (size % 3), ∀ t : Temps K,
      ∃ t', Temps.addOne fl load coeff (3 * (size / 3) + k) t = .ok t' ∧ ∀ lane,
        view lane t' = (view lane t).addOne fl (fun n => v n lane) coeff (3 * (size / 3) + k) := by
    intro k hk t
    have hlt := List.mem_range.mp hk
    refine ⟨_, by rw [Temps.addOne, hload _ (by omega)]; rfl, ?_⟩
    exact fun lane => rfl
  obtain ⟨t₁, hrun₁, hlanes₁⟩ := forEach_foldl view
    (fun lane s k => s.addThree fl (fun n => v n lane) coeff (3 * k)) hthree t
  obtain ⟨t', hrun, hlanes⟩ := forEach_foldl view
    (fun lane s k => s.addOne fl (fun n => v n lane) coeff (3 * (size / 3) + k)) hone t₁
  refine ⟨t', by rw [unrolled, hrun₁, ok_bind, hrun], fun lane => ?_⟩
  exact (hlanes lane).trans (by rw [hlanes₁]; rfl)

theorem plain_eq {load : Nat → Exec K} {coeff : Nat → K} {size : Nat} {v : Nat → K}
    (hload : ∀ n, n < size → load n = .ok (v n)) (temp : K) :
    plain fl load coeff size temp = .ok (addRow fl v coeff size temp) := by
  have hstep : ∀ n ∈ List.range size, ∀ temp : K, ∃ temp',
      (load n >>= fun p => pure (addProduct fl temp p (coeff n))) = .ok temp' ∧
        ∀ _ : Unit, id temp' = addProduct fl (id temp) (v n) (coeff n) :=
    fun n hn temp => ⟨_, by rw [hload n (List.mem_range.mp hn)]; rfl, fun _ => rfl⟩
  obtain ⟨temp', hrun, hfold⟩ := forEach_foldl (fun _ => id)
    (fun _ temp n => addProduct fl temp (v n) (coeff n)) hstep temp
  rw [plain, hrun]
  exact congrArg Except.ok (hfold ())

/-- What a pixel becomes: the value, or the old one with it. -/
def saved (fl : Rounding K) (addTo : Bool) (value : Int → Int → K) (r c : Int) (old : K) : K :=
  if addTo = false then value r c else fl.single (old + value r c)

theorem savePixel_paint (value : Int → Int → K) (addTo : Bool) (h : out.InRange r c) :
    savePixel fl addTo (value r c) r c out =
      .ok (out.paint (fun r' c' => r' = r ∧ c' = c) (saved fl addTo value)) := by
  cases addTo with
  | false =>
    refine (Grid.write_of_inRange h).trans (congrArg Except.ok (Grid.paint_congr fun r' c' => ?_))
    split
    · rename_i hR
      obtain ⟨rfl, rfl⟩ := of_decide_eq_true hR
      rfl
    · rfl
  | true =>
    rw [savePixel, if_neg (by decide), Grid.read_of_inRange h, ok_bind, Grid.write_of_inRange h]
    refine congrArg Except.ok (Grid.paint_congr fun r' c' => ?_)
    split
    · rename_i hR
      obtain ⟨rfl, rfl⟩ := of_decide_eq_true hR
      rfl
    · rfl

theorem saveBlock_paint (value : Int → Int → K) {temp : Simd8f K} (addTo : Bool)
    (h : out.InRange r c) (h' : out.InRange r (c + 7))
    (htemp : ∀ lane, temp lane = value r (c + lane.val)) :
    saveBlock fl addTo temp r c out =
      .ok (out.paint (fun r' c' => r' = r ∧ c ≤ c' ∧ c' ≤ c + 7) (saved fl addTo value)) := by
  have hlane : ∀ c', c ≤ c' → c' ≤ c + 7 →
      c + ((Fin.ofNat 8 (c' - c).toNat).val : Int) = c' := by
    intro c' hc hc'
    rw [Fin.val_ofNat]
    omega
  cases addTo with
  | false =>
    rw [saveBlock, if_pos rfl, Simd8f.store, if_pos ⟨h, h'⟩]
    refine congrArg Except.ok (Grid.paint_congr fun r' c' => ?_)
    split
    · rename_i hR
      obtain ⟨rfl, hc, hc'⟩ := of_decide_eq_true hR
      rw [htemp, hlane c' hc hc']
      rfl
    · rfl
  | true =>
    rw [saveBlock, if_neg (by decide), Simd8f.load, if_pos ⟨h, h'⟩, ok_bind, Simd8f.store,
      if_pos ⟨h, h'⟩]
    refine congrArg Except.ok (Grid.paint_congr fun r' c' => ?_)
    split
    · rename_i hR
      obtain ⟨rfl, hc, hc'⟩ := of_decide_eq_true hR
      simp only [saved, if_neg (by decide : ¬ true = false)]
      rw [htemp, hlane c' hc hc', add_comm]
    · rfl

/-! ## The two functions, pixel by pixel -/

/-- What becomes of an image: in the area, the value or the old one with it; outside, zero or what
there was. -/
def filtered (fl : Rounding K) (addTo : Bool) (area : Rectangle) (value : Int → Int → K) (r c : Int)
    (old : K) : K :=
  if area.Contains r c then saved fl addTo value r c old else if addTo = false then 0 else old

/-- The border and the area make the image. -/
theorem border_filtered {nr nc : Nat} (himg : AreLongs img.nr img.nc) (hfilter : AreLongs nr nc)
    (value : Int → Int → K) (addTo : Bool) (hnr : out.nr = img.nr) (hnc : out.nc = img.nc) :
    ∃ out', clearBorder addTo (nonBorder img nr nc) out = .ok out' ∧ out'.nr = img.nr ∧
      out'.nc = img.nc ∧
      out'.paint (fun r c => (nonBorder img nr nc).Contains r c) (saved fl addTo value) =
        out.paint (fun r c => img.InRange r c) (filtered fl addTo (nonBorder img nr nc) value) := by
  have harea : ∀ r c, (nonBorder img nr nc).Contains r c → img.InRange r c := fun r c =>
    inRange_of_nonBorder himg hfilter
  cases addTo with
  | false =>
    refine ⟨_, (if_pos rfl).trans (zeroBorderPixels_paint _ (hnr ▸ himg.1) (hnc ▸ himg.2)), hnr,
      hnc, Grid.ext rfl rfl (funext fun r => funext fun c => ?_)⟩
    simp only [Grid.paint_cell, decide_eq_true_eq, filtered, Grid.inRange_congr hnr hnc]
    by_cases hin : (nonBorder img nr nc).Contains r c
    · simp [hin, harea r c hin]
    · simp [hin]
  | true =>
    refine ⟨out, if_neg (by decide), hnr, hnc, Grid.paint_congr fun r c => ?_⟩
    simp only [decide_eq_true_eq, filtered]
    by_cases hin : (nonBorder img nr nc).Contains r c
    · simp [hin, harea r c hin]
    · simp [hin]

section Plain

variable {filter : Filter K}

/-- What a filter gives for a pixel. -/
def calculated (fl : Rounding K) (img : Grid K) (filter : Filter K) (r c : Int) : K :=
  weighted fl (inBlock (filter.nc / 2 : Nat) (img.nc - ((filter.nc - 1) / 2 : Nat)) c) filter.nr
    filter.nc (fun m n => img.cell (r - (filter.nr / 2 : Nat) + m) (c - (filter.nc / 2 : Nat) + n))
    filter.coeff

theorem filterBlock_paint (addTo : Bool) (hrow : ((filter.nr / 2 : Nat) : Int) ≤ r)
    (hrow' : r < img.nr - ((filter.nr - 1) / 2 : Nat))
    (hcol : c ∈ blocks (filter.nc / 2 : Nat) (img.nc - ((filter.nc - 1) / 2 : Nat)))
    (hnr : out.nr = img.nr) (hnc : out.nc = img.nc) : filterBlock fl img filter addTo r c out =
      .ok (out.paint (fun r' c' => r' = r ∧ c ≤ c' ∧ c' ≤ c + 7)
        (saved fl addTo (calculated fl img filter))) := by
  obtain ⟨hfirst, hlast, -⟩ := mem_blocks.mp hcol
  let v : Nat → Nat → Simd8f K := fun m n lane =>
    img.cell (r - (filter.nr / 2 : Nat) + m) (c - (filter.nc / 2 : Nat) + n + lane.val)
  have hload : ∀ m, m < filter.nr → ∀ n, n < filter.nc → Simd8f.load img
      (r - (filter.nr / 2 : Nat) + m) (c - (filter.nc / 2 : Nat) + n) = .ok (v m n) := by
    intro m hm n hn
    have hr := tap_inside hm hrow hrow'
    have hleft : 0 ≤ c - (filter.nc / 2 : Nat) + n ∧ c - (filter.nc / 2 : Nat) + n < img.nc :=
      tap_inside hn hfirst (by omega)
    have hright : 0 ≤ c + 7 - (filter.nc / 2 : Nat) + n ∧
        c + 7 - (filter.nc / 2 : Nat) + n < img.nc := tap_inside hn (by omega) (by omega)
    exact if_pos ⟨⟨hr, hleft⟩, hr, by omega⟩
  obtain ⟨t, hrun, hlanes⟩ := forEach_foldl (fun lane (t : Temps K) => t.lane lane)
    (fun lane s m => s.addRow fl (fun n => v m n lane) (filter.coeff m) filter.nc)
    (fun m hm t => unrolled_eq (hload m (List.mem_range.mp hm)) t) ⟨0, 0, 0⟩
  rw [filterBlock, hrun, ok_bind]
  refine saveBlock_paint _ addTo ?_ ?_ fun lane => ?_
  · rw [Grid.InRange, hnr, hnc]
    omega
  · rw [Grid.InRange, hnr, hnc]
    omega
  · have hcell : ∀ m n, v m n lane = img.cell (r - (filter.nr / 2 : Nat) + m)
        (c + lane.val - (filter.nc / 2 : Nat) + n) := fun m n => by
      have hcol : c - (filter.nc / 2 : Nat) + n + lane.val =
          c + lane.val - (filter.nc / 2 : Nat) + n := by omega
      rw [← hcol]
    have htotal := congrArg (Sums.total fl) (hlanes lane)
    rw [calculated, inBlock_of_mem hcol (by omega) (by omega), weighted, if_pos rfl]
    simp only [hcell] at htotal
    exact htotal

theorem filterPixel_paint (addTo : Bool) (hrow : ((filter.nr / 2 : Nat) : Int) ≤ r)
    (hrow' : r < img.nr - ((filter.nr - 1) / 2 : Nat))
    (hcol : c ∈ remaining (filter.nc / 2 : Nat) (img.nc - ((filter.nc - 1) / 2 : Nat)))
    (hnr : out.nr = img.nr) (hnc : out.nc = img.nc) : filterPixel fl img filter addTo r c out =
      .ok (out.paint (fun r' c' => r' = r ∧ c' = c)
        (saved fl addTo (calculated fl img filter))) := by
  obtain ⟨hfirst, hlast⟩ := mem_remaining hcol
  let v : Nat → Nat → K := fun m n =>
    img.cell (r - (filter.nr / 2 : Nat) + m) (c - (filter.nc / 2 : Nat) + n)
  have hload : ∀ m, m < filter.nr → ∀ n, n < filter.nc →
      img.read (r - (filter.nr / 2 : Nat) + m) (c - (filter.nc / 2 : Nat) + n) = .ok (v m n) :=
    fun m hm n hn => Grid.read_of_inRange ⟨tap_inside hm hrow hrow', tap_inside hn hfirst hlast⟩
  have hstep : ∀ m ∈ List.range filter.nr, ∀ temp : K, ∃ temp',
      plain fl (fun n => img.read (r - (filter.nr / 2 : Nat) + m) (c - (filter.nc / 2 : Nat) + n))
        (filter.coeff m) filter.nc temp = .ok temp' ∧
      ∀ _ : Unit, id temp' = addRow fl (v m) (filter.coeff m) filter.nc (id temp) :=
    fun m hm temp => ⟨_, plain_eq (hload m (List.mem_range.mp hm)) temp, fun _ => rfl⟩
  obtain ⟨temp, hrun, hfold⟩ := forEach_foldl (fun _ => id)
    (fun _ temp m => addRow fl (v m) (filter.coeff m) filter.nc temp) hstep 0
  have htemp : temp = calculated fl img filter r c := by
    rw [calculated, not_inBlock_of_mem hcol]
    exact hfold ()
  rw [filterPixel, hrun, ok_bind, htemp]
  refine savePixel_paint _ addTo ?_
  rw [Grid.InRange, hnr, hnc]
  omega

/-- **`float_spatially_filter_image`**: no access is out of range, and what comes out is what was
calculated for the pixel itself. -/
theorem filter_eq (fl : Rounding K) (garbage : Int → Int → K) (filter : Filter K) (addTo : Bool)
    (out : Grid K) (himg : AreLongs img.nr img.nc) (hfilter : AreLongs filter.nr filter.nc)
    (hne : img.nr * img.nc ≠ 0) :
    floatSpatiallyFilterImage fl garbage img filter addTo out =
      .ok ((out.setSize garbage img.nr img.nc).paint (fun r c => img.InRange r c)
          (filtered fl addTo (nonBorder img filter.nr filter.nc) (calculated fl img filter)),
        nonBorder img filter.nr filter.nc) := by
  obtain ⟨out', hborder, hnr, hnc, hpaint⟩ := border_filtered himg hfilter
    (calculated fl img filter) addTo (Grid.setSize_nr garbage) (Grid.setSize_nc garbage)
  have hsweep : sweep (upTo (filter.nr / 2 : Nat) (img.nr - ((filter.nr - 1) / 2 : Nat) - 1))
      (filter.nc / 2 : Nat) (img.nc - ((filter.nc - 1) / 2 : Nat))
      (filterBlock fl img filter addTo) (filterPixel fl img filter addTo) out' =
        .ok (out'.paint (fun r c => (nonBorder img filter.nr filter.nc).Contains r c)
          (saved fl addTo (calculated fl img filter))) :=
    sweep_area himg hfilter
      (fun r hrow hrow' c hcol out hnr hnc =>
        filterBlock_paint addTo hrow (by omega) hcol hnr hnc)
      (fun r hrow hrow' c hcol out hnr hnc =>
        filterPixel_paint addTo hrow (by omega) hcol hnr hnc) hnr hnc
  rw [floatSpatiallyFilterImage, if_neg hne]
  simp only
  rw [hborder, ok_bind, hsweep, ok_bind, hpaint]
  rfl

end Plain

section Separable

variable {scratch : Grid K} {rowFilter colFilter : List K}

/-- What the row filter gives for a pixel. -/
def rowValue (fl : Rounding K) (img : Grid K) (rowFilter : List K) (r c : Int) : K :=
  weighted fl (inBlock (rowFilter.length / 2 : Nat) (img.nc - ((rowFilter.length - 1) / 2 : Nat)) c)
    1 rowFilter.length (fun _ n => img.cell r (c - (rowFilter.length / 2 : Nat) + n))
    fun _ n => rowFilter.getD n 0

theorem rowBlock_paint (hrow : 0 ≤ r) (hrow' : r < img.nr)
    (hcol : c ∈ blocks (rowFilter.length / 2 : Nat) (img.nc - ((rowFilter.length - 1) / 2 : Nat)))
    (hnr : scratch.nr = img.nr) (hnc : scratch.nc = img.nc) :
    rowBlock fl img rowFilter r c scratch =
      .ok (scratch.paint (fun r' c' => r' = r ∧ c ≤ c' ∧ c' ≤ c + 7)
        (saved fl false (rowValue fl img rowFilter))) := by
  obtain ⟨hfirst, hlast, -⟩ := mem_blocks.mp hcol
  let v : Nat → Simd8f K := fun n lane =>
    img.cell r (c - (rowFilter.length / 2 : Nat) + n + lane.val)
  have hload : ∀ n, n < rowFilter.length →
      Simd8f.load img r (c - (rowFilter.length / 2 : Nat) + n) = .ok (v n) := by
    intro n hn
    have hleft : 0 ≤ c - (rowFilter.length / 2 : Nat) + n ∧
        c - (rowFilter.length / 2 : Nat) + n < img.nc := tap_inside hn hfirst (by omega)
    have hright : 0 ≤ c + 7 - (rowFilter.length / 2 : Nat) + n ∧
        c + 7 - (rowFilter.length / 2 : Nat) + n < img.nc := tap_inside hn (by omega) (by omega)
    exact if_pos ⟨⟨⟨hrow, hrow'⟩, hleft⟩, ⟨hrow, hrow'⟩, by omega⟩
  obtain ⟨t, hrun, hlanes⟩ := unrolled_eq hload ⟨0, 0, 0⟩
  rw [rowBlock, hrun, ok_bind]
  refine saveBlock_paint (rowValue fl img rowFilter) false ?_ ?_ fun lane => ?_
  · rw [Grid.InRange, hnr, hnc]
    omega
  · rw [Grid.InRange, hnr, hnc]
    omega
  · have hcell : ∀ n, v n lane =
        img.cell r (c + lane.val - (rowFilter.length / 2 : Nat) + n) := fun n => by
      have hcol : c - (rowFilter.length / 2 : Nat) + n + lane.val =
          c + lane.val - (rowFilter.length / 2 : Nat) + n := by omega
      rw [← hcol]
    have htotal := congrArg (Sums.total fl) (hlanes lane)
    rw [rowValue, inBlock_of_mem hcol (by omega) (by omega), weighted, if_pos rfl]
    simp only [hcell] at htotal
    exact htotal

theorem rowPixel_paint (hrow : 0 ≤ r) (hrow' : r < img.nr)
    (hcol : c ∈ remaining (rowFilter.length / 2 : Nat)
      (img.nc - ((rowFilter.length - 1) / 2 : Nat)))
    (hnr : scratch.nr = img.nr) (hnc : scratch.nc = img.nc) :
    rowPixel fl img rowFilter r c scratch =
      .ok (scratch.paint (fun r' c' => r' = r ∧ c' = c)
        (saved fl false (rowValue fl img rowFilter))) := by
  obtain ⟨hfirst, hlast⟩ := mem_remaining hcol
  have hload : ∀ n, n < rowFilter.length → img.read r (c - (rowFilter.length / 2 : Nat) + n) =
      .ok (img.cell r (c - (rowFilter.length / 2 : Nat) + n)) :=
    fun n hn => Grid.read_of_inRange ⟨⟨hrow, hrow'⟩, tap_inside hn hfirst hlast⟩
  have hvalue : addRow fl (fun n => img.cell r (c - (rowFilter.length / 2 : Nat) + n))
      (rowFilter.getD · 0) rowFilter.length 0 = rowValue fl img rowFilter r c := by
    rw [rowValue, not_inBlock_of_mem hcol]
    rfl
  rw [rowPixel, plain_eq hload, ok_bind, hvalue]
  refine savePixel_paint (rowValue fl img rowFilter) false ?_
  rw [Grid.InRange, hnr, hnc]
  omega

/-- The row filter goes over all rows, and what it gives is in the columns between the ends. -/
theorem rows_sweep (fl : Rounding K) (hnr : scratch.nr = img.nr) (hnc : scratch.nc = img.nc) :
    ∃ scratch', sweep (upTo 0 (img.nr - 1)) (rowFilter.length / 2 : Nat)
        (img.nc - ((rowFilter.length - 1) / 2 : Nat)) (rowBlock fl img rowFilter)
        (rowPixel fl img rowFilter) scratch = .ok scratch' ∧
      scratch'.nr = img.nr ∧ scratch'.nc = img.nc ∧
      ∀ r c : Int, 0 ≤ r → r < img.nr → ((rowFilter.length / 2 : Nat) : Int) ≤ c →
        c < img.nc - ((rowFilter.length - 1) / 2 : Nat) →
          scratch'.cell r c = rowValue fl img rowFilter r c := by
  refine ⟨_, sweep_paint (f := saved fl false (rowValue fl img rowFilter))
    (fun r hrow hrow' c hcol out hnr hnc => rowBlock_paint hrow (by omega) hcol hnr hnc)
    (fun r hrow hrow' c hcol out hnr hnc => rowPixel_paint hrow (by omega) hcol hnr hnc)
    hnr hnc, hnr, hnc, fun r c hrow hrow' hcol hcol' => ?_⟩
  rw [Grid.paint_cell, if_pos (by rw [decide_eq_true_iff]; omega)]
  rfl

/-- What the column filter makes of what the row filter left between two columns. -/
def colValue (fl : Rounding K) (first last : Int) (value : Int → Int → K) (colFilter : List K)
    (r c : Int) : K :=
  weighted fl (inBlock first last c) 1 colFilter.length
    (fun _ m => value (r - (colFilter.length / 2 : Nat) + m) c) fun _ m => colFilter.getD m 0

section Columns

variable {value : Int → Int → K} {first last : Int}

theorem colBlock_paint (addTo : Bool) (hnr : scratch.nr = img.nr) (hnc : scratch.nc = img.nc)
    (hcell : ∀ r c : Int, 0 ≤ r → r < img.nr → first ≤ c → c < last → scratch.cell r c = value r c)
    (hfirst : 0 ≤ first) (hlast : last ≤ img.nc) (hrow : ((colFilter.length / 2 : Nat) : Int) ≤ r)
    (hrow' : r < img.nr - ((colFilter.length - 1) / 2 : Nat)) (hcol : c ∈ blocks first last)
    (hnr' : out.nr = img.nr) (hnc' : out.nc = img.nc) :
    colBlock fl scratch colFilter addTo r c out =
      .ok (out.paint (fun r' c' => r' = r ∧ c ≤ c' ∧ c' ≤ c + 7)
        (saved fl addTo (colValue fl first last value colFilter))) := by
  obtain ⟨hle, hlt, -⟩ := mem_blocks.mp hcol
  let v : Nat → Simd8f K := fun m lane =>
    value (r - (colFilter.length / 2 : Nat) + m) (c + lane.val)
  have hload : ∀ m, m < colFilter.length →
      Simd8f.load scratch (r - (colFilter.length / 2 : Nat) + m) c = .ok (v m) := by
    intro m hm
    have hr := tap_inside hm hrow hrow'
    refine (if_pos ?_).trans (congrArg Except.ok (funext fun lane => ?_))
    · rw [Grid.InRange, Grid.InRange, hnr, hnc]
      omega
    · exact hcell _ _ hr.1 hr.2 (by omega) (by omega)
  obtain ⟨t, hrun, hlanes⟩ := unrolled_eq hload ⟨0, 0, 0⟩
  rw [colBlock, hrun, ok_bind]
  refine saveBlock_paint _ addTo ?_ ?_ fun lane => ?_
  · rw [Grid.InRange, hnr', hnc']
    omega
  · rw [Grid.InRange, hnr', hnc']
    omega
  · rw [colValue, inBlock_of_mem hcol (by omega) (by omega), weighted, if_pos rfl]
    exact congrArg (Sums.total fl) (hlanes lane)

theorem colPixel_paint (addTo : Bool) (hnr : scratch.nr = img.nr) (hnc : scratch.nc = img.nc)
    (hcell : ∀ r c : Int, 0 ≤ r → r < img.nr → first ≤ c → c < last → scratch.cell r c = value r c)
    (hfirst : 0 ≤ first) (hlast : last ≤ img.nc) (hrow : ((colFilter.length / 2 : Nat) : Int) ≤ r)
    (hrow' : r < img.nr - ((colFilter.length - 1) / 2 : Nat)) (hcol : c ∈ remaining first last)
    (hnr' : out.nr = img.nr) (hnc' : out.nc = img.nc) :
    colPixel fl scratch colFilter addTo r c out =
      .ok (out.paint (fun r' c' => r' = r ∧ c' = c)
        (saved fl addTo (colValue fl first last value colFilter))) := by
  obtain ⟨hle, hlt⟩ := mem_remaining hcol
  have hload : ∀ m, m < colFilter.length →
      scratch.read (r - (colFilter.length / 2 : Nat) + m) c =
        .ok (value (r - (colFilter.length / 2 : Nat) + m) c) := by
    intro m hm
    have hr := tap_inside hm hrow hrow'
    rw [Grid.read_of_inRange ?_, hcell _ _ hr.1 hr.2 hle hlt]
    rw [Grid.InRange, hnr, hnc]
    omega
  have hvalue : addRow fl (fun m => value (r - (colFilter.length / 2 : Nat) + m) c)
      (colFilter.getD · 0) colFilter.length 0 = colValue fl first last value colFilter r c := by
    rw [colValue, not_inBlock_of_mem hcol]
    rfl
  rw [colPixel, plain_eq hload, ok_bind, hvalue]
  refine savePixel_paint (colValue fl first last value colFilter) addTo ?_
  rw [Grid.InRange, hnr', hnc']
  omega

end Columns

/-- What the two filters give for a pixel. -/
def calculatedSeparable (fl : Rounding K) (img : Grid K) (rowFilter colFilter : List K) :
    Int → Int → K :=
  colValue fl (rowFilter.length / 2 : Nat) (img.nc - ((rowFilter.length - 1) / 2 : Nat))
    (rowValue fl img rowFilter) colFilter

/-- **`float_spatially_filter_image_separable`**, likewise: the columns that the row filter did not
get to are never read. -/
theorem separable_eq (fl : Rounding K) (garbage : Int → Int → K) (rowFilter colFilter : List K)
    (addTo : Bool) (out scratch : Grid K) (himg : AreLongs img.nr img.nc)
    (hfilter : AreLongs colFilter.length rowFilter.length) (hne : img.nr * img.nc ≠ 0) :
    ∃ scratch', floatSpatiallyFilterImageSeparable fl garbage img rowFilter colFilter addTo out
        scratch =
      .ok ((out.setSize garbage img.nr img.nc).paint (fun r c => img.InRange r c)
          (filtered fl addTo (nonBorder img colFilter.length rowFilter.length)
            (calculatedSeparable fl img rowFilter colFilter)),
        nonBorder img colFilter.length rowFilter.length, scratch') := by
  obtain ⟨out', hborder, hnr, hnc, hpaint⟩ := border_filtered himg hfilter
    (calculatedSeparable fl img rowFilter colFilter) addTo
    (Grid.setSize_nr (g := out) garbage) (Grid.setSize_nc garbage)
  obtain ⟨scratch', hrows, hnr', hnc', hcell⟩ := rows_sweep fl
    (Grid.setSize_nr (g := scratch) garbage) (Grid.setSize_nc garbage)
  have hsweep : sweep (upTo (colFilter.length / 2 : Nat)
        (img.nr - ((colFilter.length - 1) / 2 : Nat) - 1)) (rowFilter.length / 2 : Nat)
        (img.nc - ((rowFilter.length - 1) / 2 : Nat)) (colBlock fl scratch' colFilter addTo)
        (colPixel fl scratch' colFilter addTo) out' =
      .ok (out'.paint (fun r c => (nonBorder img colFilter.length rowFilter.length).Contains r c)
        (saved fl addTo (calculatedSeparable fl img rowFilter colFilter))) :=
    sweep_area himg hfilter
      (fun r hrow hrow' c hcol out hnr hnc => colBlock_paint addTo hnr' hnc' hcell
        (by omega) (by omega) hrow (by omega) hcol hnr hnc)
      (fun r hrow hrow' c hcol out hnr hnc => colPixel_paint addTo hnr' hnc' hcell
        (by omega) (by omega) hrow (by omega) hcol hnr hnc) hnr hnc
  refine ⟨scratch', ?_⟩
  rw [floatSpatiallyFilterImageSeparable, if_neg hne]
  simp only
  rw [hborder, ok_bind, hrows, ok_bind, hsweep, ok_bind, hpaint]
  rfl

/-! ## The two functions agree -/

/-- What a filter stands for: the sum of the pixels below it, each times its coefficient. -/
def correlate (img : Grid K) (filter : Filter K) (r c : Int) : K :=
  ∑ m ∈ range filter.nr, ∑ n ∈ range filter.nc,
    img.cell (r - (filter.nr / 2 : Nat) + m) (c - (filter.nc / 2 : Nat) + n) * filter.coeff m n

theorem calculated_exact (img : Grid K) (filter : Filter K) :
    calculated .exact img filter = correlate img filter :=
  funext fun _ => funext fun _ => weighted_exact _ _ _ _ _

/-- The filter that is the product of the two. -/
def outerProduct (rowFilter colFilter : List K) : Filter K :=
  ⟨colFilter.length, rowFilter.length, fun m n => colFilter.getD m 0 * rowFilter.getD n 0⟩

/-- The columns of a filter's rows, and then its rows. -/
theorem calculatedSeparable_exact (img : Grid K) (rowFilter colFilter : List K) :
    calculatedSeparable .exact img rowFilter colFilter =
      correlate img (outerProduct rowFilter colFilter) := by
  funext r c
  rw [calculatedSeparable, colValue, weighted_exact, sum_range_one, correlate]
  refine sum_congr rfl fun m _ => ?_
  rw [rowValue, weighted_exact, sum_range_one, sum_mul]
  refine sum_congr rfl fun n _ => ?_
  simp only [outerProduct]
  ring

/-- **The two functions agree** in exact arithmetic: the row and the column filter one after the
other give what their product gives at once, in the area, on the border and in what is added to, and
neither gets outside the images. With rounding they agree on all but the values in the area. -/
theorem filters_agree (garbage : Int → Int → K) (rowFilter colFilter : List K) (addTo : Bool)
    (out scratch : Grid K) (himg : AreLongs img.nr img.nc)
    (hfilter : AreLongs colFilter.length rowFilter.length) :
    ∃ out' area scratch',
      floatSpatiallyFilterImageSeparable .exact garbage img rowFilter colFilter addTo out scratch =
        .ok (out', area, scratch') ∧
      floatSpatiallyFilterImage .exact garbage img (outerProduct rowFilter colFilter) addTo out =
        .ok (out', area) ∧
      ∀ r c, img.InRange r c → out'.cell r c = filtered .exact addTo area
        (correlate img (outerProduct rowFilter colFilter)) r c
        ((out.setSize garbage img.nr img.nc).cell r c) := by
  by_cases hempty : img.nr * img.nc = 0
  · refine ⟨_, _, scratch, if_pos hempty, if_pos hempty, fun r c hin => ?_⟩
    exact absurd hempty (Grid.size_ne_zero hin)
  · obtain ⟨scratch', hseparable⟩ := separable_eq .exact garbage rowFilter colFilter addTo out
      scratch himg hfilter hempty
    have hplain := filter_eq .exact garbage (outerProduct rowFilter colFilter) addTo out himg
      hfilter hempty
    rw [calculatedSeparable_exact] at hseparable
    rw [calculated_exact] at hplain
    refine ⟨_, _, scratch', hseparable, hplain, fun r c hin => ?_⟩
    rw [Grid.paint_cell, if_pos (decide_eq_true hin)]

/-- A blur of three by three, over what was there before. -/
theorem filters_agree_blur :
    ∃ out' area scratch',
      floatSpatiallyFilterImageSeparable .exact (fun _ _ => 9) ⟨4, 20, fun r c => r * c⟩ [1, 2, 1]
        [1, 2, 1] true ⟨4, 20, fun _ c => c⟩ ⟨0, 0, fun _ _ => 9⟩ = .ok (out', area, scratch') ∧
      floatSpatiallyFilterImage .exact (fun _ _ => 9) ⟨4, 20, fun r c => r * c⟩
        (outerProduct [1, 2, 1] [1, 2, 1]) true ⟨4, 20, fun _ c => c⟩ = .ok (out', area) ∧
      ∀ r c, (⟨4, 20, fun r c => r * c⟩ : Grid Int).InRange r c → out'.cell r c =
        filtered .exact true area
          (correlate ⟨4, 20, fun r c => r * c⟩ (outerProduct [1, 2, 1] [1, 2, 1])) r c
          (((⟨4, 20, fun _ c => c⟩ : Grid Int).setSize (fun _ _ => 9) 4 20).cell r c) :=
  filters_agree (fun _ _ => 9) [1, 2, 1] [1, 2, 1] true ⟨4, 20, fun _ c => c⟩ ⟨0, 0, fun _ _ => 9⟩
    (by decide) (by decide)

end Separable

end Values

end DlibAndroid
