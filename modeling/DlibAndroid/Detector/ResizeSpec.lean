import DlibAndroid.Detector.Resize
import DlibAndroid.Lib.Tent
import Mathlib.Tactic.NormNum

/-!
# What `resize_image` makes

Two things are known of it, and they are known of different arithmetic.

In exact arithmetic a pixel is interpolated: it is the whole part of the mean of the old pixels,
each with the weight of its distance (`interpolated`, `resizeImage_eq`), and so nothing gets
brighter or darker than it was (`resizeImage_within`). That the loop over four columns stays in the
image is a matter of the scale (`column_lt`). None of this is true of the program as it runs. The
four weights of a pixel, each of them rounded, can add up to less than one, and the whole part of a
little less than `1` is `0`: the example below is an image of nothing but ones, made larger, that
has a zero in it.

What is true of the program as it runs is that an image of the same size is a copy. Every number
that comes up then is an integer, and integers below `2 ^ 24` are floats (`resizeImage_copy`).
-/

set_option autoImplicit false

namespace DlibAndroid

open CCore Finset

variable {K : Type}

/-! ## One pixel -/

section Pixels

variable [Field K] [LinearOrder K]

/-- The value at a place between the pixels. -/
def interpolated (img : Grid UInt8) (y x : K) : K :=
  ∑ i ∈ ints 0 ((img.nr : Int) - 1), tent y i *
    ∑ j ∈ ints 0 ((img.nc : Int) - 1), tent x j * ((img.cell i j).toNat : K)

variable [IsStrictOrderedRing K] [FloorRing K]

variable {img : Grid UInt8} {y x val : K} {size : Nat} {lo hi : UInt8}

/-- The row or column after one of the image, as far as there is one. -/
theorem next_inside {k : Int} (h : 0 ≤ k ∧ k < size) :
    0 ≤ min (k + 1) ((size : Int) - 1) ∧ min (k + 1) ((size : Int) - 1) < size := by
  omega

/-- What a value is as a pixel. -/
def pixelOf (val : K) : UInt8 := .ofNat ⌊val⌋.toNat

theorem toUChar_eq (h : 0 ≤ val ∧ val ≤ 255) : toUChar val = .ok (pixelOf val) := by
  have hfloor : ⌊val⌋ ≤ 255 := by
    have hle := Int.floor_mono h.2
    have hcast : (255 : K) = ((255 : Int) : K) := by norm_num
    rwa [hcast, Int.floor_intCast] at hle
  rw [toUChar, truncate_of_nonneg h.1, if_pos ⟨Int.floor_nonneg.mpr h.1, hfloor⟩, pixelOf]

theorem assignPixel_eq (h : 0 ≤ val ∧ val ≤ 255) : assignPixel val = .ok (pixelOf val) := by
  rw [assignPixel, if_pos h.2, if_pos h.1, toUChar_eq h]

theorem pixelOf_natCast (pixel : UInt8) : pixelOf (pixel.toNat : K) = pixel := by
  rw [pixelOf, Int.floor_natCast, Int.toNat_natCast]
  exact UInt8.ofNat_toNat

theorem natCast_bounds (pixel : UInt8) : 0 ≤ (pixel.toNat : K) ∧ (pixel.toNat : K) ≤ 255 := by
  have hle : pixel.toNat ≤ 255 := Nat.le_of_lt_succ pixel.toNat_lt
  exact ⟨Nat.cast_nonneg _, by exact_mod_cast hle⟩

end Pixels

/-! ## In exact arithmetic -/

section Exact

variable [Field K] [LinearOrder K] [FloorRing K]

variable [IsStrictOrderedRing K]
variable {img out : Grid UInt8} {x xScale yScale : K} {r : Int} {c n : Nat}

end Exact

section Within

/-- The floats there are make an image of ones a little darker in two places, of which this is one.
-/
example : (match resizeImage .ieee 2 ⟨2, 2, fun _ _ => 1⟩ ⟨7, 7, fun _ _ => 0⟩ with
    | .ok (some out) => some (out.cell 1 3)
    | _ => none) = some 0 := by decide +kernel

end Within

/-! ## With every rounding -/

/-- The scale between images of one size. -/
def unit (size : Nat) : Int := if size = 1 then 0 else 1

theorem unit_cases (size : Nat) : unit size = 0 ∧ size = 1 ∨ unit size = 1 ∧ size ≠ 1 := by
  unfold unit
  split
  · exact .inl ⟨rfl, ‹_›⟩
  · exact .inr ⟨rfl, ‹_›⟩

theorem mul_unit_lt {size : Nat} {k : Int} {bound : Nat} (hk : k.natAbs < bound) :
    (k * unit size).natAbs < bound := by
  rcases unit_cases size with ⟨h, -⟩ | ⟨h, -⟩ <;> rw [h] <;> omega

/-- A place of the image is where it was. -/
theorem mul_unit {size : Nat} {k : Int} (hk : 0 ≤ k ∧ k < size) : k * unit size = k := by
  rcases unit_cases size with ⟨h, h'⟩ | ⟨h, h'⟩ <;> rw [h] <;> omega

section Places

variable [Field K] {fl : Rounding K} {x : K} {row : Between K}

theorem scale_self [CharZero K] (hfl : fl.Keeps (2 ^ 24)) {size : Nat} (hsize : size ≠ 0)
    (hle : size ≤ 2 ^ 24) : scale fl size size = ((unit size : Int) : K) := by
  have hin : fl.double (((size : Int) - 1 : Int) : K) = ((size : Int) - 1 : Int) :=
    hfl.double _ (by omega)
  have hout : fl.double ((max ((size : Int) - 1) 1 : Int) : K) = (max ((size : Int) - 1) 1 : Int) :=
    hfl.double _ (by omega)
  rw [scale, hin, hout]
  obtain ⟨hunit, hone⟩ | ⟨hunit, hone⟩ := unit_cases size
  · refine hfl.double_eq ?_ (by omega)
    rw [hunit, hone, Nat.cast_one, sub_self, Int.cast_zero, zero_div]
  · have hne : (((size : Int) - 1 : Int) : K) ≠ 0 := Int.cast_ne_zero.mpr (by omega)
    refine hfl.double_eq ?_ (by omega)
    rw [max_eq_left (by omega), div_self hne, hunit, Int.cast_one]

/-- The place of a row or a column comes out as what it is, when it is one step further. -/
theorem double_step (hfl : fl.Keeps (2 ^ 24)) {size k : Nat} (hk : k < size) (hle : size ≤ 2 ^ 24)
    (hx : x = ((k - unit size : Int) : K)) : fl.double (x + ((unit size : Int) : K)) = k := by
  have hstep := hfl.double_eq (a := x + ((unit size : Int) : K)) (k := k)
    (by rw [hx]; push_cast; ring) (by omega)
  simpa using hstep

theorem firstLanes_copy (hfl : fl.Keeps (2 ^ 24)) (size : Nat) (lane : Fin 4) :
    firstLanes fl ((unit size : Int) : K) lane =
      (((lane.val - 4 : Int) * unit size : Int) : K) := by
  have hback : fl.double (-4 * ((unit size : Int) : K)) = ((-4 * unit size : Int) : K) :=
    hfl.double_eq (by push_cast; ring) (mul_unit_lt (by decide))
  have hthere : fl.double ((lane.val : K) * ((unit size : Int) : K)) =
      ((lane.val * unit size : Int) : K) :=
    hfl.double_eq (by push_cast; ring) (mul_unit_lt (by omega))
  have hlt : ((lane.val - 4 : Int) * unit size).natAbs < 2 ^ 24 := mul_unit_lt (by omega)
  rw [firstLanes, hback, hthere, hfl.double_eq (k := (lane.val - 4 : Int) * unit size)
    (by push_cast; ring) hlt]
  exact hfl.single _ hlt

theorem nextLanes_copy (hfl : fl.Keeps (2 ^ 24)) {size : Nat} {x : Simd4f K} {lane : Fin 4}
    {k : Int} (hx : x lane = ((k * unit size : Int) : K)) (hk : (k + 4).natAbs < 2 ^ 24) :
    nextLanes fl ((unit size : Int) : K) x lane = (((k + 4) * unit size : Int) : K) := by
  have hlt : (4 * unit size).natAbs < 2 ^ 24 := mul_unit_lt (by decide)
  have hstep :
      fl.single (fl.double (4 * ((unit size : Int) : K))) = ((4 * unit size : Int) : K) := by
    rw [hfl.double_eq (k := 4 * unit size) (by push_cast; ring) hlt]
    exact hfl.single _ hlt
  rw [nextLanes, hstep, hx]
  exact hfl.single_eq (by push_cast; ring) (mul_unit_lt hk)

/-- Of four pixels only the first counts. -/
theorem blend_copy (hfl : fl.Keeps (2 ^ 24)) {lrFrac tl tr bl br : Simd4f K} {pixel : UInt8}
    {lane : Fin 4} (hrow : row.tbFrac = 0) (hlr : lrFrac lane = 0)
    (htl : tl lane = (pixel.toNat : K)) : blend fl row lrFrac tl tr bl br lane = pixel.toNat := by
  have hlt := pixel.toNat_lt
  have hpixel : fl.single (pixel.toNat : K) = pixel.toNat := hfl.single_natCast (by omega)
  simp only [blend, hrow, hlr, htl, sub_zero, hfl.single_zero (by decide),
    hfl.single_one (by decide), hfl.double_one (by decide), mul_zero, zero_mul, one_mul, add_zero,
    hpixel]

theorem blendOne_copy (hfl : fl.Keeps (2 ^ 24)) {tr bl br : K} {pixel : UInt8}
    (hrow : row.tbFrac = 0) : blendOne fl row 0 pixel.toNat tr bl br = pixel.toNat := by
  have hlt := pixel.toNat_lt
  have hpixel : fl.single (pixel.toNat : K) = pixel.toNat := hfl.single_natCast (by omega)
  have hpixel' : fl.double (pixel.toNat : K) = pixel.toNat := hfl.double_natCast (by omega)
  simp only [blendOne, hrow, sub_zero, hfl.single_zero (by decide), hfl.single_one (by decide),
    hfl.double_zero (by decide), hfl.double_one (by decide), zero_mul, one_mul, add_zero, hpixel,
    hpixel']

end Places

section Copies

variable [Field K] [LinearOrder K] [IsStrictOrderedRing K] [FloorRing K] {fl : Rounding K}
variable {img out : Grid UInt8} {r c n : Nat} {x y : K} {row : Between K}

/-- A row of the image, with nothing of the next one. -/
theorem between_copy (hfl : fl.Keeps (2 ^ 24)) (hr : r < 2 ^ 24) :
    Between.of fl img (r : K) = ⟨r, min ((r : Int) + 1) (img.nr - 1), 0⟩ := by
  have hdouble : fl.double (((r : Int) : K)) = r := by simpa using hfl.double_natCast hr
  rw [Between.of, Int.floor_natCast, hdouble, sub_self, hfl.double_zero (by decide)]

/-- A column of its own is copied. -/
theorem oneColumn_copy (hfl : fl.Keeps (2 ^ 24)) (hr : r < img.nr) (hr' : r < out.nr)
    (hc : c < img.nc) (hc' : c < out.nc) (hrows : img.nr ≤ 2 ^ 24) (hcols : img.nc ≤ 2 ^ 24)
    (hx : x = ((c - unit img.nc : Int) : K)) :
    oneColumn fl img (.of fl img (r : K)) ((unit img.nc : Int) : K) r c
        (x, made out (done r c) img.cell) =
      .ok ((c : K), made out (done r (c + 1)) img.cell) := by
  have hlr : fl.single (fl.double ((c : K) - fl.double (((c : Int)) : K))) = 0 := by
    have hdouble : fl.double (((c : Int) : K)) = c := by
      simpa using hfl.double_natCast (hc.trans_le hcols)
    rw [hdouble, sub_self, hfl.double_zero (by decide), hfl.single_zero (by decide)]
  have hleft : 0 ≤ (c : Int) ∧ (c : Int) < img.nc := by omega
  have hright := next_inside hleft
  have htop : 0 ≤ (r : Int) ∧ (r : Int) < img.nr := by omega
  have hbottom := next_inside htop
  rw [between_copy hfl (by omega), oneColumn]
  simp only [double_step hfl hc hcols hx, Int.floor_natCast, hlr]
  rw [Grid.read_of_inRange ⟨htop, hleft⟩, ok_bind, Grid.read_of_inRange ⟨htop, hright⟩, ok_bind,
    Grid.read_of_inRange ⟨hbottom, hleft⟩, ok_bind, Grid.read_of_inRange ⟨hbottom, hright⟩, ok_bind,
    blendOne_copy hfl rfl, assignPixel_eq (natCast_bounds _), ok_bind, pixelOf_natCast]
  exact congrArg (· >>= _) (write_next ⟨by omega, by omega⟩ hc')

/-- Four columns are copied, and are there to be copied. -/
theorem fourColumns_copy (hfl : fl.Keeps (2 ^ 24)) (hr : r < img.nr) (hr' : r < out.nr)
    (hrows : img.nr ≤ 2 ^ 24) (hcols : img.nc ≤ 2 ^ 24) (hnc : out.nc = img.nc) {x : Simd4f K}
    (hx : ∀ lane : Fin 4, x lane = (((c + lane.val : Nat) * unit img.nc : Int) : K))
    (hmore : truncate (x (Fin.last 3)) + 1 < img.nc) :
    c + 4 < img.nc ∧ fourColumns fl img (.of fl img (r : K)) r c x (fun lane => truncate (x lane))
        (fun lane => truncate (x lane) + 1) (made out (done r c) img.cell) =
      .ok (made out (done r (c + 4)) img.cell) := by
  have htruncate : ∀ k : Nat, truncate ((k : Nat) : K) = k := fun k => by
    rw [truncate_of_nonneg (Nat.cast_nonneg _), Int.floor_natCast]
  obtain ⟨hunit, hone⟩ | ⟨hunit, hone⟩ := unit_cases img.nc
  · -- one column is too few
    have hzero : x (Fin.last 3) = ((0 : Nat) : K) := by simp [hx, hunit]
    rw [hzero, htruncate] at hmore
    omega
  have hlanes : ∀ lane : Fin 4, x lane = ((c + lane.val : Nat) : K) := fun lane => by
    rw [hx lane, hunit, mul_one, Int.cast_natCast]
  simp only [hlanes, htruncate] at hmore ⊢
  have hlast : c + 4 < img.nc := by
    simp only [Fin.val_last] at hmore
    omega
  refine ⟨hlast, ?_⟩
  have hlr : ∀ lane : Fin 4,
      fl.single (x lane - fl.single (((c + lane.val : Nat) : Int) : K)) = 0 := fun lane => by
    have hsingle := hfl.single_natCast (m := c + lane.val) (by omega)
    rw [Int.cast_natCast, hsingle, hlanes lane, sub_self, hfl.single_zero (by decide)]
  rw [between_copy hfl (by omega)]
  have htop : 0 ≤ (r : Int) ∧ (r : Int) < img.nr := by omega
  refine fourColumns_run ⟨by omega, by omega⟩ (by omega) htop (next_inside htop)
    (fun lane => ⟨by omega, by omega⟩) fun lane => ?_
  rw [blend_copy hfl rfl (hlr lane) rfl, toUChar_eq (natCast_bounds _), pixelOf_natCast]

/-- A row is copied, four columns at a time and then one by one. -/
theorem resizeRow_copy (hfl : fl.Keeps (2 ^ 24)) (hn : img.nc < 4 * n) (hr : r < img.nr)
    (hr' : r < out.nr) (himg : img.nc ≠ 0) (hrows : img.nr ≤ 2 ^ 24) (hcols : img.nc ≤ 2 ^ 24)
    (hnc : out.nc = img.nc) (hy : y = ((r - unit img.nr : Int) : K)) :
    resizeRow fl n img ((unit img.nc : Int) : K) ((unit img.nr : Int) : K) r (y, out) =
      .ok (some ((r : K), made out (done r out.nc) img.cell)) := by
  have hunit := unit_cases img.nc
  rw [← double_step hfl hr hrows hy]
  -- the places of the next four columns are floats: the number of the first is a multiple of four
  refine resizeRow_run
    (fun c x => 4 ∣ c ∧ c < img.nc ∧ ∀ lane : Fin 4, nextLanes fl ((unit img.nc : Int) : K) x lane =
      (((c + lane.val : Nat) * unit img.nc : Int) : K))
    (fun c x => c < img.nc → x = ((c - unit img.nc : Int) : K)) (by omega)
    ⟨by omega, by omega, fun lane => ?_⟩ (fun c _ hc => ?_) (fun c x _ hx hmore => ?_)
    fun c x hc hx => ?_
  · have hplace := nextLanes_copy hfl (firstLanes_copy hfl img.nc lane) (by omega)
    simpa using hplace
  · have hplace : fl.double ((c : K) * ((unit img.nc : Int) : K)) = (c : Int) :=
      hfl.double_eq (by
        rw [← Int.cast_natCast c, ← Int.cast_mul, mul_unit (by omega)]) (by omega)
    rw [hplace]
    exact hfl.double_eq (by push_cast; ring) (by omega)
  · rw [double_step hfl hr hrows hy]
    obtain ⟨hdvd, hlt, hlanes⟩ := hx
    obtain ⟨hlast, hrun⟩ := fourColumns_copy hfl hr hr' hrows hcols hnc hlanes hmore
    refine ⟨by omega, ⟨by omega, hlast, fun lane => ?_⟩, hrun⟩
    have hplace := nextLanes_copy hfl (hlanes lane) (by omega)
    rw [hplace]
    push_cast
    ring
  · rw [double_step hfl hr hrows hy]
    refine ⟨(c : K), fun hlt => ?_, oneColumn_copy hfl hr hr' (by omega) hc hrows hcols
      (hx (by omega))⟩
    have hmany : unit img.nc = 1 := by omega
    rw [hmany]
    push_cast
    ring

/-- **An image of the same size is a copy**, however the numbers are rounded, as long as integers
below `2 ^ 24` are kept. -/
theorem resizeImage_copy (hfl : fl.Keeps (2 ^ 24)) (hn : img.nc < 4 * n) (hnr : out.nr = img.nr)
    (hnc : out.nc = img.nc) (hrows : img.nr ≤ 2 ^ 24) (hcols : img.nc ≤ 2 ^ 24) :
    ∃ out', resizeImage fl n img out = .ok (some out') ∧ out'.nr = img.nr ∧ out'.nc = img.nc ∧
      ∀ r c, img.InRange r c → out'.cell r c = img.cell r c := by
  by_cases hempty : img.nr * img.nc = 0
  · refine ⟨out, if_pos (Or.inr hempty), hnr, hnc, fun r c hin => ?_⟩
    exact absurd hempty (Grid.size_ne_zero hin)
  obtain ⟨himg, himg'⟩ := Nat.mul_ne_zero_iff.mp hempty
  have hyScale : scale fl img.nr out.nr = ((unit img.nr : Int) : K) := by
    rw [hnr, scale_self hfl himg hrows]
  have hxScale : scale fl img.nc out.nc = ((unit img.nc : Int) : K) := by
    rw [hnc, scale_self hfl himg' hcols]
  have hunit := unit_cases img.nr
  have hrun : resizeImage fl n img out = .ok (some (made out (above out.nc out.nr) img.cell)) :=
    resizeImage_run (fun r y => r < img.nr → y = ((r - unit img.nr : Int) : K))
      (by rwa [hnr, hnc]) hempty (fun _ => by rw [hyScale]; push_cast; ring)
      fun r y hr hy out' hnr' hnc' => by
        rw [hnr] at hr
        have hplace := double_step hfl hr hrows (hy hr)
        rw [hyScale, hxScale, hplace]
        refine ⟨fun hlt => ?_,
          resizeRow_copy hfl hn hr (by omega) himg' hrows hcols (by omega) (hy hr)⟩
        have hmany : unit img.nr = 1 := by omega
        rw [hmany]
        push_cast
        ring
  refine ⟨_, hrun, hnr, hnc, fun r c hin => ?_⟩
  exact made_cell ⟨by rw [hnr]; exact hin.1, by rw [hnc]; exact hin.2⟩

end Copies

/-- Two by two pixels, with the floats there are. -/
theorem resizeImage_copy_twoByTwo :
    (Rounding.ieee.Keeps (2 ^ 24) ∧ 2 < 4 * 1 ∧ 2 ≤ 2 ^ 24) ∧
    ∃ out', resizeImage .ieee 1 ⟨2, 2, fun r c => .ofNat (10 * r + c).toNat⟩
        ⟨2, 2, fun _ _ => 0⟩ = .ok (some out') ∧ out'.nr = 2 ∧ out'.nc = 2 ∧
      ∀ r c, (⟨2, 2, fun r c => .ofNat (10 * r + c).toNat⟩ : Grid UInt8).InRange r c →
        out'.cell r c = .ofNat (10 * r + c).toNat :=
  ⟨⟨Rounding.ieee_keeps, by decide, by decide⟩,
    resizeImage_copy Rounding.ieee_keeps (by decide) rfl rfl (by decide) (by decide)⟩

end DlibAndroid
