import DlibAndroid.Detector.Fhog
import DlibAndroid.Detector.FilteringSpec
import DlibAndroid.Lib.Tent
import Mathlib.Algebra.Order.Archimedean.Real.Basic
import Mathlib.Analysis.Real.Sqrt

/-!
# Where the pixels vote

`populate`, in exact arithmetic. Every pixel of the image that has four neighbours votes for one of
18 directions, with the length of its gradient, and the vote is cut in four for the cells around the
pixel. The code does this twice, for eight pixels at once and for one, and the two differ in what
they do: the lanes count the cells from the border, so that a conversion that cuts off does what the
floor does otherwise; they multiply in another order; and they look for the direction with two
comparisons where the plain loop has an `else`. Without rounding all this comes to the same
(`voteLane_eq`), in the same order (`populate_row`).

A vote is then four numbers added to the histograms. How a pixel shares it out is `voteAt`, which
says with two tents what the code says with floors and what is left of them (`singles_eq`). No vote
leaves the histograms, because they have a cell more on every side (`floor_place`), and what is in
them in the end is a sum over the pixels (`populate_eq`). The four parts make up the whole, so
nothing is lost on the way (`populate_total`).

With the rounding of `float` none of the three is quite true. A block of eight and a pixel of its
own give votes that differ in the last digit, and four parts of a vote add up to a little less or
more.
-/

set_option autoImplicit false

namespace DlibAndroid

open CCore Finset

variable {K : Type}

/-! ## The order of the pixels -/

section Order

/-- The eight pixels from `c` on. -/
def octet (c : Int) : List Int := (List.finRange 8).map fun lane => c + (lane.val : Int)

theorem octet_eq (c : Int) : octet c = upTo c (c + 7) := by
  have hlength : (c + 7 + 1 - c).toNat = 8 := by omega
  rw [upTo, hlength]
  rfl

/-- The blocks and then the others are all the pixels, in order. -/
theorem flatMap_blocks (first last : Int) :
    (blocks first last).flatMap octet ++ remaining first last = upTo first (last - 1) := by
  have hblocks : ∀ q : Nat,
      ((List.range q).map fun k : Nat => first + 8 * (k : Int)).flatMap octet =
        upTo first (first + 8 * q - 1) := by
    intro q
    induction q with
    | zero => simp [upTo]
    | succ q ih =>
      rw [List.range_succ, List.map_append, List.flatMap_append, ih, List.map_singleton,
        List.flatMap_singleton, octet_eq, Nat.cast_succ]
      have hlast : first + 8 * ((q : Int) + 1) - 1 = first + 8 * q + 7 := by omega
      rw [hlast]
      exact upTo_append (by omega) (by omega)
  rw [blocks, hblocks, remaining]
  rcases le_or_gt first last with hle | hlt
  · exact upTo_append (by omega) (by omega)
  · have hnone : (last - first).toNat = 0 := by omega
    rw [hnone, Nat.zero_div, Nat.cast_zero, mul_zero, add_zero]
    have hempty : upTo first (first - 1) = [] := by simp [upTo]
    rw [hempty, List.nil_append]

end Order

/-! ## One pixel, on its own or not -/

section Snap

variable [Field K] [LinearOrder K]

theorem next_nonneg (grad : Gradient) {best : Best K} (h : 0 ≤ best.dot) (o : Nat) :
    0 ≤ (best.next .exact grad o).dot := by
  simp only [Best.next]
  split
  · rename_i hlt
    exact h.trans hlt.le
  · split
    · rename_i hlt
      exact h.trans hlt.le
    · exact h

/-- The direction is one of the 18. -/
theorem snap_lt (grad : Gradient) : snap (K := K) .exact grad < 18 := by
  have hfold : ∀ os : List Nat, (∀ o ∈ os, o < 9) → ∀ best : Best K, best.o < 18 →
      (os.foldl (Best.next .exact grad) best).o < 18 := by
    intro os
    induction os with
    | nil => exact fun _ _ h => h
    | cons o os ih =>
      intro hos best hbest
      rw [List.foldl_cons]
      refine ih (fun p hp => hos p (List.mem_cons_of_mem _ hp)) _ ?_
      have ho := hos o List.mem_cons_self
      simp only [Best.next]
      split
      · exact ho.trans (by decide)
      · split
        · exact Nat.add_lt_add_right ho 9
        · exact hbest
  exact hfold _ (fun o ho => List.mem_range.mp ho) _ (Nat.zero_lt_succ 17)

variable [IsStrictOrderedRing K]

/-- There is no way to be greater with either sign. -/
theorem selectNext_eq (grad : Gradient) {best : Best K} (h : 0 ≤ best.dot) (o : Nat) :
    best.selectNext .exact grad o = best.next .exact grad o := by
  simp only [Best.selectNext, Best.next, Rounding.exact_single]
  by_cases hpos : best.dot < dot .exact o grad
  · have hneg : ¬ (dot .exact o grad : K) < -dot .exact o grad := by
      have hdot := h.trans_lt hpos
      linarith
    simp [hpos, hneg]
  · simp only [hpos, if_false, mul_neg, mul_one]
    split <;> rfl

theorem snapLane_eq (grad : Gradient) :
    snapLane (K := K) .exact grad = snap (K := K) .exact grad := by
  have hfold : ∀ (os : List Nat) (best : Best K), 0 ≤ best.dot →
      os.foldl (Best.selectNext .exact grad) best = os.foldl (Best.next .exact grad) best := by
    intro os
    induction os with
    | nil => exact fun _ _ => rfl
    | cons o os ih =>
      intro best h
      rw [List.foldl_cons, List.foldl_cons, selectNext_eq grad h]
      exact ih _ (next_nonneg grad h o)
  rw [snapLane, snap, hfold _ _ le_rfl]

end Snap

/-! ## Gradients -/

/-- What `getGradient` gives. -/
def gradientAt (img : Grid UInt8) (r c : Int) : Gradient :=
  ⟨(img.cell r (c + 1)).toNat - (img.cell r (c - 1)).toNat,
    (img.cell (r + 1) c).toNat - (img.cell (r - 1) c).toNat⟩

/-- A pixel that has others on all sides. -/
def Interior (img : Grid UInt8) (r c : Int) : Prop :=
  (1 ≤ r ∧ r + 1 < img.nr) ∧ 1 ≤ c ∧ c + 1 < img.nc

section Gradients

variable {img : Grid UInt8} {r c : Int}

theorem intensity_eq (h : img.InRange r c) : intensity img r c = .ok (img.cell r c).toNat := by
  rw [intensity, Grid.read_of_inRange h]
  rfl

theorem getGradient_eq (h : Interior img r c) : getGradient img r c = .ok (gradientAt img r c) := by
  obtain ⟨⟨hr, hr'⟩, hc, hc'⟩ := h
  rw [getGradient, intensity_eq ⟨by omega, by omega⟩, ok_bind, intensity_eq ⟨by omega, by omega⟩,
    ok_bind, intensity_eq ⟨by omega, by omega⟩, ok_bind, intensity_eq ⟨by omega, by omega⟩]
  rfl

/-- Eight gradients are those of the eight pixels. -/
theorem getGradients_eq (h : Interior img r c) (h' : Interior img r (c + 7)) :
    getGradients img r c = .ok fun lane => gradientAt img r (c + (lane.val : Int)) := by
  obtain ⟨⟨hr, hr'⟩, hc, hc'⟩ := h
  obtain ⟨-, -, hlast⟩ := h'
  have hload : ∀ r' c', img.InRange r' c' → img.InRange r' (c' + 7) → intensities img r' c' =
      .ok fun lane => (img.cell r' (c' + (lane.val : Int))).toNat := fun r' c' hin hin' =>
    if_pos ⟨hin, hin'⟩
  rw [getGradients, hload _ _ ⟨by omega, by omega⟩ ⟨by omega, by omega⟩, ok_bind,
    hload _ _ ⟨by omega, by omega⟩ ⟨by omega, by omega⟩, ok_bind,
    hload _ _ ⟨by omega, by omega⟩ ⟨by omega, by omega⟩, ok_bind,
    hload _ _ ⟨by omega, by omega⟩ ⟨by omega, by omega⟩, ok_bind]
  refine congrArg Except.ok (funext fun lane => ?_)
  have hright : c + (lane.val : Int) + 1 = c + 1 + lane.val := add_right_comm _ _ _
  have hleft : c + (lane.val : Int) - 1 = c - 1 + lane.val := add_sub_right_comm _ _ _
  rw [gradientAt, hright, hleft]

end Gradients

/-! ## Eight pixels -/

/-- Where a row or a column is among the cells, if nothing is rounded. -/
def place [Field K] (cellSize y : Int) : K := center .exact y cellSize

theorem place_eq [Field K] (cellSize y : Int) :
    (place cellSize y : K) = (y + 1 / 2) / cellSize - 1 / 2 := rfl

section Rows

variable [Field K] [LinearOrder K] [FloorRing K]
variable {sqrt : K → K} {img : Grid UInt8} {cellSize x y : Int} {row : Vertical K} {hist : Hist K}

variable [IsStrictOrderedRing K]

/-- Without rounding, a lane votes like the pixel would on its own. -/
theorem voteLane_eq (hcell : 0 < cellSize) (hx : 1 ≤ x) {grads : Fin 8 → Gradient} (lane : Fin 8)
    (hgrad : getGradient img y (x + (lane.val : Int)) = .ok (grads lane)) :
    voteLane .exact sqrt cellSize row x grads lane hist =
      votePixel .exact sqrt img cellSize row y (x + (lane.val : Int)) hist := by
  have hcell' : (0 : K) < cellSize := Int.cast_pos.mpr hcell
  let xp : K := place cellSize (x + (lane.val : Int))
  -- the lanes count from the border
  have hxp : (((x + (lane.val : Int) : Int) : K) + 1 / 2) / cellSize + 1 / 2 = xp + 1 := by
    simp only [xp, place_eq]
    ring
  have hnonneg : 0 ≤ xp + 1 := by
    have hpos : (0 : K) < ((x + (lane.val : Int) : Int) : K) := Int.cast_pos.mpr (by omega)
    rw [← hxp]
    positivity
  have hfloor : truncate (xp + 1) = ⌊xp⌋ + 1 := by
    rw [truncate_of_nonneg hnonneg, Int.floor_add_one]
  have hfrac : xp + 1 - ((⌊xp⌋ + 1 : Int) : K) = xp - ⌊xp⌋ := by
    rw [Int.cast_add, Int.cast_one, add_sub_add_right_eq_sub]
  have hcenter : center .exact ((x + (lane.val : Int) : Int) : K) cellSize = xp := rfl
  rw [voteLane, votePixel, hgrad, ok_bind]
  simp only [Rounding.exact_single, Rounding.exact_double, hcenter, hxp, hfloor, hfrac, snapLane_eq,
    ← mul_assoc]

/-- And so does a block, like its eight pixels one after the other. -/
theorem voteBlock_eq (hcell : 0 < cellSize) (h : Interior img y x) (h' : Interior img y (x + 7)) :
    voteBlock .exact sqrt img cellSize row y x hist =
      forEach (octet x) (votePixel .exact sqrt img cellSize row y) hist := by
  rw [voteBlock, getGradients_eq h h', ok_bind, octet, forEach_map]
  refine forEach_congr fun lane _ hist => voteLane_eq hcell h.2.1 lane (getGradient_eq ?_)
  obtain ⟨hrow, hc, hc'⟩ := h
  exact ⟨hrow, by omega, by have := h'.2.2; omega⟩

/-- **Eight at a time or one by one**, a row votes the same, in the same order, if nothing is
rounded. -/
theorem populate_row (hcell : 0 < cellSize) {visibleNc : Int} (hy : 1 ≤ y) (hy' : y + 1 < img.nr)
    (hvisible : visibleNc < img.nc) :
    (forEach (blocks 1 visibleNc) (voteBlock .exact sqrt img cellSize row y) hist >>=
        forEach (remaining 1 visibleNc) (votePixel .exact sqrt img cellSize row y)) =
      forEach (upTo 1 (visibleNc - 1)) (votePixel .exact sqrt img cellSize row y) hist := by
  rw [← flatMap_blocks, forEach_append, forEach_flatMap]
  refine congrArg (· >>= _) (forEach_congr fun x hx hist => ?_)
  obtain ⟨hfirst, hlast, -⟩ := mem_blocks.mp hx
  exact voteBlock_eq hcell ⟨⟨hy, hy'⟩, by omega, by omega⟩ ⟨⟨hy, hy'⟩, by omega, by omega⟩

end Rows

/-! ## What they vote for -/

section Sums

variable [Field K]

/-- What is added when `v` goes to one direction of one cell. -/
def single (r c : Int) (o : Nat) (v : K) : Int → Int → Nat → K := fun r' c' o' =>
  if (r' = r ∧ c' = c) ∧ o' = o then v else 0

variable {r c : Int} {o : Nat} {hist : Hist K}

/-- A histogram that has room for so many cells, and one more all around. -/
def HasRoom (cellsNr cellsNc : Int) (hist : Hist K) : Prop :=
  (hist.nr : Int) = cellsNr + 2 ∧ (hist.nc : Int) = cellsNc + 2

variable {cellsNr cellsNc : Int}

theorem addVote_eq (hroom : HasRoom cellsNr cellsNc hist) (hr : 0 ≤ r ∧ r < cellsNr + 2)
    (hc : 0 ≤ c ∧ c < cellsNc + 2) (ho : o < 18) (v : K) :
    ∃ hist', addVote .exact r c o v hist = .ok hist' ∧ HasRoom cellsNr cellsNc hist' ∧
      hist'.cell = hist.cell + single r c o v := by
  have hin : hist.InRange r c := by
    rw [Grid.InRange, hroom.1, hroom.2]
    exact ⟨hr, hc⟩
  refine ⟨hist.paint (fun r' c' => r' = r ∧ c' = c) fun _ _ _ =>
      Function.update (hist.cell r c) o (hist.cell r c o + v),
    by rw [addVote, if_pos ho, Grid.read_of_inRange hin, ok_bind, Grid.write_of_inRange hin,
      Rounding.exact_single],
    hroom, funext fun r' => funext fun c' => funext fun o' => ?_⟩
  simp only [Grid.paint_cell, Pi.add_apply, single, decide_eq_true_eq]
  by_cases hcell : r' = r ∧ c' = c
  · obtain ⟨rfl, rfl⟩ := hcell
    by_cases ho' : o' = o
    · simp [ho']
    · simp [ho']
  · simp [hcell]

/-- Four votes in a row, to four cells in a square. -/
theorem addVotes_eq (hroom : HasRoom cellsNr cellsNc hist) (hr : 0 ≤ r ∧ r < cellsNr + 1)
    (hc : 0 ≤ c ∧ c < cellsNc + 1) (ho : o < 18) (v₁ v₂ v₃ v₄ : K) :
    ∃ hist', (addVote .exact r c o v₁ hist >>= fun hist =>
        addVote .exact (r + 1) c o v₂ hist >>= fun hist =>
        addVote .exact r (c + 1) o v₃ hist >>= addVote .exact (r + 1) (c + 1) o v₄) = .ok hist' ∧
      HasRoom cellsNr cellsNc hist' ∧
      hist'.cell = hist.cell + (single r c o v₁ + single (r + 1) c o v₂ + single r (c + 1) o v₃ +
        single (r + 1) (c + 1) o v₄) := by
  obtain ⟨h₁, hrun₁, hroom₁, hcell₁⟩ := addVote_eq hroom (r := r) (c := c) (by omega) (by omega)
    ho v₁
  obtain ⟨h₂, hrun₂, hroom₂, hcell₂⟩ := addVote_eq hroom₁ (r := r + 1) (c := c) (by omega)
    (by omega) ho v₂
  obtain ⟨h₃, hrun₃, hroom₃, hcell₃⟩ := addVote_eq hroom₂ (r := r) (c := c + 1) (by omega)
    (by omega) ho v₃
  obtain ⟨h₄, hrun₄, hroom₄, hcell₄⟩ := addVote_eq hroom₃ (r := r + 1) (c := c + 1) (by omega)
    (by omega) ho v₄
  refine ⟨h₄, by rw [hrun₁, ok_bind, hrun₂, ok_bind, hrun₃, ok_bind, hrun₄], hroom₄, ?_⟩
  rw [hcell₄, hcell₃, hcell₂, hcell₁, add_assoc, add_assoc, add_assoc, add_assoc, add_assoc]

/-- All that is in the histograms, those of the border with the others. -/
def total (cellsNr cellsNc : Int) (votes : Int → Int → Nat → K) : K :=
  ∑ r ∈ ints 0 (cellsNr + 1), ∑ c ∈ ints 0 (cellsNc + 1), ∑ o ∈ range 18, votes r c o

theorem total_sum {κ : Type} (s : Finset κ) (votes : κ → Int → Int → Nat → K) :
    total cellsNr cellsNc (fun r c o => ∑ k ∈ s, votes k r c o) =
      ∑ k ∈ s, total cellsNr cellsNc (votes k) := by
  unfold total
  rw [sum_comm (s := s)]
  refine sum_congr rfl fun r _ => ?_
  rw [sum_comm (s := s)]
  exact sum_congr rfl fun c _ => sum_comm

variable [LinearOrder K]

/-- The vote of a pixel. The cells count from the border. -/
def voteAt (sqrt : K → K) (img : Grid UInt8) (cellSize y x r c : Int) (o : Nat) : K :=
  if o = snap (K := K) .exact (gradientAt img y x) then
    tent (place cellSize y) (r - 1) * tent (place cellSize x) (c - 1) *
      sqrt (gradientAt img y x).len
  else 0

variable [IsStrictOrderedRing K] [FloorRing K]

theorem floor_place {cellSize y n : Int} (hcell : 0 < cellSize) (hy : 0 ≤ y)
    (hy' : y < n * cellSize) : -1 ≤ ⌊(place cellSize y : K)⌋ ∧ ⌊(place cellSize y : K)⌋ < n := by
  have hcell' : (0 : K) < cellSize := Int.cast_pos.mpr hcell
  have hy₀ : (0 : K) ≤ y := Int.cast_nonneg hy
  constructor
  · rw [Int.le_floor, place_eq]
    have hpos : 0 ≤ ((y : K) + 1 / 2) / cellSize := by positivity
    push_cast
    linarith
  · rw [Int.floor_lt, place_eq]
    have hlt : (y : K) + 1 ≤ n * cellSize := by exact_mod_cast hy'
    have hdiv : ((y : K) + 1 / 2) / cellSize < n := by
      rw [div_lt_iff₀ hcell']
      linarith
    linarith

/-- Four cells share a vote with the weights that are left of the floors, which are those of two
tents. -/
theorem singles_eq (p q v : K) (s : Nat) (r c : Int) (o : Nat) :
    (single (⌊p⌋ + 1) (⌊q⌋ + 1) s ((1 - (p - ⌊p⌋)) * (1 - (q - ⌊q⌋)) * v) +
      single (⌊p⌋ + 1 + 1) (⌊q⌋ + 1) s ((p - ⌊p⌋) * (1 - (q - ⌊q⌋)) * v) +
      single (⌊p⌋ + 1) (⌊q⌋ + 1 + 1) s ((1 - (p - ⌊p⌋)) * (q - ⌊q⌋) * v) +
      single (⌊p⌋ + 1 + 1) (⌊q⌋ + 1 + 1) s ((p - ⌊p⌋) * (q - ⌊q⌋) * v)) r c o =
      if o = s then tent p (r - 1) * tent q (c - 1) * v else 0 := by
  have hshift : ∀ i j : Int, i - 1 = j ↔ i = j + 1 := fun i j => sub_eq_iff_eq_add
  simp only [Pi.add_apply, single, tent_eq, hshift]
  by_cases ho : o = s
  · have hne : ∀ i : Int, i + 1 + 1 ≠ i + 1 := fun i => by omega
    by_cases hr : r = ⌊p⌋ + 1
    · by_cases hc : c = ⌊q⌋ + 1
      · simp [ho, hr, hc]
      · by_cases hc' : c = ⌊q⌋ + 1 + 1
        · simp [ho, hr, hc']
        · simp [ho, hr, hc, hc']
    · by_cases hr' : r = ⌊p⌋ + 1 + 1
      · by_cases hc : c = ⌊q⌋ + 1
        · simp [ho, hr', hc]
        · by_cases hc' : c = ⌊q⌋ + 1 + 1
          · simp [ho, hr', hc']
          · simp [ho, hr', hc, hc']
      · simp [ho, hr, hr']
  · simp [ho]

variable {sqrt : K → K} {img : Grid UInt8} {cellSize x y visibleNr visibleNc : Int}

/-- A pixel votes as `voteAt` says, and never outside the histograms. -/
theorem votePixel_eq (hcell : 0 < cellSize) (h : Interior img y x) (hy : y < cellsNr * cellSize)
    (hx : x < cellsNc * cellSize) (hroom : HasRoom cellsNr cellsNc hist) :
    ∃ hist', votePixel .exact sqrt img cellSize (.of .exact cellSize y) y x hist = .ok hist' ∧
      HasRoom cellsNr cellsNc hist' ∧
      hist'.cell = hist.cell + voteAt sqrt img cellSize y x := by
  obtain ⟨⟨hy₁, -⟩, hx₁, -⟩ := id h
  have hp := floor_place (K := K) hcell (by omega) hy
  have hq := floor_place (K := K) hcell (by omega) hx
  have hvotes : voteAt sqrt img cellSize y x = _ := funext fun r => funext fun c => funext fun o =>
    (singles_eq (place cellSize y) (place cellSize x) (sqrt (gradientAt img y x).len)
      (snap (K := K) .exact (gradientAt img y x)) r c o).symm
  have hr : 0 ≤ ⌊(place cellSize y : K)⌋ + 1 ∧ ⌊(place cellSize y : K)⌋ + 1 < cellsNr + 1 := by
    omega
  have hc : 0 ≤ ⌊(place cellSize x : K)⌋ + 1 ∧ ⌊(place cellSize x : K)⌋ + 1 < cellsNc + 1 := by
    omega
  -- four votes, to the cells around the place
  rw [votePixel, getGradient_eq h, ok_bind, hvotes]
  exact addVotes_eq hroom hr hc (snap_lt _) _ _ _ _

/-- What the pixels that are looked at vote for, together. -/
def histogram (sqrt : K → K) (img : Grid UInt8) (cellSize visibleNr visibleNc r c : Int) (o : Nat) :
    K :=
  ∑ y ∈ ints 1 (visibleNr - 1), ∑ x ∈ ints 1 (visibleNc - 1), voteAt sqrt img cellSize y x r c o

theorem sum_upTo {M : Type} [AddCommMonoid M] (first last : Int) (f : Int → M) :
    ((upTo first last).map f).sum = ∑ i ∈ ints first last, f i := by
  have hset : (upTo first last).toFinset = ints first last := by
    ext i
    rw [List.mem_toFinset, mem_upTo, mem_ints]
  rw [← hset, List.sum_toFinset f (nodup_upTo first last)]

variable (sqrt) in
/-- **The histograms are a sum over the pixels**, in exact arithmetic, and no vote leaves them. -/
theorem populate_eq (hcell : 0 < cellSize) (hnr : visibleNr < img.nr) (hnc : visibleNc < img.nc)
    (hvisibleNr : visibleNr ≤ cellsNr * cellSize) (hvisibleNc : visibleNc ≤ cellsNc * cellSize)
    (hroom : HasRoom cellsNr cellsNc hist) (hzero : ∀ r c o, hist.cell r c o = 0) :
    ∃ hist', populate .exact sqrt img cellSize visibleNr visibleNc hist = .ok hist' ∧
      HasRoom cellsNr cellsNc hist' ∧
      hist'.cell = histogram sqrt img cellSize visibleNr visibleNc := by
  have hpixel : ∀ y ∈ upTo 1 (visibleNr - 1), ∀ x ∈ upTo 1 (visibleNc - 1), ∀ hist : Hist K,
      HasRoom cellsNr cellsNc hist → ∃ hist',
        votePixel .exact sqrt img cellSize (.of .exact cellSize y) y x hist = .ok hist' ∧
        HasRoom cellsNr cellsNc hist' ∧
        hist'.cell = hist.cell + voteAt sqrt img cellSize y x := by
    intro y hy x hx hist hroom
    rw [mem_upTo] at hy hx
    exact votePixel_eq hcell ⟨⟨by omega, by omega⟩, by omega, by omega⟩ (by omega) (by omega) hroom
  have hrow : ∀ y ∈ upTo 1 (visibleNr - 1), ∀ hist : Hist K, HasRoom cellsNr cellsNc hist →
      ∃ hist', (forEach (blocks 1 visibleNc)
            (voteBlock .exact sqrt img cellSize (.of .exact cellSize y) y) hist >>=
          forEach (remaining 1 visibleNc)
            (votePixel .exact sqrt img cellSize (.of .exact cellSize y) y)) = .ok hist' ∧
        HasRoom cellsNr cellsNc hist' ∧ hist'.cell = hist.cell +
          ((upTo 1 (visibleNc - 1)).map fun x => voteAt sqrt img cellSize y x).sum := by
    intro y hy hist hroom
    obtain ⟨hy₁, hy₂⟩ := mem_upTo.mp hy
    rw [populate_row hcell hy₁ (by omega) hnc]
    exact forEach_adds_list Grid.cell (hpixel y hy) hroom
  obtain ⟨hist', hrun, hroom', hsum⟩ := forEach_adds_list Grid.cell hrow hroom
  refine ⟨hist', hrun, hroom', ?_⟩
  funext r c o
  simp only [hsum, sum_upTo, Pi.add_apply, hzero, zero_add, Finset.sum_apply, histogram]

/-- The cells that share a vote get all of it. -/
theorem sum_cells {p : K} {n : Int} (h : -1 ≤ ⌊p⌋ ∧ ⌊p⌋ < n) :
    ∑ r ∈ ints 0 (n + 1), tent p (r - 1) = 1 := by
  have hlt : p < n := Int.floor_lt.mp h.2
  simp only [tent_sub_one]
  refine sum_tent ?_ ?_
  · rw [Int.floor_add_one]
    omega
  · push_cast
    linarith

/-- A pixel gives as much as its gradient is long. -/
theorem total_voteAt (hcell : 0 < cellSize) (hy : 0 ≤ y ∧ y < cellsNr * cellSize)
    (hx : 0 ≤ x ∧ x < cellsNc * cellSize) :
    total cellsNr cellsNc (voteAt sqrt img cellSize y x) = sqrt (gradientAt img y x).len := by
  have hrows := sum_cells (floor_place (K := K) hcell hy.1 hy.2)
  have hcols := sum_cells (floor_place (K := K) hcell hx.1 hx.2)
  have hdirection : ∀ r c, ∑ o ∈ range 18, voteAt sqrt img cellSize y x r c o =
      tent (place cellSize y) (r - 1) * tent (place cellSize x) (c - 1) *
        sqrt (gradientAt img y x).len := by
    intro r c
    simp only [voteAt]
    rw [sum_ite_eq' (range 18), if_pos (mem_range.mpr (snap_lt _))]
  simp only [total, hdirection, ← sum_mul, ← mul_sum, hrows, hcols, mul_one, one_mul]

/-- **No vote is lost**, in exact arithmetic: what is in the histograms in the end is what the
gradients of the pixels are long, though a vote is cut in four and some go to the border. -/
theorem populate_total (hcell : 0 < cellSize) (hnr : visibleNr < img.nr) (hnc : visibleNc < img.nc)
    (hvisibleNr : visibleNr ≤ cellsNr * cellSize) (hvisibleNc : visibleNc ≤ cellsNc * cellSize)
    (hroom : HasRoom cellsNr cellsNc hist) (hzero : ∀ r c o, hist.cell r c o = 0) :
    ∃ hist', populate .exact sqrt img cellSize visibleNr visibleNc hist = .ok hist' ∧
      HasRoom cellsNr cellsNc hist' ∧ total cellsNr cellsNc hist'.cell =
        ∑ y ∈ ints 1 (visibleNr - 1), ∑ x ∈ ints 1 (visibleNc - 1),
          sqrt (gradientAt img y x).len := by
  obtain ⟨hist', hrun, hroom', hcells⟩ := populate_eq sqrt hcell hnr hnc hvisibleNr hvisibleNc
    hroom hzero
  refine ⟨hist', hrun, hroom', ?_⟩
  -- the sums are exchanged, and every pixel gives its length
  have hhistogram : hist'.cell = fun r c o => ∑ y ∈ ints 1 (visibleNr - 1),
      ∑ x ∈ ints 1 (visibleNc - 1), voteAt sqrt img cellSize y x r c o := hcells
  rw [hhistogram, total_sum]
  refine sum_congr rfl fun y hy => ?_
  rw [total_sum]
  refine sum_congr rfl fun x hx => ?_
  rw [mem_ints] at hy hx
  exact total_voteAt hcell (by omega) (by omega)

end Sums

/-- An image that gets brighter to the right and downwards. -/
def ramp : Grid UInt8 := ⟨6, 6, fun r c => .ofNat (r * c).toNat⟩

theorem populate_total_ramp :
    ∃ hist', populate .exact Real.sqrt ramp 2 5 5 ⟨5, 5, fun _ _ _ => 0⟩ = .ok hist' ∧
      HasRoom 3 3 hist' ∧ total 3 3 hist'.cell =
        ∑ y ∈ ints 1 4, ∑ x ∈ ints 1 4, Real.sqrt (gradientAt ramp y x).len :=
  populate_total (by decide) (by decide) (by decide) (by decide) (by decide) ⟨rfl, rfl⟩
    fun _ _ _ => rfl

end DlibAndroid
