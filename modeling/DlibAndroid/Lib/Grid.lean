import DlibAndroid.Lib.Exec
import Mathlib.Algebra.BigOperators.Group.Finset.Basic

/-!
# Grids, and the loops that fill them

A `Grid` is a rectangular array of cells, read and written one cell at a time, with an access
outside it being a fault. What a loop does to a grid is a `paint`: in a region, every cell is
changed according to what it held. `forEach_paint` is the rule for a loop whose rounds paint regions
that have nothing in common.

The other loop there is adds up. `forEach_adds_list` is the rule for it, of anything that is
measured by its sum, and `sum_three` goes with a loop that takes three terms at a time.
-/

set_option autoImplicit false

namespace CCore

open Finset

variable {α ι σ : Type}

/-- Cells `0 ≤ r < nr`, `0 ≤ c < nc`, with their contents. -/
@[ext] structure Grid (α : Type) where
  nr : Nat
  nc : Nat
  cell : Int → Int → α

namespace Grid

variable {g : Grid α} {r c : Int} {a : α} {R S : Int → Int → Bool} {f : Int → Int → α → α}

def InRange (g : Grid α) (r c : Int) : Prop := (0 ≤ r ∧ r < g.nr) ∧ 0 ≤ c ∧ c < g.nc

instance (g : Grid α) (r c : Int) : Decidable (g.InRange r c) :=
  inferInstanceAs (Decidable (_ ∧ _))

/-- Every cell of the region is changed. -/
def paint (g : Grid α) (R : Int → Int → Bool) (f : Int → Int → α → α) : Grid α :=
  { g with cell := fun r c => if R r c then f r c (g.cell r c) else g.cell r c }

/-- `g[r][c]` -/
def read (g : Grid α) (r c : Int) : Exec α :=
  if g.InRange r c then .ok (g.cell r c) else .error .outOfRange

/-- `g[r][c] = a;` -/
def write (r c : Int) (a : α) (g : Grid α) : Exec (Grid α) :=
  if g.InRange r c then .ok (g.paint (fun r' c' => r' = r ∧ c' = c) fun _ _ _ => a)
  else .error .outOfRange

/-- Of this size; the cells are left alone if it is already, and hold anything if it was not. -/
def setSize (garbage : Int → Int → α) (nr nc : Nat) (g : Grid α) : Grid α :=
  if g.nr = nr ∧ g.nc = nc then g else ⟨nr, nc, garbage⟩

@[simp] theorem paint_nr : (g.paint R f).nr = g.nr := rfl

@[simp] theorem paint_nc : (g.paint R f).nc = g.nc := rfl

@[simp] theorem inRange_paint : (g.paint R f).InRange r c ↔ g.InRange r c := Iff.rfl

theorem paint_cell :
    (g.paint R f).cell r c = if R r c then f r c (g.cell r c) else g.cell r c := rfl

@[simp] theorem setSize_nr (garbage : Int → Int → α) {nr nc : Nat} :
    (g.setSize garbage nr nc).nr = nr := by
  unfold setSize
  split
  · rename_i h
    exact h.1
  · rfl

@[simp] theorem setSize_nc (garbage : Int → Int → α) {nr nc : Nat} :
    (g.setSize garbage nr nc).nc = nc := by
  unfold setSize
  split
  · rename_i h
    exact h.2
  · rfl

theorem setSize_self (garbage : Int → Int → α) : g.setSize garbage g.nr g.nc = g :=
  if_pos ⟨rfl, rfl⟩

theorem read_of_inRange (h : g.InRange r c) : g.read r c = .ok (g.cell r c) := if_pos h

theorem write_of_inRange (h : g.InRange r c) :
    g.write r c a = .ok (g.paint (fun r' c' => r' = r ∧ c' = c) fun _ _ _ => a) := if_pos h

theorem inRange_congr {g' : Grid α} (hnr : g'.nr = g.nr) (hnc : g'.nc = g.nc) :
    g'.InRange r c ↔ g.InRange r c := by
  rw [InRange, InRange, hnr, hnc]

/-- An empty grid has no cells. -/
theorem size_ne_zero (h : g.InRange r c) : g.nr * g.nc ≠ 0 := by
  rw [InRange] at h
  exact Nat.mul_ne_zero (by omega) (by omega)

/-- Two ways to paint that come to the same cell by cell. -/
theorem paint_congr {f' : Int → Int → α → α}
    (h : ∀ r c, (if R r c then f r c (g.cell r c) else g.cell r c) =
      if S r c then f' r c (g.cell r c) else g.cell r c) : g.paint R f = g.paint S f' :=
  Grid.ext rfl rfl (funext fun r => funext fun c => h r c)

/-- Two regions with nothing in common, one after the other. -/
theorem paint_paint (h : ∀ r c, R r c = true → S r c = false) :
    (g.paint R f).paint S f = g.paint (fun r c => R r c || S r c) f := by
  refine Grid.ext rfl rfl (funext fun r => funext fun c => ?_)
  simp only [paint_cell]
  by_cases hR : R r c = true
  · simp [hR, h r c hR]
  · simp [hR]

theorem paint_region (h : ∀ r c, R r c = true ↔ S r c = true) : g.paint R f = g.paint S f :=
  paint_congr fun r c => if_congr (h r c) rfl rfl

theorem paint_none (h : ∀ r c, R r c = false) : g.paint R f = g :=
  Grid.ext rfl rfl (funext fun r => funext fun c => by simp [paint_cell, h r c])

/-- **The painting rule.** A cell says which round changes it, if any does. -/
theorem forEach_paint [DecidableEq ι] {nr nc : Nat} {xs : List ι} {R : ι → Int → Int → Bool}
    {body : ι → Grid α → Exec (Grid α)} (key : Int → Int → ι)
    (hkey : ∀ i ∈ xs, ∀ r c, R i r c = true → key r c = i) (hnodup : xs.Nodup)
    (hbody : ∀ i ∈ xs, ∀ g : Grid α, g.nr = nr → g.nc = nc → body i g = .ok (g.paint (R i) f))
    (hnr : g.nr = nr) (hnc : g.nc = nc) :
    forEach xs body g = .ok (g.paint (fun r c => key r c ∈ xs ∧ R (key r c) r c = true) f) := by
  induction xs generalizing g with
  | nil =>
    rw [paint_none (by simp)]
    rfl
  | cons i xs ih =>
    obtain ⟨hi, hxs⟩ := List.nodup_cons.mp hnodup
    rw [forEach_cons, hbody i List.mem_cons_self g hnr hnc, ok_bind,
      ih (g := g.paint (R i) f) (fun j hj => hkey j (List.mem_cons_of_mem _ hj)) hxs
        (fun j hj => hbody j (List.mem_cons_of_mem _ hj)) hnr hnc, paint_paint]
    · refine congrArg Except.ok (paint_congr fun r c => ?_)
      by_cases hR : R i r c = true
      · simp [hkey i List.mem_cons_self r c hR, hR]
      · by_cases heq : key r c = i
        · simp [heq, hR, hi]
        · simp [heq, hR]
    · intro r c hR
      simp [hkey i List.mem_cons_self r c hR, hi]

end Grid

/-! ## Sums -/

section Sums

variable {M : Type} [AddCommMonoid M]

/-- **A loop that adds up.** What it works on may be more than the sum, and may have to stay in some
state for the loop to be able to go on. -/
theorem forEach_adds_list {is : List ι} {body : ι → σ → Exec σ} {I : σ → Prop} (sum : σ → M)
    {term : ι → M} (h : ∀ i ∈ is, ∀ s, I s → ∃ t, body i s = .ok t ∧ I t ∧ sum t = sum s + term i)
    {s : σ} (hs : I s) :
    ∃ t, forEach is body s = .ok t ∧ I t ∧ sum t = sum s + (is.map term).sum := by
  induction is generalizing s with
  | nil => exact ⟨s, rfl, hs, by rw [List.map_nil, List.sum_nil, add_zero]⟩
  | cons i is ih =>
    obtain ⟨u, hu, hI, hsum⟩ := h i List.mem_cons_self s hs
    obtain ⟨t, ht, hI', hsum'⟩ := ih (fun j hj => h j (List.mem_cons_of_mem _ hj)) hI
    exact ⟨t, by rw [forEach_cons, hu, ok_bind, ht], hI',
      by rw [hsum', hsum, List.map_cons, List.sum_cons, add_assoc]⟩

/-- **A fold that adds up.** -/
theorem foldl_adds (sum : σ → M) {step : σ → Nat → σ} {term : Nat → M}
    (h : ∀ s i, sum (step s i) = sum s + term i) (n : Nat) (s : σ) :
    sum ((List.range n).foldl step s) = sum s + ∑ i ∈ range n, term i := by
  induction n with
  | zero => rw [sum_range_zero, add_zero, List.range_zero, List.foldl_nil]
  | succ n ih =>
    rw [List.range_succ, List.foldl_append, List.foldl_cons, List.foldl_nil, h, ih, sum_range_succ,
      add_assoc]

/-- Three terms at a time. -/
theorem sum_three (term : Nat → M) (q : Nat) :
    ∑ k ∈ range q, (term (3 * k) + (term (3 * k + 1) + term (3 * k + 2))) =
      ∑ k ∈ range (3 * q), term k := by
  induction q with
  | zero => rfl
  | succ q ih =>
    rw [sum_range_succ, ih, Nat.mul_succ, sum_range_succ, sum_range_succ, sum_range_succ,
      add_assoc, add_assoc]

/-- Three terms at a time, and then those that are left. -/
theorem sum_three_rest (term : Nat → M) (n : Nat) :
    ∑ k ∈ range (n / 3), (term (3 * k) + (term (3 * k + 1) + term (3 * k + 2))) +
      ∑ k ∈ range (n % 3), term (3 * (n / 3) + k) = ∑ k ∈ range n, term k := by
  rw [sum_three, ← sum_range_add, Nat.div_add_mod]

end Sums

end CCore
