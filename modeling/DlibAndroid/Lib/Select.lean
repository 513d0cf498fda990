import Mathlib.Order.Lattice
import Mathlib.Data.List.Basic

/-!
# Sorting, and greedy selection

`std::sort` is modelled by what its documentation promises of it and no more (`StdSort`): for a
strict weak order, the result is a permutation in which nothing comes before something less than
it. Elements that tie come out in whatever order, so a fact proved for every `StdSort` does not
rest on a particular algorithm.

The idiom `std::sort(v.rbegin(), v.rend(), less)` sorts in descending order. What callers want of
it is `greatest_of_pairwise`: the first element is a greatest one.

`keepUnless` is the loop that goes through a list and keeps an element unless one already kept
speaks against it. Whatever the test answers, the first element is kept, and kept first.
-/

set_option autoImplicit false

namespace CCore

variable {α κ : Type}

/-- What `std::sort` requires of a comparison. -/
structure StrictWeak (less : α → α → Bool) : Prop where
  asymm : ∀ a b, less a b = true → less b a = false
  trans : ∀ a b c, less a b = false → less b c = false → less a c = false

/-- `a.key < b.key` -/
def lessBy [LinearOrder κ] (key : α → κ) (a b : α) : Bool := decide (key a < key b)

theorem lessBy_eq_false [LinearOrder κ] {key : α → κ} {a b : α} :
    lessBy key a b = false ↔ key b ≤ key a := by
  rw [lessBy, decide_eq_false_iff_not, not_lt]

theorem strictWeak_lessBy [LinearOrder κ] (key : α → κ) : StrictWeak (lessBy key) where
  asymm _ _ h := lessBy_eq_false.mpr (of_decide_eq_true h).le
  trans _ _ _ hab hbc :=
    lessBy_eq_false.mpr ((lessBy_eq_false.mp hbc).trans (lessBy_eq_false.mp hab))

/-- `std::sort(first, last, less)`, on the list of the elements. -/
structure StdSort where
  sort : {α : Type} → (α → α → Bool) → List α → List α
  perm : ∀ {α : Type} (less : α → α → Bool) (xs : List α), (sort less xs).Perm xs
  ordered : ∀ {α : Type} {less : α → α → Bool}, StrictWeak less → ∀ xs : List α,
    (sort less xs).Pairwise fun a b => less b a = false

namespace StdSort

/-- Merge sort is one. -/
def merge : StdSort where
  sort less xs := xs.mergeSort fun a b => !less b a
  perm less xs := List.mergeSort_perm xs _
  ordered := by
    intro α less hless xs
    have htrans : ∀ a b c, (!less b a) = true → (!less c b) = true → (!less c a) = true := by
      intro a b c hab hbc
      simp only [Bool.not_eq_true'] at hab hbc ⊢
      exact hless.trans c b a hbc hab
    have htotal : ∀ a b, ((!less b a) || !less a b) = true := by
      intro a b
      cases hab : less a b with
      | false => simp
      | true => simp [hless.asymm a b hab]
    have hsorted := List.pairwise_mergeSort htrans htotal xs
    simpa using hsorted

variable (S : StdSort) {less : α → α → Bool} {xs : List α} {a : α}

/-- `std::sort(v.rbegin(), v.rend(), less)` -/
def sortReversed (less : α → α → Bool) (xs : List α) : List α := (S.sort less xs.reverse).reverse

theorem sortReversed_perm (less : α → α → Bool) (xs : List α) :
    (S.sortReversed less xs).Perm xs :=
  (List.reverse_perm _).trans ((S.perm less _).trans (List.reverse_perm xs))

theorem sortReversed_ordered (hless : StrictWeak less) (xs : List α) :
    (S.sortReversed less xs).Pairwise fun a b => less a b = false :=
  List.pairwise_reverse.mpr (S.ordered hless _)

end StdSort

/-- The first element of a list in descending order is a greatest one. -/
theorem greatest_of_pairwise [LinearOrder κ] {key : α → κ} {xs : List α} {a : α}
    (h : xs.Pairwise fun a b => key b ≤ key a) (ha : xs.head? = some a) :
    ∀ b ∈ xs, key b ≤ key a := by
  cases xs with
  | nil => cases ha
  | cons x xs =>
    obtain rfl : x = a := Option.some.inj ha
    intro b hb
    rcases List.mem_cons.mp hb with rfl | hb
    · exact le_rfl
    · exact (List.pairwise_cons.mp h).1 b hb

/-! ## Greedy selection -/

/-- `for (x : xs) { if (against(kept, x)) continue; kept.push_back(x); }` -/
def keepUnless (against : List α → α → Bool) (xs : List α) : List α :=
  xs.foldl (fun kept x => if against kept x then kept else kept ++ [x]) []

/-- What is kept stays where it is. -/
theorem head?_foldl_keep {against : List α → α → Bool} {kept : List α} {a : α} (xs : List α)
    (h : kept.head? = some a) :
    (xs.foldl (fun kept x => if against kept x then kept else kept ++ [x]) kept).head? =
      some a := by
  induction xs generalizing kept with
  | nil => exact h
  | cons x xs ih =>
    rw [List.foldl_cons]
    apply ih
    split
    · exact h
    · rw [List.head?_append, h]
      rfl

/-- With nothing against it at the start, the first element comes out first. -/
theorem head?_keepUnless {against : List α → α → Bool} (hfirst : ∀ x, against [] x = false)
    (xs : List α) : (keepUnless against xs).head? = xs.head? := by
  cases xs with
  | nil => rfl
  | cons x xs =>
    rw [keepUnless, List.foldl_cons, if_neg (by rw [hfirst]; exact Bool.false_ne_true)]
    exact head?_foldl_keep xs rfl

end CCore
