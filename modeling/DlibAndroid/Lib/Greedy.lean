import DlibAndroid.Lib.Select
import Mathlib.Data.List.Induction

/-!
# Greedy selection

What `keepUnless` leaves of a list, when the test asks the elements kept so far one by one
(`anyOf R`): a part of the list in which no element speaks against a later one, and which has for
every element left out one that speaks against it. In a descending list that one is no smaller.

A threshold on the key of a descending list commutes with the selection, whatever the test: what is
below it comes last and has no say in what is kept before.
-/

set_option autoImplicit false

namespace CCore

variable {α κ : Type} {against : List α → α → Bool} {R : α → α → Bool} {xs : List α} {x : α}

/-- One element at the end decides about itself alone. -/
theorem keepUnless_concat (against : List α → α → Bool) (xs : List α) (x : α) :
    keepUnless against (xs ++ [x]) = if against (keepUnless against xs) x then
      keepUnless against xs else keepUnless against xs ++ [x] := by
  rw [keepUnless, List.foldl_append]
  rfl

theorem keepUnless_sublist (against : List α → α → Bool) (xs : List α) :
    (keepUnless against xs).Sublist xs := by
  induction xs using List.reverseRecOn with
  | nil => exact List.Sublist.refl _
  | append_singleton xs x ih =>
    rw [keepUnless_concat]
    split
    · exact ih.trans (List.sublist_append_left xs [x])
    · exact ih.append_right [x]

/-- Some kept element speaks against `x`. -/
def anyOf (R : α → α → Bool) (kept : List α) (x : α) : Bool := kept.any fun y => R y x

theorem anyOf_eq_false {kept : List α} : anyOf R kept x = false ↔ ∀ y ∈ kept, R y x = false := by
  simp only [anyOf, List.any_eq_false, Bool.not_eq_true]

/-- Of the kept, none speaks against a later one. -/
theorem pairwise_keepUnless (R : α → α → Bool) (xs : List α) :
    (keepUnless (anyOf R) xs).Pairwise fun a b => R a b = false := by
  induction xs using List.reverseRecOn with
  | nil => exact List.Pairwise.nil
  | append_singleton xs x ih =>
    rw [keepUnless_concat]
    split
    · exact ih
    · rename_i hx
      refine List.pairwise_append.mpr ⟨ih, List.pairwise_singleton _ _, fun a ha b hb => ?_⟩
      rw [List.mem_singleton.mp hb]
      exact anyOf_eq_false.mp (Bool.not_eq_true _ ▸ hx) a ha

/-- What is left out has a reason among the kept, and one that is no smaller if the list descends.
-/
theorem mem_keepUnless_or [LinearOrder κ] {key : α → κ}
    (hxs : xs.Pairwise fun a b => key b ≤ key a) (hx : x ∈ xs) :
    x ∈ keepUnless (anyOf R) xs ∨ ∃ y ∈ keepUnless (anyOf R) xs, R y x = true ∧ key x ≤ key y := by
  induction xs using List.reverseRecOn with
  | nil => cases hx
  | append_singleton xs last ih =>
    obtain ⟨hsorted, -, hlast⟩ := List.pairwise_append.mp hxs
    rw [keepUnless_concat]
    rcases List.mem_append.mp hx with hx | hx
    · rcases ih hsorted hx with hmem | ⟨y, hy, hR, hkey⟩
      · left
        split
        · exact hmem
        · exact List.mem_append_left _ hmem
      · right
        refine ⟨y, ?_, hR, hkey⟩
        split
        · exact hy
        · exact List.mem_append_left _ hy
    · obtain rfl := List.mem_singleton.mp hx
      split
      · rename_i hagainst
        obtain ⟨y, hy, hR⟩ := List.any_eq_true.mp hagainst
        exact .inr ⟨y, hy, hR, hlast y ((keepUnless_sublist _ _).subset hy) x hx⟩
      · exact .inl (List.mem_append_right _ hx)

/-- **A threshold**, before the selection or after it. -/
theorem keepUnless_filter [LinearOrder κ] {key : α → κ} (t : κ)
    (hxs : xs.Pairwise fun a b => key b ≤ key a) :
    keepUnless against (xs.filter fun a => t ≤ key a) =
      (keepUnless against xs).filter fun a => t ≤ key a := by
  induction xs using List.reverseRecOn with
  | nil => rfl
  | append_singleton xs x ih =>
    obtain ⟨hsorted, -, hlast⟩ := List.pairwise_append.mp hxs
    by_cases hx : t ≤ key x
    · -- everything is over the threshold
      have hall : ∀ a ∈ xs ++ [x], t ≤ key a := by
        intro a ha
        rcases List.mem_append.mp ha with ha | ha
        · exact hx.trans (hlast a ha x (List.mem_singleton_self x))
        · rwa [List.mem_singleton.mp ha]
      have hkept := keepUnless_sublist against (xs ++ [x])
      rw [List.filter_eq_self.mpr fun a ha => decide_eq_true (hall a ha),
        List.filter_eq_self.mpr fun a ha => decide_eq_true (hall a (hkept.subset ha))]
    · have hout : [x].filter (fun a => t ≤ key a) = [] := by
        rw [List.filter_singleton, decide_eq_false hx]
        rfl
      rw [List.filter_append, hout, List.append_nil, ih hsorted, keepUnless_concat]
      split
      · rfl
      · rw [List.filter_append, hout, List.append_nil]

end CCore
