import DlibAndroid.Lib.Exec

/-!
# Interval coders

A model of some source of symbols does not write bits. It tells a coder which part of an interval
a symbol has, a `Slot`; the model on the other side asks for a number of the interval and says
which slot it has taken it to be in. `Coder.Serves` is what the two models need of the coders
between them: every number that is asked for lies in the slot that was meant. What is proved from it
holds over any coder.
-/

set_option autoImplicit false

namespace CCore

/-- The part from `low` to below `high` of `total`. -/
structure Slot where
  low : Nat
  high : Nat
  total : Nat
  deriving DecidableEq

/-- What a caller of `encode` promises. -/
structure Slot.Ok (slot : Slot) : Prop where
  low_lt : slot.low < slot.high
  high_le : slot.high ≤ slot.total
  total_lt : slot.total < 65536

theorem Slot.Ok.total_pos {slot : Slot} (h : slot.Ok) : 0 < slot.total :=
  (Nat.zero_le _).trans_lt (h.low_lt.trans_le h.high_le)

/-- The reading side. -/
structure Coder (δ : Type) where
  getTarget : Nat → δ → Exec (Nat × δ)
  decode : Nat → Nat → δ → δ

namespace Coder

variable {δ : Type} {coder : Coder δ}

/-- Asked for the slots of the list one after another, the coder goes from the one state to the
other, and each time names a number of the slot. -/
inductive Serves (coder : Coder δ) : List Slot → δ → δ → Prop
  | nil (d : δ) : Serves coder [] d d
  | cons {slot : Slot} {slots : List Slot} {d d₁ d' : δ} {target : Nat}
      (hget : coder.getTarget slot.total d = .ok (target, d₁)) (hlow : slot.low ≤ target)
      (hhigh : target < slot.high)
      (hrest : Serves coder slots (coder.decode slot.low slot.high d₁) d') :
      Serves coder (slot :: slots) d d'

theorem serves_append {xs ys : List Slot} {d d' : δ} :
    coder.Serves (xs ++ ys) d d' ↔ ∃ m, coder.Serves xs d m ∧ coder.Serves ys m d' := by
  induction xs generalizing d with
  | nil =>
    refine ⟨fun h => ⟨d, .nil d, h⟩, ?_⟩
    rintro ⟨m, hxs, hys⟩
    cases hxs
    exact hys
  | cons x xs ih =>
    constructor
    · intro h
      cases h with
      | cons hget hlow hhigh hrest =>
        obtain ⟨m, hxs, hys⟩ := ih.mp hrest
        exact ⟨m, .cons hget hlow hhigh hxs, hys⟩
    · rintro ⟨m, hxs, hys⟩
      cases hxs with
      | cons hget hlow hhigh hrest => exact .cons hget hlow hhigh (ih.mpr ⟨m, hrest, hys⟩)

end Coder

end CCore
