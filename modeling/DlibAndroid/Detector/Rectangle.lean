import DlibAndroid.Frame.Array2d
import Mathlib.Order.Lattice

/-!
# `rectangle.h`

The operations of `rectangle` that the detector uses. The sides are `long`s, and a rectangle whose
sides are the wrong way round is empty, of which there are many: `operator+` of two empty ones gives
back the left one, and the area of any of them is zero. `Contains` says which points are in it.
-/

set_option autoImplicit false

namespace DlibAndroid

open CCore

namespace Rectangle

variable {a b : Rectangle}

/-- `is_empty` -/
def isEmpty (a : Rectangle) : Bool := a.bottom < a.top ∨ a.right < a.left

def width (a : Rectangle) : Nat :=
  if a.isEmpty then 0 else (a.right.toInt - a.left.toInt + 1).toNat % 2 ^ 32

def height (a : Rectangle) : Nat :=
  if a.isEmpty then 0 else (a.bottom.toInt - a.top.toInt + 1).toNat % 2 ^ 32

def area (a : Rectangle) : Nat := a.width * a.height % 2 ^ 32

/-- `operator+`, the smallest rectangle around both. -/
def add (a b : Rectangle) : Rectangle :=
  if b.isEmpty then a
  else if a.isEmpty then b
  else ⟨.ofInt (min a.left.toInt b.left.toInt), .ofInt (min a.top.toInt b.top.toInt),
    .ofInt (max a.right.toInt b.right.toInt), .ofInt (max a.bottom.toInt b.bottom.toInt)⟩

def intersect (a b : Rectangle) : Rectangle :=
  ⟨.ofInt (max a.left.toInt b.left.toInt), .ofInt (max a.top.toInt b.top.toInt),
    .ofInt (min a.right.toInt b.right.toInt), .ofInt (min a.bottom.toInt b.bottom.toInt)⟩

theorem intersect_comm (a b : Rectangle) : a.intersect b = b.intersect a := by
  rw [intersect, intersect, max_comm a.left.toInt, max_comm a.top.toInt, min_comm a.right.toInt,
    min_comm a.bottom.toInt]

theorem add_comm_of_nonempty (ha : a.isEmpty = false) (hb : b.isEmpty = false) :
    a.add b = b.add a := by
  rw [add, add, ha, hb, min_comm a.left.toInt, min_comm a.top.toInt, max_comm a.right.toInt,
    max_comm a.bottom.toInt]
  rfl

theorem area_of_isEmpty (h : a.isEmpty = true) : a.area = 0 := by
  rw [area, width, if_pos h, Nat.zero_mul, Nat.zero_mod]

theorem isEmpty_eq_true :
    a.isEmpty = true ↔ a.bottom.toInt < a.top.toInt ∨ a.right.toInt < a.left.toInt := by
  rw [isEmpty, decide_eq_true_eq, Int32.lt_iff_toInt_lt, Int32.lt_iff_toInt_lt]

/-- A value of the type is the value of its own conversion. -/
theorem toInt_ofInt_max (x y : Int32) :
    (Int32.ofInt (max x.toInt y.toInt)).toInt = max x.toInt y.toInt := by
  rcases max_choice x.toInt y.toInt with h | h <;> rw [h, Int32.ofInt_toInt]

theorem toInt_ofInt_min (x y : Int32) :
    (Int32.ofInt (min x.toInt y.toInt)).toInt = min x.toInt y.toInt := by
  rcases min_choice x.toInt y.toInt with h | h <;> rw [h, Int32.ofInt_toInt]

/-- What meets a rectangle is empty if the rectangle is. -/
theorem isEmpty_intersect (h : a.isEmpty = true) (b : Rectangle) :
    (a.intersect b).isEmpty = true := by
  rw [isEmpty_eq_true] at h ⊢
  simp only [intersect, toInt_ofInt_max, toInt_ofInt_min]
  omega

/-! ## Points -/

/-- The cells of a rectangle. -/
def Contains (a : Rectangle) (r c : Int) : Prop :=
  (a.top.toInt ≤ r ∧ r ≤ a.bottom.toInt) ∧ a.left.toInt ≤ c ∧ c ≤ a.right.toInt

instance (a : Rectangle) (r c : Int) : Decidable (a.Contains r c) :=
  inferInstanceAs (Decidable (_ ∧ _))

end Rectangle

/-- `rectangle()` -/
def emptyRectangle : Rectangle := ⟨0, 0, -1, -1⟩

theorem not_contains_emptyRectangle (r c : Int) : ¬ emptyRectangle.Contains r c := fun h =>
  absurd (h.1.1.trans h.1.2) (by decide)

end DlibAndroid
