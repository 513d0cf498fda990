import DlibAndroid.Lib.Grid
import DlibAndroid.Lib.Rounding
import Mathlib.Data.Fin.VecNotation
import Mathlib.Tactic.FinCases

/-!
# `simd4f` and `simd8f`

Four floats and eight, as a function of the lane. This is `simd4f.h` and `simd8f.h` without any
instruction set (no SSE, no NEON): the operations are those of `float`, lane by lane, and are
written out where they are used. With an instruction set a sum, a product and a comparison of lanes
are the same; `sum` adds the lanes in another order, and NEON divides by way of an approximation.
-/

set_option autoImplicit false

namespace DlibAndroid

open CCore

variable {K : Type}

/-! ## Eight floats -/

abbrev Simd8f (K : Type) : Type := Fin 8 → K

namespace Simd8f

/-- `p.load(&img[r][c])`. All eight have to be in the row. -/
def load (img : Grid K) (r c : Int) : Exec (Simd8f K) :=
  if img.InRange r c ∧ img.InRange r (c + 7) then .ok fun lane => img.cell r (c + lane.val)
  else .error .outOfRange

/-- `temp.store(&img[r][c])` -/
def store (temp : Simd8f K) (r c : Int) (img : Grid K) : Exec (Grid K) :=
  if img.InRange r c ∧ img.InRange r (c + 7) then
    .ok (img.paint (fun r' c' => r' = r ∧ c ≤ c' ∧ c' ≤ c + 7) fun _ c' _ =>
      temp (.ofNat 8 (c' - c).toNat))
  else .error .outOfRange

end Simd8f

/-! ## Four floats -/

abbrev Simd4f (K : Type) : Type := Fin 4 → K

namespace Simd4f

/-- Four values one after the other, any of which may fault. -/
def gather {α : Type} (value : Fin 4 → Exec α) : Exec (Simd4f α) := do
  let a ← value 0
  let b ← value 1
  let c ← value 2
  let d ← value 3
  pure ![a, b, c, d]

/-- `a[i]`, a lane by its number. -/
def lane (a : Simd4f K) (i : Nat) : K := a (.ofNat 4 i)

/-- `sum(a)` -/
def sum [Add K] (fl : Rounding K) (a : Simd4f K) : K :=
  fl.single (fl.single (fl.single (a 0 + a 1) + a 2) + a 3)

theorem gather_eq {α : Type} {value : Fin 4 → Exec α} {v : Simd4f α}
    (h : ∀ lane, value lane = .ok (v lane)) : gather value = .ok v := by
  rw [gather, h 0, ok_bind, h 1, ok_bind, h 2, ok_bind, h 3, ok_bind]
  refine congrArg Except.ok (funext fun lane => ?_)
  fin_cases lane <;> rfl

theorem sum_exact [Add K] (a : Simd4f K) : a.sum .exact = a 0 + a 1 + a 2 + a 3 := rfl

end Simd4f

end DlibAndroid
