import DlibAndroid.Lib.Ledger

/-!
# Rectangles, points and the frame

The library types the wrapper works with. `long` has 32 bits on both ABIs the build produces, so
the coordinates of `dlib::rectangle` and `dlib::point` are `Int32`, the type of the wrapper's own
`int` arrays.

`Array2d` is `dlib::array2d<unsigned char>` reduced to what the wrapper and the predictor touch:
the two dimensions and the cells. The enumerator (`cur`, `last`, `at_start_`) is left out, since
nothing here calls `move_next`. That a frame of `nr` rows and `nc` columns has exactly `nr * nc`
cells is the class's own CONVENTION, and a field.
-/

set_option autoImplicit false

namespace DlibAndroid

open CCore

/-- `dlib::rectangle` -/
structure Rectangle where
  left : Int32
  top : Int32
  right : Int32
  bottom : Int32
  deriving DecidableEq

/-- `dlib::point` -/
structure Point where
  x : Int32
  y : Int32
  deriving DecidableEq

/-- A frame as its readers see it: every cell holds a pixel. -/
@[ext] structure Image where
  nr : Int
  nc : Int
  data : List UInt8
  size_eq : data.length = nr.toNat * nc.toNat

/-- `dlib::array2d<unsigned char>` -/
structure Array2d where
  nr : Int
  nc : Int
  data : Block UInt8
  size_eq : data.size = nr.toNat * nc.toNat

namespace Array2d

/-- The default constructor. -/
def new : Array2d := ⟨0, 0, .empty, rfl⟩

theorem toNat_mul_le {rows cols : Int} (h : Fits (rows * cols)) (hr : 0 ≤ rows) (hc : 0 ≤ cols) :
    rows.toNat * cols.toNat ≤ maxBlock := by
  have hle : ((rows.toNat * cols.toNat : Nat) : Int) ≤ 2147483647 := by
    rw [Nat.cast_mul, Int.toNat_of_nonneg hr, Int.toNat_of_nonneg hc]
    exact h.2
  rw [maxBlock]
  omega

/-- `array2d::set_size`. A frame that already has the size keeps its cells, whatever they hold;
any other frame gets cells nobody has written yet. No row means no storage at all, and a negative
column count reaches `new` as a huge one. -/
def setSize (a : Array2d) (rows cols : Int) : Exec Array2d :=
  if a.nc = cols ∧ a.nr = rows then .ok a
  else if hr : rows ≤ 0 then .ok ⟨rows, cols, .empty, by simp [Int.toNat_of_nonpos hr]; rfl⟩
  else if hf : Fits (rows * cols) then
    if hc : 0 ≤ cols then
      .ok ⟨rows, cols, .uninit _ (toNat_mul_le hf (Int.le_of_lt (Int.not_le.mp hr)) hc),
        Block.size_uninit⟩
    else .error .badAlloc
  else .error .overflow

/-- The pixels, for a reader that may look at any of them. -/
def view (a : Array2d) : Exec Image :=
  match h : a.data.values with
  | .ok data => .ok ⟨a.nr, a.nc, data, by
      rw [← a.size_eq, Block.size, Block.values_eq_ok.mp h, List.length_map]⟩
  | .error e => .error e

variable {a b : Array2d} {rows cols : Int} {img : Image}

theorem view_eq_ok :
    a.view = .ok img ↔ img.nr = a.nr ∧ img.nc = a.nc ∧ a.data.cells = img.data.map some := by
  unfold view
  split
  · rename_i data h
    have hcells := Block.values_eq_ok.mp h
    rw [Except.ok.injEq, Image.ext_iff]
    constructor
    · rintro ⟨h1, h2, h3⟩
      exact ⟨h1.symm, h2.symm, by rw [← h3]; exact hcells⟩
    · rintro ⟨h1, h2, h3⟩
      refine ⟨h1.symm, h2.symm, ?_⟩
      rw [hcells] at h3
      exact (List.map_inj_right fun _ _ e => Option.some.inj e).mp h3
  · rename_i e h
    refine ⟨fun hc => absurd hc (by simp), fun ⟨_, _, hc⟩ => ?_⟩
    rw [Block.values_eq_ok.mpr hc] at h
    cases h

/-- The frame a picture of known size needs: `set_size` succeeds and leaves that size. -/
theorem setSize_ok (hc : 0 ≤ cols) (hf : Fits (rows * cols)) :
    ∃ b, a.setSize rows cols = .ok b ∧ b.nr = rows ∧ b.nc = cols := by
  unfold setSize
  by_cases hsame : a.nc = cols ∧ a.nr = rows
  · exact ⟨a, by rw [if_pos hsame], hsame.2, hsame.1⟩
  · rw [if_neg hsame]
    by_cases hr0 : rows ≤ 0
    · exact ⟨_, dif_pos hr0, rfl, rfl⟩
    · rw [dif_neg hr0, dif_pos hf, dif_pos hc]
      exact ⟨_, rfl, rfl, rfl⟩

end Array2d

end DlibAndroid
