import DlibAndroid.Lib.Block

/-!
# `rotateRGBA`

The helper of `Java_com_lmy_dlib_Dlib_samplingTexture` that turns the picture `glReadPixels` has
delivered by 180 degrees, in place: the pixel at `startIndex` changes places with the one at
`endIndex`, for every pixel of the upper half.

The partner of the pixel at byte `startIndex` begins `startIndex + 4` bytes before the end. The
source has `startIndex - 4` there, eight bytes too far: the very first partner lies outside the
buffer (`swap_fails`). So the helper does its work only where it has none, on a single row
that reads the same from both ends (`rotationLaw_iff`).
-/

set_option autoImplicit false

namespace DlibAndroid.Jni

open CCore

variable {rgba out : Block UInt8} {width height : Int}

/-- `i * width * 4 + j * 4` -/
def startIndexOf (i j width : Int) : Exec Int := do
  let row ← mulInt (← mulInt i width) 4
  let column ← mulInt j 4
  addInt row column

/-- `width * height * 4 - (startIndex - 4)` -/
def endIndexOf (width height startIndex : Int) : Exec Int := do
  let size ← mulInt (← mulInt width height) 4
  subInt size (← subInt startIndex 4)

/-- The body of the loops, once both indices are known: `r`, `g`, `b` and `a` take the pixel at
`startIndex`, the pixel at `endIndex` is stored there, and then the four where that one was. -/
def swapPixels (startIndex endIndex : Int) (rgba : Block UInt8) : Exec (Block UInt8) := do
  let r ← rgba.read startIndex
  let g ← rgba.read (← addInt startIndex 1)
  let b ← rgba.read (← addInt startIndex 2)
  let a ← rgba.read (← addInt startIndex 3)
  let rgba ← rgba.write startIndex (← rgba.read endIndex)
  let rgba ← rgba.write (← addInt startIndex 1) (← rgba.read (← addInt endIndex 1))
  let rgba ← rgba.write (← addInt startIndex 2) (← rgba.read (← addInt endIndex 2))
  let rgba ← rgba.write (← addInt startIndex 3) (← rgba.read (← addInt endIndex 3))
  let rgba ← rgba.write endIndex r
  let rgba ← rgba.write (← addInt endIndex 1) g
  let rgba ← rgba.write (← addInt endIndex 2) b
  rgba.write (← addInt endIndex 3) a

/-- `rotateRGBA` -/
def rotateRGBA (rgba : Block UInt8) (width height : Int) : Exec (Block UInt8) := do
  let hh ← divInt height 2
  forEach (List.range hh.toNat) (fun i rgba =>
    forEach (List.range width.toNat) (fun j rgba => do
      let startIndex ← startIndexOf i j width
      let endIndex ← endIndexOf width height startIndex
      swapPixels startIndex endIndex rgba) rgba) rgba

/-! ## The rotation -/

/-- `after` is `before` turned by 180 degrees, as a picture of `n` pixels of four bytes: pixel `k`
is the old pixel `n - 1 - k`, its bytes in the same order. -/
def Rotated (n : Nat) (before after : Block UInt8) : Prop :=
  after.size = before.size ∧ ∀ k, k < n → ∀ c, c < 4 →
    after.cells[4 * k + c]? = before.cells[4 * (n - 1 - k) + c]?

/-- What the helper is for, on a buffer of exactly the bytes of the picture: it stays inside the
buffer, turns the picture, and turns it back when it is called again. -/
def RotationLaw (rgba : Block UInt8) (width height : Int) : Prop :=
  ∃ out, rotateRGBA rgba width height = .ok out ∧
    Rotated (width * height).toNat rgba out ∧ rotateRGBA out width height = .ok rgba

/-! ## The first partner -/

theorem startIndex_first {startIndex : Int} (h : startIndexOf 0 0 width = .ok startIndex) :
    startIndex = 0 := by
  obtain ⟨rows, hrows, h⟩ := bind_eq_ok.mp h
  obtain ⟨row, hrow, h⟩ := bind_eq_ok.mp h
  obtain ⟨column, hcolumn, h⟩ := bind_eq_ok.mp h
  obtain ⟨-, rfl⟩ := mulInt_eq_ok.mp hrows
  obtain ⟨-, rfl⟩ := mulInt_eq_ok.mp hrow
  obtain ⟨-, rfl⟩ := mulInt_eq_ok.mp hcolumn
  obtain ⟨-, rfl⟩ := checked_eq_ok.mp h
  simp

/-- The partner of the first pixel begins right after the first pixel past the buffer. -/
theorem endIndex_first {endIndex : Int} (h : endIndexOf width height 0 = .ok endIndex) :
    endIndex = 4 * (width * height) + 4 := by
  obtain ⟨area, harea, h⟩ := bind_eq_ok.mp h
  obtain ⟨size, hsize, h⟩ := bind_eq_ok.mp h
  obtain ⟨offset, hoffset, h⟩ := bind_eq_ok.mp h
  obtain ⟨-, rfl⟩ := mulInt_eq_ok.mp harea
  obtain ⟨-, rfl⟩ := mulInt_eq_ok.mp hsize
  obtain ⟨-, rfl⟩ := subInt_eq_ok.mp hoffset
  obtain ⟨-, rfl⟩ := subInt_eq_ok.mp h
  linarith

/-- A swap reads the first byte of the partner before it has written anything. -/
theorem read_of_swapPixels {startIndex endIndex : Int}
    (h : swapPixels startIndex endIndex rgba = .ok out) : ∃ r, rgba.read endIndex = .ok r := by
  unfold swapPixels at h
  obtain ⟨r, -, h⟩ := bind_eq_ok.mp h
  obtain ⟨_, -, h⟩ := bind_eq_ok.mp h
  obtain ⟨g, -, h⟩ := bind_eq_ok.mp h
  obtain ⟨_, -, h⟩ := bind_eq_ok.mp h
  obtain ⟨b, -, h⟩ := bind_eq_ok.mp h
  obtain ⟨_, -, h⟩ := bind_eq_ok.mp h
  obtain ⟨a, -, h⟩ := bind_eq_ok.mp h
  obtain ⟨partner, hpartner, -⟩ := bind_eq_ok.mp h
  exact ⟨partner, hpartner⟩

theorem swap_fails {startIndex endIndex : Int} (hsize : rgba.size = (4 * (width * height)).toNat)
    (hstart : startIndexOf 0 0 width = .ok startIndex)
    (hend : endIndexOf width height startIndex = .ok endIndex) :
    swapPixels startIndex endIndex rgba ≠ .ok out := by
  intro h
  rw [startIndex_first hstart] at hend
  obtain ⟨r, hr⟩ := read_of_swapPixels h
  obtain ⟨h0, hcell⟩ := Block.read_eq_ok.mp hr
  have hlt : endIndex.toNat < rgba.size := (List.getElem?_eq_some_iff.mp hcell).1
  have heq := endIndex_first hend
  omega

/-- With an upper half to go through, the helper leaves the buffer. -/
theorem not_ok_of_tall (hsize : rgba.size = (4 * (width * height)).toNat) (hw : 1 ≤ width)
    (hh : 2 ≤ height) (hhm : height ≤ 2147483647) : rotateRGBA rgba width height ≠ .ok out := by
  intro h
  rw [rotateRGBA, divInt_of_nonneg (by omega) hhm (by decide), ok_bind] at h
  obtain ⟨u, hrow⟩ := forEach_range_first (by omega) h
  obtain ⟨v, hfirst⟩ := forEach_range_first (by omega) hrow
  obtain ⟨startIndex, hstart, hfirst⟩ := bind_eq_ok.mp hfirst
  obtain ⟨endIndex, hend, hswap⟩ := bind_eq_ok.mp hfirst
  exact swap_fails hsize hstart hend hswap

/-- A single row has no upper half. -/
theorem rotateRGBA_row : rotateRGBA rgba width 1 = .ok rgba := rfl

/-- **When the helper rotates.** -/
theorem rotationLaw_iff (hsize : rgba.size = (4 * (width * height)).toNat) (hw : 1 ≤ width)
    (hh : 1 ≤ height) (hfit : 4 * (width * height) ≤ 2147483647) :
    RotationLaw rgba width height ↔
      height = 1 ∧ Rotated (width * height).toNat rgba rgba := by
  constructor
  · rintro ⟨out, hout, hrotated, -⟩
    have hone : height = 1 := by
      by_contra hne
      exact not_ok_of_tall hsize hw (by omega) (by nlinarith) hout
    subst hone
    obtain rfl := Except.ok.inj (rotateRGBA_row.symm.trans hout)
    exact ⟨rfl, hrotated⟩
  · rintro ⟨rfl, hrotated⟩
    exact ⟨rgba, rotateRGBA_row, hrotated, rotateRGBA_row⟩

/-- Two pixels of one colour, side by side. -/
theorem rotationLaw_plainRow : RotationLaw (.tabulate 8 (fun _ => 7) (by decide)) 2 1 :=
  (rotationLaw_iff rfl (by decide) (by decide) (by decide)).mpr
    ⟨rfl, rfl, by decide⟩

/-- Two pixels, one above the other. -/
theorem rotationLaw_fails_column :
    rotateRGBA (.tabulate 8 (fun _ => 7) (by decide)) 1 2 = .error .outOfRange ∧
      ¬ RotationLaw (.tabulate 8 (fun _ => 7) (by decide)) 1 2 := by
  refine ⟨rfl, fun hlaw => ?_⟩
  obtain ⟨out, hout, -⟩ := hlaw
  exact absurd hout (not_ok_of_tall rfl (by decide) (by decide) (by decide))

end DlibAndroid.Jni
