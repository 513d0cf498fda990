import DlibAndroid.Frame.Array2d

/-!
# The samplers — `calculateSample`, `sampling`, `samplingTexture`

The three functions of `dlib.cpp` that turn a picture into the gray frame the detector sees,
statement for statement. Two things are parameters, gathered in `Abi`:

* whether plain `char` is signed, which the two ABIs of `build.gradle` answer differently
  (`armeabi-v7a`: unsigned, `x86`: signed);
* what `static_cast<unsigned char>` gives for a value that is no `unsigned char`. The language
  leaves it undefined and compilers differ, so all that is assumed is `narrow_eq`.

The luma weights are exact rationals and the conversion truncates toward zero. Every index is
computed the way the source computes it, product by product, each result checked.
-/

set_option autoImplicit false

namespace DlibAndroid

open CCore

/-- What differs between the targets the library is built for. -/
structure Abi where
  charSigned : Bool
  narrow : Int → UInt8
  narrow_eq : ∀ b : UInt8, narrow b.toNat = b

/-- `armeabi-v7a`: plain `char` is unsigned. -/
def Abi.armeabiV7a : Abi := ⟨false, fun v => .ofNat v.toNat, fun b => by simp⟩

/-- `x86`: plain `char` is signed, and the conversion keeps the low byte of the truncated sum. -/
def Abi.x86 : Abi := ⟨true, fun v => .ofNat (v % 256).toNat, fun b => by
  have hb := b.toNat_lt
  rw [Int.emod_eq_of_lt (by omega) (by omega), Int.toNat_natCast, UInt8.ofNat_toNat]⟩

/-- `int v = buffer[k];` — the promotion of a plain `char`. -/
def Abi.charToInt (abi : Abi) (b : UInt8) : Int :=
  if abi.charSigned = true ∧ 128 ≤ b.toNat then (b.toNat : Int) - 256 else b.toNat

/-- `red * 0.299 + green * 0.587 + blue * 0.114`, truncated toward zero. -/
def luma (red green blue : Int) : Int := (299 * red + 587 * green + 114 * blue).tdiv 1000

/-- `static_cast<unsigned char>(red * 0.299 + green * 0.587 + blue * 0.114)` -/
def Abi.gray (abi : Abi) (red green blue : Int) : UInt8 := abi.narrow (luma red green blue)

/-- `MAX_SIZE` -/
def maxSize : Int := 240

/-- `sample[0] = max / MAX_SIZE; dest_width = width / sample[0]; dest_height = height / sample[0];`,
three statements the source has twice. -/
def divideSides (max width height : Int) (sample : Block Int) : Exec (Block Int × Int × Int) := do
  let sample ← sample.write 0 (← divInt max maxSize)
  let destWidth ← divInt width (← sample.read 0)
  let destHeight ← divInt height (← sample.read 0)
  pure (sample, destWidth, destHeight)

/-- `if (sample[0] < 1) { … }`, for a picture smaller than `MAX_SIZE`. -/
def correctSample (width height : Int) (sample : Block Int) (destWidth destHeight : Int) :
    Exec (Block Int × Int × Int) := do
  let factor ← sample.read 0
  if factor < 1 then do
    let sample ← sample.write 0 1
    pure (sample, width, height)
  else pure (sample, destWidth, destHeight)

/-- `Dlib::calculateSample`. The two-cell result is a block of its own, from `new int[2]`; the
sample factor comes back through `sample`. -/
def calculateSample (width height : Int) (sample : Block Int) (L : Ledger) :
    Exec (Owned (Block Int) × Block Int × Ledger) := do
  let (sample, destWidth, destHeight) ← divideSides width width height sample
  let (sample, destWidth, destHeight) ←
    (if height > width then divideSides height width height sample
    else pure (sample, destWidth, destHeight))
  let (sample, destWidth, destHeight) ← correctSample width height sample destWidth destHeight
  let result ← (Block.uninit 2 (by decide)).write 0 destWidth
  let result ← result.write 1 destHeight
  pure (⟨L.next, result⟩, sample, L.alloc)

/-- What a sampler leaves behind: the frame, the sample factor, the ledger with the block
`calculateSample` handed over, and for each cell of the frame the index it was read from. -/
structure Sampled where
  dest : Array2d
  sample : Block Int
  ledger : Ledger
  log : List (Int × Nat)

/-- The double loop: the pointer runs over the frame, row by row in the order `rows`, each pixel
read by `pixel`. -/
def fillFrame (dest : Array2d) (rows : List Nat) (destWidth : Int)
    (pixel : Nat → Nat → Exec (Int × UInt8)) : Exec (Cursor Int UInt8 dest.data.size) :=
  forEach rows (fun i itr =>
    forEach (List.range destWidth.toNat) (fun j itr => do
      let (index, gray) ← pixel i j
      itr.put index gray) itr) (Cursor.start dest.data)

/-- What the two samplers have in common, line for line. They differ in the values the outer loop
takes for a given `dest_height` and in the loop body. -/
def sampleInto (rows : Int → List Nat) (pixel : Block Int → Nat → Nat → Exec (Int × UInt8))
    (width height : Int) (sample : Block Int) (dest : Array2d) (L : Ledger) : Exec Sampled := do
  let sample ← sample.write 0 1
  let (size, sample, L) ← calculateSample width height sample L
  let destWidth ← size.val.read 0
  let destHeight ← size.val.read 1
  let dest ← dest.setSize destHeight destWidth
  let itr ← fillFrame dest (rows destHeight) destWidth (pixel sample)
  pure ⟨⟨dest.nr, dest.nc, itr.data, itr.size_eq.trans dest.size_eq⟩, sample, L, itr.log⟩

/-- `i * 4 * sample[0] * width + j * 4 * sample[0]` -/
def textureIndex (i j s width : Int) : Exec Int := do
  let row ← mulInt (← mulInt (← mulInt i 4) s) width
  let column ← mulInt (← mulInt j 4) s
  addInt row column

/-- The loop body of `samplingTexture`, up to the store. -/
def texturePixel (abi : Abi) (buffer : Block UInt8) (width : Int) (sample : Block Int)
    (i j : Nat) : Exec (Int × UInt8) := do
  let index ← textureIndex i j (← sample.read 0) width
  let red ← buffer.read index
  let green ← buffer.read (← addInt index 1)
  let blue ← buffer.read (← addInt index 2)
  pure (index, abi.gray (abi.charToInt red) (abi.charToInt green) (abi.charToInt blue))

/-- `Dlib::samplingTexture`. The outer loop counts down: `glReadPixels` delivers the bottom row
first. -/
def samplingTexture (abi : Abi) (buffer : Block UInt8) (width height : Int) (sample : Block Int)
    (dest : Array2d) (L : Ledger) : Exec Sampled :=
  sampleInto (fun destHeight => (List.range destHeight.toNat).reverse)
    (texturePixel abi buffer width) width height sample dest L

/-- `i * sample[0] * width + j * sample[0]` -/
def intIndex (i j s width : Int) : Exec Int := do
  let row ← mulInt (← mulInt i s) width
  let column ← mulInt j s
  addInt row column

/-- `(clr & 0x00ff0000) >> 16` -/
def redOf (clr : BitVec 32) : Int := ((clr &&& 0x00ff0000#32).sshiftRight 16).toInt

/-- `(clr & 0x0000ff00) >> 8` -/
def greenOf (clr : BitVec 32) : Int := ((clr &&& 0x0000ff00#32).sshiftRight 8).toInt

/-- `clr & 0x000000ff` -/
def blueOf (clr : BitVec 32) : Int := (clr &&& 0x000000ff#32).toInt

/-- The loop body of `sampling`, up to the store. -/
def intPixel (abi : Abi) (src : Block (BitVec 32)) (width : Int) (sample : Block Int)
    (i j : Nat) : Exec (Int × UInt8) := do
  let index ← intIndex i j (← sample.read 0) width
  let clr ← src.read index
  pure (index, abi.gray (redOf clr) (greenOf clr) (blueOf clr))

/-- `Dlib::sampling`. Here the picture comes top row first, and the outer loop counts up. -/
def sampling (abi : Abi) (src : Block (BitVec 32)) (width height : Int) (sample : Block Int)
    (dest : Array2d) (L : Ledger) : Exec Sampled :=
  sampleInto (fun destHeight => List.range destHeight.toNat)
    (intPixel abi src width) width height sample dest L

end DlibAndroid
