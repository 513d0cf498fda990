import DlibAndroid.Frame.Sampling
import Mathlib.Algebra.Order.Ring.Int
import Mathlib.Tactic.Ring

/-!
# What the samplers compute

One lemma for each function of `Frame/Sampling.lean`, and the arithmetic under them. Later modules
cite these and never unfold a sampler.

`calculateSample_ok` gives the factor in closed form. `sampleInto_ok` is the loop argument, made
once for both samplers: whatever the order of the rows, the frame ends up holding `entry i j` for
the `i`-th row listed and the `j`-th column, each cell put once, in row-major order. The two
samplers are its instances, `samplingTexture_ok` at the rows counted down and `sampling_ok` at the
rows counted up.
-/

set_option autoImplicit false

namespace DlibAndroid

open CCore

variable {width height : Int} {sample : Block Int} {L : Ledger}

/-! ## The sample factor -/

/-- The factor for a picture at least `maxSize` wide. -/
def sampleFactor (width height : Int) : Int := max width height / maxSize

/-- The block `sample` points to, holding the factor. -/
def factorBlock (width height : Int) : Block Int :=
  .ofList [sampleFactor width height] (by simp [maxBlock])

theorem one_le_sampleFactor (height : Int) (hw : 240 ≤ width) : 1 ≤ sampleFactor width height := by
  have hmax := le_max_left width height
  unfold sampleFactor maxSize
  omega

theorem read_single (v : Int) : (Block.ofList [v] (by simp [maxBlock])).read 0 = .ok v := rfl

theorem divideSides_ok {n : Int} (hn : 240 ≤ n) (hnm : n ≤ 2147483647) (hw : 0 ≤ width)
    (hwm : width ≤ 2147483647) (hh : 0 ≤ height) (hhm : height ≤ 2147483647)
    (hs : sample.size = 1) :
    divideSides n width height sample =
      .ok (.ofList [n / 240] (by simp [maxBlock]), width / (n / 240), height / (n / 240)) := by
  have hq : 0 < n / 240 := by omega
  have hdiv : divInt n maxSize = .ok (n / 240) := divInt_of_nonneg (by omega) hnm (by decide)
  have hdw : divInt width (n / 240) = .ok (width / (n / 240)) := divInt_of_nonneg hw hwm hq
  have hdh : divInt height (n / 240) = .ok (height / (n / 240)) := divInt_of_nonneg hh hhm hq
  simp only [divideSides, hdiv, Block.write_single hs, read_single, hdw, hdh, ok_bind, pure_eq_ok]

theorem correctSample_ok {f destWidth destHeight : Int} (hf : 1 ≤ f) :
    correctSample width height (.ofList [f] (by simp [maxBlock])) destWidth destHeight =
      .ok (.ofList [f] (by simp [maxBlock]), destWidth, destHeight) := by
  rw [correctSample, read_single, ok_bind, if_neg (by omega), pure_eq_ok]

theorem calculateSample_ok (hw : 240 ≤ width) (hwm : width ≤ 2147483647) (hh : 1 ≤ height)
    (hhm : height ≤ 2147483647) (hs : sample.size = 1) :
    calculateSample width height sample L =
      .ok (⟨L.next, .ofList [width / sampleFactor width height, height / sampleFactor width height]
        (by simp [maxBlock])⟩, factorBlock width height, L.alloc) := by
  have hfirst := divideSides_ok hw hwm (by omega) hwm (by omega) hhm hs
  have hone := one_le_sampleFactor height hw
  unfold calculateSample factorBlock
  rw [hfirst, ok_bind]
  dsimp only
  by_cases hlt : width < height
  · -- portrait: the factor is computed a second time, from the height
    have hfac : sampleFactor width height = height / 240 := by
      rw [sampleFactor, max_eq_right hlt.le, maxSize]
    have hsecond := divideSides_ok (show 240 ≤ height by omega) hhm (by omega) hwm (by omega) hhm
      (show (Block.ofList [width / 240] (by simp [maxBlock])).size = 1 from rfl)
    rw [hfac] at hone ⊢
    rw [if_pos hlt, hsecond, ok_bind]
    dsimp only
    rw [correctSample_ok hone]
    rfl
  · have hfac : sampleFactor width height = width / 240 := by
      rw [sampleFactor, max_eq_left (not_lt.mp hlt), maxSize]
    rw [hfac] at hone ⊢
    rw [if_neg hlt, pure_eq_ok, ok_bind]
    dsimp only
    rw [correctSample_ok hone]
    rfl

/-! ## What no sampler changes, whatever it is given -/

theorem divideSides_size {n : Int} {out : Block Int × Int × Int}
    (h : divideSides n width height sample = .ok out) : out.1.size = sample.size := by
  obtain ⟨q, -, h⟩ := bind_eq_ok.mp h
  obtain ⟨s, hs, h⟩ := bind_eq_ok.mp h
  obtain ⟨_, -, h⟩ := bind_eq_ok.mp h
  obtain ⟨dw, -, h⟩ := bind_eq_ok.mp h
  obtain ⟨_, -, h⟩ := bind_eq_ok.mp h
  obtain ⟨dh, -, h⟩ := bind_eq_ok.mp h
  rw [← Except.ok.inj h]
  exact Block.size_write hs

theorem correctSample_size {destWidth destHeight : Int} {out : Block Int × Int × Int}
    (h : correctSample width height sample destWidth destHeight = .ok out) :
    out.1.size = sample.size := by
  obtain ⟨f, -, h⟩ := bind_eq_ok.mp h
  split at h
  · obtain ⟨s, hs, h⟩ := bind_eq_ok.mp h
    rw [← Except.ok.inj h]
    exact Block.size_write hs
  · rw [← Except.ok.inj h]

theorem calculateSample_keeps {out : Owned (Block Int) × Block Int × Ledger}
    (h : calculateSample width height sample L = .ok out) :
    out.2.1.size = sample.size ∧ out.2.2 = L.alloc := by
  obtain ⟨⟨s₁, dw₁, dh₁⟩, h₁, h⟩ := bind_eq_ok.mp h
  obtain ⟨⟨s₂, dw₂, dh₂⟩, h₂, h⟩ := bind_eq_ok.mp h
  obtain ⟨⟨s₃, dw₃, dh₃⟩, h₃, h⟩ := bind_eq_ok.mp h
  obtain ⟨r₁, -, h⟩ := bind_eq_ok.mp h
  obtain ⟨r₂, -, h⟩ := bind_eq_ok.mp h
  have hsize₁ := divideSides_size h₁
  have hsize₂ : s₂.size = s₁.size := by
    split at h₂
    · exact divideSides_size h₂
    · exact congrArg (fun o : Block Int × Int × Int => o.1.size) (Except.ok.inj h₂).symm
  have hsize₃ := correctSample_size h₃
  rw [← Except.ok.inj h]
  exact ⟨hsize₃.trans (hsize₂.trans hsize₁), rfl⟩

theorem sampleInto_keeps {rows : Int → List Nat}
    {pixel : Block Int → Nat → Nat → Exec (Int × UInt8)} {dest : Array2d} {out : Sampled}
    (h : sampleInto rows pixel width height sample dest L = .ok out) :
    out.sample.size = sample.size ∧ out.ledger = L.alloc := by
  obtain ⟨s₁, hs₁, h⟩ := bind_eq_ok.mp h
  obtain ⟨⟨size, s₂, L₂⟩, hcalc, h⟩ := bind_eq_ok.mp h
  obtain ⟨dw, -, h⟩ := bind_eq_ok.mp h
  obtain ⟨dh, -, h⟩ := bind_eq_ok.mp h
  obtain ⟨d, -, h⟩ := bind_eq_ok.mp h
  obtain ⟨itr, -, h⟩ := bind_eq_ok.mp h
  obtain ⟨hsize, hL⟩ := calculateSample_keeps hcalc
  rw [← Except.ok.inj h]
  exact ⟨hsize.trans (Block.size_write hs₁), hL⟩

/-! ## Where a cell is read from -/

/-- The pixel of row `i`, column `j` of the sampled grid lies in the picture. -/
theorem gridIndex_lt {i j s : Int} (hs : 0 < s) (hw : 0 ≤ width) (hi : i < height / s)
    (hj : j < width / s) : i * s * width + j * s < width * height := by
  have hi' : (i + 1) * s ≤ height := (Int.le_ediv_iff_mul_le hs).mp hi
  have hj' : (j + 1) * s ≤ width := (Int.le_ediv_iff_mul_le hs).mp hj
  have hrow : i * s * width ≤ (height - 1) * width :=
    mul_le_mul_of_nonneg_right (by linarith) hw
  linarith

theorem gridIndex_nonneg {i j s : Int} (hs : 0 ≤ s) (hw : 0 ≤ width) (hi : 0 ≤ i) (hj : 0 ≤ j) :
    0 ≤ i * s * width + j * s :=
  add_nonneg (mul_nonneg (mul_nonneg hi hs) hw) (mul_nonneg hj hs)

/-- No product or sum of `samplingTexture`'s index expression overflows. -/
theorem textureIndex_ok {i j s : Int} (hi : 0 ≤ i) (hj : 0 ≤ j) (hs : 1 ≤ s) (hw : 1 ≤ width)
    (h : 4 * (i * s * width + j * s) ≤ 2147483647) :
    textureIndex i j s width = .ok (4 * (i * s * width + j * s)) := by
  have his : 0 ≤ i * s := by positivity
  have hjs : 0 ≤ j * s := by positivity
  have h1 : i ≤ i * s := le_mul_of_one_le_right hi hs
  have h2 : i * s ≤ i * s * width := le_mul_of_one_le_right his hw
  have h3 : j ≤ j * s := le_mul_of_one_le_right hj hs
  have e1 : mulInt i 4 = .ok (i * 4) := mulInt_of_fits ⟨by linarith, by linarith⟩
  have e2 : mulInt (i * 4) s = .ok (i * 4 * s) := mulInt_of_fits ⟨by linarith, by linarith⟩
  have e3 : mulInt (i * 4 * s) width = .ok (i * 4 * s * width) :=
    mulInt_of_fits ⟨by linarith, by linarith⟩
  have e4 : mulInt j 4 = .ok (j * 4) := mulInt_of_fits ⟨by linarith, by linarith⟩
  have e5 : mulInt (j * 4) s = .ok (j * 4 * s) := mulInt_of_fits ⟨by linarith, by linarith⟩
  have e6 : addInt (i * 4 * s * width) (j * 4 * s) = .ok (i * 4 * s * width + j * 4 * s) :=
    addInt_of_fits ⟨by linarith, by linarith⟩
  simp only [textureIndex, e1, e2, e3, e4, e5, e6, ok_bind]
  congr 1
  ring

theorem intIndex_ok {i j s : Int} (hi : 0 ≤ i) (hj : 0 ≤ j) (hs : 1 ≤ s) (hw : 1 ≤ width)
    (h : i * s * width + j * s ≤ 2147483647) :
    intIndex i j s width = .ok (i * s * width + j * s) := by
  have his : 0 ≤ i * s := by positivity
  have hjs : 0 ≤ j * s := by positivity
  have h2 : i * s ≤ i * s * width := le_mul_of_one_le_right his hw
  have e1 : mulInt i s = .ok (i * s) := mulInt_of_fits ⟨by linarith, by linarith⟩
  have e2 : mulInt (i * s) width = .ok (i * s * width) :=
    mulInt_of_fits ⟨by linarith, by linarith⟩
  have e3 : mulInt j s = .ok (j * s) := mulInt_of_fits ⟨by linarith, by linarith⟩
  have e4 : addInt (i * s * width) (j * s) = .ok (i * s * width + j * s) :=
    addInt_of_fits ⟨by linarith, by linarith⟩
  simp only [intIndex, e1, e2, e3, e4, ok_bind]

/-! ## The frame a sampler fills -/

/-- What the loops put, in order: for each row listed, the entries of its columns. -/
def gridEntries (rows : List Nat) (columns : Nat) (entry : Nat → Nat → Int × UInt8) :
    List (Int × UInt8) :=
  rows.flatMap fun i => (List.range columns).map (entry i)

theorem length_gridEntries {rows : List Nat} {columns : Nat} {entry : Nat → Nat → Int × UInt8} :
    (gridEntries rows columns entry).length = rows.length * columns :=
  length_flatMap_rows fun _ _ => by simp

theorem getElem?_gridEntries {rows : List Nat} {columns r c : Nat}
    (entry : Nat → Nat → Int × UInt8) (hr : r < rows.length) (hc : c < columns) :
    (gridEntries rows columns entry)[r * columns + c]? = some (entry (rows.getD r 0) c) := by
  rw [gridEntries, getElem?_flatMap_rows (fun _ _ => by simp) hc, List.getD_eq_getElem?_getD,
    List.getElem?_eq_getElem hr]
  simp [hc]

/-- The frame of a sampler for a picture of the given size: `rows` lists its rows in the order the
loop takes them. -/
def gridImage (width height : Int) (rows : List Nat)
    (hrows : rows.length = (height / sampleFactor width height).toNat)
    (entry : Nat → Nat → Int × UInt8) : Image where
  nr := height / sampleFactor width height
  nc := width / sampleFactor width height
  data := (gridEntries rows (width / sampleFactor width height).toNat entry).map Prod.snd
  size_eq := by rw [List.length_map, length_gridEntries, hrows]

theorem fillFrame_ok (dest : Array2d) {rows : List Nat} {destWidth : Int}
    {pixel : Nat → Nat → Exec (Int × UInt8)} {entry : Nat → Nat → Int × UInt8}
    (hpixel : ∀ i ∈ rows, ∀ j < destWidth.toNat, pixel i j = .ok (entry i j))
    (hsize : rows.length * destWidth.toNat = dest.data.size) :
    ∃ itr, fillFrame dest rows destWidth pixel = .ok itr ∧
      itr.data.cells = (gridEntries rows destWidth.toNat entry).map (some ∘ Prod.snd) ∧
      itr.log = ((gridEntries rows destWidth.toNat entry).map Prod.fst).zipIdx := by
  have hlen : (gridEntries rows destWidth.toNat entry).length = dest.data.size := by
    rw [length_gridEntries, hsize]
  -- one row: the inner loop puts the entries of its columns
  have hrow : ∀ i ∈ rows, ∀ c : Cursor Int UInt8 dest.data.size,
      c.itr + ((List.range destWidth.toNat).map (entry i)).length ≤ dest.data.size →
      ∃ c', forEach (List.range destWidth.toNat)
          (fun j itr => pixel i j >>= fun p => itr.put p.1 p.2) c = .ok c' ∧
        c.Emits ((List.range destWidth.toNat).map (entry i)) c' := by
    intro i hi c hroom
    rw [List.map_eq_flatMap] at hroom ⊢
    refine Cursor.forEach_emits (fun j hj c hc => ?_) hroom
    obtain ⟨c', hput, he⟩ := Cursor.put_emits (c := c) (entry i j).1 (entry i j).2
      (Nat.lt_of_succ_le hc)
    refine ⟨c', ?_, he⟩
    rw [hpixel i hi j (List.mem_range.mp hj), ok_bind]
    exact hput
  obtain ⟨itr, hrun, he⟩ := Cursor.forEach_emits hrow (c := Cursor.start dest.data)
    (by rw [show (Cursor.start dest.data).itr = 0 from rfl, Nat.zero_add]; exact hlen.le)
  exact ⟨itr, hrun, he.full rfl hlen, he.log⟩

/-- Everything the two samplers have in common: what one call leaves behind, given what its loop
body reads. `rows` is the order of the outer loop. -/
structure SampledFrom (width height : Int) (rows : List Nat) (entry : Nat → Nat → Int × UInt8)
    (L : Ledger) (out : Sampled) : Prop where
  rows_length : rows.length = (height / sampleFactor width height).toNat
  view : out.dest.view = .ok (gridImage width height rows rows_length entry)
  sample : out.sample = factorBlock width height
  ledger : out.ledger = L.alloc
  log : out.log = ((gridEntries rows (width / sampleFactor width height).toNat entry).map
    Prod.fst).zipIdx

/-- The dimensions of the frame are far inside `int`: both sides are under `2 * maxSize`. -/
theorem fits_frameSize (hw : 240 ≤ width) (hh : 1 ≤ height) :
    Fits (height / sampleFactor width height * (width / sampleFactor width height)) := by
  have hs := one_le_sampleFactor height hw
  have hmax : max width height < 480 * sampleFactor width height := by
    unfold sampleFactor maxSize at hs ⊢
    omega
  have hdw : width / sampleFactor width height < 480 :=
    Int.ediv_lt_of_lt_mul (by omega) (lt_of_le_of_lt (le_max_left _ _) hmax)
  have hdh : height / sampleFactor width height < 480 :=
    Int.ediv_lt_of_lt_mul (by omega) (lt_of_le_of_lt (le_max_right _ _) hmax)
  have hdw0 : 0 ≤ width / sampleFactor width height := Int.ediv_nonneg (by omega) (by omega)
  have hdh0 : 0 ≤ height / sampleFactor width height := Int.ediv_nonneg (by omega) (by omega)
  constructor <;> nlinarith

/-- **The loop argument.** From any prior frame and any prior factor: once the body is known to
read `entry i j`, a sampler succeeds and leaves the frame that `entry` describes. -/
theorem sampleInto_ok {rows : Int → List Nat} {entry : Nat → Nat → Int × UInt8}
    {pixel : Block Int → Nat → Nat → Exec (Int × UInt8)} (dest : Array2d) (L : Ledger)
    (hw : 240 ≤ width) (hwm : width ≤ 2147483647) (hh : 1 ≤ height) (hhm : height ≤ 2147483647)
    (hs : sample.size = 1)
    (hrows : (rows (height / sampleFactor width height)).length =
      (height / sampleFactor width height).toNat)
    (hpixel : ∀ i ∈ rows (height / sampleFactor width height),
      ∀ j < (width / sampleFactor width height).toNat,
      pixel (factorBlock width height) i j = .ok (entry i j)) :
    ∃ out, sampleInto rows pixel width height sample dest L = .ok out ∧
      SampledFrom width height (rows (height / sampleFactor width height)) entry L out := by
  have hs1 := one_le_sampleFactor height hw
  obtain ⟨d, hd, hnr, hnc⟩ := Array2d.setSize_ok (a := dest)
    (Int.ediv_nonneg (by omega) (by omega)) (fits_frameSize hw hh)
  obtain ⟨itr, hrun, hcells, hlog⟩ := fillFrame_ok d hpixel
    (by rw [hrows, d.size_eq, hnr, hnc])
  refine ⟨⟨⟨d.nr, d.nc, itr.data, itr.size_eq.trans d.size_eq⟩, factorBlock width height, L.alloc,
    itr.log⟩, ?_, hrows, ?_, rfl, rfl, hlog⟩
  · have hone : (Block.ofList [1] (by simp [maxBlock]) : Block Int).size = 1 := rfl
    have hread : ∀ a b : Int, (Block.ofList [a, b] (by simp [maxBlock])).read 0 = .ok a ∧
        (Block.ofList [a, b] (by simp [maxBlock])).read 1 = .ok b := fun a b => ⟨rfl, rfl⟩
    unfold sampleInto
    rw [Block.write_single hs, ok_bind, calculateSample_ok hw hwm hh hhm hone, ok_bind]
    simp only [(hread _ _).1, (hread _ _).2, ok_bind, hd, hrun, pure_eq_ok]
  · rw [Array2d.view_eq_ok]
    exact ⟨hnr.symm, hnc.symm, by rw [hcells, gridImage, List.map_map]⟩

/-! ## `samplingTexture` -/

/-- The entry of row `i`, counted from the bottom, and column `j`: the index of the red byte and
the gray of the three bytes there. -/
def textureEntry (abi : Abi) (bytes : Nat → UInt8) (width height : Int) (i j : Nat) :
    Int × UInt8 :=
  let k := (i : Int) * sampleFactor width height * width + j * sampleFactor width height
  (4 * k, abi.gray (abi.charToInt (bytes (4 * k).toNat)) (abi.charToInt (bytes (4 * k + 1).toNat))
    (abi.charToInt (bytes (4 * k + 2).toNat)))

/-- The rows of `samplingTexture`, in the order of its loop. -/
def textureRows (width height : Int) : List Nat :=
  (List.range (height / sampleFactor width height).toNat).reverse

/-- The rows of `sampling`. -/
def intRows (width height : Int) : List Nat :=
  List.range (height / sampleFactor width height).toNat

theorem lt_of_mem_textureRows {i : Nat} (hh : 0 ≤ height / sampleFactor width height)
    (h : i ∈ textureRows width height) : (i : Int) < height / sampleFactor width height := by
  rw [textureRows, List.mem_reverse, List.mem_range] at h
  omega

theorem getD_textureRows {y : Nat} (hy : y < (height / sampleFactor width height).toNat) :
    (textureRows width height).getD y 0 = (height / sampleFactor width height).toNat - 1 - y := by
  rw [textureRows, List.getD_eq_getElem?_getD, List.getElem?_reverse (by simpa using hy),
    List.length_range, List.getElem?_range (by omega), Option.getD_some]

/-- A read of the byte at a non-negative index. -/
theorem read_byte {buffer : Block UInt8} {bytes : Nat → UInt8} {n : Nat} {k : Int}
    (hb : buffer.Holds n bytes) (h0 : 0 ≤ k) (hk : k < n) :
    buffer.read k = .ok (bytes k.toNat) := by
  have h := hb.read (k := k.toNat) (by omega)
  rwa [Int.toNat_of_nonneg h0] at h

theorem texturePixel_ok (abi : Abi) {buffer : Block UInt8} {bytes : Nat → UInt8} {i j : Nat}
    (hw : 240 ≤ width) (hfit : 4 * (width * height) ≤ 2147483647)
    (hb : buffer.Holds (4 * (width * height)).toNat bytes)
    (hi : (i : Int) < height / sampleFactor width height)
    (hj : (j : Int) < width / sampleFactor width height) :
    texturePixel abi buffer width (factorBlock width height) i j =
      .ok (textureEntry abi bytes width height i j) := by
  have hs := one_le_sampleFactor height hw
  have hlt := gridIndex_lt (by omega) (by omega) hi hj
  have hnn : 0 ≤ (i : Int) * sampleFactor width height * width + j * sampleFactor width height :=
    gridIndex_nonneg (by omega) (by omega) (Int.natCast_nonneg i) (Int.natCast_nonneg j)
  have hread : (factorBlock width height).read 0 = .ok (sampleFactor width height) := rfl
  have hindex := textureIndex_ok (Int.natCast_nonneg i) (Int.natCast_nonneg j) hs
    (show 1 ≤ width by omega) (by omega)
  unfold texturePixel textureEntry
  simp only [hread, hindex, ok_bind, pure_eq_ok]
  generalize (i : Int) * sampleFactor width height * width + j * sampleFactor width height = k
    at hlt hnn
  have hred := read_byte hb (k := 4 * k) (by omega) (by omega)
  have hgreen := read_byte hb (k := 4 * k + 1) (by omega) (by omega)
  have hblue := read_byte hb (k := 4 * k + 2) (by omega) (by omega)
  have hadd1 : addInt (4 * k) 1 = .ok (4 * k + 1) := addInt_of_fits ⟨by omega, by omega⟩
  have hadd2 : addInt (4 * k) 2 = .ok (4 * k + 2) := addInt_of_fits ⟨by omega, by omega⟩
  simp only [hred, hadd1, hgreen, hadd2, hblue, ok_bind]

/-- **`samplingTexture` on a full buffer.** -/
theorem samplingTexture_ok (abi : Abi) (dest : Array2d) (L : Ledger) {buffer : Block UInt8}
    {bytes : Nat → UInt8} (hw : 240 ≤ width) (hh : 1 ≤ height)
    (hfit : 4 * (width * height) ≤ 2147483647)
    (hb : buffer.Holds (4 * (width * height)).toNat bytes) (hs : sample.size = 1) :
    ∃ out, samplingTexture abi buffer width height sample dest L = .ok out ∧
      SampledFrom width height (textureRows width height)
        (textureEntry abi bytes width height) L out := by
  have hs1 := one_le_sampleFactor height hw
  have hdh : 0 ≤ height / sampleFactor width height := Int.ediv_nonneg (by omega) (by omega)
  exact sampleInto_ok dest L hw (by nlinarith) hh (by nlinarith) hs (by simp) fun i hi j hj =>
    texturePixel_ok abi hw hfit hb (lt_of_mem_textureRows hdh hi) (by omega)

/-! ## `sampling` -/

/-- The entry of row `i`, counted from the top, and column `j`. -/
def intEntry (abi : Abi) (pixels : Nat → BitVec 32) (width height : Int) (i j : Nat) :
    Int × UInt8 :=
  let k := (i : Int) * sampleFactor width height * width + j * sampleFactor width height
  let clr := pixels k.toNat
  (k, abi.gray (redOf clr) (greenOf clr) (blueOf clr))

theorem getD_intRows {y : Nat} (hy : y < (height / sampleFactor width height).toNat) :
    (intRows width height).getD y 0 = y := by
  rw [intRows, List.getD_eq_getElem?_getD, List.getElem?_range hy, Option.getD_some]

theorem intPixel_ok (abi : Abi) {src : Block (BitVec 32)} {pixels : Nat → BitVec 32} {i j : Nat}
    (hw : 240 ≤ width) (hfit : width * height ≤ 2147483647)
    (hb : src.Holds (width * height).toNat pixels)
    (hi : (i : Int) < height / sampleFactor width height)
    (hj : (j : Int) < width / sampleFactor width height) :
    intPixel abi src width (factorBlock width height) i j =
      .ok (intEntry abi pixels width height i j) := by
  have hs := one_le_sampleFactor height hw
  have hlt := gridIndex_lt (by omega) (by omega) hi hj
  have hnn : 0 ≤ (i : Int) * sampleFactor width height * width + j * sampleFactor width height :=
    gridIndex_nonneg (by omega) (by omega) (Int.natCast_nonneg i) (Int.natCast_nonneg j)
  have hread : (factorBlock width height).read 0 = .ok (sampleFactor width height) := rfl
  have hindex := intIndex_ok (Int.natCast_nonneg i) (Int.natCast_nonneg j) hs
    (show 1 ≤ width by omega) (by omega)
  have hsrc := hb.read (k := ((i : Int) * sampleFactor width height * width +
    j * sampleFactor width height).toNat) (by omega)
  rw [Int.toNat_of_nonneg hnn] at hsrc
  simp only [intPixel, intEntry, hread, hindex, hsrc, ok_bind, pure_eq_ok]

/-- **`sampling` on a full array.** -/
theorem sampling_ok (abi : Abi) (dest : Array2d) (L : Ledger) {src : Block (BitVec 32)}
    {pixels : Nat → BitVec 32} (hw : 240 ≤ width) (hh : 1 ≤ height)
    (hfit : width * height ≤ 2147483647)
    (hb : src.Holds (width * height).toNat pixels) (hs : sample.size = 1) :
    ∃ out, sampling abi src width height sample dest L = .ok out ∧
      SampledFrom width height (intRows width height) (intEntry abi pixels width height) L out := by
  have hs1 := one_le_sampleFactor height hw
  have hdh : 0 ≤ height / sampleFactor width height := Int.ediv_nonneg (by omega) (by omega)
  exact sampleInto_ok dest L hw (by nlinarith) hh (by nlinarith) hs (by simp) fun i hi j hj =>
    intPixel_ok abi hw hfit hb (by rw [List.mem_range] at hi; omega) (by omega)

end DlibAndroid
