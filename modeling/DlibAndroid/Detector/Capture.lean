import DlibAndroid.Detector.Reach

/-!
# From the picture to the arrays

The forward direction, for pictures of a size the wrapper is made for. A call has two halves: it
captures a frame (`Captured`), and it reports what the detector and the predictor say about that
frame. The first half leaves the frame, the factor and the buffer in closed form, whatever they
were before; so the second half, `outcome`, is a function of the model and of the call alone
(`call_eq`).

On the texture path the capture needs the buffer to be *served*: its byte count fits `int`, and a
block of that size is either kept from an earlier call or newly allocated. Nothing checks this, and
where it fails the call faults (`served_of_detectTexture`).
-/

set_option autoImplicit false

namespace DlibAndroid

open CCore

/-- The frame `samplingTexture` leaves for a picture. -/
def textureFrame (abi : Abi) (picture : Nat → UInt8) (width height : Int) : Image :=
  gridImage width height (textureRows width height) (by simp [textureRows])
    (textureEntry abi picture width height)

/-- The frame `sampling` leaves for a bitmap. -/
def bitmapFrame (abi : Abi) (pixels : Nat → BitVec 32) (width height : Int) : Image :=
  gridImage width height (intRows width height) (by simp [intRows])
    (intEntry abi pixels width height)

namespace Dlib

variable {M : Type} {env : Env M} {d d₁ d' : Dlib M} {leaked : List Nat} {malloc : Bool}
  {picture : Nat → UInt8} {abi : Abi} {width height : Int} {rect points : Block Int32}

/-- A block of the right size is there, or will be. -/
def Served (d : Dlib M) (malloc : Bool) (width height : Int) : Prop :=
  4 * (width * height) ≤ 2147483647 ∧
    if d.textureBufferSize = 4 * (width * height) then d.textureBuffer.isSome = true
    else malloc = true

/-- The buffer is a live block with room for the picture. -/
def BufferReady (d : Dlib M) (width height : Int) : Prop :=
  ∃ o, d.textureBuffer = some o ∧ d.heap.Live o.id ∧ 4 * (width * height) ≤ o.val.size

/-- The object holds the frame `img` and the factor of the picture it came from. -/
structure Captured (d : Dlib M) (img : Image) (width height : Int) : Prop where
  sample : ∃ o, d.sample = some o ∧ o.val = factorBlock width height
  frame : ∃ o, d.frame = some o ∧ o.val.view = .ok img
  owns : ∃ leaked, d.Owns leaked

theorem Captured.view_unique {img img' : Image} {o : Owned Array2d}
    (h : d.Captured img width height) (ho : d.frame = some o) (hview : o.val.view = .ok img') :
    img' = img := by
  obtain ⟨o', ho', hview'⟩ := h.frame
  obtain rfl := Option.some.inj (ho.symm.trans ho')
  exact Except.ok.inj (hview.symm.trans hview')

theorem Captured.factor_unique {img : Image} {o : Owned (Block Int)} {s : Int}
    (h : d.Captured img width height) (ho : d.sample = some o) (hread : o.val.read 0 = .ok s) :
    s = sampleFactor width height := by
  obtain ⟨o', ho', hfactor⟩ := h.sample
  obtain rfl := Option.some.inj (ho.symm.trans ho')
  rw [hfactor] at hread
  exact (Except.ok.inj hread).symm

/-! ## The texture buffer -/

theorem prepareBuffer_served (hd : d.Owns leaked) (hw : 240 ≤ width) (hh : 1 ≤ height)
    (h : d.Served malloc width height) :
    ∃ d₁, prepareBuffer malloc width height d = .ok d₁ ∧ d₁.BufferReady width height ∧
      d.SameTask d₁ := by
  obtain ⟨hfit, hserved⟩ := h
  have hpos : 0 < width * height := by positivity
  have hfits : Fits (width * height) := ⟨by omega, by omega⟩
  have hfits4 : Fits (width * height * 4) := ⟨by omega, by omega⟩
  by_cases hsame : d.textureBufferSize = 4 * (width * height)
  · rw [if_pos hsame] at hserved
    obtain ⟨o, ho⟩ := Option.isSome_iff_exists.mp hserved
    refine ⟨d, prepareBuffer_eq_ok.mpr ⟨hfits, hfits4, Or.inl ⟨by omega, rfl⟩⟩,
      ⟨o, ho, hd.live_textureBuffer ho, ?_⟩, rfl, rfl⟩
    rw [hd.buffer o ho]
    omega
  · rw [if_neg hsame] at hserved
    obtain ⟨L, hL, -, -⟩ := Owned.release_ok hd.heap_buffer
    obtain ⟨o, hmalloc, hid, hsize⟩ :=
      mallocBytes_true (L := L) (show 0 ≤ width * height * 4 by omega) (by omega)
    refine ⟨_, prepareBuffer_eq_ok.mpr ⟨hfits, hfits4, Or.inr ⟨by omega, L, hL, rfl⟩⟩, ?_, rfl, rfl⟩
    subst hserved
    refine ⟨o, congrArg Prod.fst hmalloc, ?_, by omega⟩
    show (mallocBytes true (width * height * 4) L).2.Live o.id
    rw [hmalloc, hid]
    exact Ledger.live_alloc_self

/-- The byte count of the picture, as `glReadPixels` computes it. -/
theorem pixelBytes (hw : 240 ≤ width) (hh : 1 ≤ height) :
    4 * (width.toNat * height.toNat) = (4 * (width * height)).toNat := by
  obtain ⟨w, rfl⟩ := Int.eq_ofNat_of_zero_le (show 0 ≤ width by omega)
  obtain ⟨h, rfl⟩ := Int.eq_ofNat_of_zero_le (show 0 ≤ height by omega)
  rw [Int.toNat_natCast, Int.toNat_natCast]
  norm_cast

theorem glReadPixels_ready (picture : Nat → UInt8) (hw : 240 ≤ width) (hh : 1 ≤ height)
    (h : d.BufferReady width height) :
    ∃ o b, d.textureBuffer = some o ∧ o.val.Updated (4 * (width * height)).toNat picture b ∧
      glReadPixels picture width height d =
        .ok { d with textureBuffer := some ⟨o.id, b⟩ } := by
  obtain ⟨o, ho, hlive, hsize⟩ := h
  have hbytes := pixelBytes hw hh
  have hpos : 0 < width * height := by positivity
  have hle : 4 * (width.toNat * height.toNat) ≤ o.val.size := by omega
  refine ⟨o, o.val.overwrite _ picture hle, ho, ?_, ?_⟩
  · rw [← hbytes]
    exact Block.updated_overwrite hle
  rw [glReadPixels, if_neg (by omega), ho, Owned.deref_of_live hlive, ok_bind, dif_pos hle]

/-! ## The capture -/

theorem sampleTexture_ok (abi : Abi) (hd : d.Owns leaked) (hw : 240 ≤ width) (hh : 1 ≤ height)
    (hfit : 4 * (width * height) ≤ 2147483647) {o : Owned (Block UInt8)}
    (ho : d.textureBuffer = some o) (hb : o.val.Holds (4 * (width * height)).toNat picture) :
    ∃ d', sampleTexture abi width height d = .ok d' ∧
      d'.Captured (textureFrame abi picture width height) width height ∧ d.SameTask d' := by
  obtain ⟨sample, hsample, hone⟩ := hd.sample
  obtain ⟨frame, hframe⟩ := hd.frame
  obtain ⟨out, hout, hsampled⟩ := samplingTexture_ok abi frame.val d.heap hw hh hfit hb hone
  have hrun : sampleTexture abi width height d = .ok { d with
      sample := some ⟨sample.id, out.sample⟩, frame := some ⟨frame.id, out.dest⟩,
      heap := out.ledger } := by
    rw [sampleTexture, ho, Owned.pointee_of_live (hd.live_textureBuffer ho), ok_bind, hsample,
      Owned.deref_of_live (hd.live_sample hsample), ok_bind, hframe,
      Owned.deref_of_live (hd.live_frame hframe), ok_bind, hout]
    rfl
  exact ⟨_, hrun, ⟨⟨_, rfl, hsampled.sample⟩, ⟨_, rfl, hsampled.view⟩,
    _, (sampleTexture_resampled hrun).owns hd⟩, rfl, rfl⟩

theorem sampleIntArray_ok (abi : Abi) {src : Block (BitVec 32)} {pixels : Nat → BitVec 32}
    (hd : d.Owns leaked) (hw : 240 ≤ width) (hh : 1 ≤ height)
    (hfit : width * height ≤ 2147483647) (hsrc : src.Holds (width * height).toNat pixels) :
    ∃ d', sampleIntArray abi src width height d = .ok d' ∧
      d'.Captured (bitmapFrame abi pixels width height) width height ∧ d.SameTask d' := by
  obtain ⟨sample, hsample, hone⟩ := hd.sample
  obtain ⟨frame, hframe⟩ := hd.frame
  obtain ⟨out, hout, hsampled⟩ := sampling_ok abi frame.val d.heap hw hh hfit hsrc hone
  have hrun : sampleIntArray abi src width height d = .ok { d with
      sample := some ⟨sample.id, out.sample⟩, frame := some ⟨frame.id, out.dest⟩,
      heap := out.ledger } := by
    rw [sampleIntArray, hsample, Owned.deref_of_live (hd.live_sample hsample), ok_bind, hframe,
      Owned.deref_of_live (hd.live_frame hframe), ok_bind, hout]
    rfl
  exact ⟨_, hrun, ⟨⟨_, rfl, hsampled.sample⟩, ⟨_, rfl, hsampled.view⟩,
    _, (sampleIntArray_resampled hrun).owns hd⟩, rfl, rfl⟩

/-- **The first half of a texture call**, with the buffer ready both when it is written and when it
is read. -/
theorem captureTexture_ok (abi : Abi) (picture : Nat → UInt8) (hd : d.Owns leaked)
    (hw : 240 ≤ width) (hh : 1 ≤ height) (h : d.Served malloc width height) :
    ∃ d₁ d₂ d', prepareBuffer malloc width height d = .ok d₁ ∧ d₁.BufferReady width height ∧
      glReadPixels picture width height d₁ = .ok d₂ ∧ d₂.BufferReady width height ∧
      sampleTexture abi width height d₂ = .ok d' ∧
      d'.Captured (textureFrame abi picture width height) width height ∧ d.SameTask d' := by
  obtain ⟨d₁, h₁, hready₁, htask₁⟩ := prepareBuffer_served hd hw hh h
  have hd₁ := prepareBuffer_owns hd h₁
  obtain ⟨o, b, ho, hu, h₂⟩ := glReadPixels_ready picture hw hh hready₁
  have hd₂ := glReadPixels_owns hd₁ h₂
  have hready₂ :
      ({ d₁ with textureBuffer := some ⟨o.id, b⟩ } : Dlib M).BufferReady width height := by
    obtain ⟨o', ho', hlive, hsize⟩ := hready₁
    obtain rfl := Option.some.inj (ho.symm.trans ho')
    exact ⟨_, rfl, hlive, by rw [hu.size]; exact hsize⟩
  obtain ⟨d', h₃, hcap, htask₃⟩ := sampleTexture_ok abi hd₂ hw hh h.1 rfl hu.holds
  exact ⟨d₁, _, d', h₁, hready₁, h₂, hready₂, h₃, hcap, htask₁.trans htask₃⟩

/-- Once there is a buffer after `checkTextureBuffer`, the call was served. -/
theorem served_of_prepareBuffer (h : prepareBuffer malloc width height d = .ok d₁)
    (hbuffer : d₁.textureBuffer.isSome = true) : d.Served malloc width height := by
  obtain ⟨-, hfits4, hcase⟩ := prepareBuffer_eq_ok.mp h
  refine ⟨by have := hfits4.2; omega, ?_⟩
  rcases hcase with ⟨hsame, rfl⟩ | ⟨hne, L, -, rfl⟩
  · rw [if_pos (by omega)]
    exact hbuffer
  · rw [if_neg (by omega)]
    cases malloc with
    | true => rfl
    | false =>
      rw [rebuffer, mallocBytes_false] at hbuffer
      cases hbuffer

/-- A texture call that completes was served. -/
theorem served_of_detectTexture {out : Dlib M × Block Int32 × Block Int32} (hw : 240 ≤ width)
    (hh : 1 ≤ height)
    (h : detectTexture env malloc picture width height rect points d = .ok out) :
    d.Served malloc width height := by
  obtain ⟨d₁, d₂, h₁, h₂, -, -⟩ := detectTexture_eq_ok h
  have hpos : 0 < width * height := by positivity
  have hbytes := pixelBytes hw hh
  -- the pixels were written somewhere
  rw [glReadPixels, if_neg (by omega)] at h₂
  obtain ⟨o, ho, -⟩ := bind_eq_ok.mp h₂
  exact served_of_prepareBuffer h₁ (by rw [(Owned.deref_eq_ok.mp ho).1]; rfl)

/-! ## The methods -/

/-- What a tracking call leaves in the arrays, with `s` for the sample factor. -/
def tracking (env : Env M) (model : M) (img : Image) (s : Int) (rect points : Block Int32) :
    Exec (Block Int32 × Block Int32) := do
  let points ← landmarks env model img points
  if (faceIn env img).AllNonzero then do
    let rect ← writeRect rect (faceIn env img)
    reduction rect points s
  else pure (rect, points)

theorem Captured.analyse_eq {img : Image} (h : d.Captured img width height)
    (hrect : 4 ≤ rect.size) :
    analyse env d rect points = detection env d.featureModel img rect points := by
  obtain ⟨o, ho, hview⟩ := h.frame
  obtain ⟨leaked, hd⟩ := h.owns
  exact Dlib.analyse_eq ho (hd.live_frame ho) hview hrect

theorem detectTexture_eq (env : Env M) (picture : Nat → UInt8) (points : Block Int32)
    (hd : d.Owns leaked) (hw : 240 ≤ width) (hh : 1 ≤ height) (h : d.Served malloc width height)
    (hrect : 4 ≤ rect.size) :
    ∃ d', d'.Captured (textureFrame env.abi picture width height) width height ∧ d.SameTask d' ∧
      detectTexture env malloc picture width height rect points d =
        detection env d.featureModel (textureFrame env.abi picture width height) rect points >>=
          fun rp => .ok (d', rp.1, rp.2) := by
  obtain ⟨d₁, d₂, d', h₁, -, h₂, -, h₃, hcap, htask⟩ := captureTexture_ok env.abi picture hd hw hh h
  refine ⟨d', hcap, htask, ?_⟩
  rw [detectTexture, h₁, ok_bind, h₂, ok_bind, h₃, ok_bind, hcap.analyse_eq hrect, htask.1]
  rfl

theorem detectIntArray_eq (env : Env M) {src : Block (BitVec 32)} {pixels : Nat → BitVec 32}
    (points : Block Int32) (hd : d.Owns leaked) (hw : 240 ≤ width) (hh : 1 ≤ height)
    (hfit : width * height ≤ 2147483647) (hsrc : src.Holds (width * height).toNat pixels)
    (hrect : 4 ≤ rect.size) :
    ∃ d', d'.Captured (bitmapFrame env.abi pixels width height) width height ∧ d.SameTask d' ∧
      detectIntArray env src width height rect points d =
        detection env d.featureModel (bitmapFrame env.abi pixels width height) rect points >>=
          fun rp => .ok (d', rp.1, rp.2) := by
  obtain ⟨d', h₁, hcap, htask⟩ := sampleIntArray_ok env.abi hd hw hh hfit hsrc
  refine ⟨d', hcap, htask, ?_⟩
  rw [detectIntArray, h₁, ok_bind, hcap.analyse_eq hrect, htask.1]
  rfl

/-- The detection goes into the object's own rectangle, whose earlier contents are gone before
`found` looks at it. -/
theorem trackTexture_eq (env : Env M) (picture : Nat → UInt8) (rect points : Block Int32)
    (hd : d.Owns leaked) (hw : 240 ≤ width) (hh : 1 ≤ height) (h : d.Served malloc width height) :
    ∃ d', d'.Captured (textureFrame env.abi picture width height) width height ∧
      trackTexture env malloc picture width height rect points d =
        tracking env d.featureModel (textureFrame env.abi picture width height)
          (sampleFactor width height) rect points >>= fun rp => .ok (d', rp.1, rp.2) := by
  obtain ⟨face, hface, hfour⟩ := hd.faceTrackRect
  obtain ⟨d₁, hcap, htask, hrun⟩ := detectTexture_eq env picture points hd hw hh h
    (show 4 ≤ face.val.size by omega)
  obtain ⟨faceRect, hwrite, hu⟩ := writeRect_ok
    (faceIn env (textureFrame env.abi picture width height)) (show 4 ≤ face.val.size by omega)
  obtain ⟨sample, hsample, hfactor⟩ := hcap.sample
  obtain ⟨leaked₁, hd₁⟩ := hcap.owns
  have hlive : d₁.heap.Live sample.id := hd₁.live_sample hsample
  have hread : sample.val.read 0 = .ok (sampleFactor width height) := by rw [hfactor]; rfl
  refine ⟨{ d₁ with faceTrackRect := some ⟨face.id, faceRect⟩ }, ⟨hcap.sample, hcap.frame, leaked₁,
    hd₁.frame, hd₁.sample, ⟨_, rfl, hu.size.trans hfour⟩, hd₁.buffer, ?_⟩, ?_⟩
  · have hheap := hd₁.heap
    rw [blocks, htask.2, hface] at hheap
    exact hheap
  · rw [trackTexture, hface, Owned.deref_of_live (hd.live_faceTrackRect hface), ok_bind, hrun,
      detection, tracking, hwrite, ok_bind]
    cases landmarks env d.featureModel (textureFrame env.abi picture width height) points with
    | error e => rfl
    | ok points =>
      simp only [ok_bind, pure_eq_ok, found_ok hu.holds, decide_eq_true_eq]
      by_cases hfound : (faceIn env (textureFrame env.abi picture width height)).AllNonzero
      · rw [if_pos hfound, if_pos hfound, readRect_ok hu.holds, ok_bind, hsample,
          Owned.deref_of_live hlive]
        cases writeRect rect (faceIn env (textureFrame env.abi picture width height)) with
        | error e => rfl
        | ok rect => rw [ok_bind, ok_bind, ok_bind, hread, ok_bind]
      · rw [if_neg hfound, if_neg hfound, ok_bind]

end Dlib

end DlibAndroid
