import DlibAndroid.Detector.Buffer
import DlibAndroid.Detector.Track

/-!
# Earlier frames leave no trace

Two objects made from one model, with any two histories behind them, answer the next call alike.
The reason is `call_eq`: on a proper call, everything a caller can observe is `outcome`, in which
no part of the object but its model occurs. So the four pieces of retained state — the buffer, the
frame, the factor and `faceTrackRect` — are all overwritten before they are read; and since a read
of a cell nobody has written is a fault of its own, the same equation shows that none happens
(`outcome_ne_error`), although `clearedRect` and every fresh block hold such cells.
-/

set_option autoImplicit false

namespace DlibAndroid.Dlib

open CCore

variable {M : Type} {env : Env M} {model : M} {d d₁ d₂ d' : Dlib M} {leaked : List Nat} {c : Call}
  {calls calls₁ calls₂ : List Call} {img : Image} {s width height : Int}
  {rect points points' : Block Int32}

/-- A call with arrays of the right length, on a picture of a size the wrapper is made for that is
really there, and with memory to spare. -/
def Call.Proper : Call → Prop
  | .detectIntArray src width height rect points =>
      240 ≤ width ∧ 1 ≤ height ∧ 4 * (width * height) ≤ 2147483647 ∧
        rect.size = 4 ∧ points.size = 136 ∧ src.Holds (width * height).toNat (src.get 0)
  | .detectTexture malloc _ width height rect points
  | .trackTexture malloc _ width height rect points =>
      240 ≤ width ∧ 1 ≤ height ∧ 4 * (width * height) ≤ 2147483647 ∧
        rect.size = 4 ∧ points.size = 136 ∧ malloc = true

/-- The frame a proper call is answered on, and its factor. -/
def Call.frame (abi : Abi) : Call → Image
  | .detectIntArray src width height _ _ => bitmapFrame abi (src.get 0) width height
  | .detectTexture _ picture width height _ _
  | .trackTexture _ picture width height _ _ => textureFrame abi picture width height

def Call.factor : Call → Int
  | .detectIntArray _ width height _ _
  | .detectTexture _ _ width height _ _
  | .trackTexture _ _ width height _ _ => sampleFactor width height

/-- The two arrays after a proper call. -/
def outcome (env : Env M) (model : M) (c : Call) : Exec (Block Int32 × Block Int32) :=
  match c with
  | .detectIntArray _ _ _ rect points
  | .detectTexture _ _ _ _ rect points => detection env model (c.frame env.abi) rect points
  | .trackTexture _ _ _ _ rect points => tracking env model (c.frame env.abi) c.factor rect points

/-- The frame and the factor as an observer finds them in the object. -/
def frameView (d : Dlib M) : Exec Image := do
  let frame ← Owned.deref d.heap d.frame
  frame.val.view

def factorView (d : Dlib M) : Exec Int := do
  let sample ← Owned.deref d.heap d.sample
  sample.val.read 0

/-- What a call shows: the fault it ends in, or the caller's arrays, the frame and the factor. -/
def observe (r : Exec (Dlib M × Block Int32 × Block Int32)) :
    Exec (Block Int32 × Block Int32 × Exec Image × Exec Int) :=
  r.map fun out => (out.2.1, out.2.2, out.1.frameView, out.1.factorView)

/-! ## Proper histories -/

/-- A proper texture call, as one of the calls of `Detector/Buffer.lean`. -/
theorem Call.Proper.texture (h : c.Proper) :
    (∃ src width height rect points, c = .detectIntArray src width height rect points) ∨
      ∃ t : TextureCall, c = t.toCall ∧ t.malloc = true := by
  cases c with
  | detectIntArray src width height rect points => exact Or.inl ⟨_, _, _, _, _, rfl⟩
  | detectTexture malloc picture width height rect points =>
    obtain ⟨hw, hh, hfit, -, -, hmalloc⟩ := h
    exact Or.inr ⟨⟨false, malloc, picture, width, height, rect, points, hw, hh, hfit⟩, rfl, hmalloc⟩
  | trackTexture malloc picture width height rect points =>
    obtain ⟨hw, hh, hfit, -, -, hmalloc⟩ := h
    exact Or.inr ⟨⟨true, malloc, picture, width, height, rect, points, hw, hh, hfit⟩, rfl, hmalloc⟩

/-- The bitmap path keeps its hands off the buffer. -/
theorem detectIntArray_sizeExact {src : Block (BitVec 32)} (hd : d.SizeExact)
    (h : step env (.detectIntArray src width height rect points) d = .ok d') : d'.SizeExact := by
  obtain ⟨rect', points', hcall⟩ := step_eq_ok h
  obtain ⟨sample, frame, s, a, -, -, -, rfl⟩ :=
    sampleIntArray_resampled (detectIntArray_eq_ok hcall)
  unfold SizeExact at hd ⊢
  cases hbuffer : d.textureBuffer with
  | none =>
    rw [hbuffer] at hd
    exact hd
  | some o =>
    rw [hbuffer] at hd
    exact ⟨hd.1.alloc, hd.2⟩

/-- What a proper history leaves: an object that owns its blocks and knows its buffer's size. -/
theorem run_proper (hproper : ∀ c ∈ calls, c.Proper) (h : run env model calls = .ok d) :
    (∃ leaked, d.Owns leaked) ∧ d.SizeExact := by
  refine forEach_invariant (fun d => (∃ leaked, d.Owns leaked) ∧ d.SizeExact) ?_ h
    ⟨⟨[], new_owns model⟩, new_sizeExact model⟩
  rintro c hc d d' ⟨⟨leaked, hd⟩, hexact⟩ hstep
  obtain ⟨i, hd'⟩ := step_owns hd hstep
  refine ⟨⟨_, hd'⟩, ?_⟩
  rcases (hproper c hc).texture with ⟨src, width, height, rect, points, rfl⟩ | ⟨t, rfl, -⟩
  · exact detectIntArray_sizeExact hexact hstep
  · exact step_sizeExact hd hstep

/-! ## One proper call -/

/-- **Everything observable about a proper call** is its outcome, its frame and its factor. -/
theorem call_eq (env : Env M) (hc : c.Proper) (hd : d.Owns leaked) (hexact : d.SizeExact) :
    ∃ d', d'.frameView = .ok (c.frame env.abi) ∧ d'.factorView = .ok c.factor ∧
      call env c d = outcome env d.featureModel c >>= fun rp => .ok (d', rp.1, rp.2) := by
  have hviews : ∀ (d' : Dlib M) (img : Image) (width height : Int),
      d'.Captured img width height →
        d'.frameView = .ok img ∧ d'.factorView = .ok (sampleFactor width height) := by
    rintro d' img width height ⟨⟨sample, hsample, hfactor⟩, ⟨frame, hframe, hview⟩, leaked', hd'⟩
    rw [frameView, factorView, hframe, hsample, Owned.deref_of_live (hd'.live_frame hframe),
      Owned.deref_of_live (hd'.live_sample hsample), ok_bind, ok_bind, hview, hfactor]
    exact ⟨rfl, rfl⟩
  cases c with
  | detectIntArray src width height rect points =>
    obtain ⟨hw, hh, hfit, hrect, -, hsrc⟩ := hc
    obtain ⟨d', hcap, -, hrun⟩ := detectIntArray_eq env points hd hw hh (by omega) hsrc
      (show 4 ≤ rect.size by omega)
    exact ⟨d', (hviews d' _ _ _ hcap).1, (hviews d' _ _ _ hcap).2, hrun⟩
  | detectTexture malloc picture width height rect points =>
    obtain ⟨hw, hh, hfit, hrect, -, hmalloc⟩ := hc
    have hserved : d.Served malloc width height := (served_iff (c :=
      ⟨false, malloc, picture, width, height, rect, points, hw, hh, hfit⟩) hexact).mpr
      (Or.inr hmalloc)
    obtain ⟨d', hcap, -, hrun⟩ := detectTexture_eq env picture points hd hw hh hserved
      (show 4 ≤ rect.size by omega)
    exact ⟨d', (hviews d' _ _ _ hcap).1, (hviews d' _ _ _ hcap).2, hrun⟩
  | trackTexture malloc picture width height rect points =>
    obtain ⟨hw, hh, hfit, -, -, hmalloc⟩ := hc
    have hserved : d.Served malloc width height := (served_iff (c :=
      ⟨true, malloc, picture, width, height, rect, points, hw, hh, hfit⟩) hexact).mpr
      (Or.inr hmalloc)
    obtain ⟨d', hcap, hrun⟩ := trackTexture_eq env picture rect points hd hw hh hserved
    exact ⟨d', (hviews d' _ _ _ hcap).1, (hviews d' _ _ _ hcap).2, hrun⟩

/-! ## The faults a proper call can end in -/

theorem writePart_ne_error {e : Fault} (he : e ≠ .outOfRange) (parts : List Point) (i : Nat)
    (b : Block Int32) : writePart parts i b ≠ .error e := by
  have hpart : part parts i ≠ .error e := index_ne_error he
  exact bind_ne_error hpart fun p _ => bind_ne_error (Block.write_ne_error he)
    fun b _ => Block.write_ne_error he

theorem landmarks_ne_error {e : Fault} (he : e ≠ .outOfRange)
    (hpredict : ∀ img r, env.predict model img r ≠ .error e) :
    landmarks env model img points ≠ .error e :=
  bind_ne_error (hpredict _ _) fun parts _ => forEach_ne_error (writePart_ne_error he parts)

/-- Landmarks that were stored fill the array. -/
theorem landmarks_holds (hpoints : points.size = 136)
    (h : landmarks env model img points = .ok points') : ∃ g, points'.Holds 136 g := by
  obtain ⟨parts, hpredict, hloop⟩ := bind_eq_ok.mp h
  obtain ⟨p, hp, hu⟩ := writeParts_ok (length_of_writeParts hloop) (show 136 ≤ points.size by omega)
  obtain rfl := Except.ok.inj (hloop.symm.trans hp)
  exact ⟨_, hu.holds⟩

/-- Scaling an array that is there can only overflow. -/
theorem scale_ne_error {b : Block Int32} {n : Nat} {g : Nat → Int32} {e : Fault}
    (he : e ≠ .overflow) (hb : b.Holds n g) : forEach (List.range n) (scaleAt s) b ≠ .error e := by
  induction n with
  | zero => exact ok_ne_error
  | succ n ih =>
    rw [List.range_succ, forEach_append]
    refine bind_ne_error (ih (hb.mono (Nat.le_succ n))) fun c hc => ?_
    obtain ⟨-, hu⟩ := (scale_eq_ok (hb.mono (Nat.le_succ n))).mp hc
    have hcell := (hu.rest n (Nat.le_refl n)).trans (hb n (Nat.lt_succ_self n))
    have hlt : n < c.size := (List.getElem?_eq_some_iff.mp hcell).1
    rw [forEach_cons, scaleAt, Block.read_nat hcell, ok_bind]
    refine bind_ne_error (bind_ne_error (checked_ne_error he) fun m _ => ?_)
      fun t _ => ok_ne_error
    obtain ⟨c', hc', -⟩ := Block.write_nat (v := Int32.ofInt m) hlt
    rw [hc']
    exact ok_ne_error

/-- Beyond the landmarks, a proper call can only overflow. -/
theorem outcome_ne_error {e : Fault} (he : e ≠ .overflow) (hc : c.Proper)
    (hlandmarks : ∀ img points, points.size = 136 → landmarks env model img points ≠ .error e) :
    outcome env model c ≠ .error e := by
  have hdetection : ∀ img (rect points : Block Int32), rect.size = 4 → points.size = 136 →
      detection env model img rect points ≠ .error e := by
    intro img rect points hrect hpoints
    obtain ⟨r, hr, -⟩ := writeRect_ok (faceIn env img) hrect.ge
    rw [detection, hr, ok_bind]
    exact bind_ne_error (hlandmarks img points hpoints) fun p _ => ok_ne_error
  cases c with
  | detectIntArray src width height rect points =>
    exact hdetection _ _ _ hc.2.2.2.1 hc.2.2.2.2.1
  | detectTexture malloc picture width height rect points =>
    exact hdetection _ _ _ hc.2.2.2.1 hc.2.2.2.2.1
  | trackTexture malloc picture width height rect points =>
    obtain ⟨-, -, -, hrect, hpoints, -⟩ := hc
    refine bind_ne_error (hlandmarks _ points hpoints) fun p hp => ?_
    obtain ⟨g, hg⟩ := landmarks_holds hpoints hp
    split
    · -- `reduction` reads what was just written
      obtain ⟨r, hr, hu⟩ := writeRect_ok (faceIn env (Call.frame env.abi (.trackTexture malloc
        picture width height rect points))) hrect.ge
      rw [hr, ok_bind]
      exact bind_ne_error (scale_ne_error he hu.holds) fun r' _ =>
        bind_ne_error (scale_ne_error he hg) fun p' _ => ok_ne_error
    · exact ok_ne_error

/-- **Earlier frames leave no trace.** -/
theorem observe_call_eq (hpredict : ∀ img r, env.predict model img r ≠ .error .uninitialised)
    (hproper₁ : ∀ c ∈ calls₁, c.Proper) (hproper₂ : ∀ c ∈ calls₂, c.Proper)
    (hrun₁ : run env model calls₁ = .ok d₁) (hrun₂ : run env model calls₂ = .ok d₂)
    (hc : c.Proper) :
    observe (call env c d₁) = observe (call env c d₂) ∧
      call env c d₁ ≠ .error .uninitialised := by
  obtain ⟨⟨leaked₁, hd₁⟩, hexact₁⟩ := run_proper hproper₁ hrun₁
  obtain ⟨⟨leaked₂, hd₂⟩, hexact₂⟩ := run_proper hproper₂ hrun₂
  obtain ⟨e₁, hframe₁, hfactor₁, hcall₁⟩ := call_eq env hc hd₁ hexact₁
  obtain ⟨e₂, hframe₂, hfactor₂, hcall₂⟩ := call_eq env hc hd₂ hexact₂
  rw [run_featureModel hrun₁] at hcall₁
  rw [run_featureModel hrun₂] at hcall₂
  refine ⟨?_, ?_⟩
  · rw [hcall₁, hcall₂]
    cases outcome env model c with
    | error e => rfl
    | ok rp =>
      rw [ok_bind, ok_bind]
      simp only [observe, Except.map, hframe₁, hframe₂, hfactor₁, hfactor₂]
  · rw [hcall₁]
    exact bind_ne_error (outcome_ne_error (by decide) hc
      fun _ _ _ => landmarks_ne_error (by decide) hpredict) fun rp _ => ok_ne_error

/-- A proper first call with an outcome completes. -/
theorem run_first {rp : Block Int32 × Block Int32} (hc : c.Proper)
    (houtcome : outcome env model c = .ok rp) : ∃ d, run env model [c] = .ok d := by
  obtain ⟨d, -, -, hcall⟩ := call_eq env hc (new_owns model) (new_sizeExact model)
  have hstep : step env c (new model) = .ok d := by
    rw [step, hcall]
    exact bind_eq_ok.mpr ⟨(d, rp.1, rp.2), bind_eq_ok.mpr ⟨rp, houtcome, rfl⟩, rfl⟩
  refine ⟨d, ?_⟩
  rw [run, forEach_cons, hstep]
  rfl

/-! ## A picture of 480 by 480, and then one of 320 by 240 -/

def largeCall : Call := .detectTexture true (fun _ => 7) 480 480 zeroRect zeroPoints

def smallCall : Call := .trackTexture true (fun _ => 9) 320 240 zeroRect zeroPoints

theorem largeCall_proper : largeCall.Proper :=
  ⟨by decide, by decide, by decide, Block.size_tabulate, Block.size_tabulate, rfl⟩

theorem smallCall_proper : smallCall.Proper :=
  ⟨by decide, by decide, by decide, Block.size_tabulate, Block.size_tabulate, rfl⟩

theorem run_largeCall : ∃ d, run (sameAnswer [⟨30, 40, 120, 130⟩]) () [largeCall] = .ok d := by
  have hface : FaceOn (sameAnswer [⟨30, 40, 120, 130⟩]) (largeCall.frame .armeabiV7a)
      ⟨30, 40, 120, 130⟩ := faceOn_sameAnswer _ (by decide)
  obtain ⟨r, p, hdetection, -, -⟩ := detection_ok (landmarked_sameAnswer _) hface
    (show zeroRect.size = 4 from Block.size_tabulate)
    (show zeroPoints.size = 136 from Block.size_tabulate)
  exact run_first largeCall_proper hdetection

/-- A new object and one that has seen the larger picture answer the smaller one alike. -/
theorem observe_call_eq_smaller : ∃ d,
    run (sameAnswer [⟨30, 40, 120, 130⟩]) () [largeCall] = .ok d ∧
    observe (call (sameAnswer [⟨30, 40, 120, 130⟩]) smallCall (new ())) =
      observe (call (sameAnswer [⟨30, 40, 120, 130⟩]) smallCall d) := by
  obtain ⟨d, hrun⟩ := run_largeCall
  have hlarge : ∀ c ∈ [largeCall], c.Proper := by
    intro c hc
    rw [List.mem_singleton.mp hc]
    exact largeCall_proper
  exact ⟨d, hrun, (observe_call_eq (fun img r h => absurd h (by simp [sameAnswer]))
    (fun c hc => absurd hc List.not_mem_nil) hlarge (show run _ () [] = _ from rfl) hrun
    smallCall_proper).1⟩

end DlibAndroid.Dlib
