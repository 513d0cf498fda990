import DlibAndroid.Detector.Capture

/-!
# The texture buffer over a run

`checkTextureBuffer` frees and allocates, its caller records the size, and neither looks at what
`malloc` answered. `TextureBufferLaw` is what the two fields ought to satisfy over a whole run of
texture calls: the recorded size is the size of the block, the block is there with enough room
whenever it is written and whenever it is read, and a block that gives way to another is freed
once.

`textureBufferLaw_iff`: at every state the run reaches, the law asks of the next call exactly that
its byte count is the one recorded, or that its `malloc` succeeds. The call after a failed one
never comes: `glReadPixels` has already written through a null pointer.
-/

set_option autoImplicit false

namespace DlibAndroid.Dlib

open CCore

variable {M : Type} {env : Env M} {model : M} {d d₁ d₂ d' : Dlib M} {leaked : List Nat}

/-- A call that reads a texture, either of the two. -/
structure TextureCall where
  track : Bool
  malloc : Bool
  picture : Nat → UInt8
  width : Int
  height : Int
  rect : Block Int32
  points : Block Int32
  two_forty_le : 240 ≤ width
  one_le : 1 ≤ height
  fits : 4 * (width * height) ≤ 2147483647

namespace TextureCall

/-- The bytes the picture needs. -/
def size (c : TextureCall) : Int := 4 * (c.width * c.height)

def toCall (c : TextureCall) : Call :=
  if c.track then .trackTexture c.malloc c.picture c.width c.height c.rect c.points
  else .detectTexture c.malloc c.picture c.width c.height c.rect c.points

theorem size_pos (c : TextureCall) : 0 < c.size := by
  have hw := c.two_forty_le
  have hh := c.one_le
  have hpos : 0 < c.width * c.height := by positivity
  unfold size
  omega

end TextureCall

/-- `textureBufferSize` is the number of bytes of the live block `textureBuffer` points to. -/
def SizeExact (d : Dlib M) : Prop :=
  match d.textureBuffer with
  | none => d.textureBufferSize = 0
  | some o => d.heap.Live o.id ∧ (o.val.size : Int) = d.textureBufferSize

/-- What one call does with the buffer, from the state it finds. -/
structure BufferLaw (env : Env M) (d : Dlib M) (c : TextureCall) : Prop where
  /-- The block is there when `glReadPixels` is issued and when `samplingTexture` reads. -/
  ready : ∃ d₁ d₂, prepareBuffer c.malloc c.width c.height d = .ok d₁ ∧
    d₁.BufferReady c.width c.height ∧ glReadPixels c.picture c.width c.height d₁ = .ok d₂ ∧
    d₂.BufferReady c.width c.height
  exact_after : ∀ d', step env c.toCall d = .ok d' → d'.SizeExact
  replaced : ∀ d', step env c.toCall d = .ok d' → ∀ o, d.textureBuffer = some o →
    d'.textureBuffer.map Owned.id = some o.id ∨ d'.heap.freed.count o.id = 1

/-- The law of the texture buffer, at every state a run of texture calls reaches and for the call
made there. -/
def TextureBufferLaw (env : Env M) (model : M) (calls : List TextureCall) : Prop :=
  ∀ before c after d, calls = before ++ c :: after →
    run env model (before.map TextureCall.toCall) = .ok d → d.SizeExact ∧ BufferLaw env d c

/-! ## One call -/

/-- Either kind of call is a detection, as far as the buffer is concerned. -/
theorem step_toCall_eq_ok {c : TextureCall} (h : step env c.toCall d = .ok d') :
    ∃ rect d₁ rp, detectTexture env c.malloc c.picture c.width c.height rect c.points d =
        .ok (d₁, rp) ∧
      d'.textureBuffer = d₁.textureBuffer ∧ d'.textureBufferSize = d₁.textureBufferSize ∧
      d'.heap = d₁.heap := by
  obtain ⟨rect', points', hcall⟩ := step_eq_ok h
  unfold TextureCall.toCall at hcall
  cases htrack : c.track with
  | false =>
    rw [htrack] at hcall
    exact ⟨c.rect, d', _, hcall, rfl, rfl, rfl⟩
  | true =>
    rw [htrack] at hcall
    obtain ⟨face, d₁, faceRect, points₁, -, hdetect, rfl⟩ := trackTexture_eq_ok hcall
    exact ⟨face.val, d₁, _, hdetect, rfl, rfl, rfl⟩

/-- What a completed call has done to the buffer: kept it or replaced it, and then written it. -/
theorem step_buffer {c : TextureCall} (h : step env c.toCall d = .ok d') :
    ∃ d₁ o b, prepareBuffer c.malloc c.width c.height d = .ok d₁ ∧ d₁.textureBuffer = some o ∧
      d'.textureBuffer = some ⟨o.id, b⟩ ∧ d'.textureBufferSize = d₁.textureBufferSize ∧
      d'.heap = d₁.heap.alloc := by
  obtain ⟨rect, d₃, ⟨r, p⟩, hdetect, hbuffer, hsize, hheap⟩ := step_toCall_eq_ok h
  obtain ⟨d₁, d₂, h₁, h₂, h₃, -⟩ := detectTexture_eq_ok hdetect
  obtain ⟨sample, frame, s, a, -, -, -, rfl⟩ := sampleTexture_resampled h₃
  rw [glReadPixels, if_neg] at h₂
  · obtain ⟨o, ho, h₂⟩ := bind_eq_ok.mp h₂
    split at h₂
    · obtain rfl := Except.ok.inj h₂
      exact ⟨d₁, o, _, h₁, (Owned.deref_eq_ok.mp ho).1, hbuffer, hsize, hheap⟩
    · cases h₂
  · have hpos := c.size_pos
    have hbytes := pixelBytes c.two_forty_le c.one_le
    unfold TextureCall.size at hpos
    omega

theorem step_sizeExact {c : TextureCall} (hd : d.Owns leaked)
    (h : step env c.toCall d = .ok d') : d'.SizeExact := by
  obtain ⟨d₁, o, b, -, -, hbuffer, -, -⟩ := step_buffer h
  obtain ⟨i, hd'⟩ := step_owns hd h
  unfold SizeExact
  rw [hbuffer]
  exact ⟨hd'.live_textureBuffer hbuffer, hd'.buffer _ hbuffer⟩

/-- The block that was there is there still, or has been given back. -/
theorem step_replaced {c : TextureCall} {o : Owned (Block UInt8)}
    (h : step env c.toCall d = .ok d') (ho : d.textureBuffer = some o) :
    d'.textureBuffer.map Owned.id = some o.id ∨ d'.heap.freed.count o.id = 1 := by
  obtain ⟨d₁, o₁, b, h₁, ho₁, hbuffer, -, hheap⟩ := step_buffer h
  obtain ⟨-, -, ⟨-, rfl⟩ | ⟨-, L, hL, rfl⟩⟩ := prepareBuffer_eq_ok.mp h₁
  · left
    obtain rfl := Option.some.inj (ho.symm.trans ho₁)
    rw [hbuffer]
    rfl
  · right
    rw [ho] at hL
    have hfreed : o.id ∈ L.freed := by
      rw [(Ledger.free_eq_ok.mp hL).2.2]
      exact List.mem_cons_self
    apply Ledger.count_freed
    rw [hheap, Ledger.freed_alloc]
    rcases mallocBytes_cases c.malloc (c.width * c.height * 4) L with hnone | ⟨p, hsome, -, -⟩
    · rw [rebuffer, hnone]
      exact hfreed
    · rw [rebuffer, hsome]
      exact hfreed

/-! ## Runs -/

theorem new_sizeExact (model : M) : (new model).SizeExact := rfl

theorem run_sizeExact {calls : List TextureCall}
    (h : run env model (calls.map TextureCall.toCall) = .ok d) : d.SizeExact := by
  -- only the last call matters, and what it found owned its blocks
  rcases List.eq_nil_or_concat calls with rfl | ⟨before, c, rfl⟩
  · obtain rfl := Except.ok.inj h
    exact new_sizeExact model
  · rw [List.map_concat, List.concat_eq_append] at h
    obtain ⟨d₀, h₀, hstep⟩ := forEach_concat_eq_ok.mp h
    obtain ⟨leaked, -, hd₀⟩ := run_owns h₀
    exact step_sizeExact hd₀ hstep

/-- With an exact size, being served is having the size or getting the block. -/
theorem served_iff {c : TextureCall} (h : d.SizeExact) :
    d.Served c.malloc c.width c.height ↔ d.textureBufferSize = c.size ∨ c.malloc = true := by
  unfold Served
  constructor
  · rintro ⟨-, hserved⟩
    split at hserved
    · rename_i hsame
      exact Or.inl hsame
    · exact Or.inr hserved
  · intro hcase
    refine ⟨c.fits, ?_⟩
    split
    · rename_i hsame
      have hpos := c.size_pos
      unfold SizeExact at h
      cases hbuffer : d.textureBuffer with
      | none =>
        rw [hbuffer] at h
        rw [h] at hsame
        exact absurd hsame (ne_of_lt hpos)
      | some o => rfl
    · rename_i hne
      exact hcase.resolve_left hne

/-- At one state. -/
theorem bufferLaw_iff {c : TextureCall} (hd : d.Owns leaked) (h : d.SizeExact) :
    BufferLaw env d c ↔ d.textureBufferSize = c.size ∨ c.malloc = true := by
  rw [← served_iff h]
  constructor
  · rintro ⟨⟨d₁, d₂, h₁, ⟨o, ho, -, -⟩, -, -⟩, -, -⟩
    exact served_of_prepareBuffer h₁ (by rw [ho]; rfl)
  · intro hserved
    obtain ⟨d₁, d₂, -, h₁, hready₁, h₂, hready₂, -⟩ :=
      captureTexture_ok env.abi c.picture hd c.two_forty_le c.one_le hserved
    exact ⟨⟨d₁, d₂, h₁, hready₁, h₂, hready₂⟩, fun d' hstep => step_sizeExact hd hstep,
      fun d' hstep o ho => step_replaced hstep ho⟩

/-- **When the texture buffer is sound over a run.** -/
theorem textureBufferLaw_iff (env : Env M) (model : M) (calls : List TextureCall) :
    TextureBufferLaw env model calls ↔
      ∀ before c after d, calls = before ++ c :: after →
        run env model (before.map TextureCall.toCall) = .ok d →
        d.textureBufferSize = c.size ∨ c.malloc = true := by
  refine forall_congr' fun before => forall_congr' fun c => forall_congr' fun after =>
    forall_congr' fun d => imp_congr_right fun _ => imp_congr_right fun hrun => ?_
  obtain ⟨leaked, -, hd⟩ := run_owns hrun
  have hexact := run_sizeExact hrun
  rw [bufferLaw_iff hd hexact]
  exact and_iff_right hexact

/-- The first call of all, and its `malloc` answers null. -/
def refusedCall : TextureCall :=
  ⟨false, false, fun _ => 0, 480, 480, zeroRect, zeroPoints, by decide, by decide, by decide⟩

theorem textureBufferLaw_fails_refused :
    ¬ TextureBufferLaw (sameAnswer []) () [refusedCall] := by
  intro h
  have hlaw := (h [] refusedCall [] (new ()) rfl rfl).2
  rcases (bufferLaw_iff (new_owns ()) (new_sizeExact ())).mp hlaw with hsize | hmalloc
  · exact absurd hsize (by decide)
  · exact absurd hmalloc (by decide)

end DlibAndroid.Dlib
