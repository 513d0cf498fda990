import DlibAndroid.Detector.Spec

/-!
# The states an object can be in

`Owns d leaked` is the invariant of a `Dlib` object: its pointers hold what they should, and the
live blocks of the ledger are the ones in its fields and the ones in `leaked`, each once. Every call
that completes keeps it, whatever the sizes it is given and whatever its `malloc` answered
(`step_owns`), and adds one block to `leaked`: the two-cell result of `calculateSample`, which
nobody deletes.

What a call can do is said once for each of its parts, as an inversion of a part that completed:
`prepareBuffer_eq_ok` and `glReadPixels_eq_ok` for the texture, `Resampled` for the sampling of
either kind, and `detectTexture_eq_ok`, `detectIntArray_eq_ok` and `trackTexture_eq_ok` for the
calls. Each of them keeps the invariant, and from that follows what holds of every object that calls
can lead to (`run_owns`). The size of the buffer is not asked about here: a `malloc` that answers
null leaves an object that is owned all the same, and what becomes of it is the next call's concern.
-/

set_option autoImplicit false

namespace DlibAndroid.Dlib

open CCore

variable {M : Type} {env : Env M} {model : M} {d d₁ d₂ d' : Dlib M} {leaked : List Nat}
  {malloc : Bool} {picture : Nat → UInt8} {abi : Abi} {width height : Int}

/-- The blocks the fields hold. -/
def blocks (d : Dlib M) : List Nat :=
  Owned.ids d.sample ++ (Owned.ids d.frame ++ (Owned.ids d.faceTrackRect ++
    Owned.ids d.textureBuffer))

structure Owns (d : Dlib M) (leaked : List Nat) : Prop where
  frame : ∃ o, d.frame = some o
  sample : ∃ o, d.sample = some o ∧ o.val.size = 1
  faceTrackRect : ∃ o, d.faceTrackRect = some o ∧ o.val.size = 4
  buffer : ∀ o, d.textureBuffer = some o → (o.val.size : Int) = d.textureBufferSize
  heap : d.heap.Accounts (d.blocks ++ leaked)

namespace Owns

theorem live_of_mem (h : d.Owns leaked) {i : Nat} (hi : i ∈ d.blocks) : d.heap.Live i :=
  (h.heap.live i).mpr (List.mem_append_left _ hi)

theorem live_sample (h : d.Owns leaked) {o : Owned (Block Int)} (ho : d.sample = some o) :
    d.heap.Live o.id := h.live_of_mem (by simp [blocks, ho])

theorem live_frame (h : d.Owns leaked) {o : Owned Array2d} (ho : d.frame = some o) :
    d.heap.Live o.id := h.live_of_mem (by simp [blocks, ho])

theorem live_faceTrackRect (h : d.Owns leaked) {o : Owned (Block Int32)}
    (ho : d.faceTrackRect = some o) : d.heap.Live o.id := h.live_of_mem (by simp [blocks, ho])

theorem live_textureBuffer (h : d.Owns leaked) {o : Owned (Block UInt8)}
    (ho : d.textureBuffer = some o) : d.heap.Live o.id := h.live_of_mem (by simp [blocks, ho])

/-- The ledger, with the texture buffer set apart. -/
theorem heap_buffer (h : d.Owns leaked) : d.heap.Accounts (Owned.ids d.textureBuffer ++
    (Owned.ids d.sample ++ (Owned.ids d.frame ++ Owned.ids d.faceTrackRect) ++ leaked)) := by
  refine h.heap.perm ?_
  rw [blocks, ← List.append_assoc (Owned.ids d.frame), ← List.append_assoc (Owned.ids d.sample),
    ← List.append_assoc (Owned.ids d.textureBuffer)]
  exact List.perm_append_comm.append_right leaked

end Owns

theorem new_owns (model : M) : (new model).Owns [] where
  frame := ⟨_, rfl⟩
  sample := ⟨_, rfl, rfl⟩
  faceTrackRect := ⟨_, rfl, rfl⟩
  buffer o ho := absurd ho (by simp [new])
  heap := Ledger.accounts_empty.alloc.alloc.alloc.perm (show [2, 1, 0].Perm [1, 0, 2] by decide)

/-! ## The texture buffer -/

/-- `d` after its buffer was given back and `malloc` was asked for another. -/
def rebuffer (malloc : Bool) (size : Int) (L : Ledger) (d : Dlib M) : Dlib M :=
  { d with
    textureBuffer := (mallocBytes malloc size L).1, heap := (mallocBytes malloc size L).2,
    textureBufferSize := size }

/-- What `checkTextureBuffer` and its caller can do, and when. -/
theorem prepareBuffer_eq_ok :
    prepareBuffer malloc width height d = .ok d₁ ↔
      Fits (width * height) ∧ Fits (width * height * 4) ∧
        ((d.textureBufferSize = width * height * 4 ∧ d₁ = d) ∨
          (d.textureBufferSize ≠ width * height * 4 ∧
            ∃ L, Owned.release d.heap d.textureBuffer = .ok L ∧
              d₁ = rebuffer malloc (width * height * 4) L d)) := by
  unfold prepareBuffer
  rw [bind_eq_ok]
  constructor
  · rintro ⟨wh, hwh, h⟩
    obtain ⟨hfit, rfl⟩ := mulInt_eq_ok.mp hwh
    obtain ⟨size, hsize, h⟩ := bind_eq_ok.mp h
    obtain ⟨hfit4, rfl⟩ := mulInt_eq_ok.mp hsize
    refine ⟨hfit, hfit4, ?_⟩
    unfold checkTextureBuffer at h
    by_cases hsame : d.textureBufferSize = width * height * 4
    · rw [if_neg (not_not.mpr hsame)] at h
      exact Or.inl ⟨hsame, (Except.ok.inj h).symm⟩
    · rw [if_pos hsame] at h
      obtain ⟨⟨changed, buffer, heap⟩, hcheck, h⟩ := bind_eq_ok.mp h
      obtain ⟨L, hL, hcheck⟩ := bind_eq_ok.mp hcheck
      obtain ⟨hchanged, hpair⟩ := Prod.mk.inj (Except.ok.inj hcheck)
      obtain ⟨hbuffer, hheap⟩ := Prod.mk.inj hpair
      subst hchanged hbuffer hheap
      exact Or.inr ⟨hsame, L, hL, (Except.ok.inj h).symm⟩
  · rintro ⟨hfit, hfit4, hcase⟩
    refine ⟨_, mulInt_of_fits hfit, bind_eq_ok.mpr ⟨_, mulInt_of_fits hfit4, ?_⟩⟩
    unfold checkTextureBuffer
    rcases hcase with ⟨hsame, rfl⟩ | ⟨hne, L, hL, rfl⟩
    · rw [if_neg (not_not.mpr hsame)]
      rfl
    · rw [if_pos hne, hL]
      rfl

theorem mallocBytes_true {size : Int} {L : Ledger} (h0 : 0 ≤ size) (hmax : size ≤ 2147483647) :
    ∃ o, mallocBytes true size L = (some o, L.alloc) ∧ o.id = L.next ∧
      (o.val.size : Int) = size := by
  have hfit : true = true ∧ 0 ≤ size ∧ size.toNat ≤ maxBlock := ⟨rfl, h0, by unfold maxBlock; omega⟩
  exact ⟨_, dif_pos hfit, rfl, by rw [Block.size_uninit, Int.toNat_of_nonneg h0]⟩

theorem mallocBytes_false {size : Int} {L : Ledger} : mallocBytes false size L = (none, L) :=
  dif_neg fun h => absurd h.1 (by decide)

/-- The block `malloc` may have handed out is the newest, and as large as asked for. -/
theorem mallocBytes_cases (malloc : Bool) (size : Int) (L : Ledger) :
    mallocBytes malloc size L = (none, L) ∨
      ∃ o, mallocBytes malloc size L = (some o, L.alloc) ∧ o.id = L.next ∧
        (o.val.size : Int) = size := by
  unfold mallocBytes
  split
  · rename_i h
    exact Or.inr ⟨_, rfl, rfl, by rw [Block.size_uninit, Int.toNat_of_nonneg h.2.1]⟩
  · exact Or.inl rfl

theorem rebuffer_owns {size : Int} {L : Ledger} (hd : d.Owns leaked)
    (hL : Owned.release d.heap d.textureBuffer = .ok L) :
    (rebuffer malloc size L d).Owns leaked := by
  obtain ⟨L', hL', hrest, -⟩ := Owned.release_ok hd.heap_buffer
  obtain rfl := Except.ok.inj (hL.symm.trans hL')
  -- the ledger once the new block is in it, with the buffer set apart again
  have hfresh : (∀ o, (mallocBytes malloc size L).1 = some o → (o.val.size : Int) = size) ∧
      (mallocBytes malloc size L).2.Accounts (Owned.ids (mallocBytes malloc size L).1 ++
        (Owned.ids d.sample ++ (Owned.ids d.frame ++ Owned.ids d.faceTrackRect) ++ leaked)) := by
    rcases mallocBytes_cases malloc size L with hnone | ⟨o, hsome, hid, hsize⟩
    · rw [hnone]
      exact ⟨fun o ho => absurd ho (by simp), hrest⟩
    · rw [hsome, Owned.ids_some, hid]
      exact ⟨fun o' ho' => Option.some.inj ho' ▸ hsize, hrest.alloc⟩
  refine ⟨hd.frame, hd.sample, hd.faceTrackRect, hfresh.1, hfresh.2.perm ?_⟩
  rw [blocks, ← List.append_assoc (Owned.ids (rebuffer malloc size L d).frame),
    ← List.append_assoc (Owned.ids (rebuffer malloc size L d).sample), ← List.append_assoc]
  exact List.perm_append_comm.append_right leaked

theorem prepareBuffer_owns (hd : d.Owns leaked)
    (h : prepareBuffer malloc width height d = .ok d₁) : d₁.Owns leaked := by
  obtain ⟨-, -, ⟨-, rfl⟩ | ⟨-, L, hL, rfl⟩⟩ := prepareBuffer_eq_ok.mp h
  · exact hd
  · exact rebuffer_owns hd hL

/-- Writing into the buffer changes what it holds and nothing else. -/
theorem glReadPixels_eq_ok (h : glReadPixels picture width height d = .ok d₁) :
    d₁ = d ∨ ∃ o b, d.textureBuffer = some o ∧
      o.val.Updated (4 * (width.toNat * height.toNat)) picture b ∧
      d₁ = { d with textureBuffer := some ⟨o.id, b⟩ } := by
  unfold glReadPixels at h
  split at h
  · exact Or.inl (Except.ok.inj h).symm
  · obtain ⟨o, ho, h⟩ := bind_eq_ok.mp h
    split at h
    · rename_i hn
      exact Or.inr ⟨o, _, (Owned.deref_eq_ok.mp ho).1, Block.updated_overwrite hn,
        (Except.ok.inj h).symm⟩
    · cases h

theorem glReadPixels_owns (hd : d.Owns leaked)
    (h : glReadPixels picture width height d = .ok d₁) : d₁.Owns leaked := by
  rcases glReadPixels_eq_ok h with rfl | ⟨o, b, ho, hu, rfl⟩
  · exact hd
  · refine ⟨hd.frame, hd.sample, hd.faceTrackRect, fun o' ho' => ?_, ?_⟩
    · obtain rfl := Option.some.inj ho'
      exact (congrArg Nat.cast hu.size).trans (hd.buffer o ho)
    · have hheap := hd.heap
      rw [blocks, ho] at hheap
      exact hheap

/-! ## The frame and the factor -/

/-- `d₁` is `d` with a new frame and a new factor in the blocks it has for them, and one more block
in the ledger that no field holds. -/
def Resampled (d d₁ : Dlib M) : Prop :=
  ∃ sample frame s a, d.sample = some sample ∧ d.frame = some frame ∧ s.size = sample.val.size ∧
    d₁ = { d with
      sample := some ⟨sample.id, s⟩, frame := some ⟨frame.id, a⟩, heap := d.heap.alloc }

theorem sampleTexture_resampled (h : sampleTexture abi width height d = .ok d₁) :
    Resampled d d₁ := by
  obtain ⟨buffer, -, h⟩ := bind_eq_ok.mp h
  obtain ⟨sample, hsample, h⟩ := bind_eq_ok.mp h
  obtain ⟨frame, hframe, h⟩ := bind_eq_ok.mp h
  obtain ⟨out, hout, h⟩ := bind_eq_ok.mp h
  obtain ⟨hsize, hledger⟩ := sampleInto_keeps hout
  rw [hledger] at h
  exact ⟨sample, frame, out.sample, out.dest, (Owned.deref_eq_ok.mp hsample).1,
    (Owned.deref_eq_ok.mp hframe).1, hsize, (Except.ok.inj h).symm⟩

theorem sampleIntArray_resampled {src : Block (BitVec 32)}
    (h : sampleIntArray abi src width height d = .ok d₁) : Resampled d d₁ := by
  obtain ⟨sample, hsample, h⟩ := bind_eq_ok.mp h
  obtain ⟨frame, hframe, h⟩ := bind_eq_ok.mp h
  obtain ⟨out, hout, h⟩ := bind_eq_ok.mp h
  obtain ⟨hsize, hledger⟩ := sampleInto_keeps hout
  rw [hledger] at h
  exact ⟨sample, frame, out.sample, out.dest, (Owned.deref_eq_ok.mp hsample).1,
    (Owned.deref_eq_ok.mp hframe).1, hsize, (Except.ok.inj h).symm⟩

theorem Resampled.owns (h : Resampled d d₁) (hd : d.Owns leaked) :
    d₁.Owns (d.heap.next :: leaked) := by
  obtain ⟨sample, frame, s, a, hsample, hframe, hsize, rfl⟩ := h
  obtain ⟨o, ho, hone⟩ := hd.sample
  obtain rfl := Option.some.inj (hsample.symm.trans ho)
  refine ⟨⟨_, rfl⟩, ⟨_, rfl, hsize.trans hone⟩, hd.faceTrackRect, hd.buffer, ?_⟩
  refine (hd.heap.alloc.perm List.perm_middle.symm).perm ?_
  rw [blocks, blocks, hsample, hframe]
  exact List.Perm.refl _

/-- The parts of the object no call changes on the way to its frame. -/
def SameTask (d d' : Dlib M) : Prop :=
  d'.featureModel = d.featureModel ∧ d'.faceTrackRect = d.faceTrackRect

theorem SameTask.trans (h : d.SameTask d₁) (h' : d₁.SameTask d₂) : d.SameTask d₂ :=
  ⟨h'.1.trans h.1, h'.2.trans h.2⟩

/-! ## One call -/

section Calls

variable {rect points rect' points' : Block Int32} {c : Call} {calls : List Call}

theorem size_writeRect {r : Rectangle} (h : writeRect rect r = .ok rect') :
    rect'.size = rect.size := by
  obtain ⟨b₁, h₁, h⟩ := bind_eq_ok.mp h
  obtain ⟨b₂, h₂, h⟩ := bind_eq_ok.mp h
  obtain ⟨b₃, h₃, h₄⟩ := bind_eq_ok.mp h
  calc rect'.size = b₃.size := Block.size_write h₄
    _ = b₂.size := Block.size_write h₃
    _ = b₁.size := Block.size_write h₂
    _ = rect.size := Block.size_write h₁

theorem size_analyse (h : analyse env d rect points = .ok (rect', points')) :
    rect'.size = rect.size := by
  obtain ⟨frame, -, h⟩ := bind_eq_ok.mp h
  obtain ⟨r, hr, h⟩ := bind_eq_ok.mp h
  obtain ⟨p, -, h⟩ := bind_eq_ok.mp h
  obtain ⟨rfl, -⟩ := Prod.mk.inj (Except.ok.inj h)
  obtain ⟨img, -, hdetect⟩ := bind_eq_ok.mp hr
  split at hdetect
  · exact size_writeRect hdetect
  · exact size_writeRect hdetect

theorem detectTexture_eq_ok (h : detectTexture env malloc picture width height rect points d =
      .ok (d', rect', points')) :
    ∃ d₁ d₂, prepareBuffer malloc width height d = .ok d₁ ∧
      glReadPixels picture width height d₁ = .ok d₂ ∧
      sampleTexture env.abi width height d₂ = .ok d' ∧
      analyse env d' rect points = .ok (rect', points') := by
  obtain ⟨d₁, h₁, h⟩ := bind_eq_ok.mp h
  obtain ⟨d₂, h₂, h⟩ := bind_eq_ok.mp h
  obtain ⟨d₃, h₃, h⟩ := bind_eq_ok.mp h
  obtain ⟨⟨r, p⟩, h₄, h⟩ := bind_eq_ok.mp h
  obtain ⟨rfl, hrp⟩ := Prod.mk.inj (Except.ok.inj h)
  obtain ⟨rfl, rfl⟩ := Prod.mk.inj hrp
  exact ⟨d₁, d₂, h₁, h₂, h₃, h₄⟩

theorem detectTexture_owns (hd : d.Owns leaked)
    (h : detectTexture env malloc picture width height rect points d = .ok (d', rect', points')) :
    ∃ i, d'.Owns (i :: leaked) := by
  obtain ⟨d₁, d₂, h₁, h₂, h₃, -⟩ := detectTexture_eq_ok h
  have hd₂ := glReadPixels_owns (prepareBuffer_owns hd h₁) h₂
  exact ⟨_, (sampleTexture_resampled h₃).owns hd₂⟩

theorem detectIntArray_eq_ok {src : Block (BitVec 32)}
    (h : detectIntArray env src width height rect points d = .ok (d', rect', points')) :
    sampleIntArray env.abi src width height d = .ok d' := by
  obtain ⟨d₁, h₁, h⟩ := bind_eq_ok.mp h
  obtain ⟨rp, -, h⟩ := bind_eq_ok.mp h
  obtain ⟨rfl, -⟩ := Prod.mk.inj (Except.ok.inj h)
  exact h₁

theorem detectIntArray_owns {src : Block (BitVec 32)} (hd : d.Owns leaked)
    (h : detectIntArray env src width height rect points d = .ok (d', rect', points')) :
    ∃ i, d'.Owns (i :: leaked) :=
  ⟨_, (sampleIntArray_resampled (detectIntArray_eq_ok h)).owns hd⟩

/-- A tracking call is a detection into the object's own rectangle. What follows it changes the
caller's arrays only. -/
theorem trackTexture_eq_ok (h : trackTexture env malloc picture width height rect points d =
      .ok (d', rect', points')) :
    ∃ face d₁ faceRect points₁, d.faceTrackRect = some face ∧
      detectTexture env malloc picture width height face.val points d =
        .ok (d₁, faceRect, points₁) ∧
      d' = { d₁ with faceTrackRect := some ⟨face.id, faceRect⟩ } := by
  obtain ⟨face, hface, h⟩ := bind_eq_ok.mp h
  obtain ⟨⟨d₁, faceRect, points₁⟩, h₁, h⟩ := bind_eq_ok.mp h
  obtain ⟨b, -, h⟩ := bind_eq_ok.mp h
  refine ⟨face, d₁, faceRect, points₁, (Owned.deref_eq_ok.mp hface).1, h₁, ?_⟩
  cases b with
  | false => exact (Prod.mk.inj (Except.ok.inj h)).1.symm
  | true =>
    obtain ⟨r, -, h⟩ := bind_eq_ok.mp h
    obtain ⟨w, -, h⟩ := bind_eq_ok.mp h
    obtain ⟨sample, -, h⟩ := bind_eq_ok.mp h
    obtain ⟨s, -, h⟩ := bind_eq_ok.mp h
    obtain ⟨rp, -, h⟩ := bind_eq_ok.mp h
    exact (Prod.mk.inj (Except.ok.inj h)).1.symm

theorem Resampled.sameTask (h : Resampled d d₁) : d.SameTask d₁ := by
  obtain ⟨sample, frame, s, a, -, -, -, rfl⟩ := h
  exact ⟨rfl, rfl⟩

theorem detectTexture_sameTask
    (h : detectTexture env malloc picture width height rect points d = .ok (d', rect', points')) :
    d.SameTask d' := by
  obtain ⟨d₁, d₂, h₁, h₂, h₃, -⟩ := detectTexture_eq_ok h
  have hprepare : d.SameTask d₁ := by
    obtain ⟨-, -, ⟨-, rfl⟩ | ⟨-, L, -, rfl⟩⟩ := prepareBuffer_eq_ok.mp h₁
    · exact ⟨rfl, rfl⟩
    · exact ⟨rfl, rfl⟩
  have hread : d₁.SameTask d₂ := by
    rcases glReadPixels_eq_ok h₂ with rfl | ⟨o, b, -, -, rfl⟩
    · exact ⟨rfl, rfl⟩
    · exact ⟨rfl, rfl⟩
  exact (hprepare.trans hread).trans (sampleTexture_resampled h₃).sameTask

theorem trackTexture_owns (hd : d.Owns leaked)
    (h : trackTexture env malloc picture width height rect points d = .ok (d', rect', points')) :
    ∃ i, d'.Owns (i :: leaked) := by
  obtain ⟨face, d₁, faceRect, points₁, hface, hdetect, rfl⟩ := trackTexture_eq_ok h
  obtain ⟨i, hd₁⟩ := detectTexture_owns hd hdetect
  obtain ⟨d₂, d₃, -, -, -, hanalyse⟩ := detectTexture_eq_ok hdetect
  obtain ⟨o, ho, hfour⟩ := hd.faceTrackRect
  obtain rfl := Option.some.inj (hface.symm.trans ho)
  refine ⟨i, hd₁.frame, hd₁.sample, ⟨_, rfl, (size_analyse hanalyse).trans hfour⟩, hd₁.buffer, ?_⟩
  have hheap := hd₁.heap
  rw [blocks, (detectTexture_sameTask hdetect).2, hface] at hheap
  exact hheap

theorem step_eq_ok (h : step env c d = .ok d') :
    ∃ rect' points', call env c d = .ok (d', rect', points') := by
  obtain ⟨⟨d₁, rect', points'⟩, hcall, h⟩ := bind_eq_ok.mp h
  obtain rfl := Except.ok.inj h
  exact ⟨rect', points', hcall⟩

/-- **The step lemma.** -/
theorem step_owns (hd : d.Owns leaked) (h : step env c d = .ok d') :
    ∃ i, d'.Owns (i :: leaked) := by
  obtain ⟨rect', points', hcall⟩ := step_eq_ok h
  cases c with
  | detectIntArray src width height rect points => exact detectIntArray_owns hd hcall
  | detectTexture malloc picture width height rect points => exact detectTexture_owns hd hcall
  | trackTexture malloc picture width height rect points => exact trackTexture_owns hd hcall

theorem step_featureModel (h : step env c d = .ok d') : d'.featureModel = d.featureModel := by
  obtain ⟨rect', points', hcall⟩ := step_eq_ok h
  cases c with
  | detectIntArray src width height rect points =>
    exact (sampleIntArray_resampled (detectIntArray_eq_ok hcall)).sameTask.1
  | detectTexture malloc picture width height rect points => exact (detectTexture_sameTask hcall).1
  | trackTexture malloc picture width height rect points =>
    obtain ⟨face, d₂, faceRect, points₂, -, hdetect, rfl⟩ := trackTexture_eq_ok hcall
    exact (detectTexture_sameTask hdetect).1

/-- **The run lemma.** One block is lost for every call. -/
theorem forEach_owns (hd : d.Owns leaked) (h : forEach calls (step env) d = .ok d') :
    ∃ lost, lost.length = calls.length ∧ d'.Owns (lost ++ leaked) := by
  induction calls generalizing d leaked with
  | nil =>
    obtain rfl := Except.ok.inj h
    exact ⟨[], rfl, hd⟩
  | cons c calls ih =>
    obtain ⟨d₁, h₁, h⟩ := bind_eq_ok.mp h
    obtain ⟨i, hd₁⟩ := step_owns hd h₁
    obtain ⟨lost, hlen, hd'⟩ := ih hd₁ h
    refine ⟨lost ++ [i], by rw [List.length_append, hlen]; rfl, ?_⟩
    rwa [List.append_assoc, List.singleton_append]

theorem run_owns (h : run env model calls = .ok d) :
    ∃ lost, lost.length = calls.length ∧ d.Owns lost := by
  obtain ⟨lost, hlen, hd⟩ := forEach_owns (new_owns model) h
  exact ⟨lost, hlen, by rwa [List.append_nil] at hd⟩

theorem run_featureModel (h : run env model calls = .ok d) : d.featureModel = model :=
  forEach_invariant (fun d => d.featureModel = model)
    (fun _ _ _ _ hd hstep => (step_featureModel hstep).trans hd) h rfl

end Calls

end DlibAndroid.Dlib
