import DlibAndroid.Frame.Sampling

/-!
# The class `Dlib`

`dlib.cpp` and `dlib.h`, method for method. The object keeps four blocks across calls, each behind
a pointer, and its methods pass those pointers to one another; a pointer is an `Option (Owned _)`,
and `heap` is the ghost ledger of the blocks the wrapper itself obtained with `new` or `malloc`.

What the wrapper calls and does not define is the parameter `Env`: the face detector, a function
of the frame; the shape predictor, a function of the model, the frame and the rectangle, which may
itself leave defined behaviour; and the target. What `glReadPixels` finds in the frame buffer, and
whether a `malloc` of the call succeeds, are inputs of the call.

The tracker and the commented-out tracking branch are left out, and so are the log lines: no other
code reads them.
-/

set_option autoImplicit false

namespace DlibAndroid

open CCore

/-- The code the wrapper is linked with, for models of type `M`. -/
structure Env (M : Type) where
  abi : Abi
  detector : Image → List Rectangle
  predict : M → Image → Rectangle → Exec (List Point)

structure Dlib (M : Type) where
  featureModel : M
  frame : Option (Owned Array2d)
  sample : Option (Owned (Block Int))
  textureBufferSize : Int
  textureBuffer : Option (Owned (Block UInt8))
  faceTrackRect : Option (Owned (Block Int32))
  heap : Ledger

namespace Dlib

variable {M : Type}

/-- `memset(faceTrackRect, 0, 4)` clears four bytes, one `int` of the four. -/
def clearedRect : Block Int32 := ⟨[some 0, none, none, none], by decide⟩

/-- `Dlib::Dlib`, once `featureModel` is what the constructor made of the file. `frame` is the
in-class initialiser, run first. -/
def new (featureModel : M) : Dlib M where
  featureModel := featureModel
  frame := some ⟨0, .new⟩
  sample := some ⟨1, .uninit 1 (by decide)⟩
  textureBufferSize := 0
  textureBuffer := none
  faceTrackRect := some ⟨2, clearedRect⟩
  heap := Ledger.empty.alloc.alloc.alloc

/-- `Dlib::~Dlib` -/
def destroy (d : Dlib M) : Exec (Dlib M) := do
  let heap ← Owned.release d.heap d.sample
  let heap ← Owned.release heap d.frame
  let heap ← Owned.release heap d.faceTrackRect
  let heap ← Owned.release heap d.textureBuffer
  pure { d with
    sample := none, frame := none, faceTrackRect := none, textureBufferSize := 0,
    textureBuffer := none, heap := heap }

/-! ## Rectangles and landmarks in the caller's arrays -/

/-- `rect[0] = …left(); … rect[3] = …bottom();` -/
def writeRect (rect : Block Int32) (r : Rectangle) : Exec (Block Int32) := do
  let rect ← rect.write 0 r.left
  let rect ← rect.write 1 r.top
  let rect ← rect.write 2 r.right
  rect.write 3 r.bottom

/-- `rectangle(rect[0], rect[1], rect[2], rect[3])` -/
def readRect (rect : Block Int32) : Exec Rectangle := do
  let left ← rect.read 0
  let top ← rect.read 1
  let right ← rect.read 2
  let bottom ← rect.read 3
  pure ⟨left, top, right, bottom⟩

/-- `full_object_detection::part`, whose range assertion the release build leaves out. -/
def part (parts : List Point) (i : Nat) : Exec Point := index parts i

/-- `Dlib::detect` -/
def detect (env : Env M) (image : Array2d) (rect : Block Int32) : Exec (Block Int32) := do
  let img ← image.view
  match env.detector img with
  | face :: _ => writeRect rect face
  | [] => writeRect rect ⟨0, 0, 0, 0⟩

/-- `points[i * 2] = shapes[0].part(i).x(); points[i * 2 + 1] = shapes[0].part(i).y();` -/
def writePart (parts : List Point) (i : Nat) (points : Block Int32) : Exec (Block Int32) := do
  let p ← part parts i
  let points ← points.write ((i * 2 : Nat) : Int) p.x
  points.write ((i * 2 + 1 : Nat) : Int) p.y

/-- `Dlib::findFeature`. `shapes` has just been pushed to, so the test for emptiness never fails,
and whatever the predictor makes of an empty rectangle is stored. -/
def findFeature (env : Env M) (featureModel : M) (image : Array2d) (rect points : Block Int32) :
    Exec (Block Int32) := do
  let img ← image.view
  let parts ← env.predict featureModel img (← readRect rect)
  forEach (List.range 68) (writePart parts) points

/-- `a[i] *= sample;` -/
def scaleAt (sample : Int) (i : Nat) (a : Block Int32) : Exec (Block Int32) := do
  let v ← a.read i
  let scaled ← mulInt v.toInt sample
  a.write i (.ofInt scaled)

/-- `Dlib::reduction` -/
def reduction (rect points : Block Int32) (sample : Int) : Exec (Block Int32 × Block Int32) := do
  let rect ← forEach (List.range 4) (scaleAt sample) rect
  let points ← forEach (List.range 136) (scaleAt sample) points
  pure (rect, points)

/-- `Dlib::found`, on the block `faceTrackRect` points to. `&&` stops at the first zero. -/
def found (rect : Block Int32) : Exec Bool := do
  if (← rect.read 0) = 0 then pure false
  else if (← rect.read 1) = 0 then pure false
  else if (← rect.read 2) = 0 then pure false
  else pure ((← rect.read 3) ≠ 0)

/-! ## The texture buffer -/

/-- `malloc(size)`, with the allocator's answer for a size it could serve. A negative size reaches
it as a huge one. -/
def mallocBytes (malloc : Bool) (size : Int) (heap : Ledger) :
    Option (Owned (Block UInt8)) × Ledger :=
  if h : malloc = true ∧ 0 ≤ size ∧ size.toNat ≤ maxBlock then
    (some ⟨heap.next, .uninit size.toNat h.2.2⟩, heap.alloc)
  else (none, heap)

/-- `checkTextureBuffer`: whether the block was replaced, the block, and the ledger. -/
def checkTextureBuffer (malloc : Bool) (buffer : Option (Owned (Block UInt8)))
    (srcSize destSize : Int) (heap : Ledger) :
    Exec (Bool × Option (Owned (Block UInt8)) × Ledger) :=
  if srcSize ≠ destSize then do
    let heap ← Owned.release heap buffer
    let fresh := mallocBytes malloc destSize heap
    pure (true, fresh.1, fresh.2)
  else pure (false, buffer, heap)

/-- The first statements of `detectTexture`. What `malloc` answered is not looked at. -/
def prepareBuffer (malloc : Bool) (width height : Int) (d : Dlib M) : Exec (Dlib M) := do
  let size ← mulInt (← mulInt width height) 4
  let (changed, textureBuffer, heap) ←
    checkTextureBuffer malloc d.textureBuffer d.textureBufferSize size d.heap
  pure { d with
    textureBuffer := textureBuffer, heap := heap,
    textureBufferSize := if changed then size else d.textureBufferSize }

/-- `glReadPixels(0, 0, width, height, GL_RGBA, GL_UNSIGNED_BYTE, textureBuffer)`: four bytes for
each pixel of `picture`, written from the start of the buffer. A negative side is an error of its
own, and nothing is written. -/
def glReadPixels (picture : Nat → UInt8) (width height : Int) (d : Dlib M) : Exec (Dlib M) :=
  if 4 * (width.toNat * height.toNat) = 0 then .ok d
  else do
    let buffer ← Owned.deref d.heap d.textureBuffer
    if h : 4 * (width.toNat * height.toNat) ≤ buffer.val.size then
      .ok { d with textureBuffer := some ⟨buffer.id, buffer.val.overwrite _ picture h⟩ }
    else .error .outOfRange

/-- `samplingTexture(textureBuffer, width, height, sample, frame)` on the object's own blocks. -/
def sampleTexture (abi : Abi) (width height : Int) (d : Dlib M) : Exec (Dlib M) := do
  let buffer ← Owned.pointee d.heap d.textureBuffer
  let sample ← Owned.deref d.heap d.sample
  let frame ← Owned.deref d.heap d.frame
  let out ← samplingTexture abi buffer width height sample.val frame.val d.heap
  pure { d with
    sample := some ⟨sample.id, out.sample⟩, frame := some ⟨frame.id, out.dest⟩,
    heap := out.ledger }

/-- `sampling(src, width, height, sample, frame)` on the object's own blocks. -/
def sampleIntArray (abi : Abi) (src : Block (BitVec 32)) (width height : Int) (d : Dlib M) :
    Exec (Dlib M) := do
  let sample ← Owned.deref d.heap d.sample
  let frame ← Owned.deref d.heap d.frame
  let out ← sampling abi src width height sample.val frame.val d.heap
  pure { d with
    sample := some ⟨sample.id, out.sample⟩, frame := some ⟨frame.id, out.dest⟩,
    heap := out.ledger }

/-! ## The methods -/

/-- `detect(frame, rect); findFeature(frame, rect, points);` -/
def analyse (env : Env M) (d : Dlib M) (rect points : Block Int32) :
    Exec (Block Int32 × Block Int32) := do
  let frame ← Owned.deref d.heap d.frame
  let rect ← detect env frame.val rect
  let points ← findFeature env d.featureModel frame.val rect points
  pure (rect, points)

/-- `Dlib::detectTexture` -/
def detectTexture (env : Env M) (malloc : Bool) (picture : Nat → UInt8) (width height : Int)
    (rect points : Block Int32) (d : Dlib M) : Exec (Dlib M × Block Int32 × Block Int32) := do
  let d ← prepareBuffer malloc width height d
  let d ← glReadPixels picture width height d
  let d ← sampleTexture env.abi width height d
  let (rect, points) ← analyse env d rect points
  pure (d, rect, points)

/-- `Dlib::detectIntArray` -/
def detectIntArray (env : Env M) (src : Block (BitVec 32)) (width height : Int)
    (rect points : Block Int32) (d : Dlib M) : Exec (Dlib M × Block Int32 × Block Int32) := do
  let d ← sampleIntArray env.abi src width height d
  let (rect, points) ← analyse env d rect points
  pure (d, rect, points)

/-- `Dlib::trackTexture`. The callee's `rect` is the block `faceTrackRect` points to. -/
def trackTexture (env : Env M) (malloc : Bool) (picture : Nat → UInt8) (width height : Int)
    (rect points : Block Int32) (d : Dlib M) : Exec (Dlib M × Block Int32 × Block Int32) := do
  let face ← Owned.deref d.heap d.faceTrackRect
  let (d, faceRect, points) ← detectTexture env malloc picture width height face.val points d
  let d := { d with faceTrackRect := some ⟨face.id, faceRect⟩ }
  if ← found faceRect then
    let rect ← writeRect rect (← readRect faceRect)
    let sample ← Owned.deref d.heap d.sample
    let (rect, points) ← reduction rect points (← sample.val.read 0)
    pure (d, rect, points)
  else pure (d, rect, points)

/-! ## Histories -/

/-- One call of a public method, with everything it is given: the picture, the answer of its
`malloc`, and the caller's two arrays. -/
inductive Call where
  | detectIntArray (src : Block (BitVec 32)) (width height : Int) (rect points : Block Int32)
  | detectTexture (malloc : Bool) (picture : Nat → UInt8) (width height : Int)
      (rect points : Block Int32)
  | trackTexture (malloc : Bool) (picture : Nat → UInt8) (width height : Int)
      (rect points : Block Int32)

/-- The object after the call, and the caller's two arrays. -/
def call (env : Env M) : Call → Dlib M → Exec (Dlib M × Block Int32 × Block Int32)
  | .detectIntArray src width height rect points => detectIntArray env src width height rect points
  | .detectTexture malloc picture width height rect points =>
      detectTexture env malloc picture width height rect points
  | .trackTexture malloc picture width height rect points =>
      trackTexture env malloc picture width height rect points

def step (env : Env M) (c : Call) (d : Dlib M) : Exec (Dlib M) := do
  let (d, _, _) ← call env c d
  pure d

/-- A history of calls on one object, from its construction. -/
def run (env : Env M) (featureModel : M) (calls : List Call) : Exec (Dlib M) :=
  forEach calls (step env) (new featureModel)

end Dlib

end DlibAndroid
