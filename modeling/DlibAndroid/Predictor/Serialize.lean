import DlibAndroid.Lib.Load
import DlibAndroid.Predictor.Shape
import DlibAndroid.Detector.Dlib

/-!
# Reading a model file

`deserialize(filename) >> featureModel`, from the bytes up: `serialize.h`, and the overloads for
the types a `shape_predictor` is made of. Every overload fills its target in place and throws where
it finds the bytes wrong; the constructor of `Dlib` swallows what is thrown and keeps the target.

A length is resized to before the elements are read, so the file can ask for any amount of memory.
Whether it gets it is an input (`ModelFile.grants`), told how many bytes were unread by then.

What a float is read from is the format of the library: mantissa and exponent, or text. The value
of either is left to `Format`, since no access depends on it.
-/

set_option autoImplicit false

namespace DlibAndroid

open CCore

variable {F : Type}

/-! ## Exceptions and files -/

/-- What a reader throws. `badAlloc` stands for the exceptions of a refused `resize`,
`std::length_error` and `std::bad_alloc`. -/
inductive Thrown where
  | serializationError (info : String)
  | badAlloc
  deriving DecidableEq, Repr

/-- `catch (serialization_error& e) { throw serialization_error(e.info + suffix); }` -/
def Thrown.append (suffix : String) : Thrown → Thrown
  | .serializationError info => .serializationError (info ++ suffix)
  | .badAlloc => .badAlloc

/-- The values floats are read as. `ldexp` is the standard function; `scan` is `in >> item`, which
may leave the stream unusable. -/
structure Format (F : Type) where
  zero : F
  infinity : F
  negInfinity : F
  quietNaN : F
  ldexp : Int → Int → F
  scan : F → List UInt8 → F × Option (List UInt8)

/-- The argument of the constructor, and what it meets: the content of the file, `none` if it
cannot be opened; whether a request for so many elements is granted, with so many bytes unread; and
what a new block of floats holds. -/
structure ModelFile (F : Type) where
  filename : String
  content : Option (List UInt8)
  grants : Nat → Nat → Bool
  garbage : Nat → Nat → F

/-! ## Integers -/

/-- The number in a little-endian buffer. -/
def littleEndian : List UInt8 → Nat
  | [] => 0
  | b :: bytes => b.toNat + 256 * littleEndian bytes

/-- The bytes after the control byte, as many as it says. `none` is `return true`. -/
def unpackBytes (sizeof size : Nat) (bytes : List UInt8) : Option (Nat × List UInt8) :=
  if sizeof < size ∨ size = 0 then none
  else if size ≤ bytes.length then some (littleEndian (bytes.take size), bytes.drop size)
  else none

/-- `ser_helper::unpack_int` for a signed type of `sizeof` bytes. Shifts and the change of sign
wrap. -/
def unpackSigned (sizeof : Nat) : List UInt8 → Option (Int × List UInt8)
  | [] => none
  | control :: bytes => do
    let (value, rest) ← unpackBytes sizeof (control &&& 0x0F).toNat bytes
    let item : Int := if control &&& 0x80 ≠ 0 then -value else value
    some (item.bmod (2 ^ (8 * sizeof)), rest)

/-- `ser_helper::unpack_int` for an unsigned type of `sizeof` bytes. -/
def unpackUnsigned (sizeof : Nat) : List UInt8 → Option (Nat × List UInt8)
  | [] => none
  | control :: bytes => unpackBytes sizeof (control &&& 0x8F).toNat bytes

/-- `USE_DEFAULT_INT_SERIALIZATION_FOR`. The target is cleared before anything is read. -/
def deserializeIntegral {T : Type} (type : String) (zero : T)
    (unpack : List UInt8 → Option (T × List UInt8)) : Load Thrown T := fun _ bytes =>
  match unpack bytes with
  | some (item, rest) => (item, .ok rest)
  | none => (zero, .error (.serializationError ("Error deserializing object of type " ++ type)))

def deserializeShort : Load Thrown Int := deserializeIntegral "short" 0 (unpackSigned 2)

def deserializeInt : Load Thrown Int := deserializeIntegral "int" 0 (unpackSigned 4)

def deserializeLong : Load Thrown Int := deserializeIntegral "long" 0 (unpackSigned 4)

def deserializeInt64 : Load Thrown Int := deserializeIntegral "int64" 0 (unpackSigned 8)

def deserializeUnsignedLong : Load Thrown Nat :=
  deserializeIntegral "unsigned long" 0 (unpackUnsigned 4)

/-! ## Floats -/

/-- `float_details::convert_to_T` -/
def Format.convert (format : Format F) (mantissa exponent : Int) : F :=
  if exponent < 32000 then format.ldexp mantissa exponent
  else if exponent = 32000 then format.infinity
  else if exponent = 32001 then format.negInfinity
  else format.quietNaN

/-- `old_deserialize_floating_point`: the item, and the rest unless it returns `true`. The letters
are those of `inf`, `ninf` and `NaN`, of which only the first is looked at. -/
def oldDeserializeFloatingPoint (format : Format F) (item : F) (bytes : List UInt8) :
    F × Option (List UInt8) :=
  let (item, rest) : F × Option (List UInt8) :=
    match bytes with
    | [] => (item, none)
    | 0x69 :: _ => (format.infinity, some (bytes.drop 3))
    | 0x6E :: _ => (format.negInfinity, some (bytes.drop 4))
    | 0x4E :: _ => (format.quietNaN, some (bytes.drop 3))
    | _ => format.scan item bytes
  match rest with
  | some (0x20 :: rest) => (item, some rest)
  | _ => (item, none)

/-- The new format, recognised by its control byte. At the end of the file `sgetc` answers `EOF`,
which has the bits of the old one. -/
def isNewFormat : List UInt8 → Bool
  | [] => false
  | control :: _ => control &&& 0x70 = 0

/-- `deserialize_floating_point` -/
def deserializeFloat (format : Format F) : Load Thrown F := fun item bytes =>
  if isNewFormat bytes then
    Load.onError
      (fun item e => (item, e.append "\n   while deserializing a floating point number."))
      (Load.withLocal deserializeInt64 0 fun mantissa =>
        Load.withLocal deserializeShort 0 fun exponent _ rest =>
          (format.convert mantissa exponent, .ok rest)) item bytes
  else
    match oldDeserializeFloatingPoint format item bytes with
    | (item, some rest) => (item, .ok rest)
    | (item, none) =>
        (item, .error (.serializationError "Error deserializing a floating point number."))

/-! ## Containers -/

/-- `item.resize(size)`, for elements of `sizeof` bytes that start out as `value`. -/
def resize {T : Type} (file : ModelFile F) (sizeof : Nat) (value : T) (size : Nat) :
    Load Thrown (List T) := fun item bytes =>
  if size ≤ item.length then (item.take size, .ok bytes)
  else if size * sizeof ≤ maxBlock ∧ file.grants bytes.length size = true then
    (item ++ List.replicate (size - item.length) value, .ok bytes)
  else (item, .error .badAlloc)

/-- `deserialize` for `std::vector` -/
def deserializeVector {T : Type} (file : ModelFile F) (sizeof : Nat) (value : T)
    (deserialize : Load Thrown T) : Load Thrown (List T) :=
  Load.onError
    (fun item e => (item, e.append "\n   while deserializing object of type std::vector"))
    (Load.withLocal deserializeUnsignedLong 0 fun size =>
      (resize file sizeof value size).andThen (Load.each deserialize))

/-- `matrix<float,0,1>::set_size(nr, 1)`. A negative `nr` reaches `new float[nr]` as a huge one. -/
def setSize (file : ModelFile F) (nr : Int) : Load Thrown (List F) := fun item bytes =>
  if nr = item.length then (item, .ok bytes)
  else if 0 ≤ nr ∧ nr.toNat * 4 ≤ maxBlock ∧ file.grants bytes.length nr.toNat = true then
    ((List.range nr.toNat).map (file.garbage bytes.length), .ok bytes)
  else (item, .error .badAlloc)

/-- `nr *= -1;` on a `long` -/
def negLong (n : Int) : Int := (-n).bmod (2 ^ 32)

/-- `deserialize` for `matrix<float,0,1>`. The dimensions are stored negated since the format is
shared with `array2d`. -/
def deserializeMatrix (format : Format F) (file : ModelFile F) : Load Thrown (List F) :=
  Load.onError (fun item e => (item, e.append "\n   while deserializing a dlib::matrix"))
    (Load.withLocal deserializeLong 0 fun nr =>
      Load.withLocal deserializeLong 0 fun nc =>
        let (nr, nc) := if nr < 0 ∨ nc < 0 then (negLong nr, negLong nc) else (nr, nc)
        if nc ≠ 1 then
          Load.throw (.serializationError
            "Error while deserializing a dlib::matrix.  Invalid columns")
        else (setSize file nr).andThen (Load.each (deserializeFloat format)))

/-- `deserialize` for `vector<float,2>`, which clears its target when it fails. -/
def deserializeVector2 (format : Format F) : Load Thrown (Vector2 F) :=
  Load.onError
    (fun item e =>
      match e with
      | .serializationError info => (⟨format.zero, format.zero⟩,
          .serializationError (info ++ "\n   while deserializing object of type vector"))
      | .badAlloc => (item, .badAlloc))
    ((Load.inField Vector2.x (fun item x => { item with x }) (deserializeFloat format)).andThen
      (Load.inField Vector2.y (fun item y => { item with y }) (deserializeFloat format)))

/-! ## The predictor -/

def deserializeSplitFeature (format : Format F) : Load Thrown (SplitFeature F) :=
  (Load.inField SplitFeature.idx1 (fun item idx1 => { item with idx1 })
    deserializeUnsignedLong).andThen
  ((Load.inField SplitFeature.idx2 (fun item idx2 => { item with idx2 })
    deserializeUnsignedLong).andThen
  (Load.inField SplitFeature.thresh (fun item thresh => { item with thresh })
    (deserializeFloat format)))

/-- The sizes of the elements are those of the 32-bit targets. -/
def deserializeSplits (format : Format F) (file : ModelFile F) :
    Load Thrown (List (SplitFeature F)) :=
  deserializeVector file 12 ⟨0, 0, format.zero⟩ (deserializeSplitFeature format)

def deserializeRegressionTree (format : Format F) (file : ModelFile F) :
    Load Thrown (RegressionTree F) :=
  (Load.inField RegressionTree.splits (fun item splits => { item with splits })
    (deserializeSplits format file)).andThen
  (Load.inField RegressionTree.leafValues (fun item leafValues => { item with leafValues })
    (deserializeVector file 12 [] (deserializeMatrix format file)))

def deserializeForests (format : Format F) (file : ModelFile F) :
    Load Thrown (List (List (RegressionTree F))) :=
  deserializeVector file 12 []
    (deserializeVector file 24 ⟨[], []⟩ (deserializeRegressionTree format file))

def deserializeAnchorIdx (file : ModelFile F) : Load Thrown (List (List Nat)) :=
  deserializeVector file 12 [] (deserializeVector file 4 0 deserializeUnsignedLong)

def deserializeDeltas (format : Format F) (file : ModelFile F) :
    Load Thrown (List (List (Vector2 F))) :=
  deserializeVector file 12 []
    (deserializeVector file 8 ⟨format.zero, format.zero⟩ (deserializeVector2 format))

/-- The fields of a `shape_predictor`, after its version. -/
def deserializeFields (format : Format F) (file : ModelFile F) : Load Thrown (ShapePredictor F) :=
  (Load.inField ShapePredictor.initialShape (fun item initialShape => { item with initialShape })
    (deserializeMatrix format file)).andThen
  ((Load.inField ShapePredictor.forests (fun item forests => { item with forests })
    (deserializeForests format file)).andThen
  ((Load.inField ShapePredictor.anchorIdx (fun item anchorIdx => { item with anchorIdx })
    (deserializeAnchorIdx file)).andThen
  (Load.inField ShapePredictor.deltas (fun item deltas => { item with deltas })
    (deserializeDeltas format file))))

/-- `deserialize` for `shape_predictor` -/
def deserializeShapePredictor (format : Format F) (file : ModelFile F) :
    Load Thrown (ShapePredictor F) :=
  Load.withLocal deserializeInt 0 fun version =>
    if version ≠ 1 then
      Load.throw (.serializationError
        "Unexpected version found while deserializing dlib::shape_predictor.")
    else deserializeFields format file

/-! ## The file -/

/-- `proxy_deserialize::looks_like_a_compressed_file`, on the first four bytes. -/
def looksLikeACompressedFile : List UInt8 → Bool
  | 0x42 :: 0x5A :: 0x68 :: c :: _ => 0x30 ≤ c && c ≤ 0x39
  | _ => false

/-- The message `doit` makes of an error in the first object. -/
def firstObjectError (filename : String) (content : List UInt8) : Thrown → Thrown
  | .serializationError info =>
      let suffix := if looksLikeACompressedFile content then
        "\n *** THIS LOOKS LIKE A COMPRESSED FILE.  DID YOU FORGET TO DECOMPRESS IT? *** \n" else ""
      .serializationError ("An error occurred while trying to read the first object from the file "
        ++ filename ++ ".\nERROR: " ++ info ++ "\n" ++ suffix)
  | .badAlloc => .badAlloc

/-- `proxy_deserialize::doit` -/
def doit (format : Format F) (file : ModelFile F) (content : List UInt8) :
    Load Thrown (ShapePredictor F) :=
  Load.onError (fun item e => (item, firstObjectError file.filename content e))
    (if content.isEmpty then
      Load.throw (.serializationError "No more objects were in the file!")
    else deserializeShapePredictor format file)

/-- `deserialize(filename) >> item`, on a predictor nobody has touched. -/
def load (format : Format F) (file : ModelFile F) :
    ShapePredictor F × Except Thrown (List UInt8) :=
  match file.content with
  | none =>
      (.empty, .error (.serializationError ("Unable to open " ++ file.filename ++ " for reading.")))
  | some content => doit format file content .empty content

/-- `Dlib::Dlib`. Both `catch` clauses only log. -/
def construct (format : Format F) (file : ModelFile F) : Dlib (ShapePredictor F) :=
  Dlib.new (load format file).1

end DlibAndroid
