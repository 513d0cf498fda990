import DlibAndroid.Predictor.Floats
import DlibAndroid.Predictor.Refused

/-!
# Writing a model file

The overloads of `serialize` for the types a `shape_predictor` is made of, beside the ones of
`deserialize` in `Predictor.Serialize`, and what is read back of what was written.

Whatever a load leaves in the predictor, finished or not, can be written (`load_storable`). What
was written is read back as it was, but for the signs of the zeros in it, whatever follows in the
file is left alone, and a file that was cut off anywhere is refused (`load_saved`).

The stream takes everything that is written to it. Memory there is: `ModelFile.grants` says so.
-/

set_option autoImplicit false

namespace DlibAndroid

open CCore

variable {F G : Type}

/-! ## Writing -/

/-- `serialize` for `std::vector` -/
def serializeVector {T : Type} (serialize : T → List UInt8) (item : List T) : List UInt8 :=
  serializeUnsignedLong item.length ++ item.flatMap serialize

/-- `serialize` for `matrix<float,0,1>`, with the dimensions negated. -/
def serializeMatrix (item : List Single) : List UInt8 :=
  serializeLong (-item.length) ++ (serializeLong (-1) ++ item.flatMap serializeFloat)

/-- `serialize` for `vector<float,2>` -/
def serializeVector2 (item : Vector2 Single) : List UInt8 :=
  serializeFloat item.x ++ serializeFloat item.y

def serializeSplitFeature (item : SplitFeature Single) : List UInt8 :=
  serializeUnsignedLong item.idx1 ++ (serializeUnsignedLong item.idx2 ++ serializeFloat item.thresh)

def serializeRegressionTree (item : RegressionTree Single) : List UInt8 :=
  serializeVector serializeSplitFeature item.splits ++
    serializeVector serializeMatrix item.leafValues

/-- The fields, in the order of the declaration. -/
def serializeFields (item : ShapePredictor Single) : List UInt8 :=
  serializeMatrix item.initialShape ++
    (serializeVector (serializeVector serializeRegressionTree) item.forests ++
      (serializeVector (serializeVector serializeUnsignedLong) item.anchorIdx ++
        serializeVector (serializeVector serializeVector2) item.deltas))

/-- `serialize` for `shape_predictor` -/
def serializeShapePredictor (item : ShapePredictor Single) : List UInt8 :=
  serializeInt 1 ++ serializeFields item

/-! ## Changing the floats -/

def Vector2.map (f : F → G) (v : Vector2 F) : Vector2 G := ⟨f v.x, f v.y⟩

def SplitFeature.map (f : F → G) (s : SplitFeature F) : SplitFeature G :=
  ⟨s.idx1, s.idx2, f s.thresh⟩

def RegressionTree.map (f : F → G) (tree : RegressionTree F) : RegressionTree G :=
  ⟨tree.splits.map (SplitFeature.map f), tree.leafValues.map (List.map f)⟩

def ShapePredictor.map (f : F → G) (p : ShapePredictor F) : ShapePredictor G :=
  ⟨p.initialShape.map f, p.forests.map (List.map (RegressionTree.map f)), p.anchorIdx,
    p.deltas.map (List.map (Vector2.map f))⟩

/-! ## What can be written -/

/-- The indices are values of their type. -/
def SplitFeature.Storable (s : SplitFeature F) : Prop := s.idx1 < 2 ^ 32 ∧ s.idx2 < 2 ^ 32

/-- A column of floats. -/
def Column (column : List F) : Prop := Bounded 4 (fun _ => True) column

def RegressionTree.Storable (tree : RegressionTree F) : Prop :=
  DlibAndroid.Bounded 12 SplitFeature.Storable tree.splits ∧
    DlibAndroid.Bounded 12 Column tree.leafValues

/-- The vectors fit into memory and the indices into their type, as they do in any object of the
class. -/
structure ShapePredictor.Storable (p : ShapePredictor F) : Prop where
  initialShape : Column p.initialShape
  forests : DlibAndroid.Bounded 12 (DlibAndroid.Bounded 24 RegressionTree.Storable) p.forests
  anchorIdx : DlibAndroid.Bounded 12 (DlibAndroid.Bounded 4 fun idx => idx < 2 ^ 32) p.anchorIdx
  deltas : DlibAndroid.Bounded 12 (DlibAndroid.Bounded 8 fun _ => True) p.deltas

/-! ## Containers, there and back -/

/-- Whatever is asked for is granted. -/
def ModelFile.Grants (file : ModelFile F) : Prop :=
  ∀ unread size, file.grants unread size = true

section Containers

variable {scan : Single → List UInt8 → Single × Option (List UInt8)} {file : ModelFile Single}

theorem takes_unsignedLong {n : Nat} (h : n < 2 ^ 32) :
    deserializeUnsignedLong.Takes (serializeUnsignedLong n) fun _ => n :=
  takes_packUnsigned (by decide) (by decide) h

theorem takes_long {n : Int} (h : IsSigned 4 n) :
    deserializeLong.Takes (serializeLong n) fun _ => n :=
  takes_packSigned (by decide) (by decide) h

/-- A vector of the right size, filled from what was written for its elements. -/
theorem takes_elements {α T : Type} {size : Load Thrown (List T)} {deserialize : Load Thrown T}
    {write : α → List UInt8} {value : α → T} {xs : List α}
    (hsize : ∀ item bytes, ∃ items, items.length = xs.length ∧ size item bytes = (items, .ok bytes))
    (h : ∀ x ∈ xs, deserialize.Takes (write x) fun _ => value x) :
    (size.andThen (Load.each deserialize)).Takes (xs.flatMap write) fun _ => xs.map value := by
  constructor
  · intro item rest
    obtain ⟨items, hlen, hitems⟩ := hsize item (xs.flatMap write ++ rest)
    rw [Load.andThen, hitems]
    exact Load.each_reads h hlen rest
  · intro item k hk
    obtain ⟨items, hlen, hitems⟩ := hsize item ((xs.flatMap write).take k)
    rw [Load.andThen, hitems]
    exact Load.each_short h hlen k hk

theorem resize_granted (hfile : file.Grants) {T : Type} {sizeof size : Nat} (value : T)
    (h : size * sizeof ≤ maxBlock) (item : List T) (bytes : List UInt8) :
    ∃ items, items.length = size ∧
      resize file sizeof value size item bytes = (items, .ok bytes) := by
  unfold resize
  split_ifs with hle hgrant
  · exact ⟨_, by rw [List.length_take]; omega, rfl⟩
  · exact ⟨_, by rw [List.length_append, List.length_replicate]; omega, rfl⟩
  · exact absurd ⟨h, hfile _ _⟩ hgrant

theorem setSize_granted (hfile : file.Grants) {size : Nat} (h : size * 4 ≤ maxBlock)
    (item : List Single) (bytes : List UInt8) :
    ∃ items, items.length = size ∧ setSize file size item bytes = (items, .ok bytes) := by
  unfold setSize
  split_ifs with hsame hgrant
  · exact ⟨item, by exact_mod_cast hsame.symm, rfl⟩
  · exact ⟨_, by rw [List.length_map, List.length_range]; rfl, rfl⟩
  · exact absurd ⟨Int.natCast_nonneg size, h, hfile _ _⟩ hgrant

/-- A vector, from what is known about its elements. -/
theorem takes_vector (hfile : file.Grants) {α T : Type} {sizeof : Nat} (zero : T)
    {deserialize : Load Thrown T} {write : α → List UInt8} {value : α → T} {P : α → Prop}
    {xs : List α} (hsizeof : 0 < sizeof) (hxs : Bounded sizeof P xs)
    (h : ∀ x, P x → deserialize.Takes (write x) fun _ => value x) :
    (deserializeVector file sizeof zero deserialize).Takes (serializeVector write xs)
      fun _ => xs.map value := by
  obtain ⟨hlen, hall⟩ := hxs
  have hlt : xs.length < 2 ^ 32 := by
    have := Nat.le_mul_of_pos_right xs.length hsizeof
    unfold maxBlock at hlen
    omega
  exact (Load.Takes.withLocal (takes_unsignedLong hlt)
    (takes_elements (resize_granted hfile zero hlen) fun x hx => h x (hall x hx))).onError

theorem takes_matrix (hfile : file.Grants) {column : List Single} (h : Column column) :
    (deserializeMatrix (Format.single scan) file).Takes (serializeMatrix column)
      fun _ => column.map stored := by
  obtain ⟨hlen, -⟩ := h
  have hlen' := hlen
  unfold maxBlock at hlen'
  have hnr : negLong (-column.length) = column.length := by
    rw [negLong, neg_neg]
    exact Int.bmod_eq_of_le_mul_two (by omega) (by omega)
  have hbody := takes_elements (setSize_granted hfile hlen)
    fun x (_ : x ∈ column) => (takes_serializeFloat x :
      (deserializeFloat (Format.single scan)).Takes (serializeFloat x) fun _ => stored x)
  refine (Load.Takes.withLocal (takes_long ⟨by omega, by omega⟩)
    (Load.Takes.withLocal (takes_long (by decide)) ?_)).onError
  have hneg : (-(column.length : Int) < 0 ∨ (-1 : Int) < 0) := .inr (by decide)
  simp only [if_pos hneg, hnr]
  exact hbody

theorem takes_vector2 (v : Vector2 Single) :
    (deserializeVector2 (Format.single scan)).Takes (serializeVector2 v) fun _ => v.map stored :=
  ((takes_serializeFloat v.x).inField.andThen (takes_serializeFloat v.y).inField).onError

theorem takes_splitFeature {s : SplitFeature Single} (h : s.Storable) :
    (deserializeSplitFeature (Format.single scan)).Takes (serializeSplitFeature s)
      fun _ => s.map stored :=
  (takes_unsignedLong h.1).inField.andThen
    ((takes_unsignedLong h.2).inField.andThen (takes_serializeFloat s.thresh).inField)

theorem takes_regressionTree (hfile : file.Grants) {tree : RegressionTree Single}
    (h : tree.Storable) :
    (deserializeRegressionTree (Format.single scan) file).Takes (serializeRegressionTree tree)
      fun _ => tree.map stored :=
  (takes_vector hfile _ (by decide) h.1 fun _ => takes_splitFeature).inField.andThen
    (takes_vector hfile _ (by decide) h.2 fun _ => takes_matrix hfile).inField

theorem takes_fields (hfile : file.Grants) {m : ShapePredictor Single} (h : m.Storable) :
    (deserializeFields (Format.single scan) file).Takes (serializeFields m)
      fun _ => m.map stored := by
  have hforests : (deserializeForests (Format.single scan) file).Takes
      (serializeVector (serializeVector serializeRegressionTree) m.forests)
      fun _ => m.forests.map (List.map (RegressionTree.map stored)) :=
    takes_vector hfile _ (by decide) h.forests fun _ hforest =>
      takes_vector hfile _ (by decide) hforest fun _ => takes_regressionTree hfile
  have hanchorIdx : (deserializeAnchorIdx file).Takes
      (serializeVector (serializeVector serializeUnsignedLong) m.anchorIdx)
      fun _ => m.anchorIdx.map (List.map fun idx => idx) :=
    takes_vector hfile _ (by decide) h.anchorIdx fun _ hanchor =>
      takes_vector hfile _ (by decide) hanchor fun _ => takes_unsignedLong
  have hdeltas : (deserializeDeltas (Format.single scan) file).Takes
      (serializeVector (serializeVector serializeVector2) m.deltas)
      fun _ => m.deltas.map (List.map (Vector2.map stored)) :=
    takes_vector hfile _ (by decide) h.deltas fun _ hdelta =>
      takes_vector hfile _ (by decide) hdelta fun v _ => takes_vector2 v
  have hid : m.anchorIdx.map (List.map fun idx => idx) = m.anchorIdx := by simp
  rw [hid] at hanchorIdx
  exact (takes_matrix hfile h.initialShape).inField.andThen
    (hforests.inField.andThen (hanchorIdx.inField.andThen hdeltas.inField))

/-- **A predictor, written and read.** -/
theorem takes_shapePredictor (hfile : file.Grants) {m : ShapePredictor Single} (h : m.Storable) :
    (deserializeShapePredictor (Format.single scan) file).Takes (serializeShapePredictor m)
      fun _ => m.map stored := by
  refine Load.Takes.withLocal (takes_packSigned (by decide) (by decide) (by decide)) ?_
  rw [if_neg (not_not.mpr rfl)]
  exact takes_fields hfile h

end Containers

/-! ## What a load leaves -/

section Keeps

variable {format : Format F} {file : ModelFile F}

theorem littleEndian_lt (bytes : List UInt8) : littleEndian bytes < 2 ^ (8 * bytes.length) := by
  induction bytes with
  | nil => exact Nat.one_pos
  | cons b bytes ih =>
    have hb := b.toNat_lt
    have hpow : 2 ^ (8 * (bytes.length + 1)) = 2 ^ (8 * bytes.length) * 256 := by
      rw [Nat.mul_succ, pow_add]
      norm_num
    rw [littleEndian, List.length_cons, hpow]
    omega

/-- An `unsigned long` is one. -/
theorem deserializeUnsignedLong_keeps : deserializeUnsignedLong.Keeps fun n => n < 2 ^ 32 := by
  intro item bytes _
  rw [deserializeUnsignedLong, deserializeIntegral]
  split
  · rename_i n rest hread
    cases bytes with
    | nil => cases hread
    | cons control bytes =>
      rw [unpackUnsigned, unpackBytes] at hread
      split_ifs at hread with hsize hlen
      obtain ⟨rfl, -⟩ := Prod.mk.inj (Option.some.inj hread)
      have hlt := littleEndian_lt (bytes.take (control &&& 0x8F).toNat)
      have hle : (bytes.take (control &&& 0x8F).toNat).length ≤ 4 := by
        rw [List.length_take]
        omega
      exact hlt.trans_le (Nat.pow_le_pow_right (by decide) (by omega))
  · exact Nat.two_pow_pos 32

theorem setSize_keeps (nr : Int) : (setSize file nr).Keeps Column := by
  rintro item bytes hitem
  unfold setSize
  split_ifs with hsame hgrant
  · exact hitem
  · exact ⟨by rw [List.length_map, List.length_range]; exact hgrant.2.1, fun _ _ => trivial⟩
  · exact hitem

theorem deserializeMatrix_keeps : (deserializeMatrix format file).Keeps Column := by
  refine Load.Keeps.onError (Load.keeps_withLocal fun nr => Load.keeps_withLocal fun nc => ?_)
    fun _ _ h => h
  generalize (if nr < 0 ∨ nc < 0 then (negLong nr, negLong nc) else (nr, nc)) = dims
  obtain ⟨nr, nc⟩ := dims
  dsimp only
  split
  · exact Load.keeps_throw _
  · refine (setSize_keeps nr).andThen ?_
    rintro item bytes ⟨hlen, hall⟩
    exact ⟨by rw [Load.length_each]; exact hlen, fun _ _ => trivial⟩

theorem deserializeSplitFeature_keeps :
    (deserializeSplitFeature format).Keeps SplitFeature.Storable :=
  (deserializeUnsignedLong_keeps.inField (fun _ h => h.1) fun _ _ h hx => ⟨hx, h.2⟩).andThen
    ((deserializeUnsignedLong_keeps.inField (fun _ h => h.2) fun _ _ h hx => ⟨h.1, hx⟩).andThen
      (Load.keeps_inField fun _ _ h => h))

theorem regressionTree_keeps_storable :
    (deserializeRegressionTree format file).Keeps RegressionTree.Storable :=
  ((deserializeVector_keeps ⟨Nat.two_pow_pos 32, Nat.two_pow_pos 32⟩
    deserializeSplitFeature_keeps).inField (fun _ h => h.1) fun _ _ h hx => ⟨hx, h.2⟩).andThen
    ((deserializeVector_keeps bounded_nil deserializeMatrix_keeps).inField (fun _ h => h.2)
      fun _ _ h hx => ⟨h.1, hx⟩)

theorem fields_keep_storable :
    (deserializeFields format file).Keeps ShapePredictor.Storable := by
  have hforests : (deserializeForests format file).Keeps
      (Bounded 12 (Bounded 24 RegressionTree.Storable)) :=
    deserializeVector_keeps bounded_nil
      (deserializeVector_keeps ⟨bounded_nil, bounded_nil⟩ regressionTree_keeps_storable)
  have hanchorIdx :
      (deserializeAnchorIdx file).Keeps (Bounded 12 (Bounded 4 fun n => n < 2 ^ 32)) :=
    deserializeVector_keeps bounded_nil
      (deserializeVector_keeps (P := fun n => n < 2 ^ 32) (Nat.two_pow_pos 32)
        deserializeUnsignedLong_keeps)
  have hdeltas : (deserializeDeltas format file).Keeps (Bounded 12 (Bounded 8 fun _ => True)) :=
    deserializeVector_keeps bounded_nil (deserializeVector_keeps trivial fun _ _ h => h)
  exact (deserializeMatrix_keeps.inField (fun _ h => h.initialShape) fun _ _ h hx =>
      ⟨hx, h.forests, h.anchorIdx, h.deltas⟩).andThen
    ((hforests.inField (fun _ h => h.forests) fun _ _ h hx =>
      ⟨h.initialShape, hx, h.anchorIdx, h.deltas⟩).andThen
    ((hanchorIdx.inField (fun _ h => h.anchorIdx) fun _ _ h hx =>
      ⟨h.initialShape, h.forests, hx, h.deltas⟩).andThen
    (hdeltas.inField (fun _ h => h.deltas) fun _ _ h hx =>
      ⟨h.initialShape, h.forests, h.anchorIdx, hx⟩)))

/-- **Whatever a load leaves can be written**, also when the load fails halfway. -/
theorem load_storable (format : Format F) (file : ModelFile F) :
    (load format file).1.Storable := by
  have hempty : (ShapePredictor.empty : ShapePredictor F).Storable :=
    ⟨bounded_nil, bounded_nil, bounded_nil, bounded_nil⟩
  unfold load
  cases file.content with
  | none => exact hempty
  | some content =>
    refine Load.Keeps.onError (P := ShapePredictor.Storable) ?_ (fun _ _ h => h) _ content hempty
    split
    · exact Load.keeps_throw _
    · refine Load.keeps_withLocal fun version => ?_
      split
      · exact Load.keeps_throw _
      · exact fields_keep_storable

end Keeps

/-! ## Which floats there are does not matter -/

section Map

variable {f : F → G}

theorem RegressionTree.leafSizes_map (tree : RegressionTree F) :
    (tree.map f).leafSizes = tree.leafSizes := by
  simp only [leafSizes, RegressionTree.map, List.length_map, ← List.map_take, List.map_map]
  exact List.map_congr_left fun leaf _ => List.length_map f

theorem RegressionTree.consistent_map {tree : RegressionTree F} {features : Nat} :
    (tree.map f).Consistent features ↔ tree.Consistent features := by
  constructor
  · rintro ⟨hsplit, hleaf⟩
    refine ⟨fun split h => hsplit (split.map f) (List.mem_map_of_mem h), ?_⟩
    simpa only [RegressionTree.map, List.length_map] using hleaf
  · rintro ⟨hsplit, hleaf⟩
    constructor
    · intro split' h'
      obtain ⟨split, h, rfl⟩ := List.mem_map.mp h'
      exact hsplit split h
    · simpa only [RegressionTree.map, List.length_map] using hleaf

namespace ShapePredictor

theorem sizesBefore_map (p : ShapePredictor F) (iter : Nat) :
    (p.map f).sizesBefore iter = p.sizesBefore iter := by
  have hafter : ∀ sizes (forest : List (RegressionTree F)),
      sizesAfter sizes (forest.map (RegressionTree.map f)) = sizesAfter sizes forest := by
    intro sizes forest
    rw [sizesAfter, sizesAfter, List.getLast?_map]
    cases forest.getLast? with
    | none => rfl
    | some tree => exact tree.leafSizes_map
  simp only [sizesBefore, ShapePredictor.map, List.length_map, ← List.map_take, List.foldl_map,
    hafter]

/-- The arrays fit together as they did. -/
theorem consistent_map {p : ShapePredictor F} : (p.map f).Consistent ↔ p.Consistent := by
  have hshape : (p.map f).initialShape.length = p.initialShape.length := List.length_map f
  have hforests : (p.map f).forests.length = p.forests.length := List.length_map _
  constructor
  · rintro ⟨hlevel, hparts⟩
    constructor
    · intro iter forest hforest
      obtain ⟨anchorIdx, deltas', hanchor, hdeltas', hanchored, htrees⟩ :=
        hlevel iter (forest.map (RegressionTree.map f)) (by
          rw [ShapePredictor.map, List.getElem?_map, hforest]
          rfl)
      rw [ShapePredictor.map, List.getElem?_map, Option.map_eq_some_iff] at hdeltas'
      obtain ⟨deltas, hdeltas, rfl⟩ := hdeltas'
      rw [List.length_map] at hanchored htrees
      rw [sizesBefore_map, hshape] at hanchored
      exact ⟨anchorIdx, deltas, hanchor, hdeltas, hanchored, fun tree htree =>
        RegressionTree.consistent_map.mp (htrees _ (List.mem_map_of_mem htree))⟩
    · rwa [sizesBefore_map, hforests] at hparts
  · rintro ⟨hlevel, hparts⟩
    constructor
    · intro iter forest' hforest'
      rw [ShapePredictor.map, List.getElem?_map, Option.map_eq_some_iff] at hforest'
      obtain ⟨forest, hforest, rfl⟩ := hforest'
      obtain ⟨anchorIdx, deltas, hanchor, hdeltas, hanchored, htrees⟩ := hlevel iter forest hforest
      refine ⟨anchorIdx, deltas.map (Vector2.map f), hanchor, ?_, ?_, ?_⟩
      · rw [ShapePredictor.map, List.getElem?_map, hdeltas]
        rfl
      · rw [sizesBefore_map, hshape, List.length_map]
        exact hanchored
      · intro tree' htree'
        obtain ⟨tree, htree, rfl⟩ := List.mem_map.mp htree'
        rw [List.length_map]
        exact RegressionTree.consistent_map.mpr (htrees tree htree)
    · rwa [sizesBefore_map, hforests]

end ShapePredictor

end Map

/-- The floats read back are written as the ones they come from. -/
theorem serializeShapePredictor_stored (m : ShapePredictor Single) :
    serializeShapePredictor (m.map stored) = serializeShapePredictor m := by
  have hmatrix : ∀ column : List Single,
      serializeMatrix (column.map stored) = serializeMatrix column := fun column => by
    simp only [serializeMatrix, List.length_map, List.flatMap_map, serializeFloat_stored]
  have hvector : ∀ {T : Type} (write : T → List UInt8) (g : T → T),
      (∀ x, write (g x) = write x) → ∀ xs : List T,
        serializeVector write (xs.map g) = serializeVector write xs := fun write g h xs => by
    simp only [serializeVector, List.length_map, List.flatMap_map, h]
  have hsplit : ∀ s : SplitFeature Single,
      serializeSplitFeature (s.map stored) = serializeSplitFeature s := fun s => by
    simp only [serializeSplitFeature, SplitFeature.map, serializeFloat_stored]
  have htree : ∀ tree : RegressionTree Single,
      serializeRegressionTree (tree.map stored) = serializeRegressionTree tree := fun tree => by
    rw [serializeRegressionTree, RegressionTree.map, hvector _ _ hsplit, hvector _ _ hmatrix]
    rfl
  have hvector2 : ∀ v : Vector2 Single,
      serializeVector2 (v.map stored) = serializeVector2 v := fun v => by
    simp only [serializeVector2, Vector2.map, serializeFloat_stored]
  rw [serializeShapePredictor, serializeShapePredictor, serializeFields, serializeFields,
    ShapePredictor.map]
  simp only [hmatrix, hvector _ _ (hvector _ _ htree), hvector _ _ (hvector _ _ hvector2)]

/-! ## A model file -/

section File

variable (scan : Single → List UInt8 → Single × Option (List UInt8)) (file : ModelFile Single)

/-- The file, with another content. -/
def ModelFile.holding (file : ModelFile F) (content : List UInt8) : ModelFile F :=
  { file with content := some content }

/-- What was written is loaded as it was, up to the signs of its zeros. -/
theorem load_written (hfile : file.Grants) {m : ShapePredictor Single} (hm : m.Storable)
    (rest : List UInt8) :
    load (Format.single scan) (file.holding (serializeShapePredictor m ++ rest)) =
      (m.map stored, .ok rest) := by
  have hgrants : (file.holding (serializeShapePredictor m ++ rest)).Grants := hfile
  have htakes : (deserializeShapePredictor (Format.single scan)
      (file.holding (serializeShapePredictor m ++ rest))).Takes (serializeShapePredictor m)
        fun _ => m.map stored := takes_shapePredictor hgrants hm
  have hread := htakes.reads .empty rest
  have hne : (serializeShapePredictor m ++ rest).isEmpty = false := rfl
  rw [load, ModelFile.holding]
  simp only
  rw [doit, hne, if_neg Bool.false_ne_true, Load.onError]
  rw [ModelFile.holding] at hread
  rw [hread]

theorem load_cutOff (hfile : file.Grants) {m : ShapePredictor Single} (hm : m.Storable) {k : Nat}
    (hk : k < (serializeShapePredictor m).length) :
    Refused (Format.single scan) (file.holding ((serializeShapePredictor m).take k)) := by
  have hgrants : (file.holding ((serializeShapePredictor m).take k)).Grants := hfile
  have htakes : (deserializeShapePredictor (Format.single scan)
      (file.holding ((serializeShapePredictor m).take k))).Takes (serializeShapePredictor m)
        fun _ => m.map stored := takes_shapePredictor hgrants hm
  obtain ⟨e, he⟩ := htakes.short .empty k hk
  rw [Refused, load, ModelFile.holding]
  refine Load.onError_error (e := if ((serializeShapePredictor m).take k).isEmpty then
    .serializationError "No more objects were in the file!" else e) ?_
  split
  · rfl
  · exact he

/-- **A saved model is loaded** whatever follows it in the file. **A file that was cut off** is
refused, wherever the cut is. -/
theorem load_saved (hfile : file.Grants) {m : ShapePredictor Single} (hm : m.Storable) :
    (∀ rest, load (Format.single scan) (file.holding (serializeShapePredictor m ++ rest)) =
      (m.map stored, .ok rest)) ∧
    ∀ k < (serializeShapePredictor m).length,
      Refused (Format.single scan) (file.holding ((serializeShapePredictor m).take k)) :=
  ⟨load_written scan file hfile hm, fun _ => load_cutOff scan file hfile hm⟩

/-- A model of one level and one tree, with floats of every kind. -/
def oneTree : ShapePredictor Single where
  initialShape := [.zero true, .ofInt (-3)]
  forests := [[⟨[⟨0, 1, .ofInt 1⟩], [[.nan, .infinity true], [.ofInt 70000, .zero false]]⟩]]
  anchorIdx := [[0, 0]]
  deltas := [[⟨.zero true, .ofInt 2⟩, ⟨.infinity false, .ofInt 5⟩]]

def emptyFile : ModelFile Single where
  filename := "model.dat"
  content := none
  grants _ _ := true
  garbage _ _ := .nan

theorem oneTree_storable : oneTree.Storable where
  initialShape := ⟨by decide, fun _ _ => trivial⟩
  forests := by simp [oneTree, DlibAndroid.Bounded, RegressionTree.Storable, Column,
    SplitFeature.Storable, maxBlock]
  anchorIdx := by simp [oneTree, DlibAndroid.Bounded, maxBlock]
  deltas := by simp [oneTree, DlibAndroid.Bounded, maxBlock]

theorem load_saved_oneTree :
    (∀ rest, load (Format.single fun item _ => (item, none))
      (emptyFile.holding (serializeShapePredictor oneTree ++ rest)) =
        (oneTree.map stored, .ok rest)) ∧
    ∀ k < (serializeShapePredictor oneTree).length,
      Refused (Format.single fun item _ => (item, none))
        (emptyFile.holding ((serializeShapePredictor oneTree).take k)) :=
  load_saved _ emptyFile (fun _ _ => rfl) oneTree_storable

/-- **Loading, saving and loading again.** The model of any file, also of one that was refused,
survives the second trip: written again it gives the same bytes, and it is as safe to use. -/
theorem load_resaved (hfile : file.Grants) (first : ModelFile Single) :
    let m := (load (Format.single scan) first).1
    let again := load (Format.single scan) (file.holding (serializeShapePredictor m))
    again = (m.map stored, .ok []) ∧ serializeShapePredictor again.1 = serializeShapePredictor m ∧
      (SafeToUse again.1 ↔ SafeToUse m) := by
  intro m again
  have hagain : again = (m.map stored, .ok []) := by
    have h := load_written scan file hfile (load_storable (Format.single scan) first) []
    rwa [List.append_nil] at h
  rw [hagain]
  refine ⟨rfl, serializeShapePredictor_stored m, ?_⟩
  rw [safeToUse_iff, safeToUse_iff]
  exact ShapePredictor.consistent_map

theorem load_resaved_oneTree :
    let m := (load (Format.single fun item _ => (item, none))
      (emptyFile.holding (serializeShapePredictor oneTree))).1
    let again := load (Format.single fun item _ => (item, none))
      (emptyFile.holding (serializeShapePredictor m))
    again = (m.map stored, .ok []) ∧ serializeShapePredictor again.1 = serializeShapePredictor m ∧
      (SafeToUse again.1 ↔ SafeToUse m) :=
  load_resaved _ emptyFile (fun _ _ => rfl) _

end File

end DlibAndroid
