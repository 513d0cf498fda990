import DlibAndroid.Predictor.Shape

/-!
# When the cascade stays in range

`ShapePredictor.Consistent` relates the five arrays of a predictor as the assertions of the library
would: every level has its anchors and deltas, every anchor names a point of the current shape, the
splits of a tree index the sampled pixels, and a tree has one leaf more than splits. Since a leaf
of another length *replaces* the current shape, the lengths the shape can have are computed along
the cascade (`sizesBefore`): after a level they are those of the leaves of its last tree.

The condition is exact. With it every evaluation finishes, with enough parts for the wrapper
(`Consistent.apply_ok`); and a predictor whose evaluations all do satisfies it
(`consistent_of_apply`), because the comparisons can send a descent to any node.
-/

set_option autoImplicit false

namespace DlibAndroid

open CCore

variable {F : Type} {arith : Arith F} {img : Image} {rect : Rectangle}

/-! ## Points and pixels -/

/-- The two coordinates `location` reads for a point are in a column of `size` elements. -/
def Names (size idx : Nat) : Prop := idx * 2 % 2 ^ 32 + 1 < size

theorem exists_location_eq_ok {shape : List F} {idx : Nat} :
    (∃ point, location shape idx = .ok point) ↔ Names shape.length idx := by
  have hodd : (idx * 2 + 1) % 2 ^ 32 = idx * 2 % 2 ^ 32 + 1 := by omega
  unfold location Names
  rw [hodd]
  constructor
  · rintro ⟨point, h⟩
    obtain ⟨x, -, h⟩ := bind_eq_ok.mp h
    obtain ⟨y, hy, -⟩ := bind_eq_ok.mp h
    exact exists_index_eq_ok.mp ⟨y, hy⟩
  · intro h
    rw [index_of_lt (Nat.lt_of_succ_lt h), index_of_lt h]
    exact ⟨_, rfl⟩

theorem location_ne_error {shape : List F} {idx : Nat} {e : Fault} (he : e ≠ .outOfRange) :
    location shape idx ≠ .error e :=
  bind_ne_error (index_ne_error he) fun _ _ => bind_ne_error (index_ne_error he)
    fun _ _ => ok_ne_error

theorem names_of_lt_half {size idx : Nat} (h : idx < size / 2) : Names size idx := by
  have hle : idx * 2 % 2 ^ 32 ≤ idx * 2 := Nat.mod_le _ _
  unfold Names
  omega

/-- The points a transform is fitted to are all there. -/
def Aligned (num size : Nat) : Prop := num = 1 ∨ ∀ i, i < num → Names size i

theorem exists_findTform_eq_ok {fromShape toShape : List F} :
    (∃ tform, findTformBetweenShapes fromShape toShape = .ok tform) ↔
      Aligned (fromShape.length / 2) toShape.length := by
  unfold findTformBetweenShapes Aligned
  by_cases hone : fromShape.length / 2 = 1
  · rw [if_pos hone]
    exact ⟨fun _ => Or.inl hone, fun _ => ⟨_, rfl⟩⟩
  rw [if_neg hone, or_iff_right hone]
  constructor
  · rintro ⟨tform, h⟩ i hi
    obtain ⟨points, hpoints, -⟩ := bind_eq_ok.mp h
    obtain ⟨pair, hpair⟩ := exists_collect_eq_ok.mp ⟨points, hpoints⟩ i hi
    obtain ⟨a, -, hpair⟩ := bind_eq_ok.mp hpair
    obtain ⟨b, hb, -⟩ := bind_eq_ok.mp hpair
    exact exists_location_eq_ok.mp ⟨b, hb⟩
  · intro hall
    obtain ⟨points, hpoints⟩ : ∃ points, collect (fromShape.length / 2) (fun i => do
        let a ← location fromShape i
        let b ← location toShape i
        pure (a, b)) = .ok points := by
      refine exists_collect_eq_ok.mpr fun i hi => ?_
      obtain ⟨a, ha⟩ := exists_location_eq_ok.mpr (names_of_lt_half hi)
      obtain ⟨b, hb⟩ := exists_location_eq_ok.mpr (hall i hi)
      exact ⟨(a, b), by rw [ha, ok_bind, hb]; rfl⟩
    exact ⟨some points, by rw [hpoints]; rfl⟩

theorem findTform_ne_error {fromShape toShape : List F} {e : Fault} (he : e ≠ .outOfRange) :
    findTformBetweenShapes fromShape toShape ≠ .error e := by
  unfold findTformBetweenShapes
  by_cases hone : fromShape.length / 2 = 1
  · rw [if_pos hone]
    exact ok_ne_error
  · rw [if_neg hone]
    refine bind_ne_error (collect_ne_error fun i => ?_) fun _ _ => ok_ne_error
    exact bind_ne_error (location_ne_error he) fun _ _ => bind_ne_error (location_ne_error he)
      fun _ _ => ok_ne_error

/-- A pixel is looked up only inside the image. -/
theorem exists_pixelAt_eq_ok (img : Image) (p : Point) : ∃ v, pixelAt img p = .ok v := by
  unfold pixelAt
  split
  · exact ⟨0, rfl⟩
  · rename_i hin
    obtain ⟨hx, hx', hy, hy'⟩ : 0 ≤ p.x.toInt ∧ p.x.toInt < img.nc ∧ 0 ≤ p.y.toInt ∧
        p.y.toInt < img.nr := by omega
    obtain ⟨x, hx₀⟩ := Int.eq_ofNat_of_zero_le hx
    obtain ⟨y, hy₀⟩ := Int.eq_ofNat_of_zero_le hy
    obtain ⟨nc, hnc⟩ := Int.eq_ofNat_of_zero_le (show 0 ≤ img.nc by omega)
    obtain ⟨nr, hnr⟩ := Int.eq_ofNat_of_zero_le (show 0 ≤ img.nr by omega)
    refine exists_index_eq_ok.mpr ?_
    rw [img.size_eq, hx₀, hy₀, hnc, hnr, Int.toNat_natCast, Int.toNat_natCast]
    have hxnc : x < nc := by omega
    have hynr : y + 1 ≤ nr := by omega
    calc ((y : Int) * nc + x).toNat = y * nc + x := by norm_cast
      _ < (y + 1) * nc := by rw [Nat.succ_mul]; omega
      _ ≤ nr * nc := Nat.mul_le_mul_right nc hynr

/-- What one level needs of its anchors, for a current shape of `size` elements. -/
structure Anchored (num size : Nat) (anchorIdx : List Nat) (features : Nat) : Prop where
  aligned : Aligned num size
  anchor : ∀ i, i < features → ∃ a, anchorIdx[i]? = some a ∧ Names size a

theorem exists_extract_eq_ok {currentShape referenceShape : List F} {anchorIdx : List Nat}
    {deltas : List (Vector2 F)} :
    (∃ values, extractFeaturePixelValues arith img rect currentShape referenceShape anchorIdx
        deltas = .ok values) ↔
      Anchored (referenceShape.length / 2) currentShape.length anchorIdx deltas.length := by
  unfold extractFeaturePixelValues
  constructor
  · rintro ⟨values, h⟩
    obtain ⟨tform, htform, h⟩ := bind_eq_ok.mp h
    refine ⟨exists_findTform_eq_ok.mp ⟨tform, htform⟩, fun i hi => ?_⟩
    obtain ⟨v, hv⟩ := exists_collect_eq_ok.mp ⟨values, h⟩ i hi
    obtain ⟨delta, -, hv⟩ := bind_eq_ok.mp hv
    obtain ⟨anchor, hanchor, hv⟩ := bind_eq_ok.mp hv
    obtain ⟨point, hpoint, -⟩ := bind_eq_ok.mp hv
    exact ⟨anchor, index_eq_ok.mp hanchor, exists_location_eq_ok.mp ⟨point, hpoint⟩⟩
  · rintro ⟨haligned, hanchor⟩
    obtain ⟨tform, htform⟩ := exists_findTform_eq_ok.mpr haligned
    rw [htform, ok_bind]
    refine exists_collect_eq_ok.mpr fun i hi => ?_
    obtain ⟨anchor, ha, hnames⟩ := hanchor i hi
    obtain ⟨point, hpoint⟩ := exists_location_eq_ok.mpr hnames
    rw [index_of_lt hi, ok_bind, index_eq_ok.mpr ha, ok_bind, hpoint, ok_bind]
    exact exists_pixelAt_eq_ok img _

theorem extract_ne_error {currentShape referenceShape : List F} {anchorIdx : List Nat}
    {deltas : List (Vector2 F)} {e : Fault} (he : e ≠ .outOfRange) :
    extractFeaturePixelValues arith img rect currentShape referenceShape anchorIdx deltas ≠
      .error e := by
  refine bind_ne_error (findTform_ne_error he) fun tform _ => collect_ne_error fun i => ?_
  refine bind_ne_error (index_ne_error he) fun delta _ => bind_ne_error (index_ne_error he)
    fun anchor _ => bind_ne_error (location_ne_error he) fun point _ => ?_
  obtain ⟨v, hv⟩ := exists_pixelAt_eq_ok img
    (arith.toImage rect (arith.plus (arith.rotate tform delta) point))
  rw [hv]
  exact ok_ne_error

theorem length_extract {currentShape referenceShape : List F} {anchorIdx : List Nat}
    {deltas : List (Vector2 F)} {values : List UInt8}
    (h : extractFeaturePixelValues arith img rect currentShape referenceShape anchorIdx deltas =
      .ok values) : values.length = deltas.length := by
  obtain ⟨tform, -, h⟩ := bind_eq_ok.mp h
  exact length_collect h

/-! ## One tree -/

namespace RegressionTree

variable {tree : RegressionTree F} {exceeds : Nat → UInt8 → UInt8 → F → Bool}
  {values : List UInt8} {leaf : List F} {i j k : Nat}

/-- The tree indexes `features` pixels, and has a leaf wherever a descent can end. -/
structure Consistent (tree : RegressionTree F) (features : Nat) : Prop where
  split : ∀ split ∈ tree.splits, split.idx1 < features ∧ split.idx2 < features
  leaf : tree.splits.length < tree.leafValues.length

theorem descend_split (h : i < tree.splits.length)
    (hrun : tree.descend exceeds values i = .ok j) :
    ∃ a b, index values tree.splits[i].idx1 = .ok a ∧ index values tree.splits[i].idx2 = .ok b ∧
      tree.descend exceeds values (child (exceeds i a b tree.splits[i].thresh) i) = .ok j := by
  rw [descend, dif_pos h] at hrun
  obtain ⟨a, ha, hrun⟩ := bind_eq_ok.mp hrun
  obtain ⟨b, hb, hrun⟩ := bind_eq_ok.mp hrun
  exact ⟨a, b, ha, hb, hrun⟩

theorem descend_end (h : ¬ i < tree.splits.length) : tree.descend exceeds values i = .ok i := by
  rw [descend, dif_neg h]
  rfl

/-- A descent ends among the leaves. -/
theorem Consistent.descend_ok (htree : tree.Consistent values.length)
    (exceeds : Nat → UInt8 → UInt8 → F → Bool) (hi : i ≤ 2 * tree.splits.length) :
    ∃ j, tree.descend exceeds values i = .ok j ∧
      tree.splits.length ≤ j ∧ j ≤ 2 * tree.splits.length := by
  -- on the number of nodes left below the splits
  induction hm : tree.splits.length - i using Nat.strong_induction_on generalizing i with
  | _ m ih =>
    by_cases h : i < tree.splits.length
    · obtain ⟨h1, h2⟩ := htree.split _ (List.getElem_mem h)
      rw [descend, dif_pos h]
      dsimp only
      rw [index_of_lt h1, ok_bind, index_of_lt h2, ok_bind]
      exact ih _ (hm ▸ Nat.sub_lt_sub_left h lt_child) (child_le h) rfl
    · exact ⟨i, descend_end h, Nat.le_of_not_lt h, hi⟩

theorem Consistent.apply_ok (htree : tree.Consistent values.length)
    (exceeds : Nat → UInt8 → UInt8 → F → Bool) :
    ∃ j leaf, j ≤ tree.splits.length ∧ tree.leafValues[j]? = some leaf ∧
      tree.apply exceeds values = .ok leaf := by
  obtain ⟨j, hj, hle, hle'⟩ := htree.descend_ok exceeds (Nat.zero_le _)
  have hleaf : j - tree.splits.length < tree.leafValues.length := by
    have hlt := htree.leaf
    omega
  refine ⟨j - tree.splits.length, _, by omega, List.getElem?_eq_getElem hleaf, ?_⟩
  rw [apply, hj, ok_bind, index_of_lt hleaf]

theorem descend_ne_error {e : Fault} (he : e ≠ .outOfRange) (i : Nat) :
    tree.descend exceeds values i ≠ .error e := by
  induction hm : tree.splits.length - i using Nat.strong_induction_on generalizing i with
  | _ m ih =>
    unfold descend
    split
    · rename_i h
      exact bind_ne_error (index_ne_error he) fun a _ => bind_ne_error (index_ne_error he)
        fun b _ => ih _ (hm ▸ Nat.sub_lt_sub_left h lt_child) _ rfl
    · exact ok_ne_error

theorem apply_ne_error {e : Fault} (he : e ≠ .outOfRange) :
    tree.apply exceeds values ≠ .error e :=
  bind_ne_error (descend_ne_error he 0) fun _ _ => index_ne_error he

/-- Comparisons that send every descent toward node `k`. -/
noncomputable def steer (k : Nat) : Nat → UInt8 → UInt8 → F → Bool := fun i _ _ _ => toward k i

/-- A descent that ends passes through every node on its way. -/
theorem descend_of_reaches {c : Nat → Bool} (hk : Reaches c k) (hle : k ≤ 2 * tree.splits.length)
    (hrun : tree.descend (fun i _ _ _ => c i) values 0 = .ok j) :
    tree.descend (fun i _ _ _ => c i) values k = .ok j := by
  induction hk with
  | root => exact hrun
  | child i hi ih =>
    have hlt := lt_of_child_le hle
    obtain ⟨a, b, -, -, hnext⟩ := descend_split hlt (ih (by omega))
    exact hnext

theorem split_of_apply (hk : k < tree.splits.length)
    (hrun : tree.apply (steer k) values = .ok leaf) :
    tree.splits[k].idx1 < values.length ∧ tree.splits[k].idx2 < values.length := by
  obtain ⟨j, hj, -⟩ := bind_eq_ok.mp hrun
  obtain ⟨a, b, ha, hb, -⟩ :=
    descend_split hk (descend_of_reaches (reaches_toward k) (by omega) hj)
  exact ⟨exists_index_eq_ok.mp ⟨a, ha⟩, exists_index_eq_ok.mp ⟨b, hb⟩⟩

theorem leaf_of_apply (hj : j ≤ tree.splits.length)
    (hrun : tree.apply (steer (tree.splits.length + j)) values = .ok leaf) :
    tree.leafValues[j]? = some leaf := by
  obtain ⟨e, he, hleaf⟩ := bind_eq_ok.mp hrun
  have hend := descend_of_reaches (reaches_toward (tree.splits.length + j)) (by omega) he
  rw [descend_end (by omega)] at hend
  obtain rfl := Except.ok.inj hend
  rw [Nat.add_sub_cancel_left] at hleaf
  exact index_eq_ok.mp hleaf

/-- **A tree no descent leaves** is consistent. -/
theorem consistent_of_apply {features : Nat} (h : ∀ k, ∃ (values : List UInt8) (leaf : List F),
    values.length = features ∧ tree.apply (steer k) values = .ok leaf) :
    tree.Consistent features := by
  constructor
  · intro split hsplit
    obtain ⟨k, hk, rfl⟩ := List.getElem_of_mem hsplit
    obtain ⟨values, leaf, rfl, hleaf⟩ := h k
    exact split_of_apply hk hleaf
  · obtain ⟨values, leaf, -, hleaf⟩ := h (tree.splits.length + tree.splits.length)
    exact (List.getElem?_eq_some_iff.mp (leaf_of_apply (Nat.le_refl _) hleaf)).1

/-- The lengths of the leaves a descent can end at. -/
def leafSizes (tree : RegressionTree F) : List Nat :=
  (tree.leafValues.take (tree.splits.length + 1)).map List.length

theorem mem_leafSizes {size : Nat} : size ∈ tree.leafSizes ↔
    ∃ j leaf, j ≤ tree.splits.length ∧ tree.leafValues[j]? = some leaf ∧ leaf.length = size := by
  rw [leafSizes, List.mem_map]
  simp only [List.mem_iff_getElem?, List.getElem?_take]
  constructor
  · rintro ⟨leaf, ⟨j, hj⟩, hsize⟩
    split at hj
    · exact ⟨j, leaf, by omega, hj, hsize⟩
    · cases hj
  · rintro ⟨j, leaf, hle, hj, hsize⟩
    exact ⟨leaf, ⟨j, by rw [if_pos (by omega), hj]⟩, hsize⟩

end RegressionTree

theorem length_addColumn (arith : Arith F) (shape leaf : List F) :
    (addColumn arith shape leaf).length = leaf.length := by
  unfold addColumn
  split
  · rename_i h
    rw [List.length_zipWith, h, Nat.min_self]
  · rfl

namespace ShapePredictor

variable {p : ShapePredictor F} {forest : List (RegressionTree F)} {values : List UInt8}
  {shape shape' : List F} {sizes : List Nat} {tree : RegressionTree F} {iter n size k : Nat}

/-! ## One level -/

/-- The lengths the current shape can have after a forest, from those it can have before. -/
def sizesAfter (sizes : List Nat) (forest : List (RegressionTree F)) : List Nat :=
  match forest.getLast? with
  | none => sizes
  | some tree => tree.leafSizes

/-- The lengths the current shape can have before level `iter`. -/
def sizesBefore (p : ShapePredictor F) (iter : Nat) : List Nat :=
  (p.forests.take iter).foldl sizesAfter [p.initialShape.length]

theorem sizesBefore_succ (h : p.forests[iter]? = some forest) :
    p.sizesBefore (iter + 1) = sizesAfter (p.sizesBefore iter) forest := by
  rw [sizesBefore, List.take_add_one, h, Option.toList_some, List.foldl_append]
  rfl

theorem applyTree_ok (arith : Arith F) (iter : Nat) {i : Nat}
    (hforest : ∀ tree ∈ forest, tree.Consistent values.length) (hi : i < forest.length)
    (shape : List F) :
    ∃ shape', applyTree arith iter values forest i shape = .ok shape' ∧
      shape'.length ∈ sizesAfter sizes (forest.take (i + 1)) := by
  obtain ⟨j, leaf, hj, hleaf, happly⟩ :=
    (hforest _ (List.getElem_mem hi)).apply_ok (arith.exceeds iter i)
  refine ⟨addColumn arith shape leaf, ?_, ?_⟩
  · rw [applyTree, index_of_lt hi, ok_bind, happly]
    rfl
  · rw [length_addColumn, sizesAfter, List.take_add_one, List.getElem?_eq_getElem hi,
      Option.toList_some, List.getLast?_concat]
    exact RegressionTree.mem_leafSizes.mpr ⟨j, leaf, hj, hleaf, rfl⟩

theorem applyForest_ok (hforest : ∀ tree ∈ forest, tree.Consistent values.length)
    (hshape : shape.length ∈ sizes) :
    ∃ shape', applyForest arith iter values forest shape = .ok shape' ∧
      shape'.length ∈ sizesAfter sizes forest := by
  obtain ⟨shape', hrun, hmem⟩ := forEach_range
    (fun i (shape : List F) => shape.length ∈ sizesAfter sizes (forest.take i))
    (fun i hi shape _ => applyTree_ok arith iter hforest hi shape) hshape
  rw [List.take_length] at hmem
  exact ⟨shape', hrun, hmem⟩

/-- Every tree of a level is evaluated. -/
theorem apply_of_applyForest (h : applyForest arith iter values forest shape = .ok shape')
    (htree : tree ∈ forest) : ∃ i leaf, tree.apply (arith.exceeds iter i) values = .ok leaf := by
  obtain ⟨i, hi, rfl⟩ := List.getElem_of_mem htree
  obtain ⟨u, v, hbody⟩ := forEach_ok_mem h (List.mem_range.mpr hi)
  rw [applyTree, index_of_lt hi, ok_bind] at hbody
  obtain ⟨leaf, hleaf, -⟩ := bind_eq_ok.mp hbody
  exact ⟨i, leaf, hleaf⟩

/-- After a level, the shape is as long as the leaf its last tree ended at. -/
theorem length_of_applyForest (h : applyForest arith iter values forest shape = .ok shape')
    (hlast : forest.getLast? = some tree) :
    ∃ i leaf, tree.apply (arith.exceeds iter i) values = .ok leaf ∧
      shape'.length = leaf.length := by
  obtain ⟨front, rfl⟩ := List.getLast?_eq_some_iff.mp hlast
  rw [applyForest, List.length_append, List.length_singleton, List.range_succ,
    forEach_concat_eq_ok] at h
  obtain ⟨u, -, h⟩ := h
  obtain ⟨t, ht, h⟩ := bind_eq_ok.mp h
  obtain ⟨leaf, hleaf, h⟩ := bind_eq_ok.mp h
  rw [index_eq_ok, List.getElem?_concat_length, Option.some.injEq] at ht
  rw [← ht] at hleaf
  obtain rfl := Except.ok.inj h
  exact ⟨front.length, leaf, hleaf, length_addColumn arith u leaf⟩

theorem applyLevel_eq_ok : p.applyLevel arith img rect iter shape = .ok shape' ↔
    ∃ forest anchorIdx deltas values, p.forests[iter]? = some forest ∧
      p.anchorIdx[iter]? = some anchorIdx ∧ p.deltas[iter]? = some deltas ∧
      extractFeaturePixelValues arith img rect shape p.initialShape anchorIdx deltas =
        .ok values ∧ applyForest arith iter values forest shape = .ok shape' := by
  simp only [applyLevel, bind_eq_ok, index_eq_ok]
  constructor
  · rintro ⟨forest, hforest, anchorIdx, hanchor, deltas, hdeltas, values, hvalues, h⟩
    exact ⟨forest, anchorIdx, deltas, values, hforest, hanchor, hdeltas, hvalues, h⟩
  · rintro ⟨forest, anchorIdx, deltas, values, hforest, hanchor, hdeltas, hvalues, h⟩
    exact ⟨forest, hforest, anchorIdx, hanchor, deltas, hdeltas, values, hvalues, h⟩

/-! ## The cascade -/

/-- The five arrays fit together, and there are landmarks enough for the wrapper. -/
structure Consistent (p : ShapePredictor F) : Prop where
  level : ∀ iter forest, p.forests[iter]? = some forest → ∃ anchorIdx deltas,
    p.anchorIdx[iter]? = some anchorIdx ∧ p.deltas[iter]? = some deltas ∧
      (∀ size ∈ p.sizesBefore iter,
        Anchored (p.initialShape.length / 2) size anchorIdx deltas.length) ∧
      ∀ tree ∈ forest, tree.Consistent deltas.length
  parts : ∀ size ∈ p.sizesBefore p.forests.length, 68 ≤ size / 2

theorem Consistent.applyLevel_ok (hp : p.Consistent) (arith : Arith F) (img : Image)
    (rect : Rectangle) (hiter : iter < p.forests.length)
    (hshape : shape.length ∈ p.sizesBefore iter) :
    ∃ shape', p.applyLevel arith img rect iter shape = .ok shape' ∧
      shape'.length ∈ p.sizesBefore (iter + 1) := by
  have hforest := List.getElem?_eq_getElem hiter
  obtain ⟨anchorIdx, deltas, hanchor, hdeltas, hanchored, htrees⟩ := hp.level iter _ hforest
  obtain ⟨values, hvalues⟩ := exists_extract_eq_ok.mpr (hanchored _ hshape)
  rw [← length_extract hvalues] at htrees
  obtain ⟨shape', hrun, hmem⟩ := applyForest_ok htrees hshape
  exact ⟨shape', applyLevel_eq_ok.mpr ⟨_, anchorIdx, deltas, values, hforest, hanchor, hdeltas,
    hvalues, hrun⟩, by rw [sizesBefore_succ hforest]; exact hmem⟩

/-- **A consistent predictor stays in range**, for every frame and rectangle and whatever the
comparisons answer. -/
theorem Consistent.apply_ok (hp : p.Consistent) (arith : Arith F) (img : Image)
    (rect : Rectangle) : ∃ parts, p.apply arith img rect = .ok parts ∧ 68 ≤ parts.length := by
  obtain ⟨shape, hshape, hmem⟩ := forEach_range
    (fun i (shape : List F) => shape.length ∈ p.sizesBefore i)
    (fun i hi shape hs => hp.applyLevel_ok arith img rect hi hs)
    (show p.initialShape.length ∈ p.sizesBefore 0 from List.mem_singleton.mpr rfl)
  obtain ⟨parts, hparts⟩ : ∃ parts, collect (shape.length / 2) (fun i => do
      let point ← location shape i
      pure (arith.toImage rect point)) = .ok parts := by
    refine exists_collect_eq_ok.mpr fun i hi => ?_
    obtain ⟨point, hpoint⟩ := exists_location_eq_ok.mpr (names_of_lt_half hi)
    exact ⟨_, by rw [hpoint]; rfl⟩
  refine ⟨parts, ?_, by rw [length_collect hparts]; exact hp.parts _ hmem⟩
  rw [apply, applyLevels, hshape, ok_bind, hparts]

/-! ## The only fault -/

theorem applyLevel_ne_error {e : Fault} (he : e ≠ .outOfRange) (iter : Nat) (shape : List F) :
    p.applyLevel arith img rect iter shape ≠ .error e := by
  refine bind_ne_error (index_ne_error he) fun forest _ => bind_ne_error (index_ne_error he)
    fun anchorIdx _ => bind_ne_error (index_ne_error he) fun deltas _ =>
      bind_ne_error (extract_ne_error he) fun values _ => forEach_ne_error fun i shape => ?_
  exact bind_ne_error (index_ne_error he) fun tree _ =>
    bind_ne_error (RegressionTree.apply_ne_error he) fun leaf _ => ok_ne_error

/-- An evaluation that does not finish has left some array. -/
theorem apply_ne_error {e : Fault} (he : e ≠ .outOfRange) : p.apply arith img rect ≠ .error e :=
  bind_ne_error (forEach_ne_error (applyLevel_ne_error he)) fun _ _ => collect_ne_error fun _ =>
    bind_ne_error (location_ne_error he) fun _ _ => ok_ne_error

/-! ## The converse -/

/-- Arithmetic whose comparisons send every descent toward node `k`. -/
noncomputable def steered (k : Nat) : Arith F where
  add a _ := a
  rotate _ v := v
  toImage _ _ := ⟨0, 0⟩
  exceeds _ _ := RegressionTree.steer k

/-- A run of all levels contains a run of the first ones, and of one more. -/
theorem applyLevels_succ_eq_ok :
    p.applyLevels arith img rect (n + 1) = .ok shape' ↔
      ∃ shape, p.applyLevels arith img rect n = .ok shape ∧
        p.applyLevel arith img rect n shape = .ok shape' := by
  rw [applyLevels, List.range_succ, forEach_concat_eq_ok]
  rfl

theorem applyLevels_prefix (h : ∃ shape, p.applyLevels arith img rect n = .ok shape) (hk : k ≤ n) :
    ∃ shape, p.applyLevels arith img rect k = .ok shape := by
  induction n with
  | zero => exact Nat.le_zero.mp hk ▸ h
  | succ n ih =>
    rcases Nat.lt_succ_iff_lt_or_eq.mp (Nat.lt_succ_of_le hk) with hlt | rfl
    · obtain ⟨shape', h⟩ := h
      obtain ⟨shape, h, -⟩ := applyLevels_succ_eq_ok.mp h
      exact ih ⟨shape, h⟩ (Nat.le_of_lt_succ hlt)
    · exact h

/-- What happened at one level of a run. -/
theorem level_of_run (h : ∃ shape, p.applyLevels arith img rect n = .ok shape) (hiter : iter < n)
    (hforest : p.forests[iter]? = some forest) :
    ∃ shape shape' anchorIdx deltas values, p.applyLevels arith img rect iter = .ok shape ∧
      p.applyLevels arith img rect (iter + 1) = .ok shape' ∧
      p.anchorIdx[iter]? = some anchorIdx ∧ p.deltas[iter]? = some deltas ∧
      extractFeaturePixelValues arith img rect shape p.initialShape anchorIdx deltas =
        .ok values ∧ applyForest arith iter values forest shape = .ok shape' := by
  obtain ⟨shape', hrun'⟩ := applyLevels_prefix h hiter
  obtain ⟨shape, hrun, hlevel⟩ := applyLevels_succ_eq_ok.mp hrun'
  obtain ⟨forest', anchorIdx, deltas, values, hf, hanchor, hdeltas, hvalues, hlast⟩ :=
    applyLevel_eq_ok.mp hlevel
  obtain rfl := Option.some.inj (hforest.symm.trans hf)
  exact ⟨shape, shape', anchorIdx, deltas, values, hrun, hrun', hanchor, hdeltas, hvalues, hlast⟩

/-- Every length `sizesBefore` lists is the length of some run's shape. -/
theorem exists_run_of_mem_sizesBefore
    (hruns : ∀ k, ∃ shape, p.applyLevels (steered k) img rect p.forests.length = .ok shape)
    (hn : n ≤ p.forests.length) (hsize : size ∈ p.sizesBefore n) :
    ∃ k shape, p.applyLevels (steered k) img rect n = .ok shape ∧ shape.length = size := by
  induction n with
  | zero => exact ⟨0, p.initialShape, rfl, (List.mem_singleton.mp hsize).symm⟩
  | succ n ih =>
    have hforest := List.getElem?_eq_getElem (show n < p.forests.length from hn)
    rw [sizesBefore_succ hforest, sizesAfter] at hsize
    cases hlast : p.forests[n].getLast? with
    | none =>
      -- a level without trees leaves the shape as it is
      rw [hlast] at hsize
      obtain ⟨k, shape, hrun, hlen⟩ := ih (Nat.le_of_succ_le hn) hsize
      obtain ⟨u, shape', _, _, _, hu, hrun', -, -, -, htrees⟩ := level_of_run (hruns k) hn hforest
      obtain rfl := Except.ok.inj (hrun.symm.trans hu)
      rw [List.getLast?_eq_none_iff.mp hlast] at htrees
      obtain rfl : shape = shape' := by simpa [applyForest] using htrees
      exact ⟨k, shape, hrun', hlen⟩
    | some tree =>
      rw [hlast] at hsize
      obtain ⟨j, leaf, hj, hleaf, hlen⟩ := RegressionTree.mem_leafSizes.mp hsize
      obtain ⟨_, shape', _, _, _, -, hrun', -, -, -, htrees⟩ :=
        level_of_run (hruns (tree.splits.length + j)) hn hforest
      obtain ⟨i, leaf', happly, hlen'⟩ := length_of_applyForest htrees hlast
      obtain rfl := Option.some.inj (hleaf.symm.trans (RegressionTree.leaf_of_apply hj happly))
      exact ⟨_, shape', hrun', hlen'.trans hlen⟩

/-- **A predictor that stays in range is consistent**: it is enough to try one frame and one
rectangle, with the comparisons steered to every node in turn. -/
theorem consistent_of_apply (img : Image) (rect : Rectangle)
    (h : ∀ k, ∃ parts, p.apply (steered k) img rect = .ok parts ∧ 68 ≤ parts.length) :
    p.Consistent := by
  have hruns : ∀ k, ∃ shape, p.applyLevels (steered k) img rect p.forests.length = .ok shape := by
    intro k
    obtain ⟨parts, hparts, -⟩ := h k
    obtain ⟨shape, hshape, -⟩ := bind_eq_ok.mp hparts
    exact ⟨shape, hshape⟩
  constructor
  · intro iter forest hforest
    have hiter : iter < p.forests.length := (List.getElem?_eq_some_iff.mp hforest).1
    obtain ⟨_, _, anchorIdx, deltas, _, -, -, hanchor, hdeltas, -, -⟩ :=
      level_of_run (hruns 0) hiter hforest
    refine ⟨anchorIdx, deltas, hanchor, hdeltas, fun size hsize => ?_, fun tree htree => ?_⟩
    · obtain ⟨k, shape, hrun, rfl⟩ := exists_run_of_mem_sizesBefore hruns hiter.le hsize
      obtain ⟨u, _, anchorIdx', deltas', values, hu, -, hanchor', hdeltas', hvalues, -⟩ :=
        level_of_run (hruns k) hiter hforest
      obtain rfl := Except.ok.inj (hrun.symm.trans hu)
      obtain rfl := Option.some.inj (hanchor.symm.trans hanchor')
      obtain rfl := Option.some.inj (hdeltas.symm.trans hdeltas')
      exact exists_extract_eq_ok.mp ⟨values, hvalues⟩
    · refine RegressionTree.consistent_of_apply fun k => ?_
      obtain ⟨_, _, _, deltas', values, -, -, -, hdeltas', hvalues, htrees⟩ :=
        level_of_run (hruns k) hiter hforest
      obtain rfl := Option.some.inj (hdeltas.symm.trans hdeltas')
      obtain ⟨i, leaf, happly⟩ := apply_of_applyForest htrees htree
      exact ⟨values, leaf, length_extract hvalues, happly⟩
  · intro size hsize
    obtain ⟨k, shape, hrun, rfl⟩ := exists_run_of_mem_sizesBefore hruns le_rfl hsize
    obtain ⟨parts, hparts, hlen⟩ := h k
    obtain ⟨u, hu, hcollect⟩ := bind_eq_ok.mp hparts
    obtain rfl := Except.ok.inj (hrun.symm.trans hu)
    rwa [length_collect hcollect] at hlen

end ShapePredictor

end DlibAndroid
