import DlibAndroid.Detector.Votes

/-!
# What the planes show

From the histograms to the features of one cell. The energy of a cell is what it has in all
directions, a block is four cells, and a cell is in four blocks; each of these gives a norm, and
every entry of the histogram is compared with the four of them and cut off at a fifth of it. The 31
features are the entries for the 18 directions, those for the nine pairs of opposite ones, and four
that say how much texture there is next to the cell.

The code goes through this with loops over planes, over lanes and in steps of three directions, and
writes every feature as soon as it is known. Here the same values are functions of the histograms
(`energyAt`, `normsAt`, `featureAt`), which add in the order of the code and round where it does, so
all of this module holds for any rounding. What is known of the planes between two writes is
`Written`: how many there are, how large they are, and what is in the cells that are done. Each
write does one more (`setHog_next`), and a cell is done after 31 of them (`setFeatures_eq`).
-/

set_option autoImplicit false

namespace DlibAndroid

open CCore Finset

variable {K : Type}

/-! ## Energy -/

section Energy

variable [Field K] (fl : Rounding K)

/-- The energy of a cell with that of one more direction. -/
def addedEnergy (h : Nat → K) (p : K) (o : Nat) : K :=
  fl.single (p + fl.single (fl.single (h o + h (o + 9)) * fl.single (h o + h (o + 9))))

/-- The energy of a cell, added up over the pairs of opposite directions. -/
def energyAt (h : Nat → K) : K := (List.range 9).foldl (addedEnergy fl h) 0

variable {fl} {hist : Hist K} {norm : Grid K} {r c cellsNr cellsNc : Int}

theorem addEnergies_eq (hhist : hist.InRange (r + 1) (c + 1)) (h : norm.InRange r c) :
    forEach (List.range 9) (addEnergy fl hist r c) norm =
      .ok (norm.paint (fun r' c' => r' = r ∧ c' = c)
        fun r c p => (List.range 9).foldl (addedEnergy fl (hist.cell (r + 1) (c + 1))) p) := by
  -- after `i` directions, the cell has grown by so many terms
  let after : Nat → Grid K := fun i => norm.paint (fun r' c' => r' = r ∧ c' = c)
    fun _ _ p => (List.range i).foldl (addedEnergy fl (hist.cell (r + 1) (c + 1))) p
  have hstep : ∀ i, i < 9 → ∀ s, s = after i →
      ∃ t, addEnergy fl hist r c i s = .ok t ∧ t = after (i + 1) := by
    rintro i - s rfl
    have hin : (after i).InRange r c := h
    refine ⟨after (i + 1), ?_, rfl⟩
    rw [addEnergy, Grid.read_of_inRange hhist, ok_bind, Grid.read_of_inRange hin, ok_bind,
      Grid.write_of_inRange hin]
    refine congrArg Except.ok (Grid.ext rfl rfl (funext fun r' => funext fun c' => ?_))
    by_cases hR : r' = r ∧ c' = c
    · obtain ⟨rfl, rfl⟩ := hR
      simp [after, Grid.paint_cell, List.range_succ, addedEnergy]
    · simp [after, Grid.paint_cell, hR]
  have hzero : norm = after 0 := by
    refine Grid.ext rfl rfl (funext fun r' => funext fun c' => ?_)
    simp [after, Grid.paint_cell]
  obtain ⟨norm', hrun, rfl⟩ := forEach_range _ hstep hzero
  rw [hrun]
  refine congrArg Except.ok (Grid.paint_congr fun r' c' => ?_)
  split
  · rename_i hR
    obtain ⟨rfl, rfl⟩ := of_decide_eq_true hR
    rfl
  · rfl

/-- Every cell has its energy, and no other cell of the histograms has a part in it. -/
theorem energies_eq (hhist : HasRoom cellsNr cellsNc hist) (hnr : (norm.nr : Int) = cellsNr)
    (hnc : (norm.nc : Int) = cellsNc) (hzero : ∀ r c, norm.cell r c = 0) :
    ∃ norm', energies fl hist cellsNr cellsNc norm = .ok norm' ∧
      (norm'.nr : Int) = cellsNr ∧ (norm'.nc : Int) = cellsNc ∧
      ∀ r c, norm'.InRange r c → norm'.cell r c = energyAt fl (hist.cell (r + 1) (c + 1)) := by
  let f : Int → Int → K → K := fun r c p =>
    (List.range 9).foldl (addedEnergy fl (hist.cell (r + 1) (c + 1))) p
  have hcell : ∀ r c, (0 ≤ r ∧ r ≤ cellsNr - 1) → (0 ≤ c ∧ c ≤ cellsNc - 1) → ∀ out : Grid K,
      out.nr = norm.nr → out.nc = norm.nc → forEach (List.range 9) (addEnergy fl hist r c) out =
        .ok (out.paint (fun r' c' => r' = r ∧ c' = c) f) := by
    intro r c hr hc out hout hout'
    refine addEnergies_eq ?_ ?_
    · rw [Grid.InRange, hhist.1, hhist.2]
      omega
    · rw [Grid.InRange, hout, hout', hnr, hnc]
      omega
  have hrow : ∀ r, 0 ≤ r → r ≤ cellsNr - 1 → ∀ out : Grid K, out.nr = norm.nr → out.nc = norm.nc →
      forEach (upTo 0 (cellsNc - 1)) (fun c => forEach (List.range 9) (addEnergy fl hist r c)) out =
        .ok (out.paint (fun r' c => r' = r ∧ (decide (0 ≤ c ∧ c ≤ cellsNc - 1)) = true) f) := by
    intro r hr hr' out hout hout'
    simp only [decide_eq_true_eq]
    exact upTo_paint (fun c hc hc' => hcell r c ⟨hr, hr'⟩ ⟨hc, hc'⟩) hout hout'
  refine ⟨_, rows_paint hrow rfl rfl, hnr, hnc, fun r c hin => ?_⟩
  rw [Grid.inRange_paint, Grid.InRange, hnr, hnc] at hin
  have hR : (0 ≤ r ∧ r ≤ cellsNr - 1) ∧ 0 ≤ c ∧ c ≤ cellsNc - 1 := by omega
  rw [Grid.paint_cell, if_pos (by simpa using hR)]
  simp only [f, hzero]
  rfl

end Energy

/-! ## Norms -/

section Norms

theorem simd4f_read_eq {norm : Grid K} {a b c d : Int × Int} (ha : norm.InRange a.1 a.2)
    (hb : norm.InRange b.1 b.2) (hc : norm.InRange c.1 c.2) (hd : norm.InRange d.1 d.2) :
    Simd4f.read norm a b c d =
      .ok ![norm.cell a.1 a.2, norm.cell b.1 b.2, norm.cell c.1 c.2, norm.cell d.1 d.2] := by
  rw [Simd4f.read, Grid.read_of_inRange ha, ok_bind, Grid.read_of_inRange hb, ok_bind,
    Grid.read_of_inRange hc, ok_bind, Grid.read_of_inRange hd]
  rfl

variable [Field K] (fl : Rounding K)

/-- The energy of a block of four cells, in the order of the code. -/
def blockAt (norm : Int → Int → K) (y x : Int) : K :=
  fl.single (fl.single (fl.single (norm y x + norm y (x + 1)) + norm (y + 1) x) +
    norm (y + 1) (x + 1))

/-- Where the four blocks of a cell are, in the order of the lanes. -/
def corner : Fin 4 → Int × Int := ![(1, 1), (0, 1), (1, 0), (0, 0)]

/-- `nn` and `n` of a cell, from the energies around it. -/
def normsAt (sqrt : K → K) (norm : Int → Int → K) (y x : Int) : Norms K :=
  .of fl fun lane =>
    blockNorm fl sqrt (blockAt fl norm (y + (corner lane).1) (x + (corner lane).2))

variable {fl} {sqrt : K → K} {norm : Grid K} {value : Int → Int → K} {y x : Int}

theorem blockNorms_eq (hvalue : ∀ r c, norm.InRange r c → norm.cell r c = value r c)
    (hy : 0 ≤ y ∧ y + 2 < norm.nr) (hx : 0 ≤ x ∧ x + 2 < norm.nc) :
    blockNorms fl sqrt norm y x = .ok (normsAt fl sqrt value y x) := by
  -- the nine cells
  have hin : ∀ i j : Int, (0 ≤ i ∧ i ≤ 2) → (0 ≤ j ∧ j ≤ 2) → norm.InRange (y + i) (x + j) := by
    intro i j hi hj
    rw [Grid.InRange]
    omega
  have h₀₀ : norm.InRange y x := by simpa using hin 0 0 (by decide) (by decide)
  have h₀₁ : norm.InRange y (x + 1) := by simpa using hin 0 1 (by decide) (by decide)
  have h₀₂ : norm.InRange y (x + 2) := by simpa using hin 0 2 (by decide) (by decide)
  have h₁₀ : norm.InRange (y + 1) x := by simpa using hin 1 0 (by decide) (by decide)
  have h₁₁ := hin 1 1 (by decide) (by decide)
  have h₁₂ := hin 1 2 (by decide) (by decide)
  have h₂₀ : norm.InRange (y + 2) x := by simpa using hin 2 0 (by decide) (by decide)
  have h₂₁ := hin 2 1 (by decide) (by decide)
  have h₂₂ := hin 2 2 (by decide) (by decide)
  rw [blockNorms, simd4f_read_eq h₁₁ h₀₁ h₁₀ h₀₀, ok_bind, simd4f_read_eq h₁₂ h₀₂ h₁₁ h₀₁, ok_bind,
    simd4f_read_eq h₂₁ h₁₁ h₂₀ h₁₀, ok_bind, simd4f_read_eq h₂₂ h₁₂ h₂₁ h₁₁, ok_bind]
  have htwo : ∀ i : Int, i + 1 + 1 = i + 2 := fun i => by omega
  refine congrArg (fun nn => Except.ok (Norms.of fl nn)) (funext fun lane => ?_)
  fin_cases lane <;>
    simp [blockAt, corner, htwo, hvalue, h₀₀, h₀₁, h₀₂, h₁₀, h₁₁, h₁₂, h₂₀, h₂₁, h₂₂]

end Norms

/-! ## Planes -/

/-- So many planes of so many rows and columns, with some cells written. -/
structure Written (F : Nat → Int → Int → K) (n nr nc : Nat) (S : Nat × Int × Int → Prop)
    (hog : List (Grid K)) : Prop where
  length : hog.length = n
  size : ∀ (o : Nat) (img : Grid K), hog[o]? = some img → img.nr = nr ∧ img.nc = nc
  cell : ∀ (o : Nat) (img : Grid K), hog[o]? = some img →
    ∀ r c, S (o, r, c) → img.cell r c = F o r c

section Written

variable {F : Nat → Int → Int → K} {n nr nc : Nat} {S : Nat × Int × Int → Prop}
variable {hog : List (Grid K)} {k : Nat} {r c : Int} {value : K}

/-- What was written before, and the first `k` planes of a cell. The planes are written in order, so
that this is all there is to know between two of them. -/
def below (S : Nat × Int × Int → Prop) (r c : Int) (k : Nat) : Nat × Int × Int → Prop :=
  fun p => S p ∨ (p.1 < k ∧ p.2.1 = r ∧ p.2.2 = c)

theorem below_zero : below S r c 0 = S := by
  funext p
  simp [below]

/-- The next plane of a cell is written, and all others stay as they are. -/
theorem setHog_next (h : Written F n nr nc (below S r c k) hog) (hk : k < n)
    (hr : 0 ≤ r ∧ r < nr) (hc : 0 ≤ c ∧ c < nc) (hvalue : value = F k r c) :
    ∃ hog', setHog k c r value hog = .ok hog' ∧ Written F n nr nc (below S r c (k + 1)) hog' := by
  have hlt : k < hog.length := h.length ▸ hk
  obtain ⟨hnr, hnc⟩ := h.size k hog[k] (List.getElem?_eq_getElem hlt)
  have hin : hog[k].InRange r c := by
    rw [Grid.InRange, hnr, hnc]
    exact ⟨hr, hc⟩
  have hset : ∀ (img : Grid K) o, (hog.set k img)[o]? = if k = o then some img else hog[o]? := by
    intro img o
    rw [List.getElem?_set]
    simp [hlt]
  refine ⟨hog.set k (hog[k].paint (fun r' c' => r' = r ∧ c' = c) fun _ _ _ => value), ?_,
    by rw [List.length_set, h.length], fun o img ho => ?_, fun o img ho r' c' hS => ?_⟩
  · rw [setHog, index_of_lt hlt, ok_bind, Grid.write_of_inRange hin]
    rfl
  · rw [hset] at ho
    split at ho
    · obtain rfl := Option.some.inj ho
      exact ⟨hnr, hnc⟩
    · exact h.size o img ho
  · rw [hset] at ho
    split at ho
    · rename_i hko
      subst hko
      obtain rfl := Option.some.inj ho
      rw [Grid.paint_cell]
      split
      · rename_i hR
        obtain ⟨rfl, rfl⟩ := of_decide_eq_true hR
        exact hvalue
      · rename_i hR
        refine h.cell k _ (List.getElem?_eq_getElem hlt) r' c' ?_
        rcases hS with hS | ⟨-, hr', hc'⟩
        · exact Or.inl hS
        · exact absurd (decide_eq_true (And.intro hr' hc')) hR
    · rename_i hko
      refine h.cell o img ho r' c' (hS.imp_right ?_)
      rintro ⟨hlt', hcell⟩
      exact ⟨by omega, hcell⟩

end Written

/-! ## The features of a cell -/

section Features

variable [Field K] [LinearOrder K] (fl : Rounding K)

/-- The texture in one lane, with three directions more. -/
def addedTexture (norms : Norms K) (h : Nat → K) (lane : Fin 4) (t : K) (i : Nat) : K :=
  fl.single (t + fl.single (fl.single (norms.clip fl (h (3 * i)) lane +
    norms.clip fl (h (3 * i + 1)) lane) + norms.clip fl (h (3 * i + 2)) lane))

/-- The four texture features, one for each block that the cell is in. -/
def textureAt (norms : Norms K) (h : Nat → K) : Simd4f K := fun lane =>
  fl.single ((List.range 6).foldl (addedTexture fl norms h lane) 0 * textureScale fl)

/-- The 31 features of a cell: 18 directions, nine pairs of them, and the texture. -/
def featureAt (norms : Norms K) (h : Nat → K) (o : Nat) : K :=
  if o < 18 then (norms.clip fl (h o)).sum fl
  else if o < 27 then (norms.clip fl (fl.single (h (o - 18) + h (o - 18 + 9)))).sum fl
  else (textureAt fl norms h).lane (o - 27)

variable {fl} {F : Nat → Int → Int → K} {nr nc : Nat} {S : Nat × Int × Int → Prop}
variable {hog : List (Grid K)} {r c : Int} {norms : Norms K} {h : Nat → K} {i : Nat}

/-- A round of the first loop writes three of the 18 planes, and adds to the texture. -/
theorem setSensitive_next {s : List (Grid K) × Simd4f K}
    (hF : ∀ o, F o r c = featureAt fl norms h o)
    (hr : 0 ≤ r ∧ r < nr) (hc : 0 ≤ c ∧ c < nc) (hi : i < 6)
    (hs : Written F 31 nr nc (below S r c (3 * i)) s.1 ∧
      s.2 = fun lane => (List.range i).foldl (addedTexture fl norms h lane) 0) :
    ∃ t, setSensitive fl norms h c r (3 * i) s = .ok t ∧
      Written F 31 nr nc (below S r c (3 * (i + 1))) t.1 ∧
      t.2 = fun lane => (List.range (i + 1)).foldl (addedTexture fl norms h lane) 0 := by
  obtain ⟨hwritten, hsum⟩ := hs
  have hvalue : ∀ o, o < 18 → (norms.clip fl (h o)).sum fl = F o r c := fun o ho => by
    rw [hF, featureAt, if_pos ho]
  obtain ⟨hog₁, hrun₁, hw₁⟩ := setHog_next hwritten (by omega) hr hc (hvalue (3 * i) (by omega))
  obtain ⟨hog₂, hrun₂, hw₂⟩ := setHog_next hw₁ (by omega) hr hc (hvalue (3 * i + 1) (by omega))
  obtain ⟨hog₃, hrun₃, hw₃⟩ := setHog_next hw₂ (by omega) hr hc (hvalue (3 * i + 2) (by omega))
  refine ⟨_, by rw [setSensitive, hrun₁, ok_bind, hrun₂, ok_bind, hrun₃, ok_bind]; rfl, hw₃, ?_⟩
  funext lane
  rw [hsum, List.range_succ, List.foldl_append]
  rfl

/-- A round of the second loop writes three of the next nine planes. -/
theorem setInsensitive_next (hF : ∀ o, F o r c = featureAt fl norms h o) (hr : 0 ≤ r ∧ r < nr)
    (hc : 0 ≤ c ∧ c < nc) (hi : i < 3)
    (hs : Written F 31 nr nc (below S r c (3 * i + 18)) hog) :
    ∃ hog', setInsensitive fl norms h c r (3 * i) hog = .ok hog' ∧
      Written F 31 nr nc (below S r c (3 * (i + 1) + 18)) hog' := by
  have hvalue : ∀ o, o < 9 →
      (norms.clip fl (fl.single (h o + h (o + 9)))).sum fl = F (o + 18) r c := fun o ho => by
    rw [hF, featureAt, if_neg (by omega), if_pos (by omega), Nat.add_sub_cancel]
  have hvalue₁ : (norms.clip fl (fl.single (h (3 * i + 1) + h (3 * i + 9 + 1)))).sum fl =
      F (3 * i + 18 + 1) r c := by
    rw [add_right_comm _ 9, add_right_comm _ 18]
    exact hvalue (3 * i + 1) (by omega)
  have hvalue₂ : (norms.clip fl (fl.single (h (3 * i + 2) + h (3 * i + 9 + 2)))).sum fl =
      F (3 * i + 18 + 2) r c := by
    rw [add_right_comm _ 9, add_right_comm _ 18]
    exact hvalue (3 * i + 2) (by omega)
  obtain ⟨hog₁, hrun₁, hw₁⟩ := setHog_next hs (by omega) hr hc (hvalue (3 * i) (by omega))
  obtain ⟨hog₂, hrun₂, hw₂⟩ := setHog_next hw₁ (by omega) hr hc hvalue₁
  obtain ⟨hog₃, hrun₃, hw₃⟩ := setHog_next hw₂ (by omega) hr hc hvalue₂
  refine ⟨hog₃, by rw [setInsensitive, hrun₁, ok_bind, hrun₂, ok_bind, hrun₃], ?_⟩
  have hk : 3 * (i + 1) + 18 = 3 * i + 18 + 2 + 1 := by omega
  rw [hk]
  exact hw₃

/-- A cell gets its 31 features, in all planes. -/
theorem setFeatures_eq {sqrt : K → K} {hist : Hist K} {norm : Grid K} {value : Int → Int → K}
    {y x rowsOffset colsOffset : Int}
    (hvalue : ∀ r c, norm.InRange r c → norm.cell r c = value r c)
    (hhist : hist.InRange (y + 1 + 1) (x + 1 + 1)) (hy : 0 ≤ y ∧ y + 2 < norm.nr)
    (hx : 0 ≤ x ∧ x + 2 < norm.nc)
    (hr : 0 ≤ y + rowsOffset ∧ y + rowsOffset < nr) (hc : 0 ≤ x + colsOffset ∧ x + colsOffset < nc)
    (hF : ∀ o, F o (y + rowsOffset) (x + colsOffset) =
      featureAt fl (normsAt fl sqrt value y x) (hist.cell (y + 1 + 1) (x + 1 + 1)) o)
    (hs : Written F 31 nr nc S hog) :
    ∃ hog', setFeatures fl sqrt hist norm rowsOffset colsOffset y x hog = .ok hog' ∧
      Written F 31 nr nc (below S (y + rowsOffset) (x + colsOffset) 31) hog' := by
  let norms := normsAt fl sqrt value y x
  let h := hist.cell (y + 1 + 1) (x + 1 + 1)
  obtain ⟨s, hrun₁, hw₁, ht⟩ := forEach_range
    (fun i (s : List (Grid K) × Simd4f K) =>
      Written F 31 nr nc (below S (y + rowsOffset) (x + colsOffset) (3 * i)) s.1 ∧
        s.2 = fun lane => (List.range i).foldl (addedTexture fl norms h lane) 0)
    (fun i hi s hs => setSensitive_next hF hr hc hi hs) (s := (hog, 0)) (n := 6)
    ⟨by rwa [mul_zero, below_zero], rfl⟩
  obtain ⟨hog₂, hrun₂, hw₂⟩ := forEach_range
    (fun i hog => Written F 31 nr nc (below S (y + rowsOffset) (x + colsOffset) (3 * i + 18)) hog)
    (fun i hi hog hs => setInsensitive_next hF hr hc hi hs) (n := 3) hw₁
  have htexture : ∀ k, (Simd4f.lane (fun lane => fl.single (s.2 lane * textureScale fl)) k : K) =
      F (27 + k) (y + rowsOffset) (x + colsOffset) := by
    intro k
    rw [hF, featureAt, if_neg (by omega), if_neg (by omega), Nat.add_sub_cancel_left, ht]
    rfl
  obtain ⟨hog₃, hrun₃, hw₃⟩ := setHog_next hw₂ (by decide) hr hc (htexture 0)
  obtain ⟨hog₄, hrun₄, hw₄⟩ := setHog_next hw₃ (by decide) hr hc (htexture 1)
  obtain ⟨hog₅, hrun₅, hw₅⟩ := setHog_next hw₄ (by decide) hr hc (htexture 2)
  obtain ⟨hog₆, hrun₆, hw₆⟩ := setHog_next hw₅ (by decide) hr hc (htexture 3)
  refine ⟨hog₆, ?_, hw₆⟩
  have hsix : ([0, 3, 6, 9, 12, 15] : List Nat) = (List.range 6).map fun i => 3 * i := rfl
  have hthree : ([0, 3, 6] : List Nat) = (List.range 3).map fun i => 3 * i := rfl
  rw [setFeatures, hsix, hthree]
  simp only
  rw [blockNorms_eq hvalue hy hx, ok_bind, Grid.read_of_inRange hhist, ok_bind, forEach_map, hrun₁,
    ok_bind, forEach_map, hrun₂, ok_bind, hrun₃, ok_bind, hrun₄, ok_bind, hrun₅, ok_bind, hrun₆]

end Features

end DlibAndroid
