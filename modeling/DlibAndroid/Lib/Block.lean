import DlibAndroid.Lib.Exec

/-!
# `Block` — a block of memory, cell by cell

A block is a list of cells, each holding a value or still indeterminate (`none`), so that reading
what nobody wrote is a fault of its own and not some default value. On the 32-bit targets no block
is larger than `PTRDIFF_MAX`; the bound is a field, and every operation keeps it.

`Cursor` is a pointer running through a block, the C++ idiom `*itr = v; itr++`. It also keeps the
ghost record `log` of where each value came from. What a loop over a cursor does is described by
one relation, `Emits c es c'`: the entries `es` were put, in that order, and nothing else changed.
It composes (`Emits.trans`), and `forEach_emits` lifts it through a loop; nested loops are two
applications of that lemma.
-/

set_option autoImplicit false

namespace CCore

/-- `PTRDIFF_MAX` on a 32-bit target. -/
def maxBlock : Nat := 2147483647

@[ext] structure Block (α : Type) where
  cells : List (Option α)
  size_le : cells.length ≤ maxBlock
  deriving DecidableEq

namespace Block

variable {α : Type} {b b' : Block α} {i : Int} {v : α}

def size (b : Block α) : Nat := b.cells.length

/-- A block fresh from the allocator, every cell indeterminate. -/
def uninit (n : Nat) (h : n ≤ maxBlock) : Block α :=
  ⟨List.replicate n none, by simpa using h⟩

/-- A fully written block. -/
def ofList (xs : List α) (h : xs.length ≤ maxBlock) : Block α :=
  ⟨xs.map some, by simpa using h⟩

/-- The block of the values of `f` at `0 .. n - 1`. -/
def tabulate (n : Nat) (f : Nat → α) (h : n ≤ maxBlock) : Block α :=
  ofList ((List.range n).map f) (by simpa using h)

/-- The empty block, standing for a null array as well. -/
def empty : Block α := ⟨[], Nat.zero_le _⟩

def read (b : Block α) (i : Int) : Exec α :=
  if i < 0 then .error .outOfRange
  else match b.cells[i.toNat]? with
    | none => .error .outOfRange
    | some none => .error .uninitialised
    | some (some v) => .ok v

def write (b : Block α) (i : Int) (v : α) : Exec (Block α) :=
  if 0 ≤ i ∧ i.toNat < b.size then
    .ok ⟨b.cells.set i.toNat (some v), by rw [List.length_set]; exact b.size_le⟩
  else .error .outOfRange

/-- Every cell of the block, read in order. -/
def values (b : Block α) : Exec (List α) :=
  match b.cells.mapM id with
  | some xs => .ok xs
  | none => .error .uninitialised

@[simp] theorem size_uninit {n : Nat} {h : n ≤ maxBlock} : (uninit n h : Block α).size = n := by
  simp [size, uninit]

theorem size_tabulate {n : Nat} {f : Nat → α} {h : n ≤ maxBlock} : (tabulate n f h).size = n := by
  simp [size, tabulate, ofList]

@[simp] theorem cells_ofList {xs : List α} {h : xs.length ≤ maxBlock} :
    (ofList xs h).cells = xs.map some := rfl

theorem read_eq_ok : b.read i = .ok v ↔ 0 ≤ i ∧ b.cells[i.toNat]? = some (some v) := by
  unfold read
  by_cases hi : i < 0
  · simp [hi]
  · rw [if_neg hi]
    cases hc : b.cells[i.toNat]? with
    | none => simp
    | some c =>
      cases c with
      | none => simp
      | some w => simp; omega

theorem read_nat {n : Nat} (h : b.cells[n]? = some (some v)) : b.read (n : Int) = .ok v :=
  read_eq_ok.mpr ⟨Int.natCast_nonneg n, by simpa using h⟩

theorem write_eq_ok :
    b.write i v = .ok b' ↔
      0 ≤ i ∧ i.toNat < b.size ∧ b'.cells = b.cells.set i.toNat (some v) := by
  unfold write
  split
  · rename_i h
    rw [Except.ok.injEq, Block.ext_iff]
    exact ⟨fun hc => ⟨h.1, h.2, hc.symm⟩, fun hc => hc.2.2.symm⟩
  · rename_i h
    exact ⟨fun hc => absurd hc (by simp), fun hc => absurd ⟨hc.1, hc.2.1⟩ h⟩

theorem write_ne_error {e : Fault} (he : e ≠ .outOfRange) : b.write i v ≠ .error e := by
  unfold write
  split
  · exact ok_ne_error
  · exact fun h => he (Except.error.inj h).symm

theorem write_nat {n : Nat} (h : n < b.size) :
    ∃ b', b.write (n : Int) v = .ok b' ∧ b'.cells = b.cells.set n (some v) ∧ b'.size = b.size := by
  refine ⟨⟨b.cells.set n (some v), by rw [List.length_set]; exact b.size_le⟩, ?_, rfl, ?_⟩
  · exact write_eq_ok.mpr ⟨Int.natCast_nonneg n, by simpa using h, by simp⟩
  · simp [size]

theorem size_write (h : b.write i v = .ok b') : b'.size = b.size := by
  rw [size, (write_eq_ok.mp h).2.2, List.length_set, size]

/-- Writing the only cell of a block leaves nothing of what it held. -/
theorem write_single (h : b.size = 1) : b.write 0 v = .ok (ofList [v] (by simp [maxBlock])) := by
  refine write_eq_ok.mpr ⟨Int.le_refl 0, by rw [h]; decide, ?_⟩
  obtain ⟨c, hc⟩ := List.length_eq_one_iff.mp h
  rw [hc]
  rfl

/-- The first `n` cells hold the values of `f`. -/
def Holds (b : Block α) (n : Nat) (f : Nat → α) : Prop :=
  ∀ k, k < n → b.cells[k]? = some (some (f k))

theorem Holds.read {n k : Nat} {f : Nat → α} (h : b.Holds n f) (hk : k < n) :
    b.read (k : Int) = .ok (f k) := read_nat (h k hk)

theorem Holds.le_size {n : Nat} {f : Nat → α} (h : b.Holds n f) : n ≤ b.size := by
  cases n with
  | zero => exact Nat.zero_le _
  | succ n => exact (List.getElem?_eq_some_iff.mp (h n (Nat.lt_succ_self n))).1

/-- A block that holds `n` values is a block, and so no larger than any block. -/
theorem Holds.le_maxBlock {n : Nat} {f : Nat → α} (h : b.Holds n f) : n ≤ maxBlock :=
  h.le_size.trans b.size_le

theorem holds_tabulate {n m : Nat} {f : Nat → α} {h : n ≤ maxBlock} (hm : m = n) :
    (tabulate n f h).Holds m f := by
  intro k hk
  rw [hm] at hk
  simp [tabulate, hk]

/-- What the cells hold, with `v` for those that hold nothing. -/
def get (b : Block α) (v : α) (k : Nat) : α := (b.cells.getD k none).getD v

theorem Holds.get_eq {n k : Nat} {f : Nat → α} (h : b.Holds n f) (hk : k < n) :
    b.get v k = f k := by
  rw [get, List.getD_eq_getElem?_getD, h k hk]
  rfl

theorem Holds.get {n : Nat} {f : Nat → α} (h : b.Holds n f) (v : α) : b.Holds n (b.get v) := by
  intro k hk
  rw [h.get_eq hk]
  exact h k hk

theorem values_eq_ok {xs : List α} : b.values = .ok xs ↔ b.cells = xs.map some := by
  suffices key : ∀ cs : List (Option α), ∀ xs, cs.mapM id = some xs ↔ cs = xs.map some by
    unfold values
    cases hm : b.cells.mapM id with
    | none =>
      refine ⟨fun h => absurd h (by simp), fun h => ?_⟩
      rw [(key b.cells xs).mpr h] at hm
      cases hm
    | some ys => rw [Except.ok.injEq, ← key, hm, Option.some.injEq]
  intro cs
  induction cs with
  | nil => intro xs; cases xs <;> simp
  | cons c cs ih =>
    intro xs
    cases c with
    | none => cases xs <;> simp
    | some c =>
      simp only [List.mapM_cons, id, Option.pure_def, Option.bind_eq_bind, Option.bind_some,
        Option.bind_eq_some_iff, Option.some.injEq]
      cases xs with
      | nil => simp
      | cons x xs =>
        simp only [List.cons.injEq, List.map_cons, Option.some.injEq]
        constructor
        · rintro ⟨ys, hys, rfl, rfl⟩
          exact ⟨rfl, (ih ys).mp hys⟩
        · rintro ⟨rfl, hcs⟩
          exact ⟨xs, (ih xs).mpr hcs, rfl, rfl⟩

/-! ## Rewriting the start of a block -/

/-- The block with the values of `f` written over its first `n` cells. -/
def overwrite (b : Block α) (n : Nat) (f : Nat → α) (h : n ≤ b.size) : Block α where
  cells := (List.range n).map (fun k => some (f k)) ++ b.cells.drop n
  size_le := by
    have hsize := b.size_le
    unfold size at h
    rw [List.length_append, List.length_map, List.length_range, List.length_drop]
    omega

/-- `b'` is `b` with its first `n` cells holding `f`; the rest is as it was. -/
structure Updated (b : Block α) (n : Nat) (f : Nat → α) (b' : Block α) : Prop where
  size : b'.size = b.size
  holds : b'.Holds n f
  rest : ∀ k, n ≤ k → b'.cells[k]? = b.cells[k]?

section Updated

variable {n m : Nat} {f g : Nat → α} {b₁ b₂ : Block α}

theorem Updated.zero : Updated b 0 f b :=
  ⟨rfl, fun _ hk => absurd hk (Nat.not_lt_zero _), fun _ _ => rfl⟩

theorem updated_overwrite (h : n ≤ b.size) : Updated b n f (b.overwrite n f h) where
  size := by
    simp only [overwrite, size, List.length_append, List.length_map, List.length_range,
      List.length_drop] at h ⊢
    omega
  holds k hk := by
    rw [overwrite, List.getElem?_append_left (by simpa using hk), List.getElem?_map,
      List.getElem?_range hk, Option.map_some]
  rest k hk := by
    rw [overwrite, List.getElem?_append_right (by simpa using hk), List.length_map,
      List.length_range, List.getElem?_drop, Nat.add_sub_cancel' hk]

/-- One more cell. -/
theorem Updated.write (h : Updated b n f b₁) (hw : b₁.write (n : Int) (f n) = .ok b₂) :
    Updated b (n + 1) f b₂ := by
  obtain ⟨-, hlt, hcells⟩ := write_eq_ok.mp hw
  rw [Int.toNat_natCast] at hlt hcells
  refine ⟨(size_write hw).trans h.size, fun k hk => ?_, fun k hk => ?_⟩
  · rw [hcells]
    rcases Nat.lt_succ_iff_lt_or_eq.mp hk with hlt' | rfl
    · rw [List.getElem?_set_ne (Nat.ne_of_gt hlt')]
      exact h.holds k hlt'
    · exact List.getElem?_set_self hlt
  · rw [hcells, List.getElem?_set_ne (by omega)]
    exact h.rest k (by omega)

/-- One more cell, when there is one. -/
theorem Updated.write_ok (h : Updated b n f b₁) (hn : n < b.size) :
    ∃ b₂, b₁.write (n : Int) (f n) = .ok b₂ ∧ Updated b (n + 1) f b₂ := by
  obtain ⟨b₂, hw, -, -⟩ := write_nat (v := f n) (show n < b₁.size by rw [h.size]; exact hn)
  exact ⟨b₂, hw, h.write hw⟩

theorem Updated.unique (h₁ : Updated b n f b₁) (h₂ : Updated b n f b₂) : b₁ = b₂ := by
  rw [Block.ext_iff]
  apply List.ext_getElem?
  intro k
  by_cases hk : k < n
  · rw [h₁.holds k hk, h₂.holds k hk]
  · rw [h₁.rest k (Nat.le_of_not_lt hk), h₂.rest k (Nat.le_of_not_lt hk)]

theorem Holds.value_unique {k : Nat} {v : α} (h : b.Holds n f) (hk : k < n)
    (hv : b.cells[k]? = some (some v)) : v = f k := by
  rw [h k hk] at hv
  exact (Option.some.inj (Option.some.inj hv)).symm

theorem Holds.mono (h : b.Holds n f) (hm : m ≤ n) : b.Holds m f :=
  fun k hk => h k (Nat.lt_of_lt_of_le hk hm)

end Updated

end Block

/-! ## A pointer running through a block -/

/-- `itr` is the offset of the running pointer, `log` the ghost record of what was put where: one
pair (origin of the value, cell it was put in) for each `*itr = v`. The size of the block is an
index of the type, since no amount of writing changes it. -/
structure Cursor (ι α : Type) (n : Nat) where
  data : Block α
  size_eq : data.size = n
  itr : Nat
  log : List (ι × Nat)

namespace Cursor

variable {ι κ α : Type} {n : Nat} {c c' c'' : Cursor ι α n} {es fs : List (ι × α)}

/-- `begin()` -/
def start (b : Block α) : Cursor ι α b.size := ⟨b, rfl, 0, []⟩

/-- `*itr = v; itr++;` -/
def put (c : Cursor ι α n) (origin : ι) (v : α) : Exec (Cursor ι α n) :=
  match h : c.data.write (c.itr : Int) v with
  | .ok data =>
      .ok ⟨data, (Block.size_write h).trans c.size_eq, c.itr + 1, c.log ++ [(origin, c.itr)]⟩
  | .error e => .error e

/-- `c'` is `c` after exactly the entries `es` were put, in order. -/
structure Emits (c : Cursor ι α n) (es : List (ι × α)) (c' : Cursor ι α n) : Prop where
  room : c.itr + es.length ≤ n
  cells : c'.data.cells =
    c.data.cells.take c.itr ++ es.map (some ∘ Prod.snd) ++ c.data.cells.drop (c.itr + es.length)
  itr : c'.itr = c.itr + es.length
  log : c'.log = c.log ++ (es.map Prod.fst).zipIdx c.itr

theorem length_cells (c : Cursor ι α n) : c.data.cells.length = n := c.size_eq

theorem Emits.nil (h : c.itr ≤ n) : Emits c [] c where
  room := by simpa using h
  cells := by simp
  itr := by simp
  log := by simp

theorem Emits.trans (h : Emits c es c') (h' : Emits c' fs c'') : Emits c (es ++ fs) c'' where
  room := by
    have := h'.room
    rw [h.itr] at this
    rw [List.length_append]
    omega
  cells := by
    have hroom := h.room
    have htake : (c.data.cells.take c.itr).length = c.itr := by
      rw [List.length_take, c.length_cells]; omega
    -- the part before the pointer, as the first run left it, and the part past it
    have hleft : c'.data.cells.take c'.itr =
        c.data.cells.take c.itr ++ es.map (some ∘ Prod.snd) := by
      rw [h.cells, h.itr, List.take_append_of_le_length (by simp [htake])]
      exact List.take_of_length_le (by simp [htake])
    have hright : c'.data.cells.drop (c'.itr + fs.length) =
        c.data.cells.drop (c.itr + (es ++ fs).length) := by
      have hlen : (c.data.cells.take c.itr ++ es.map (some ∘ Prod.snd)).length =
          c.itr + es.length := by simp [htake]
      rw [h.cells, h.itr, List.drop_append, hlen, List.drop_of_length_le (by rw [hlen]; omega),
        List.nil_append, List.drop_drop, List.length_append]
      congr 1
      omega
    rw [h'.cells, hleft, hright, List.map_append, List.append_assoc, List.append_assoc,
      List.append_assoc, List.append_assoc]
  itr := by rw [h'.itr, h.itr, List.length_append, Nat.add_assoc]
  log := by
    rw [h'.log, h.log, h.itr, List.map_append, List.zipIdx_append, List.append_assoc,
      List.length_map, Nat.add_comm c.itr]

theorem put_emits (origin : ι) (v : α) (h : c.itr < n) :
    ∃ c', c.put origin v = .ok c' ∧ Emits c [(origin, v)] c' := by
  have hlt : c.itr < c.data.size := by rw [c.size_eq]; exact h
  obtain ⟨b, hb, hcells, -⟩ := Block.write_nat (b := c.data) (v := v) hlt
  unfold put
  split
  · rename_i data hw
    rw [hb, Except.ok.injEq] at hw
    subst hw
    refine ⟨_, rfl, Nat.succ_le_of_lt h, ?_, rfl, rfl⟩
    show b.cells = _
    rw [Block.size] at hlt
    rw [hcells, List.set_eq_take_append_cons_drop, if_pos hlt]
    simp
  · rename_i e hw
    rw [hb] at hw
    cases hw

/-- A loop each of whose iterations puts `out i` puts the concatenation. The iteration may rely on
there being room for what it puts. -/
theorem forEach_emits {body : κ → Cursor ι α n → Exec (Cursor ι α n)} {out : κ → List (ι × α)} :
    ∀ {is : List κ} {c : Cursor ι α n},
      (∀ i ∈ is, ∀ c : Cursor ι α n, c.itr + (out i).length ≤ n →
        ∃ c', body i c = .ok c' ∧ Emits c (out i) c') →
      c.itr + (is.flatMap out).length ≤ n →
      ∃ c', forEach is body c = .ok c' ∧ Emits c (is.flatMap out) c'
  | [], c, _, hroom => ⟨c, rfl, Emits.nil (by simpa using hroom)⟩
  | i :: is, c, hbody, hroom => by
    rw [List.flatMap_cons, List.length_append] at hroom
    obtain ⟨c₁, hc₁, he₁⟩ := hbody i List.mem_cons_self c (by omega)
    have hroom₁ : c₁.itr + (is.flatMap out).length ≤ n := by rw [he₁.itr]; omega
    obtain ⟨c₂, hc₂, he₂⟩ :=
      forEach_emits (fun j hj => hbody j (List.mem_cons_of_mem _ hj)) hroom₁
    exact ⟨c₂, by rw [forEach_cons, hc₁, ok_bind, hc₂], by
      rw [List.flatMap_cons]; exact he₁.trans he₂⟩

/-- Filling a whole block from its first cell leaves exactly the entries. -/
theorem Emits.full (h : Emits c es c') (hitr : c.itr = 0) (hsize : es.length = n) :
    c'.data.cells = es.map (some ∘ Prod.snd) := by
  have hdrop : c.data.cells.drop (c.itr + es.length) = [] := by
    exact List.drop_of_length_le (by rw [c.length_cells]; omega)
  rw [h.cells, hdrop, hitr]
  simp

end Cursor

/-! ## Row-major lists -/

/-- The cell of row `r`, column `c` of a list laid out in rows of equal length `w`. -/
theorem getElem?_flatMap_rows {α β : Type} {f : α → List β} {w : Nat} :
    ∀ {xs : List α}, (∀ x ∈ xs, (f x).length = w) → ∀ {r c : Nat}, c < w →
      (xs.flatMap f)[r * w + c]? = xs[r]?.bind fun x => (f x)[c]?
  | [], _, r, c, _ => by simp
  | x :: xs, hlen, 0, c, hc => by
    have hx := hlen x List.mem_cons_self
    rw [List.flatMap_cons, Nat.zero_mul, Nat.zero_add,
      List.getElem?_append_left (by rw [hx]; exact hc)]
    rfl
  | x :: xs, hlen, r + 1, c, hc => by
    have hx := hlen x List.mem_cons_self
    have hidx : (r + 1) * w + c = w + (r * w + c) := by rw [Nat.succ_mul]; omega
    rw [List.flatMap_cons, hidx, List.getElem?_append_right (by rw [hx]; omega), hx,
      Nat.add_sub_cancel_left, getElem?_flatMap_rows
        (fun y hy => hlen y (List.mem_cons_of_mem _ hy)) hc]
    rfl

theorem length_flatMap_rows {α β : Type} {f : α → List β} {w : Nat} {xs : List α}
    (h : ∀ x ∈ xs, (f x).length = w) : (xs.flatMap f).length = xs.length * w := by
  induction xs with
  | nil => simp
  | cons x xs ih =>
    rw [List.flatMap_cons, List.length_append, h x List.mem_cons_self,
      ih fun y hy => h y (List.mem_cons_of_mem _ hy), List.length_cons, Nat.succ_mul, Nat.add_comm]

end CCore
