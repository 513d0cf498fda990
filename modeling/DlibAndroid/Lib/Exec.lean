import Mathlib.Tactic.Linarith

/-!
# `Exec` — runs of C code that may leave defined behaviour

A C function is embedded as a Lean function into `Exec α = Except Fault α`. A run that stays
inside defined behaviour ends in `.ok`; the first division by zero, signed overflow, access
outside a block or through a dead pointer ends it in `.error`, and names which it was. Nothing
is recovered from a fault: the C standard promises nothing past it, so neither does the model.

`int` is embedded as `Int` with every arithmetic result *checked* (`mulInt`, `addInt`, `divInt`),
not as a wrapping type. A theorem that some function answers `.ok` is therefore also the theorem
that none of its intermediate results overflows.

Loops are `forEach` over the list of the values the loop variable takes, in order, so that a loop
counting up and a loop counting down share one set of rules.
-/

set_option autoImplicit false

namespace CCore

/-- The ways a run leaves defined behaviour. -/
inductive Fault where
  | divByZero
  | overflow
  | outOfRange
  | uninitialised
  | nullDeref
  | useAfterFree
  | doubleFree
  | badAlloc
  deriving DecidableEq, Repr

abbrev Exec (α : Type) := Except Fault α

variable {α β ι σ : Type}

/-! ## Sequencing -/

@[simp] theorem ok_bind (a : α) (f : α → Exec β) :
    ((Except.ok a : Exec α) >>= f) = f a := rfl

@[simp] theorem error_bind (e : Fault) (f : α → Exec β) :
    ((Except.error e : Exec α) >>= f) = .error e := rfl

@[simp] theorem pure_eq_ok (a : α) : (pure a : Exec α) = .ok a := rfl

theorem bind_eq_ok {x : Exec α} {f : α → Exec β} {b : β} :
    (x >>= f) = .ok b ↔ ∃ a, x = .ok a ∧ f a = .ok b := by
  cases x <;> simp

theorem ok_ne_error {a : α} {e : Fault} : (.ok a : Exec α) ≠ .error e := nofun

theorem bind_ne_error {x : Exec α} {f : α → Exec β} {e : Fault} (hx : x ≠ .error e)
    (hf : ∀ a, x = .ok a → f a ≠ .error e) : (x >>= f) ≠ .error e := by
  cases x with
  | error g =>
    intro h
    exact hx (congrArg Except.error (Except.error.inj h))
  | ok a => exact hf a rfl

/-! ## Checked `int` arithmetic -/

/-- `n` is a value of the 32-bit type `int`. -/
def Fits (n : Int) : Prop := -2147483648 ≤ n ∧ n ≤ 2147483647

instance (n : Int) : Decidable (Fits n) := inferInstanceAs (Decidable (_ ∧ _))

def checked (n : Int) : Exec Int := if Fits n then .ok n else .error .overflow

def mulInt (a b : Int) : Exec Int := checked (a * b)

def addInt (a b : Int) : Exec Int := checked (a + b)

def subInt (a b : Int) : Exec Int := checked (a - b)

/-- C's `/` on `int`: truncated, and undefined at a zero divisor. -/
def divInt (a b : Int) : Exec Int := if b = 0 then .error .divByZero else checked (a.tdiv b)

theorem checked_eq_ok {n m : Int} : checked n = .ok m ↔ Fits n ∧ n = m := by
  unfold checked
  split <;> simp_all

theorem checked_of_fits {n : Int} (h : Fits n) : checked n = .ok n :=
  checked_eq_ok.mpr ⟨h, rfl⟩

theorem checked_ne_error {n : Int} {e : Fault} (he : e ≠ .overflow) : checked n ≠ .error e := by
  unfold checked
  split
  · exact ok_ne_error
  · exact fun h => he (Except.error.inj h).symm

theorem mulInt_eq_ok {a b m : Int} : mulInt a b = .ok m ↔ Fits (a * b) ∧ a * b = m :=
  checked_eq_ok

theorem mulInt_of_fits {a b : Int} (h : Fits (a * b)) : mulInt a b = .ok (a * b) :=
  checked_of_fits h

theorem addInt_of_fits {a b : Int} (h : Fits (a + b)) : addInt a b = .ok (a + b) :=
  checked_of_fits h

theorem subInt_eq_ok {a b m : Int} : subInt a b = .ok m ↔ Fits (a - b) ∧ a - b = m :=
  checked_eq_ok

/-- Truncated division is the floor on the non-negative side, and cannot overflow there. -/
theorem divInt_of_nonneg {a b : Int} (ha : 0 ≤ a) (hfit : a ≤ 2147483647) (hb : 0 < b) :
    divInt a b = .ok (a / b) := by
  have hdiv : a.tdiv b = a / b := Int.tdiv_eq_ediv_of_nonneg ha
  have hle : a / b ≤ a := Int.ediv_le_self b ha
  have hnn : 0 ≤ a / b := Int.ediv_nonneg ha hb.le
  rw [divInt, if_neg hb.ne', hdiv, checked_of_fits ⟨by linarith, by linarith⟩]

/-! ## Loops and histories -/

/-- Run `body` once for each value the loop variable takes, first to last. A history of calls is
the same thing, with the calls for the values. -/
def forEach : List ι → (ι → σ → Exec σ) → σ → Exec σ
  | [], _, s => .ok s
  | i :: is, body, s => body i s >>= forEach is body

section ForEach

variable {body : ι → σ → Exec σ} {s t : σ}

@[simp] theorem forEach_nil : forEach [] body s = .ok s := rfl

@[simp] theorem forEach_cons (i : ι) (is : List ι) :
    forEach (i :: is) body s = body i s >>= forEach is body := rfl

theorem forEach_append (is js : List ι) :
    forEach (is ++ js) body s = forEach is body s >>= forEach js body := by
  induction is generalizing s with
  | nil => rfl
  | cons i is ih =>
    simp only [List.cons_append, forEach_cons]
    cases body i s with
    | error e => rfl
    | ok t => exact ih

theorem forEach_map {κ : Type} {f : κ → ι} {ks : List κ} :
    forEach (ks.map f) body s = forEach ks (fun k => body (f k)) s := by
  induction ks generalizing s with
  | nil => rfl
  | cons k ks ih =>
    rw [List.map_cons, forEach_cons, forEach_cons]
    exact congrArg _ (funext fun t => ih)

theorem forEach_flatMap {κ : Type} {f : κ → List ι} {ks : List κ} :
    forEach (ks.flatMap f) body s = forEach ks (fun k => forEach (f k) body) s := by
  induction ks generalizing s with
  | nil => rfl
  | cons k ks ih =>
    rw [List.flatMap_cons, forEach_append, forEach_cons]
    exact congrArg _ (funext fun t => ih)

theorem forEach_congr {body' : ι → σ → Exec σ} {is : List ι}
    (h : ∀ i ∈ is, ∀ s, body i s = body' i s) : forEach is body s = forEach is body' s := by
  induction is generalizing s with
  | nil => rfl
  | cons i is ih =>
    rw [forEach_cons, forEach_cons, h i List.mem_cons_self]
    exact congrArg _ (funext fun t => ih fun j hj => h j (List.mem_cons_of_mem _ hj))

theorem forEach_append_eq_ok {is js : List ι} :
    forEach (is ++ js) body s = .ok t ↔
      ∃ u, forEach is body s = .ok u ∧ forEach js body u = .ok t := by
  rw [forEach_append, bind_eq_ok]

theorem forEach_concat_eq_ok {is : List ι} {i : ι} :
    forEach (is ++ [i]) body s = .ok t ↔
      ∃ u, forEach is body s = .ok u ∧ body i u = .ok t := by
  rw [forEach_append_eq_ok]
  refine exists_congr fun u => and_congr_right fun _ => ?_
  rw [forEach_cons, bind_eq_ok]
  simp

/-- **The invariant rule, for runs that finish.** What one iteration preserves, a whole run
preserves. -/
theorem forEach_invariant {is : List ι} (I : σ → Prop)
    (hstep : ∀ i ∈ is, ∀ s t, I s → body i s = .ok t → I t)
    (h : forEach is body s = .ok t) (hs : I s) : I t := by
  induction is generalizing s with
  | nil =>
    obtain rfl : s = t := by simpa using h
    exact hs
  | cons i is ih =>
    rw [forEach_cons, bind_eq_ok] at h
    obtain ⟨u, hu, ht⟩ := h
    exact ih (fun j hj => hstep j (List.mem_cons_of_mem _ hj)) ht
      (hstep i List.mem_cons_self s u hs hu)

/-- In a run that finishes, every value of the loop variable got its turn. -/
theorem forEach_ok_mem {is : List ι} {i : ι} (h : forEach is body s = .ok t) (hi : i ∈ is) :
    ∃ u v, body i u = .ok v := by
  induction is generalizing s with
  | nil => exact absurd hi List.not_mem_nil
  | cons j is ih =>
    obtain ⟨u, hu, h⟩ := bind_eq_ok.mp h
    rcases List.mem_cons.mp hi with rfl | hi
    · exact ⟨s, u, hu⟩
    · exact ih h hi

/-- A counted loop that finishes has got through its first iteration, from where it started. -/
theorem forEach_range_first {body : Nat → σ → Exec σ} {n : Nat} (hn : 0 < n)
    (h : forEach (List.range n) body s = .ok t) : ∃ u, body 0 s = .ok u := by
  obtain ⟨m, rfl⟩ := Nat.exists_eq_succ_of_ne_zero hn.ne'
  rw [List.range_succ_eq_map, forEach_cons, bind_eq_ok] at h
  obtain ⟨u, hu, -⟩ := h
  exact ⟨u, hu⟩

/-- A fault no iteration can end in, the loop does not end in. -/
theorem forEach_ne_error {is : List ι} {e : Fault} (hbody : ∀ i s, body i s ≠ .error e) :
    forEach is body s ≠ .error e := by
  induction is generalizing s with
  | nil => exact ok_ne_error
  | cons i is ih =>
    rw [forEach_cons]
    exact bind_ne_error (hbody i s) fun u _ => ih

/-- **The counting rule.** If every iteration that starts inside the invariant finishes, and
finishes inside it one count further on, then the loop finishes. -/
theorem forEach_range {body : Nat → σ → Exec σ} {n : Nat} (I : Nat → σ → Prop)
    (hstep : ∀ i, i < n → ∀ s, I i s → ∃ t, body i s = .ok t ∧ I (i + 1) t) (hs : I 0 s) :
    ∃ t, forEach (List.range n) body s = .ok t ∧ I n t := by
  induction n with
  | zero => exact ⟨s, rfl, hs⟩
  | succ n ih =>
    obtain ⟨u, hu, hI⟩ := ih fun i hi => hstep i (Nat.lt_succ_of_lt hi)
    obtain ⟨t, ht, hI'⟩ := hstep n (Nat.lt_succ_self n) u hI
    rw [List.range_succ]
    exact ⟨t, forEach_concat_eq_ok.mpr ⟨u, hu, ht⟩, hI'⟩

/-- The same from `k` on. -/
theorem forEach_range_drop {body : Nat → σ → Exec σ} {k n : Nat} (hk : k ≤ n)
    (I : Nat → σ → Prop)
    (hstep : ∀ i, k ≤ i → i < n → ∀ s, I i s → ∃ t, body i s = .ok t ∧ I (i + 1) t)
    (hs : I k s) : ∃ t, forEach ((List.range n).drop k) body s = .ok t ∧ I n t := by
  induction n with
  | zero =>
    obtain rfl := Nat.le_zero.mp hk
    exact ⟨s, rfl, hs⟩
  | succ n ih =>
    rcases Nat.lt_or_ge n k with hlt | hle
    · obtain rfl : k = n + 1 := Nat.le_antisymm hk hlt
      exact ⟨s, by rw [List.drop_of_length_le (List.length_range.le)]; rfl, hs⟩
    · obtain ⟨u, hu, hI⟩ := ih hle fun i hi hi' => hstep i hi (Nat.lt_succ_of_lt hi')
      obtain ⟨t, ht, hI'⟩ := hstep n hle (Nat.lt_succ_self n) u hI
      refine ⟨t, ?_, hI'⟩
      rw [List.range_succ, List.drop_append_of_le_length (by rwa [List.length_range])]
      exact forEach_concat_eq_ok.mpr ⟨u, hu, ht⟩

/-- **The covering rule.** What the rounds do one by one, the loop does altogether. -/
theorem forEach_covers {κ : Type} {is : List ι} {T : ι → κ → Prop} (P : (κ → Prop) → σ → Prop)
    (hstep : ∀ i ∈ is, ∀ S s, P S s → ∃ t, body i s = .ok t ∧ P (fun k => S k ∨ T i k) t)
    {S : κ → Prop} (hs : P S s) :
    ∃ t, forEach is body s = .ok t ∧ P (fun k => S k ∨ ∃ i ∈ is, T i k) t := by
  induction is generalizing s S with
  | nil => exact ⟨s, rfl, by simpa using hs⟩
  | cons i is ih =>
    obtain ⟨u, hu, hP⟩ := hstep i List.mem_cons_self S s hs
    obtain ⟨t, ht, hP'⟩ := ih (fun j hj => hstep j (List.mem_cons_of_mem _ hj)) hP
    refine ⟨t, by rw [forEach_cons, hu, ok_bind, ht], ?_⟩
    simpa [or_assoc] using hP'

/-- A loop that only pushes has pushed the list of what its rounds push. -/
theorem forEach_pushes {is : List ι} {body : ι → List α → Exec (List α)} {f : ι → List α}
    (hbody : ∀ i ∈ is, ∀ out, body i out = .ok (out ++ f i)) (out : List α) :
    forEach is body out = .ok (out ++ is.flatMap f) := by
  induction is generalizing out with
  | nil => rw [forEach_nil, List.flatMap_nil, List.append_nil]
  | cons i is ih =>
    rw [forEach_cons, hbody i List.mem_cons_self, ok_bind,
      ih (fun j hj => hbody j (List.mem_cons_of_mem _ hj)), List.flatMap_cons, List.append_assoc]

/-- **A loop that computes.** What is looked at in the state is a fold, each part of it its own. -/
theorem forEach_foldl {κ τ : Type} {is : List ι} (view : κ → σ → τ) (next : κ → τ → ι → τ)
    (hstep : ∀ i ∈ is, ∀ s, ∃ t, body i s = .ok t ∧ ∀ k, view k t = next k (view k s) i) (s : σ) :
    ∃ t, forEach is body s = .ok t ∧ ∀ k, view k t = is.foldl (next k) (view k s) := by
  induction is generalizing s with
  | nil => exact ⟨s, rfl, fun _ => rfl⟩
  | cons i is ih =>
    obtain ⟨u, hu, hview⟩ := hstep i List.mem_cons_self s
    obtain ⟨t, ht, hviews⟩ := ih (fun j hj => hstep j (List.mem_cons_of_mem _ hj)) u
    refine ⟨t, by rw [forEach_cons, hu, ok_bind, ht], fun k => ?_⟩
    rw [hviews, hview, List.foldl_cons]

/-- **The simulation rule.** An abstract machine whose steps are either taken by the code as well
or refused by it with a fault predicts which runs finish, and where. -/
theorem forEach_simulates {τ : Type} {next : τ → ι → Option τ} (R : σ → τ → Prop)
    (hstep : ∀ i s a, R s a →
      (∃ b t, next a i = some b ∧ body i s = .ok t ∧ R t b) ∨
        (next a i = none ∧ ∃ e, body i s = .error e)) :
    ∀ {is : List ι} {s : σ} {a : τ}, R s a →
      (∃ b t, is.foldlM next a = some b ∧ forEach is body s = .ok t ∧ R t b) ∨
        (is.foldlM next a = none ∧ ∃ e, forEach is body s = .error e)
  | [], s, a, hR => Or.inl ⟨a, s, rfl, rfl, hR⟩
  | i :: is, s, a, hR => by
    rcases hstep i s a hR with ⟨b, t, hb, ht, hR'⟩ | ⟨hb, e, he⟩
    · rw [List.foldlM_cons, hb, forEach_cons, ht]
      exact forEach_simulates R hstep hR'
    · rw [List.foldlM_cons, hb, forEach_cons, he]
      exact Or.inr ⟨rfl, e, rfl⟩

end ForEach

/-! ## Vectors -/

/-- `xs[i]` on a `std::vector` or a column vector, as the release build compiles it: unchecked. -/
def index (xs : List α) (i : Nat) : Exec α :=
  match xs[i]? with
  | some a => .ok a
  | none => .error .outOfRange

/-- `for (i = 0; i < n; ++i) out.push_back(f(i));` -/
def collect (n : Nat) (f : Nat → Exec α) : Exec (List α) :=
  forEach (List.range n) (fun i out => f i >>= fun a => .ok (out ++ [a])) []

section Vectors

variable {xs : List α} {f : Nat → Exec α} {i n : Nat} {a : α}

@[simp] theorem index_eq_ok : index xs i = .ok a ↔ xs[i]? = some a := by
  unfold index
  cases xs[i]? <;> simp

theorem index_of_lt (h : i < xs.length) : index xs i = .ok xs[i] :=
  index_eq_ok.mpr (List.getElem?_eq_getElem h)

theorem exists_index_eq_ok : (∃ a, index xs i = .ok a) ↔ i < xs.length := by
  simp only [index_eq_ok]
  constructor
  · rintro ⟨a, ha⟩
    exact (List.getElem?_eq_some_iff.mp ha).1
  · intro h
    exact ⟨xs[i], List.getElem?_eq_getElem h⟩

theorem index_ne_error {e : Fault} (he : e ≠ .outOfRange) : index xs i ≠ .error e := by
  unfold index
  split
  · exact ok_ne_error
  · exact fun h => he (Except.error.inj h).symm

theorem collect_ne_error {e : Fault} (hf : ∀ i, f i ≠ .error e) : collect n f ≠ .error e :=
  forEach_ne_error fun i _ => bind_ne_error (hf i) fun _ _ => ok_ne_error

theorem collect_succ : collect (n + 1) f = (do
    let out ← collect n f
    let a ← f n
    pure (out ++ [a])) := by
  unfold collect
  rw [List.range_succ, forEach_append]
  refine congrArg _ (funext fun out => ?_)
  rw [forEach_cons]
  cases f n <;> rfl

theorem length_collect (h : collect n f = .ok xs) : xs.length = n := by
  induction n generalizing xs with
  | zero => rw [← Except.ok.inj h, List.length_nil]
  | succ n ih =>
    rw [collect_succ] at h
    obtain ⟨out, hout, h⟩ := bind_eq_ok.mp h
    obtain ⟨a, -, h⟩ := bind_eq_ok.mp h
    rw [← Except.ok.inj h, List.length_append, ih hout, List.length_singleton]

/-- **The collecting rule.** The loop finishes exactly when each iteration does. -/
theorem exists_collect_eq_ok :
    (∃ xs, collect n f = .ok xs) ↔ ∀ i, i < n → ∃ a, f i = .ok a := by
  induction n with
  | zero => exact ⟨fun _ i hi => absurd hi (Nat.not_lt_zero i), fun _ => ⟨[], rfl⟩⟩
  | succ n ih =>
    rw [collect_succ]
    constructor
    · rintro ⟨xs, h⟩ i hi
      obtain ⟨out, hout, h⟩ := bind_eq_ok.mp h
      obtain ⟨a, ha, -⟩ := bind_eq_ok.mp h
      rcases Nat.lt_succ_iff_lt_or_eq.mp hi with hlt | rfl
      · exact ih.mp ⟨out, hout⟩ i hlt
      · exact ⟨a, ha⟩
    · intro hall
      obtain ⟨out, hout⟩ := ih.mpr fun i hi => hall i (Nat.lt_succ_of_lt hi)
      obtain ⟨a, ha⟩ := hall n (Nat.lt_succ_self n)
      exact ⟨out ++ [a], by rw [hout, ok_bind, ha]; rfl⟩

end Vectors

end CCore
