import DlibAndroid.Lib.Load
import Mathlib.Data.List.Basic

/-!
# Readers and what was written for them

`p.Takes bytes f`: the reader takes these bytes and no more, and does `f` to its target. That is
one half; the other is that it throws when the bytes break off early, wherever they do. So a
sequence of readers takes what was written for each, one after the other, and is not content with
less.
-/

set_option autoImplicit false

namespace CCore.Load

variable {E σ τ : Type} {p q : Load E σ} {r : Load E τ} {bytes bytes' : List UInt8} {f g : σ → σ}

structure Takes (p : Load E σ) (bytes : List UInt8) (f : σ → σ) : Prop where
  reads : ∀ item rest, p item (bytes ++ rest) = (f item, .ok rest)
  short : ∀ item k, k < bytes.length → ∃ e, (p item (bytes.take k)).2 = .error e

/-- A part of two pieces is a part of the first, or the first and a part of the second. -/
theorem take_append_cases {k : Nat} (hk : k < (bytes ++ bytes').length) :
    (k < bytes.length ∧ (bytes ++ bytes').take k = bytes.take k) ∨
      ∃ n, n < bytes'.length ∧ (bytes ++ bytes').take k = bytes ++ bytes'.take n := by
  rw [List.length_append] at hk
  rcases Nat.lt_or_ge k bytes.length with hlt | hge
  · exact .inl ⟨hlt, List.take_append_of_le_length (Nat.le_of_lt hlt)⟩
  · refine .inr ⟨k - bytes.length, by omega, ?_⟩
    rw [List.take_append, List.take_of_length_le hge]

theorem andThen_error {item : σ} {e : E} (h : (p item bytes).2 = .error e) :
    (p.andThen q item bytes).2 = .error e := by
  rw [Load.andThen]
  split
  · rename_i heq
    rw [heq] at h
    cases h
  · rename_i heq
    rwa [heq] at h

theorem withLocal_error {a : τ} {k : τ → Load E σ} {item : σ} {e : E}
    (h : (r a bytes).2 = .error e) : (Load.withLocal r a k item bytes).2 = .error e := by
  rw [Load.withLocal]
  split
  · rename_i heq
    rw [heq] at h
    cases h
  · rename_i heq
    rwa [heq] at h

theorem onError_error {handler : σ → E → σ × E} {item : σ} {e : E}
    (h : (p item bytes).2 = .error e) :
    ∃ e', (Load.onError handler p item bytes).2 = .error e' := by
  rw [Load.onError]
  split
  · rename_i heq
    rw [heq] at h
    cases h
  · exact ⟨_, rfl⟩

theorem Takes.andThen (hp : p.Takes bytes f) (hq : q.Takes bytes' g) :
    (p.andThen q).Takes (bytes ++ bytes') (g ∘ f) := by
  constructor
  · intro item rest
    rw [List.append_assoc, Load.andThen, hp.reads]
    exact hq.reads (f item) rest
  · intro item k hk
    rcases take_append_cases hk with ⟨hlt, htake⟩ | ⟨n, hn, htake⟩
    · obtain ⟨e, he⟩ := hp.short item k hlt
      rw [htake]
      exact ⟨e, andThen_error he⟩
    · obtain ⟨e, he⟩ := hq.short (f item) n hn
      rw [htake, Load.andThen, hp.reads]
      exact ⟨e, he⟩

theorem Takes.withLocal {a₀ a : τ} {k : τ → Load E σ} (hr : r.Takes bytes fun _ => a)
    (hk : (k a).Takes bytes' g) : (Load.withLocal r a₀ k).Takes (bytes ++ bytes') g := by
  constructor
  · intro item rest
    rw [List.append_assoc, Load.withLocal, hr.reads]
    exact hk.reads item rest
  · intro item n hn
    rcases take_append_cases hn with ⟨hlt, htake⟩ | ⟨m, hm, htake⟩
    · obtain ⟨e, he⟩ := hr.short a₀ n hlt
      rw [htake]
      exact ⟨e, withLocal_error he⟩
    · obtain ⟨e, he⟩ := hk.short item m hm
      rw [htake, Load.withLocal, hr.reads]
      exact ⟨e, he⟩

theorem Takes.inField {get : σ → τ} {set : σ → τ → σ} {x : τ} (hr : r.Takes bytes fun _ => x) :
    (Load.inField get set r).Takes bytes fun item => set item x := by
  constructor
  · intro item rest
    rw [Load.inField, hr.reads]
  · intro item k hk
    exact hr.short (get item) k hk

theorem Takes.onError {handler : σ → E → σ × E} (hp : p.Takes bytes f) :
    (Load.onError handler p).Takes bytes f := by
  constructor
  · intro item rest
    rw [Load.onError, hp.reads]
  · intro item k hk
    obtain ⟨e, he⟩ := hp.short item k hk
    exact onError_error he

/-! ## Elements -/

variable {α : Type} {write : α → List UInt8} {value : α → σ} {xs : List α} {items : List σ}

theorem each_reads (hp : ∀ x ∈ xs, p.Takes (write x) fun _ => value x)
    (hitems : items.length = xs.length) (rest : List UInt8) :
    Load.each p items (xs.flatMap write ++ rest) = (xs.map value, .ok rest) := by
  induction xs generalizing items with
  | nil =>
    obtain rfl := List.length_eq_zero_iff.mp hitems
    rfl
  | cons x xs ih =>
    obtain ⟨item, items, rfl⟩ := List.exists_cons_of_length_eq_add_one hitems
    obtain ⟨hx, hxs⟩ := List.forall_mem_cons.mp hp
    rw [List.flatMap_cons, List.append_assoc, Load.each, hx.reads]
    simp only [ih hxs (Nat.succ.inj hitems), List.map_cons]

theorem each_short (hp : ∀ x ∈ xs, p.Takes (write x) fun _ => value x)
    (hitems : items.length = xs.length) (k : Nat) (hk : k < (xs.flatMap write).length) :
    ∃ e, (Load.each p items ((xs.flatMap write).take k)).2 = .error e := by
  induction xs generalizing items k with
  | nil => exact absurd hk (Nat.not_lt_zero k)
  | cons x xs ih =>
    obtain ⟨item, items, rfl⟩ := List.exists_cons_of_length_eq_add_one hitems
    obtain ⟨hx, hxs⟩ := List.forall_mem_cons.mp hp
    rw [List.flatMap_cons] at hk ⊢
    rcases take_append_cases hk with ⟨hlt, htake⟩ | ⟨n, hn, htake⟩
    · obtain ⟨e, he⟩ := hx.short item k hlt
      rw [htake, Load.each]
      split
      · rename_i heq
        rw [heq] at he
        cases he
      · exact ⟨_, rfl⟩
    · rw [htake, Load.each, hx.reads]
      exact ih hxs (Nat.succ.inj hitems) n hn

end CCore.Load
