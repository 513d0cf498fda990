import DlibAndroid.Lib.Block

/-!
# `Ledger` — who owns which block

The allocator, seen from the program: every block it ever hands out gets the next number, and
every number given back is recorded. `freed` never repeats a number — the invariant is a field,
so a block *cannot* be recorded as given back twice, and the attempt is the fault `doubleFree`.

Nothing here is about what a block holds; `Owned` pairs a number with the contents, and `deref`
is the access through a pointer that may be null or dead.
-/

set_option autoImplicit false

namespace CCore

structure Ledger where
  next : Nat
  freed : List Nat
  nodup : freed.Nodup
  freed_lt : ∀ i ∈ freed, i < next

namespace Ledger

variable {L L' : Ledger} {i j : Nat}

def empty : Ledger := ⟨0, [], List.nodup_nil, fun _ h => absurd h (by simp)⟩

/-- Handed out and not given back. -/
def Live (L : Ledger) (i : Nat) : Prop := i < L.next ∧ i ∉ L.freed

instance (L : Ledger) (i : Nat) : Decidable (L.Live i) := inferInstanceAs (Decidable (_ ∧ _))

/-- `malloc` or `new` that succeeds: the number of the block is the old `next`. -/
def alloc (L : Ledger) : Ledger :=
  ⟨L.next + 1, L.freed, L.nodup, fun i hi => Nat.lt_succ_of_lt (L.freed_lt i hi)⟩

/-- `free` or `delete` of a block that is not null. -/
def free (L : Ledger) (i : Nat) : Exec Ledger :=
  if h : L.Live i then
    .ok ⟨L.next, i :: L.freed, List.nodup_cons.mpr ⟨h.2, L.nodup⟩,
      fun j hj => (List.mem_cons.mp hj).elim (fun e => e ▸ h.1) (L.freed_lt j)⟩
  else .error .doubleFree

@[simp] theorem not_live_empty : ¬ empty.Live i := fun h => absurd h.1 (Nat.not_lt_zero i)

theorem live_alloc : L.alloc.Live i ↔ L.Live i ∨ i = L.next := by
  have hnot : L.next ∉ L.freed := fun h => Nat.lt_irrefl _ (L.freed_lt _ h)
  unfold Live alloc
  constructor
  · rintro ⟨hlt, hnf⟩
    rcases Nat.lt_succ_iff_lt_or_eq.mp hlt with h | h
    · exact Or.inl ⟨h, hnf⟩
    · exact Or.inr h
  · rintro (⟨hlt, hnf⟩ | rfl)
    · exact ⟨Nat.lt_succ_of_lt hlt, hnf⟩
    · exact ⟨Nat.lt_succ_self _, hnot⟩

theorem live_alloc_self : L.alloc.Live L.next := live_alloc.mpr (Or.inr rfl)

theorem Live.alloc (h : L.Live i) : L.alloc.Live i := live_alloc.mpr (Or.inl h)

theorem Live.ne_next (h : L.Live i) : i ≠ L.next := Nat.ne_of_lt h.1

@[simp] theorem freed_alloc : L.alloc.freed = L.freed := rfl

theorem free_eq_ok :
    L.free i = .ok L' ↔ L.Live i ∧ L'.next = L.next ∧ L'.freed = i :: L.freed := by
  unfold free
  split
  · rename_i h
    obtain ⟨n, f, hn, hf⟩ := L'
    simp only [Except.ok.injEq, mk.injEq]
    exact ⟨fun e => ⟨h, e.1.symm, e.2.symm⟩, fun e => ⟨e.2.1.symm, e.2.2.symm⟩⟩
  · rename_i h
    simp [h]

theorem free_of_live (h : L.Live i) :
    ∃ L', L.free i = .ok L' ∧ L'.next = L.next ∧ L'.freed = i :: L.freed :=
  ⟨_, dif_pos h, rfl, rfl⟩

theorem live_free (h : L.free i = .ok L') : L'.Live j ↔ L.Live j ∧ j ≠ i := by
  obtain ⟨-, hn, hf⟩ := free_eq_ok.mp h
  unfold Live
  rw [hn, hf, List.mem_cons, not_or]
  exact ⟨fun ⟨hlt, hne, hnf⟩ => ⟨⟨hlt, hnf⟩, hne⟩, fun ⟨⟨hlt, hnf⟩, hne⟩ => ⟨hlt, hne, hnf⟩⟩

/-- The live blocks are exactly `ids`, each listed once. -/
structure Accounts (L : Ledger) (ids : List Nat) : Prop where
  nodup : ids.Nodup
  live : ∀ i, L.Live i ↔ i ∈ ids

theorem accounts_empty : Accounts empty [] :=
  ⟨List.nodup_nil, fun _ => ⟨fun h => absurd h not_live_empty, fun h => absurd h List.not_mem_nil⟩⟩

theorem Accounts.perm {ids ids' : List Nat} (h : L.Accounts ids) (hp : ids.Perm ids') :
    L.Accounts ids' :=
  ⟨hp.nodup_iff.mp h.nodup, fun i => (h.live i).trans hp.mem_iff⟩

theorem Accounts.alloc {ids : List Nat} (h : L.Accounts ids) :
    L.alloc.Accounts (L.next :: ids) where
  nodup := by
    refine List.nodup_cons.mpr ⟨fun hmem => ?_, h.nodup⟩
    exact ((h.live _).mpr hmem).ne_next rfl
  live i := by rw [live_alloc, h.live, List.mem_cons, or_comm]

theorem Accounts.free {ids : List Nat} (h : L.Accounts (i :: ids)) :
    ∃ L', L.free i = .ok L' ∧ L'.Accounts ids ∧ L'.freed = i :: L.freed := by
  obtain ⟨hnot, hnodup⟩ := List.nodup_cons.mp h.nodup
  obtain ⟨L', hL', -, hfreed⟩ := free_of_live ((h.live i).mpr List.mem_cons_self)
  refine ⟨L', hL', ⟨hnodup, fun j => ?_⟩, hfreed⟩
  rw [live_free hL', h.live, List.mem_cons]
  constructor
  · rintro ⟨rfl | hj, hne⟩
    · exact absurd rfl hne
    · exact hj
  · intro hj
    exact ⟨Or.inr hj, fun heq => hnot (heq ▸ hj)⟩

/-- A number given back is counted once, here and for good. -/
theorem count_freed (h : i ∈ L.freed) : L.freed.count i = 1 :=
  by rw [L.nodup.count, if_pos h]

end Ledger

/-! ## Owned blocks, and pointers to them -/

/-- A block the program holds a pointer to: its number and what it holds. -/
structure Owned (β : Type) where
  id : Nat
  val : β

namespace Owned

variable {β : Type} {L : Ledger} {p : Option (Owned β)} {o : Owned β} {v : β}

/-- The block numbers a nullable pointer stands for: none or one. -/
def ids (p : Option (Owned β)) : List Nat := (p.map Owned.id).toList

@[simp] theorem ids_some : ids (some o) = [o.id] := rfl

/-- The access `*p`. -/
def deref (L : Ledger) : Option (Owned β) → Exec (Owned β)
  | none => .error .nullDeref
  | some o => if L.Live o.id then .ok o else .error .useAfterFree

theorem deref_eq_ok : deref L p = .ok o ↔ p = some o ∧ L.Live o.id := by
  cases p with
  | none => simp [deref]
  | some q =>
    simp only [deref, Option.some.injEq]
    by_cases h : L.Live q.id
    · rw [if_pos h, Except.ok.injEq]
      exact ⟨fun e => ⟨e, e ▸ h⟩, fun e => e.1⟩
    · rw [if_neg h]
      refine ⟨fun e => absurd e (by simp), fun ⟨e, hl⟩ => ?_⟩
      rw [e] at h
      exact absurd hl h

theorem deref_of_live (h : L.Live o.id) : deref L (some o) = .ok o := if_pos h

/-- The block an array pointer passed on to a reader stands for. Null has no cell to read. -/
def pointee {α : Type} (L : Ledger) : Option (Owned (Block α)) → Exec (Block α)
  | none => .ok .empty
  | some o => if L.Live o.id then .ok o.val else .error .useAfterFree

theorem pointee_of_live {α : Type} {o : Owned (Block α)} (h : L.Live o.id) :
    pointee L (some o) = .ok o.val := if_pos h

/-- `free(p)` for a pointer that may be null: freeing null does nothing. -/
def release (L : Ledger) : Option (Owned β) → Exec Ledger
  | none => .ok L
  | some o => L.free o.id

/-- Giving back what a pointer holds, when the ledger accounts for it. -/
theorem release_ok {rest : List Nat} (h : L.Accounts (ids p ++ rest)) :
    ∃ L', release L p = .ok L' ∧ L'.Accounts rest ∧ L'.freed = ids p ++ L.freed := by
  cases p with
  | none => exact ⟨L, rfl, h, rfl⟩
  | some o => exact h.free

end Owned

end CCore
