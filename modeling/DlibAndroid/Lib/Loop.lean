import DlibAndroid.Lib.Exec
import Mathlib.Data.List.Nodup

/-!
# Loops

`for (i = first; i <= last; ++i)` runs over a list, `upTo first last`.

A loop that is left by `break` goes round as long as its body gives a next state. `rounds` goes
round so often at most; `rounds_ended` is the rule that a number of rounds is enough, from a rank
that every round lowers, so that the bound is no part of what the loop does.

What such a loop returns, it returns as an `Option` when its body may fault: `none` when the rounds
were over before the loop was. `thenRun` goes on with what a loop has returned.
-/

set_option autoImplicit false

namespace CCore

variable {σ τ : Type} {round : σ → Option σ} {n : Nat} {s t : σ}

/-! ## Counting upwards -/

section UpTo

variable {first last mid i : Int}

/-- The values of `for (long i = first; i <= last; ++i)`. -/
def upTo (first last : Int) : List Int :=
  (List.range (last + 1 - first).toNat).map fun k : Nat => first + k

theorem mem_upTo : i ∈ upTo first last ↔ first ≤ i ∧ i ≤ last := by
  rw [upTo, List.mem_map]
  constructor
  · rintro ⟨k, hk, rfl⟩
    rw [List.mem_range] at hk
    omega
  · rintro ⟨hfirst, hlast⟩
    exact ⟨(i - first).toNat, List.mem_range.mpr (by omega), by omega⟩

theorem nodup_upTo (first last : Int) : (upTo first last).Nodup :=
  List.Nodup.map (fun a b h => by simpa using h) List.nodup_range

/-- A loop in two parts. -/
theorem upTo_append (h : first ≤ mid) (h' : mid ≤ last + 1) :
    upTo first (mid - 1) ++ upTo mid last = upTo first last := by
  have hlength :
      (last + 1 - first).toNat = (mid - 1 + 1 - first).toNat + (last + 1 - mid).toNat := by
    omega
  rw [upTo, upTo, upTo, hlength, List.range_add, List.map_append, List.map_map]
  refine congrArg _ (List.map_congr_left fun k _ => ?_)
  simp only [Function.comp_apply]
  omega

end UpTo

/-! ## `while (true)` -/

/-- `while (true) { … }`, at most `n` times round; `none` is `break`. -/
def rounds (round : σ → Option σ) : Nat → σ → σ
  | 0, s => s
  | n + 1, s =>
    match round s with
    | none => s
    | some t => rounds round n t

theorem rounds_break (h : round s = none) : rounds round n s = s := by
  cases n with
  | zero => rfl
  | succ n => rw [rounds, h]

theorem rounds_next (h : round s = some t) : rounds round (n + 1) s = rounds round n t := by
  rw [rounds, h]

/-- **The rank rule.** If every round that starts inside the invariant ends inside it, further down
in rank, then as many rounds as the rank says reach the `break`. -/
theorem rounds_ended (I : σ → Prop) (rank : σ → Nat)
    (hround : ∀ s t, I s → round s = some t → I t ∧ rank t < rank s) (hs : I s)
    (hrank : rank s ≤ n) : I (rounds round n s) ∧ round (rounds round n s) = none := by
  induction n generalizing s with
  | zero =>
    refine ⟨hs, ?_⟩
    cases hnext : round s with
    | none => exact hnext
    | some t => exact absurd (Nat.lt_of_lt_of_le (hround s t hs hnext).2 hrank) (Nat.not_lt_zero _)
  | succ n ih =>
    cases hnext : round s with
    | none =>
      rw [rounds_break hnext]
      exact ⟨hs, hnext⟩
    | some t =>
      obtain ⟨ht, hlt⟩ := hround s t hs hnext
      rw [rounds_next hnext]
      exact ih ht (Nat.le_of_lt_succ (Nat.lt_of_lt_of_le hlt hrank))

section ThenRun

variable {α β : Type} {x : Exec (Option α)} {f : α → Exec (Option β)} {a : α}

def thenRun (x : Exec (Option α)) (f : α → Exec (Option β)) : Exec (Option β) :=
  x >>= fun
    | none => pure none
    | some a => f a

theorem thenRun_some (h : x = .ok (some a)) : thenRun x f = f a := by
  rw [thenRun, h]
  rfl

end ThenRun

end CCore
