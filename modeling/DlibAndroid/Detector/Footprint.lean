import DlibAndroid.Detector.Isolation

/-!
# What a run costs

The ledger counts the blocks the wrapper obtains and gives back. `FootprintLaw` is the constant
footprint one expects: between calls the live blocks are those in the fields, and after the
destructor there are none.

It holds of the object nobody calls (`footprintLaw_iff`). Every completed call, of any kind and for
any size, adds one block that no field holds and no later call nor the destructor gives back, the
two-cell result of `calculateSample` (`run_live`, `destroy_live`).
-/

set_option autoImplicit false

namespace DlibAndroid.Dlib

open CCore

variable {M : Type} {env : Env M} {model : M} {d d' : Dlib M} {leaked : List Nat}
  {calls : List Call}

/-- After every prefix of the run the live blocks are those of the fields, and the destructor at
the end leaves none. Nothing is released twice: that would be a fault. -/
def FootprintLaw (env : Env M) (model : M) (calls : List Call) : Prop :=
  (∀ before, before <+: calls → ∃ d, run env model before = .ok d ∧
    ∀ i, d.heap.Live i ↔ i ∈ d.blocks) ∧
  ∃ d d', run env model calls = .ok d ∧ destroy d = .ok d' ∧ ∀ i, ¬ d'.heap.Live i

/-- The destructor gives back the blocks of the fields, each once, and nothing else. -/
theorem destroy_live (hd : d.Owns leaked) :
    ∃ d', destroy d = .ok d' ∧ ∀ i, d'.heap.Live i ↔ i ∈ leaked := by
  have hheap := hd.heap
  rw [blocks, List.append_assoc, List.append_assoc, List.append_assoc] at hheap
  obtain ⟨L₁, h₁, hheap, -⟩ := Owned.release_ok hheap
  obtain ⟨L₂, h₂, hheap, -⟩ := Owned.release_ok hheap
  obtain ⟨L₃, h₃, hheap, -⟩ := Owned.release_ok hheap
  obtain ⟨L₄, h₄, hheap, -⟩ := Owned.release_ok hheap
  refine ⟨{ d with
    sample := none, frame := none, faceTrackRect := none, textureBufferSize := 0,
    textureBuffer := none, heap := L₄ }, ?_, hheap.live⟩
  rw [destroy, h₁, ok_bind, h₂, ok_bind, h₃, ok_bind, h₄]
  rfl

/-- **The footprint of a run**: the blocks of the fields, and one more for every call. -/
theorem run_live (h : run env model calls = .ok d) :
    ∃ lost, lost.length = calls.length ∧ (d.blocks ++ lost).Nodup ∧
      ∀ i, d.heap.Live i ↔ i ∈ d.blocks ∨ i ∈ lost := by
  obtain ⟨lost, hlen, hd⟩ := run_owns h
  exact ⟨lost, hlen, hd.heap.nodup, fun i => by rw [hd.heap.live, List.mem_append]⟩

/-- One call is one lost block. -/
theorem lost_of_ne_nil (h : run env model calls = .ok d) (hne : calls ≠ []) :
    ∃ i, d.heap.Live i ∧ i ∉ d.blocks := by
  obtain ⟨lost, hlen, hnodup, hall⟩ := run_live h
  cases lost with
  | nil => exact absurd (List.length_eq_zero_iff.mp hlen.symm) hne
  | cons i lost =>
    have hdisjoint := (List.nodup_append.mp hnodup).2.2
    exact ⟨i, (hall i).mpr (Or.inr List.mem_cons_self), fun hin =>
      hdisjoint i hin i List.mem_cons_self rfl⟩

/-- **When the footprint is constant**: while nothing is called. -/
theorem footprintLaw_iff (env : Env M) (model : M) (calls : List Call) :
    FootprintLaw env model calls ↔ calls = [] := by
  constructor
  · rintro ⟨hbetween, -⟩
    obtain ⟨d, hrun, hlive⟩ := hbetween calls List.prefix_rfl
    by_contra hne
    obtain ⟨i, hi, hnot⟩ := lost_of_ne_nil hrun hne
    exact hnot ((hlive i).mp hi)
  · rintro rfl
    have hnew := new_owns model
    obtain ⟨d', hdestroy, hnone⟩ := destroy_live hnew
    refine ⟨fun before hbefore => ?_, new model, d', rfl, hdestroy, fun i hi =>
      List.not_mem_nil ((hnone i).mp hi)⟩
    rw [List.prefix_nil.mp hbefore]
    exact ⟨new model, rfl, fun i => by rw [hnew.heap.live, List.append_nil]⟩

/-- A run of one call completes, and a block is lost. -/
theorem footprintLaw_fails_largeCall :
    (∃ d i, run (sameAnswer [⟨30, 40, 120, 130⟩]) () [largeCall] = .ok d ∧ d.heap.Live i ∧
      i ∉ d.blocks) ∧
    ¬ FootprintLaw (sameAnswer [⟨30, 40, 120, 130⟩]) () [largeCall] := by
  obtain ⟨d, hrun⟩ := run_largeCall
  obtain ⟨i, hi, hnot⟩ := lost_of_ne_nil hrun (by simp)
  refine ⟨⟨d, i, hrun, hi, hnot⟩, ?_⟩
  rintro ⟨hbetween, -⟩
  obtain ⟨d', hrun', hlive⟩ := hbetween [largeCall] List.prefix_rfl
  obtain rfl := Except.ok.inj (hrun.symm.trans hrun')
  exact hnot ((hlive i).mp hi)

end DlibAndroid.Dlib
