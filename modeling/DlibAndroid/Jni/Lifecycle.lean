import DlibAndroid.Lib.Ledger

/-!
# The life of the native detector

`Java_com_lmy_dlib_Dlib.cpp` keeps one pointer for the whole process, and every Kotlin handle works
on it. `init` creates an object only while the pointer is null; `release` deletes the object and
leaves the pointer where it is.

What the pointer can be is the three-state machine `Pointer`: null, then live, then freed, and
nothing leads back (`Pointer.next`). The code refines it (`step_simulates`), so which interleavings
are safe is a question about words of calls. `lifecycleLaw_iff` answers it for all of them: the law
holds of an interleaving exactly when nothing but `init` follows its first `release`.

The objects themselves are left open: `make` stands for `new Dlib(filename)`, and a detection is
any function on the object. Nothing here depends on what they do.
-/

set_option autoImplicit false

namespace DlibAndroid.Jni

open CCore

/-- The process: the static `detector`, and the ledger of the objects `new Dlib` has handed out. -/
structure Process (O : Type) where
  detector : Option (Owned O)
  objects : Ledger

/-- A call through the bridge. `use` stands for `detect`, `detectTexture` and `trackTexture`. -/
inductive Call (F O : Type) where
  | init (filename : F)
  | use (method : O → O)
  | release

variable {F O H : Type} {make : F → O} {p p' : Process O}

/-- The library as it is loaded. -/
def Process.start : Process O := ⟨none, .empty⟩

/-- `Java_com_lmy_dlib_Dlib_init` -/
def init (make : F → O) (filename : F) (p : Process O) : Exec (Process O) :=
  match p.detector with
  | none => .ok ⟨some ⟨p.objects.next, make filename⟩, p.objects.alloc⟩
  | some _ => .ok p

/-- `Java_com_lmy_dlib_Dlib_detect`, `_detectTexture` and `_trackTexture`: `detector->…` -/
def use (method : O → O) (p : Process O) : Exec (Process O) := do
  let o ← Owned.deref p.objects p.detector
  pure { p with detector := some ⟨o.id, method o.val⟩ }

/-- `Java_com_lmy_dlib_Dlib_release`: `if (detector) delete detector;` -/
def release (p : Process O) : Exec (Process O) := do
  let objects ← Owned.release p.objects p.detector
  pure { p with objects := objects }

def step (make : F → O) : Call F O → Process O → Exec (Process O)
  | .init filename => init make filename
  | .use method => use method
  | .release => release

/-! ## The pointer as a state machine -/

inductive Pointer where
  | null
  | live
  | freed
  deriving DecidableEq

/-- What a call makes of the pointer; `none` is a call through a dead object. -/
def Pointer.next : Pointer → Call F O → Option Pointer
  | .null, .init _ => some .live
  | .null, .use _ => none
  | .null, .release => some .null
  | .live, .init _ => some .live
  | .live, .use _ => some .live
  | .live, .release => some .freed
  | .freed, .init _ => some .freed
  | .freed, .use _ => none
  | .freed, .release => none

/-- The state of the process, as the abstract machine sees it. At most one object is ever made. -/
def Process.At (p : Process O) : Pointer → Prop
  | .null => p.detector = none ∧ p.objects.next = 0 ∧ p.objects.freed = []
  | .live => ∃ o, p.detector = some ⟨0, o⟩ ∧ p.objects.next = 1 ∧ p.objects.freed = []
  | .freed => ∃ o, p.detector = some ⟨0, o⟩ ∧ p.objects.next = 1 ∧ p.objects.freed = [0]

theorem start_at : (Process.start : Process O).At .null := ⟨rfl, rfl, rfl⟩

/-- `p'` is where the call takes `p`, both as the code runs it and in the abstract machine. -/
def Simulates (make : F → O) (c : Call F O) (p : Process O) (s : Pointer) : Prop :=
  (∃ s' p', s.next c = some s' ∧ step make c p = .ok p' ∧ p'.At s') ∨
    (s.next c = none ∧ ∃ e, step make c p = .error e)

theorem simulates_null (c : Call F O) (h : p.At .null) : Simulates make c p .null := by
  obtain ⟨hptr, hnext, hfreed⟩ := h
  cases c with
  | init filename =>
    have hrun : step make (.init filename) p =
        .ok ⟨some ⟨p.objects.next, make filename⟩, p.objects.alloc⟩ := by
      rw [step, init, hptr]
    rw [hnext] at hrun
    exact Or.inl ⟨.live, _, rfl, hrun, make filename, rfl, congrArg (· + 1) hnext, hfreed⟩
  | use method => exact Or.inr ⟨rfl, .nullDeref, by rw [step, use, hptr]; rfl⟩
  | release =>
    have hrun : step make .release p = .ok ⟨none, p.objects⟩ := by
      obtain ⟨detector, objects⟩ := p
      obtain rfl : detector = none := hptr
      rfl
    exact Or.inl ⟨.null, _, rfl, hrun, rfl, hnext, hfreed⟩

theorem simulates_live (c : Call F O) (h : p.At .live) : Simulates make c p .live := by
  obtain ⟨o, hptr, hnext, hfreed⟩ := h
  have hlive : p.objects.Live 0 := ⟨by rw [hnext]; exact Nat.one_pos, by rw [hfreed]; simp⟩
  cases c with
  | init filename =>
    have hrun : step make (.init filename) p = .ok p := by rw [step, init, hptr]
    exact Or.inl ⟨.live, p, rfl, hrun, o, hptr, hnext, hfreed⟩
  | use method =>
    have hderef : Owned.deref p.objects (some ⟨0, o⟩) = .ok ⟨0, o⟩ := if_pos hlive
    have hrun : step make (.use method) p = .ok ⟨some ⟨0, method o⟩, p.objects⟩ := by
      rw [step, use, hptr, hderef]
      rfl
    exact Or.inl ⟨.live, _, rfl, hrun, method o, rfl, hnext, hfreed⟩
  | release =>
    obtain ⟨L, hL, hLnext, hLfreed⟩ := Ledger.free_of_live hlive
    have hfree : Owned.release p.objects (some ⟨0, o⟩) = .ok L := hL
    have hrun : step make .release p = .ok ⟨some ⟨0, o⟩, L⟩ := by
      rw [step, release, hptr, hfree]
      rfl
    exact Or.inl ⟨.freed, _, rfl, hrun, o, rfl, hLnext.trans hnext, by rw [hLfreed, hfreed]⟩

theorem simulates_freed (c : Call F O) (h : p.At .freed) : Simulates make c p .freed := by
  obtain ⟨o, hptr, hnext, hfreed⟩ := h
  have hdead : ¬ p.objects.Live 0 := fun hl => hl.2 (by rw [hfreed]; exact List.mem_cons_self)
  cases c with
  | init filename =>
    have hrun : step make (.init filename) p = .ok p := by rw [step, init, hptr]
    exact Or.inl ⟨.freed, p, rfl, hrun, o, hptr, hnext, hfreed⟩
  | use method =>
    have hderef : Owned.deref p.objects (some ⟨0, o⟩) = .error .useAfterFree := if_neg hdead
    refine Or.inr ⟨rfl, .useAfterFree, ?_⟩
    rw [step, use, hptr, hderef]
    rfl
  | release =>
    have hfree : Owned.release p.objects (some ⟨0, o⟩) = .error .doubleFree := dif_neg hdead
    refine Or.inr ⟨rfl, .doubleFree, ?_⟩
    rw [step, release, hptr, hfree]
    rfl

/-- **One call.** The code takes the step the abstract machine takes, and faults where it has
none. -/
theorem step_simulates (make : F → O) (c : Call F O) (p : Process O) (s : Pointer) (h : p.At s) :
    Simulates make c p s := by
  cases s with
  | null => exact simulates_null c h
  | live => exact simulates_live c h
  | freed => exact simulates_freed c h

/-- A detection goes through exactly while the abstract machine says `live`. -/
theorem use_ok_iff (make : F → O) {method : O → O} {s : Pointer} (h : p.At s) :
    (∃ p', use method p = .ok p') ↔ s = .live := by
  rcases step_simulates make (.use method) p s h with ⟨s', p', hs, hp, -⟩ | ⟨hs, e, he⟩
  · refine ⟨fun _ => ?_, fun _ => ⟨p', hp⟩⟩
    cases s with
    | null => cases hs
    | live => rfl
    | freed => cases hs
  · refine ⟨fun ⟨p', hp⟩ => ?_, fun hlive => ?_⟩
    · cases he.symm.trans hp
    · rw [hlive] at hs
      cases hs

/-- Something made has not been deleted exactly while it says `live`. -/
theorem all_deleted_iff {s : Pointer} (h : p.At s) :
    (∀ i, i < p.objects.next → i ∈ p.objects.freed) ↔ s ≠ .live := by
  cases s with
  | null =>
    obtain ⟨-, hnext, -⟩ := h
    refine ⟨fun _ => by simp, fun _ i hi => ?_⟩
    rw [hnext] at hi
    exact absurd hi (Nat.not_lt_zero i)
  | live =>
    obtain ⟨o, -, hnext, hfreed⟩ := h
    refine ⟨fun hall => ?_, fun hne => absurd rfl hne⟩
    have hzero := hall 0 (by rw [hnext]; exact Nat.one_pos)
    rw [hfreed] at hzero
    exact absurd hzero List.not_mem_nil
  | freed =>
    obtain ⟨o, -, hnext, hfreed⟩ := h
    refine ⟨fun _ => by simp, fun _ i hi => ?_⟩
    rw [hnext, Nat.lt_one_iff] at hi
    rw [hi, hfreed]
    exact List.mem_cons_self

/-! ## Interleavings -/

/-- The calls of one handle, in order. -/
def callsOf [DecidableEq H] (h : H) (trace : List (H × Call F O)) : List (Call F O) :=
  (trace.filter fun e => e.1 = h).map Prod.snd

/-- What one handle may call next, and whether it is between its `init` and its `release` then:
`init`, any number of detections, `release`, and again. -/
def Call.advance : Bool → Call F O → Option Bool
  | false, .init _ => some true
  | true, .use _ => some true
  | true, .release => some false
  | _, _ => none

/-- Where a handle stands after its calls, if they follow the protocol. -/
def standing (calls : List (Call F O)) : Option Bool := calls.foldlM Call.advance false

/-- Every handle follows the protocol; how they interleave is free. -/
def Conforms [DecidableEq H] (trace : List (H × Call F O)) : Prop :=
  ∀ h : H, (standing (callsOf h trace)).isSome

def run (make : F → O) (trace : List (H × Call F O)) : Exec (Process O) :=
  forEach trace (fun e => step make e.2) .start

/-- The law, at every point of the interleaving: no call has gone through a null or a dead pointer
and nothing was deleted twice (the run has not faulted), and whenever no handle is between `init`
and `release`, every object ever made has been deleted. -/
def LifecycleLaw [DecidableEq H] (make : F → O) (trace : List (H × Call F O)) : Prop :=
  ∀ before, before <+: trace → ∃ p, run make before = .ok p ∧
    ((∀ h, standing (callsOf h before) = some false) →
      ∀ i, i < p.objects.next → i ∈ p.objects.freed)

def Call.isInit : Call F O → Bool
  | .init _ => true
  | _ => false

/-- Nothing but `init` follows the first `release`. -/
def OnlyInitsAfterRelease (calls : List (Call F O)) : Prop :=
  ∀ before after, calls = before ++ .release :: after → ∀ c ∈ after, c.isInit = true

/-! ## Words of calls -/

section Words

variable {c : Call F O} {calls : List (Call F O)} {s : Pointer}

theorem onlyInits_cons (hc : c.advance true ≠ some false) :
    OnlyInitsAfterRelease (c :: calls) ↔ OnlyInitsAfterRelease calls := by
  constructor
  · intro h before after heq
    exact h (c :: before) after (by rw [heq]; rfl)
  · intro h before after heq
    cases before with
    | nil =>
      obtain ⟨rfl, -⟩ := List.cons.inj heq
      exact absurd rfl hc
    | cons b before => exact h before after (List.cons.inj heq).2

theorem onlyInits_release :
    OnlyInitsAfterRelease (.release :: calls) ↔ ∀ c ∈ calls, c.isInit = true := by
  constructor
  · intro h
    exact h [] calls rfl
  · intro h before after heq c hc
    cases before with
    | nil =>
      obtain ⟨-, rfl⟩ := List.cons.inj heq
      exact h c hc
    | cons b before =>
      apply h c
      rw [(List.cons.inj heq).2]
      exact List.mem_append_right _ (List.mem_cons_of_mem _ hc)

/-- A dead object tolerates `init` and nothing else. -/
theorem from_freed : calls.foldlM Pointer.next .freed = some s ↔
    s = .freed ∧ ∀ c ∈ calls, c.isInit = true := by
  induction calls with
  | nil =>
    constructor
    · intro h
      exact ⟨(Option.some.inj h).symm, fun c hc => absurd hc List.not_mem_nil⟩
    · rintro ⟨rfl, -⟩
      rfl
  | cons c calls ih =>
    rw [List.foldlM_cons]
    cases c with
    | init filename => simpa [Pointer.next, Call.isInit] using ih
    | use method => simp [Pointer.next, Call.isInit]
    | release => simp [Pointer.next, Call.isInit]

theorem from_live_isSome :
    (calls.foldlM Pointer.next .live).isSome ↔ OnlyInitsAfterRelease calls := by
  induction calls with
  | nil => exact ⟨fun _ before after heq => absurd heq (by simp), fun _ => rfl⟩
  | cons c calls ih =>
    rw [List.foldlM_cons]
    cases c with
    | init filename => exact ih.trans (onlyInits_cons (by simp [Call.advance])).symm
    | use method => exact ih.trans (onlyInits_cons (by simp [Call.advance])).symm
    | release =>
      rw [onlyInits_release, Option.isSome_iff_exists]
      constructor
      · rintro ⟨s, hs⟩
        exact (from_freed.mp hs).2
      · intro h
        exact ⟨.freed, from_freed.mpr ⟨rfl, h⟩⟩

/-- An object still live has not been released. -/
theorem no_release_of_live (h : calls.foldlM Pointer.next .live = some .live) :
    .release ∉ calls := by
  induction calls with
  | nil => exact List.not_mem_nil
  | cons c calls ih =>
    rw [List.foldlM_cons] at h
    cases c with
    | init filename =>
      intro hmem
      rcases List.mem_cons.mp hmem with heq | hmem
      · cases heq
      · exact ih h hmem
    | use method =>
      intro hmem
      rcases List.mem_cons.mp hmem with heq | hmem
      · cases heq
      · exact ih h hmem
    | release => exact absurd (from_freed.mp h).1 (by simp)

/-- Without a `release`, a handle that has called `init` stays in its round. -/
theorem standing_true {b : Bool} (h : calls.foldlM Call.advance true = some b)
    (hnone : .release ∉ calls) : b = true := by
  induction calls with
  | nil => exact (Option.some.inj h).symm
  | cons c calls ih =>
    rw [List.foldlM_cons] at h
    cases c with
    | init filename => exact absurd h (by simp [Call.advance])
    | use method => exact ih h fun hmem => hnone (List.mem_cons_of_mem _ hmem)
    | release => exact absurd List.mem_cons_self hnone

theorem run_simulates (make : F → O) (trace : List (H × Call F O)) :
    (∃ s p, (trace.map Prod.snd).foldlM Pointer.next .null = some s ∧
      run make trace = .ok p ∧ p.At s) ∨
    ((trace.map Prod.snd).foldlM Pointer.next .null = none ∧
      ∃ fault, run make trace = .error fault) := by
  have hstep : ∀ (e : H × Call F O) (p : Process O) (s : Pointer), p.At s →
      (∃ s' p', s.next e.2 = some s' ∧ step make e.2 p = .ok p' ∧ p'.At s') ∨
        (s.next e.2 = none ∧ ∃ fault, step make e.2 p = .error fault) :=
    fun e p s hp => step_simulates make e.2 p s hp
  rw [List.foldlM_map]
  exact forEach_simulates Process.At hstep start_at

end Words

/-! ## The law -/

section Law

variable [DecidableEq H] {trace before : List (H × Call F O)} {h : H} {e : H × Call F O}

theorem callsOf_cons_self : callsOf e.1 (e :: trace) = e.2 :: callsOf e.1 trace := by
  simp [callsOf]

theorem Conforms.prefix (hpre : before <+: trace) (htrace : Conforms trace) : Conforms before := by
  intro h
  obtain ⟨rest, rfl⟩ := hpre
  have hall := htrace h
  rw [callsOf, List.filter_append, List.map_append, standing, List.foldlM_append] at hall
  exact Option.isSome_of_isSome_bind hall

theorem OnlyInitsAfterRelease.prefix {calls rest : List (Call F O)}
    (h : OnlyInitsAfterRelease (calls ++ rest)) : OnlyInitsAfterRelease calls := by
  intro before after heq c hc
  refine h before (after ++ rest) ?_ c (List.mem_append_left _ hc)
  rw [heq, List.append_assoc, List.cons_append]

/-- The first call of all is somebody's `init`. -/
theorem Conforms.first (htrace : Conforms (e :: trace)) : ∃ filename, e.2 = .init filename := by
  have hfirst := htrace e.1
  rw [callsOf_cons_self, standing, List.foldlM_cons] at hfirst
  cases hc : e.2 with
  | init filename => exact ⟨filename, rfl⟩
  | use method => rw [hc] at hfirst; exact absurd hfirst (by simp [Call.advance])
  | release => rw [hc] at hfirst; exact absurd hfirst (by simp [Call.advance])

/-- While the object is live, whoever made the first call has not finished. -/
theorem not_idle_of_live (htrace : Conforms trace)
    (hlive : (trace.map Prod.snd).foldlM Pointer.next .null = some .live) :
    ∃ h, standing (callsOf h trace) ≠ some false := by
  cases trace with
  | nil => exact absurd hlive (by simp)
  | cons e trace =>
    obtain ⟨filename, he⟩ := htrace.first
    refine ⟨e.1, fun hidle => ?_⟩
    rw [List.map_cons, List.foldlM_cons, he] at hlive
    have hnone := no_release_of_live hlive
    rw [callsOf_cons_self, standing, List.foldlM_cons, he] at hidle
    have hcalls : .release ∉ callsOf e.1 trace := by
      intro hmem
      obtain ⟨e', he', heq⟩ := List.mem_map.mp hmem
      exact hnone (heq ▸ List.mem_map_of_mem (List.mem_filter.mp he').1)
    exact absurd (standing_true hidle hcalls) (by simp)

theorem run_ok_iff (make : F → O) (htrace : Conforms trace) :
    (∃ p, run make trace = .ok p) ↔ OnlyInitsAfterRelease (trace.map Prod.snd) := by
  have hword : ((trace.map Prod.snd).foldlM Pointer.next .null).isSome ↔
      OnlyInitsAfterRelease (trace.map Prod.snd) := by
    cases trace with
    | nil => exact ⟨fun _ before after heq => absurd heq (by simp), fun _ => rfl⟩
    | cons e trace =>
      obtain ⟨filename, he⟩ := htrace.first
      rw [List.map_cons, List.foldlM_cons, he, onlyInits_cons (by simp [Call.advance])]
      exact from_live_isSome
  rw [← hword]
  rcases run_simulates make trace with ⟨s, p, hs, hp, -⟩ | ⟨hs, fault, hfault⟩
  · rw [hs, hp]
    exact ⟨fun _ => rfl, fun _ => ⟨p, rfl⟩⟩
  · rw [hs, hfault]
    exact ⟨fun ⟨p, hp⟩ => absurd hp (by simp), fun hsome => absurd hsome (by simp)⟩

/-- **When the law holds of an interleaving.** -/
theorem lifecycleLaw_iff (make : F → O) (htrace : Conforms trace) :
    LifecycleLaw make trace ↔ OnlyInitsAfterRelease (trace.map Prod.snd) := by
  constructor
  · intro hlaw
    obtain ⟨p, hp, -⟩ := hlaw trace List.prefix_rfl
    exact (run_ok_iff make htrace).mp ⟨p, hp⟩
  · rintro honly before ⟨rest, rfl⟩
    have hbefore := htrace.prefix (List.prefix_append before rest)
    rw [List.map_append] at honly
    obtain ⟨p, hp⟩ := (run_ok_iff make hbefore).mpr honly.prefix
    refine ⟨p, hp, fun hidle => ?_⟩
    rcases run_simulates make before with ⟨s, p', hs, hp', hat⟩ | ⟨-, fault, hfault⟩
    · obtain rfl := Except.ok.inj (hp.symm.trans hp')
      refine (all_deleted_iff hat).mpr fun hlive => ?_
      rw [hlive] at hs
      obtain ⟨h, hbusy⟩ := not_idle_of_live hbefore hs
      exact absurd (hidle h) hbusy
    · rw [hp] at hfault
      cases hfault

end Law

/-! ## Two interleavings -/

/-- Two handles; the second one still calls `init` after the first has released. -/
def onceOver : List (Bool × Call Unit Nat) :=
  [(false, .init ()), (false, .use Nat.succ), (false, .release), (true, .init ())]

/-- One handle, starting a second round. -/
def secondRound : List (Bool × Call Unit Nat) :=
  [(false, .init ()), (false, .release), (false, .init ()), (false, .use Nat.succ)]

theorem conforms_onceOver : Conforms onceOver := by
  intro h
  cases h <;> rfl

theorem conforms_secondRound : Conforms secondRound := by
  intro h
  cases h <;> rfl

theorem lifecycleLaw_onceOver : LifecycleLaw (fun _ => 0) onceOver := by
  apply (lifecycleLaw_iff (fun _ => 0) conforms_onceOver).mpr
  apply (onlyInits_cons (by simp [Call.advance])).mpr
  apply (onlyInits_cons (by simp [Call.advance])).mpr
  apply onlyInits_release.mpr
  intro c hc
  rw [List.mem_singleton.mp hc]
  rfl

theorem lifecycleLaw_fails_secondRound :
    Conforms secondRound ∧ ¬ LifecycleLaw (fun _ => 0) secondRound := by
  refine ⟨conforms_secondRound, fun hlaw => ?_⟩
  obtain ⟨p, hp, -⟩ := hlaw secondRound List.prefix_rfl
  have hfault : run (fun _ => 0) secondRound = .error .useAfterFree := rfl
  rw [hfault] at hp
  cases hp

end DlibAndroid.Jni
