import DlibAndroid.Jni.Lifecycle
import Mathlib.Data.List.Induction
import Mathlib.Data.List.Infix

/-!
# `FaceFilter` — start-up against tear-down

The sample app's filter loads the model in a background task, draws from the GL thread once the
flag `inited` is set, and releases the detector when its screen closes. The flag and the task are
fields of the instance; the detector behind them is the one pointer of the process
(`Jni/Lifecycle.lean`), and no step looks at it. So the instances take their steps as if they were
alone (`FaceFilter.step`), and the detector gets the native calls of all of them in the order of
the trace (`State.step`).

Two things go wrong. A `release` that overtakes the load finds nothing to delete, and the object
the load then makes is never deleted. And an instance created after one has been released gets
through `init` without an object, sets its flag, and draws through the deleted one.
`startUpLaw_iff` says of which interleavings this is true, by the order of the steps alone.
-/

set_option autoImplicit false

namespace DlibAndroid.App

open CCore

/-! ## One instance -/

/-- Where the background task stands. -/
inductive Task where
  | pending
  /-- `if (inited) return` is behind it. -/
  | tested
  /-- `dlib.init` has returned. -/
  | initialised
  | finished
  /-- Taken back before it has begun. -/
  | cancelled
  deriving DecidableEq

/-- `FaceFilter`. `drawing` is set between the test of `inited` in `draw` and the native call. -/
structure FaceFilter where
  inited : Bool
  initTask : Task
  drawing : Bool
  released : Bool
  deriving DecidableEq

/-- The atomic steps of an instance: three of the task, two of `draw`, and `release`. What
`cancel(true)` does to a task that has not begun is not in the hands of the app, so `release` says
whether it took the task back. -/
inductive Act (O : Type) where
  | testInited
  | init
  | setInited
  | readInited
  | trackTexture (method : O → O)
  | release (cancelled : Bool)

variable {F O : Type}

namespace FaceFilter

/-- The constructor: the task is handed to the executor. -/
def new : FaceFilter := ⟨false, .pending, false, false⟩

/-- One step; `none` where the instance is not about to take it. `draw` and `release` come from
one thread, and nothing is drawn after the release. Cancelling does nothing to a task that has
begun. -/
def step : Act O → FaceFilter → Option FaceFilter
  | .testInited, f =>
      if f.initTask = .pending then
        some { f with initTask := if f.inited then .finished else .tested }
      else none
  | .init, f => if f.initTask = .tested then some { f with initTask := .initialised } else none
  | .setInited, f =>
      if f.initTask = .initialised then some { f with inited := true, initTask := .finished }
      else none
  | .readInited, f =>
      if f.released = false ∧ f.drawing = false then some { f with drawing := f.inited } else none
  | .trackTexture _, f => if f.drawing then some { f with drawing := false } else none
  | .release cancelled, f =>
      if f.released = false ∧ f.drawing = false ∧ (cancelled → f.initTask = .pending) then
        some { f with
          released := true, initTask := if cancelled then .cancelled else f.initTask }
      else none

/-- Released, and its task is not going to do anything any more. -/
def Over (f : FaceFilter) : Prop :=
  f.released = true ∧ (f.initTask = .finished ∨ f.initTask = .cancelled)

instance (f : FaceFilter) : Decidable f.Over := inferInstanceAs (Decidable (_ ∧ _))

end FaceFilter

/-- The native call of a step. -/
def Act.call (path : F) : Act O → Option (Jni.Call F O)
  | .init => some (.init path)
  | .trackTexture method => some (.use method)
  | .release _ => some .release
  | _ => none

/-! ## All instances, and the detector -/

inductive Step (O : Type) where
  | create
  | act (i : Nat) (a : Act O)

/-- The instances, in the order they were created, and the native side. -/
structure State (O : Type) where
  filters : List FaceFilter
  native : Jni.Process O

/-- What a step does to the instances. -/
def advance : Step O → List FaceFilter → Option (List FaceFilter)
  | .create, filters => some (filters ++ [.new])
  | .act i a, filters => do
    let f ← filters[i]?
    let f' ← f.step a
    pure (filters.set i f')

def Step.call (path : F) : Step O → Option (Jni.Call F O)
  | .create => none
  | .act _ a => a.call path

/-- What a step does to the native side. Past a call through a dead object the language promises
nothing; here the pointer then stays as it is, so that each call of a trace can be judged by the
pointer it finds. -/
def carry (make : F → O) (call : Option (Jni.Call F O)) (p : Jni.Process O) : Jni.Process O :=
  match call with
  | none => p
  | some c =>
    match Jni.step make c p with
    | .ok p' => p'
    | .error _ => p

def State.step (make : F → O) (path : F) (app : State O) (s : Step O) : Option (State O) :=
  (advance s app.filters).map fun filters => ⟨filters, carry make (s.call path) app.native⟩

/-- The app once the steps of the trace have been taken, if they can be. -/
def run (make : F → O) (path : F) (trace : List (Step O)) : Option (State O) :=
  trace.foldlM (State.step make path) ⟨[], .start⟩

/-- The law, at every point of the trace: a native `trackTexture` finds a live object, and once
every instance is over, every object ever made has been deleted. -/
structure StartUpLaw (make : F → O) (path : F) (trace : List (Step O)) : Prop where
  tracks : ∀ before i method app, before ++ [.act i (.trackTexture method)] <+: trace →
    run make path before = some app → ∃ p, Jni.use method app.native = .ok p
  deleted : ∀ before app, before <+: trace → run make path before = some app →
    (∀ f ∈ app.filters, f.Over) →
    ∀ k, k < app.native.objects.next → k ∈ app.native.objects.freed

/-! ## The order of the steps -/

def Step.isInit : Step O → Bool
  | .act _ .init => true
  | _ => false

def Step.isRelease : Step O → Bool
  | .act _ (.release _) => true
  | _ => false

/-- Some instance was released after some task had called `init`. -/
def ReleasedAfterInit (trace : List (Step O)) : Prop :=
  ∃ before r after, trace = before ++ r :: after ∧ r.isRelease = true ∧
    ∃ s ∈ before, s.isInit = true

/-- No draw makes its call after such a release. -/
def NoLateTrack (trace : List (Step O)) : Prop :=
  ∀ before i method, before ++ [.act i (.trackTexture method)] <+: trace →
    ¬ ReleasedAfterInit before

/-- The instances alone. -/
def schedule (trace : List (Step O)) : Option (List FaceFilter) :=
  trace.foldlM (fun filters s => advance s filters) []

/-- Whenever all instances are over, no task has called `init`, or there was such a release. -/
def NoLateInit (trace : List (Step O)) : Prop :=
  ∀ before filters, before <+: trace → schedule before = some filters →
    (∀ f ∈ filters, f.Over) → (∀ s ∈ before, s.isInit = false) ∨ ReleasedAfterInit before

variable {make : F → O} {path : F} {trace before : List (Step O)} {s : Step O} {app : State O}
  {filters : List FaceFilter}

theorem releasedAfterInit_concat : ReleasedAfterInit (trace ++ [s]) ↔
    ReleasedAfterInit trace ∨ s.isRelease = true ∧ ∃ t ∈ trace, t.isInit = true := by
  constructor
  · rintro ⟨before, r, after, heq, hr, hinit⟩
    rcases List.eq_nil_or_concat after with rfl | ⟨after, t, rfl⟩
    · obtain ⟨rfl, hlast⟩ := List.append_inj' heq rfl
      obtain rfl := List.singleton_inj.mp hlast
      exact Or.inr ⟨hr, hinit⟩
    · rw [List.concat_eq_append, ← List.cons_append, ← List.append_assoc] at heq
      obtain ⟨rfl, -⟩ := List.append_inj' heq rfl
      exact Or.inl ⟨before, r, after, rfl, hr, hinit⟩
  · rintro (⟨before, r, after, rfl, hr, hinit⟩ | ⟨hr, hinit⟩)
    · exact ⟨before, r, after ++ [s], by rw [List.append_assoc, List.cons_append], hr, hinit⟩
    · exact ⟨trace, s, [], rfl, hr, hinit⟩

/-! ## The pointer, from the order of the steps -/

/-- What a step makes of the pointer. -/
def Step.pointer : Step O → Jni.Pointer → Jni.Pointer
  | .act _ .init, .null => .live
  | .act _ (.release _), .live => .freed
  | _, x => x

/-- The native side after a trace. -/
def native (make : F → O) (path : F) (trace : List (Step O)) : Jni.Process O :=
  trace.foldl (fun p s => carry make (s.call path) p) .start

/-- The pointer after a trace. -/
def pointer (trace : List (Step O)) : Jni.Pointer := trace.foldl (fun x s => s.pointer x) .null

theorem native_concat : native make path (trace ++ [s]) =
    carry make (s.call path) (native make path trace) := by
  rw [native, List.foldl_append]
  rfl

theorem pointer_concat : pointer (trace ++ [s]) = s.pointer (pointer trace) := by
  rw [pointer, List.foldl_append]
  rfl

/-- A call takes the native side where the pointer machine goes, or leaves it where it is. -/
theorem carry_at (make : F → O) {p : Jni.Process O} {x : Jni.Pointer} (c : Jni.Call F O)
    (h : p.At x) : (carry make (some c) p).At ((x.next c).getD x) := by
  rcases Jni.step_simulates make c p x h with ⟨x', p', hx, hp, hat⟩ | ⟨hx, e, he⟩
  · rw [hx, carry, hp]
    exact hat
  · rw [hx, carry, he]
    exact h

theorem step_at {p : Jni.Process O} {x : Jni.Pointer} (h : p.At x) :
    (carry make (s.call path) p).At (s.pointer x) := by
  cases s with
  | create => exact h
  | act i a =>
    cases a with
    | testInited => exact h
    | setInited => exact h
    | readInited => exact h
    | init =>
      have hcall := carry_at make (.init path) h
      cases x <;> exact hcall
    | trackTexture method =>
      have hcall := carry_at make (.use method) h
      cases x <;> exact hcall
    | release cancelled =>
      have hcall := carry_at make .release h
      cases x <;> exact hcall

theorem native_at (make : F → O) (path : F) (trace : List (Step O)) :
    (native make path trace).At (pointer trace) := by
  induction trace using List.reverseRecOn with
  | nil => exact Jni.start_at
  | append_singleton trace s ih =>
    rw [native_concat, pointer_concat]
    exact step_at ih

theorem Step.pointer_null_iff {x : Jni.Pointer} :
    s.pointer x = .null ↔ x = .null ∧ s.isInit = false := by
  rcases s with _ | ⟨i, a⟩
  · simp [Step.pointer, Step.isInit]
  · cases a <;> cases x <;> simp [Step.pointer, Step.isInit]

theorem Step.pointer_freed_iff {x : Jni.Pointer} :
    s.pointer x = .freed ↔ x = .freed ∨ x = .live ∧ s.isRelease = true := by
  rcases s with _ | ⟨i, a⟩
  · simp [Step.pointer, Step.isRelease]
  · cases a <;> cases x <;> simp [Step.pointer, Step.isRelease]

theorem pointer_null_iff : pointer trace = .null ↔ ∀ s ∈ trace, s.isInit = false := by
  induction trace using List.reverseRecOn with
  | nil => exact ⟨fun _ s hs => absurd hs List.not_mem_nil, fun _ => rfl⟩
  | append_singleton trace s ih =>
    rw [pointer_concat, Step.pointer_null_iff, ih, List.forall_mem_append,
      List.forall_mem_singleton]

theorem pointer_ne_null_iff : pointer trace ≠ .null ↔ ∃ s ∈ trace, s.isInit = true := by
  rw [Ne, pointer_null_iff]
  simp

theorem pointer_freed_iff : pointer trace = .freed ↔ ReleasedAfterInit trace := by
  induction trace using List.reverseRecOn with
  | nil =>
    refine ⟨fun h => absurd h (by simp [pointer]), ?_⟩
    rintro ⟨before, r, after, heq, -⟩
    exact absurd heq (by simp)
  | append_singleton trace s ih =>
    rw [pointer_concat, Step.pointer_freed_iff, releasedAfterInit_concat, ← ih,
      ← pointer_ne_null_iff]
    cases pointer trace <;> simp

theorem pointer_ne_live_iff : pointer trace ≠ .live ↔
    (∀ s ∈ trace, s.isInit = false) ∨ ReleasedAfterInit trace := by
  rw [← pointer_null_iff, ← pointer_freed_iff]
  cases pointer trace <;> simp

/-! ## The instances, from the order of the steps -/

theorem schedule_concat :
    schedule (trace ++ [s]) = (schedule trace).bind fun filters => advance s filters := by
  rw [schedule, List.foldlM_append]
  simp [schedule]

theorem run_concat : run make path (trace ++ [s]) =
    (run make path trace).bind fun app => app.step make path s := by
  rw [run, List.foldlM_append]
  simp [run]

/-- Which traces can be taken is up to the instances alone, and so is the order in which the native
side gets its calls. -/
theorem run_eq (make : F → O) (path : F) (trace : List (Step O)) :
    run make path trace =
      (schedule trace).map fun filters => ⟨filters, native make path trace⟩ := by
  induction trace using List.reverseRecOn with
  | nil => rfl
  | append_singleton trace s ih =>
    rw [run_concat, schedule_concat, native_concat, ih]
    cases schedule trace with
    | none => rfl
    | some filters => rfl

theorem run_eq_some : run make path trace = some app ↔
    schedule trace = some app.filters ∧ app.native = native make path trace := by
  rw [run_eq]
  cases schedule trace with
  | none => simp
  | some filters =>
    obtain ⟨filters', p⟩ := app
    simp [eq_comm]

theorem schedule_prefix (hpre : before <+: trace) (h : schedule trace = some filters) :
    ∃ filters', schedule before = some filters' := by
  obtain ⟨rest, rfl⟩ := hpre
  rw [schedule, List.foldlM_append] at h
  obtain ⟨filters', hbefore, -⟩ := Option.bind_eq_some_iff.mp h
  exact ⟨filters', hbefore⟩

/-- Past its call of `init`, or drawing. -/
def FaceFilter.Awake (f : FaceFilter) : Prop :=
  f.inited = true ∨ f.drawing = true ∨ f.initTask = .initialised

/-- Only `init` wakes an instance. -/
theorem FaceFilter.step_awake {f f' : FaceFilter} {a : Act O} (h : f.step a = some f')
    (hawake : f'.Awake) : f.Awake ∨ a = .init := by
  cases a with
  | init => exact Or.inr rfl
  | testInited =>
    simp only [step, Option.ite_none_right_eq_some, Option.some.injEq] at h
    obtain ⟨-, rfl⟩ := h
    rcases hawake with hinited | hdrawing | htask
    · exact Or.inl (Or.inl hinited)
    · exact Or.inl (Or.inr (Or.inl hdrawing))
    · change (if f.inited = true then Task.finished else Task.tested) = _ at htask
      split at htask <;> cases htask
  | setInited =>
    simp only [step, Option.ite_none_right_eq_some, Option.some.injEq] at h
    exact Or.inl (Or.inr (Or.inr h.1))
  | readInited =>
    simp only [step, Option.ite_none_right_eq_some, Option.some.injEq] at h
    obtain ⟨-, rfl⟩ := h
    rcases hawake with hinited | hinited | htask
    · exact Or.inl (Or.inl hinited)
    · exact Or.inl (Or.inl hinited)
    · exact Or.inl (Or.inr (Or.inr htask))
  | trackTexture method =>
    simp only [step, Option.ite_none_right_eq_some, Option.some.injEq] at h
    exact Or.inl (Or.inr (Or.inl h.1))
  | release cancelled =>
    simp only [step, Option.ite_none_right_eq_some, Option.some.injEq] at h
    obtain ⟨-, rfl⟩ := h
    rcases hawake with hinited | hdrawing | htask
    · exact Or.inl (Or.inl hinited)
    · exact Or.inl (Or.inr (Or.inl hdrawing))
    · refine Or.inl (Or.inr (Or.inr ?_))
      cases cancelled with
      | false => exact htask
      | true => cases htask

theorem advance_awake {filters' : List FaceFilter} {f : FaceFilter}
    (h : advance s filters = some filters') (hf : f ∈ filters') (hawake : f.Awake) :
    (∃ g ∈ filters, g.Awake) ∨ s.isInit = true := by
  cases s with
  | create =>
    obtain rfl := Option.some.inj h
    rcases List.mem_append.mp hf with hold | hnew
    · exact Or.inl ⟨f, hold, hawake⟩
    · obtain rfl := List.mem_singleton.mp hnew
      rcases hawake with hw | hw | hw <;> cases hw
  | act i a =>
    obtain ⟨g, hg, hstep⟩ := Option.bind_eq_some_iff.mp h
    obtain ⟨g', hg', hset⟩ := Option.bind_eq_some_iff.mp hstep
    obtain rfl := Option.some.inj hset
    rcases List.mem_or_eq_of_mem_set hf with hold | rfl
    · exact Or.inl ⟨f, hold, hawake⟩
    · rcases FaceFilter.step_awake hg' hawake with hold | rfl
      · exact Or.inl ⟨g, List.mem_of_getElem? hg, hold⟩
      · exact Or.inr rfl

/-- Nothing is awake before the first `init`. -/
theorem schedule_awake (h : schedule trace = some filters) {f : FaceFilter} (hf : f ∈ filters)
    (hawake : f.Awake) : ∃ s ∈ trace, s.isInit = true := by
  induction trace using List.reverseRecOn generalizing filters f with
  | nil =>
    obtain rfl := Option.some.inj h
    exact absurd hf List.not_mem_nil
  | append_singleton trace s ih =>
    rw [schedule_concat] at h
    obtain ⟨filters', hbefore, hadvance⟩ := Option.bind_eq_some_iff.mp h
    rcases advance_awake hadvance hf hawake with ⟨g, hg, hold⟩ | hs
    · obtain ⟨t, ht, hinit⟩ := ih hbefore hg hold
      exact ⟨t, List.mem_append_left _ ht, hinit⟩
    · exact ⟨s, List.mem_append_right _ List.mem_cons_self, hs⟩

/-- A draw that makes its call has seen the flag, so some task has called `init`. -/
theorem exists_init_of_track {i : Nat} {method : O → O}
    (h : schedule (before ++ [.act i (.trackTexture method)]) = some filters) :
    ∃ s ∈ before, s.isInit = true := by
  rw [schedule_concat] at h
  obtain ⟨filters', hbefore, hadvance⟩ := Option.bind_eq_some_iff.mp h
  obtain ⟨f, hf, hstep⟩ := Option.bind_eq_some_iff.mp hadvance
  obtain ⟨f', hf', -⟩ := Option.bind_eq_some_iff.mp hstep
  simp only [FaceFilter.step, Option.ite_none_right_eq_some] at hf'
  exact schedule_awake hbefore (List.mem_of_getElem? hf) (Or.inr (Or.inl hf'.1))

/-! ## The law -/

theorem run_at (hrun : run make path trace = some app) : app.native.At (pointer trace) := by
  rw [(run_eq_some.mp hrun).2]
  exact native_at make path trace

theorem run_prefix (hpre : before <+: trace) (hrun : run make path trace = some app) :
    ∃ app', run make path before = some app' := by
  obtain ⟨filters, hfilters⟩ := schedule_prefix hpre (run_eq_some.mp hrun).1
  exact ⟨⟨filters, native make path before⟩, run_eq_some.mpr ⟨hfilters, rfl⟩⟩

/-- What a draw that makes its call finds. -/
theorem track_iff {i : Nat} {method : O → O} (hbefore : run make path before = some app)
    (htrack : schedule (before ++ [.act i (.trackTexture method)]) = some filters) :
    (∃ p, Jni.use method app.native = .ok p) ↔ ¬ ReleasedAfterInit before := by
  have hnull := pointer_ne_null_iff.mpr (exists_init_of_track htrack)
  rw [Jni.use_ok_iff make (run_at hbefore), ← pointer_freed_iff]
  cases hptr : pointer before with
  | null => exact absurd hptr hnull
  | live => simp
  | freed => simp

/-- When nothing is left alive. -/
theorem deleted_iff (hbefore : run make path before = some app) :
    (∀ k, k < app.native.objects.next → k ∈ app.native.objects.freed) ↔
      (∀ s ∈ before, s.isInit = false) ∨ ReleasedAfterInit before :=
  (Jni.all_deleted_iff (run_at hbefore)).trans pointer_ne_live_iff

/-- **When the law holds of an interleaving.** -/
theorem startUpLaw_iff (hrun : run make path trace = some app) :
    StartUpLaw make path trace ↔ NoLateTrack trace ∧ NoLateInit trace := by
  have hsched := (run_eq_some.mp hrun).1
  constructor
  · rintro ⟨htracks, hdeleted⟩
    constructor
    · intro before i method hpre
      obtain ⟨app', hbefore⟩ := run_prefix ((List.prefix_append before _).trans hpre) hrun
      obtain ⟨filters, hfilters⟩ := schedule_prefix hpre hsched
      exact (track_iff hbefore hfilters).mp (htracks before i method app' hpre hbefore)
    · intro before filters hpre hfilters hover
      have hbefore : run make path before = some ⟨filters, native make path before⟩ :=
        run_eq_some.mpr ⟨hfilters, rfl⟩
      exact (deleted_iff hbefore).mp (hdeleted before _ hpre hbefore hover)
  · rintro ⟨htrack, hinit⟩
    constructor
    · intro before i method app' hpre hbefore
      obtain ⟨filters, hfilters⟩ := schedule_prefix hpre hsched
      exact (track_iff hbefore hfilters).mpr (htrack before i method hpre)
    · intro before app' hpre hbefore hover
      have hfilters := (run_eq_some.mp hbefore).1
      exact (deleted_iff hbefore).mpr (hinit before app'.filters hpre hfilters hover)

/-! ## Three interleavings -/

/-- The model is loaded and a frame is drawn. -/
def opened : List (Step Nat) :=
  [.create, .act 0 .testInited, .act 0 .init, .act 0 .setInited, .act 0 .readInited,
    .act 0 (.trackTexture Nat.succ)]

def closedLate : List (Step Nat) := opened ++ [.act 0 (.release false)]

/-- The screen is closed while the task is still loading the model. -/
def overtaken : List (Step Nat) :=
  [.create, .act 0 .testInited, .act 0 (.release false), .act 0 .init, .act 0 .setInited]

/-- The screen is closed in good order, and opened again. -/
def reopened : List (Step Nat) :=
  [.create, .act 0 .testInited, .act 0 .init, .act 0 .setInited, .act 0 (.release false),
    .create, .act 1 .testInited, .act 1 .init, .act 1 .setInited, .act 1 .readInited,
    .act 1 (.trackTexture Nat.succ)]

theorem noLateTrack_closedLate : NoLateTrack closedLate := by
  have hnone : ∀ before ∈ opened.inits, pointer before ≠ .freed := by decide
  intro before i method hpre hlate
  rcases List.prefix_concat_iff.mp hpre with heq | hpre
  · cases (List.append_inj' heq rfl).2
  · have hmem := (List.mem_inits _ _).mpr ((List.prefix_append before _).trans hpre)
    exact hnone before hmem (pointer_freed_iff.mpr hlate)

theorem noLateInit_closedLate : NoLateInit closedLate := by
  have hall : ∀ before ∈ closedLate.inits, ∀ filters ∈ schedule before,
      (∀ f ∈ filters, f.Over) → pointer before ≠ .live := by decide
  intro before filters hpre hfilters hover
  have hmem := (List.mem_inits _ _).mpr hpre
  exact pointer_ne_live_iff.mp (hall before hmem filters hfilters hover)

theorem startUpLaw_closedLate : StartUpLaw (fun _ => 0) () closedLate :=
  (startUpLaw_iff rfl).mpr ⟨noLateTrack_closedLate, noLateInit_closedLate⟩

/-- The object of `overtaken` is never deleted; the one `reopened` draws through is. -/
theorem startUpLaw_fails_closedEarly :
    ((run (fun _ => 0) () overtaken).isSome ∧ ¬ StartUpLaw (fun _ => 0) () overtaken) ∧
      (run (fun _ => 0) () reopened).isSome ∧ ¬ StartUpLaw (fun _ => 0) () reopened := by
  refine ⟨⟨rfl, fun hlaw => ?_⟩, rfl, fun hlaw => ?_⟩
  · have hdeleted := hlaw.deleted overtaken _ List.prefix_rfl rfl (by decide) 0 (by decide)
    exact absurd hdeleted List.not_mem_nil
  · have htrack := hlaw.tracks (reopened.take 10) 1 Nat.succ _ List.prefix_rfl rfl
    obtain ⟨p, hp⟩ := htrack
    cases hp

end DlibAndroid.App
