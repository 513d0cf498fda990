/-!
# Readers that fill their target in place

A C++ reader is handed an object and a stream, and assigns to the object as it goes. When it
throws, the object keeps what was assigned so far. `Load E σ` is such a reader: it returns what is
in the target *afterwards*, whether it finished or not, and either the bytes left or what was
thrown. A reader is composed from the readers of the parts of its target.

So a property of everything a reader can leave behind, finished or not, is one predicate kept by
every part (`Keeps`), with one rule for each way to compose.
-/

set_option autoImplicit false

namespace CCore

def Load (E σ : Type) : Type := σ → List UInt8 → σ × Except E (List UInt8)

namespace Load

variable {E σ τ : Type}

/-- `throw e;` -/
def throw (e : E) : Load E σ := fun item _ => (item, .error e)

/-- `p; q;` -/
def andThen (p q : Load E σ) : Load E σ := fun item bytes =>
  match p item bytes with
  | (item, .ok rest) => q item rest
  | (item, .error e) => (item, .error e)

/-- Reads a local variable, which nobody sees once something is thrown. -/
def withLocal (p : Load E τ) (a : τ) (k : τ → Load E σ) : Load E σ := fun item bytes =>
  match p a bytes with
  | (a, .ok rest) => k a item rest
  | (_, .error e) => (item, .error e)

/-- Reads a field of the target. -/
def inField (get : σ → τ) (set : σ → τ → σ) (p : Load E τ) : Load E σ := fun item bytes =>
  (set item (p (get item) bytes).1, (p (get item) bytes).2)

/-- `for (i = 0; i < size; ++i) deserialize(item[i], in);` -/
def each (p : Load E σ) : Load E (List σ)
  | [], bytes => ([], .ok bytes)
  | x :: xs, bytes =>
    match p x bytes with
    | (x, .ok rest) => (x :: (each p xs rest).1, (each p xs rest).2)
    | (x, .error e) => (x :: xs, .error e)

/-- `try { p } catch (E& e) { … throw …; }` -/
def onError (handler : σ → E → σ × E) (p : Load E σ) : Load E σ := fun item bytes =>
  match p item bytes with
  | (item, .ok rest) => (item, .ok rest)
  | (item, .error e) => ((handler item e).1, .error (handler item e).2)

/-! ## What is left behind -/

variable {p q : Load E σ} {P : σ → Prop}

/-- What a sequence leaves is what its first part leaves, interrupted, or what its second part makes
of a complete first part. -/
theorem leftover_andThen {item : σ} {bytes : List UInt8}
    (hp : ∀ e, (p item bytes).2 = .error e → P (p item bytes).1)
    (hq : ∀ rest, (p item bytes).2 = .ok rest → P (q (p item bytes).1 rest).1) :
    P (p.andThen q item bytes).1 := by
  unfold andThen
  split
  · rename_i item' rest heq
    rw [heq] at hq
    exact hq rest rfl
  · rename_i item' e heq
    rw [heq] at hp
    exact hp e rfl

/-- Whatever the reader leaves satisfies `P`, if the target did. -/
def Keeps (P : σ → Prop) (p : Load E σ) : Prop := ∀ item bytes, P item → P (p item bytes).1

theorem keeps_throw (e : E) : (throw e : Load E σ).Keeps P := fun _ _ h => h

theorem Keeps.andThen (hp : p.Keeps P) (hq : q.Keeps P) : (p.andThen q).Keeps P :=
  fun item bytes h => leftover_andThen (fun _ _ => hp item bytes h)
    fun rest _ => hq _ rest (hp item bytes h)

theorem leftover_withLocal {r : Load E τ} {a : τ} {k : τ → Load E σ} {item : σ} {bytes : List UInt8}
    (hthrow : P item) (hk : ∀ a rest, P (k a item rest).1) : P (withLocal r a k item bytes).1 := by
  unfold withLocal
  split
  · exact hk _ _
  · exact hthrow

theorem keeps_withLocal {r : Load E τ} {a : τ} {k : τ → Load E σ} (h : ∀ a, (k a).Keeps P) :
    (withLocal r a k).Keeps P :=
  fun item _ hitem => leftover_withLocal hitem fun a rest => h a item rest hitem

theorem Keeps.inField {Q : τ → Prop} {r : Load E τ} {get : σ → τ} {set : σ → τ → σ}
    (hr : r.Keeps Q) (hget : ∀ item, P item → Q (get item))
    (hset : ∀ item x, P item → Q x → P (set item x)) : (Load.inField get set r).Keeps P :=
  fun item _ h => hset item _ h (hr _ _ (hget item h))

/-- The frame rule: reading a field keeps what does not look at the field. -/
theorem keeps_inField {r : Load E τ} {get : σ → τ} {set : σ → τ → σ}
    (hset : ∀ item x, P item → P (set item x)) : (Load.inField get set r).Keeps P :=
  fun item _ h => hset item _ h

theorem length_each (p : Load E σ) (xs : List σ) :
    ∀ bytes, (each p xs bytes).1.length = xs.length := by
  induction xs with
  | nil => exact fun _ => rfl
  | cons x xs ih =>
    intro bytes
    unfold each
    split
    · exact congrArg (· + 1) (ih _)
    · rfl

theorem Keeps.each (hp : p.Keeps P) : (Load.each p).Keeps fun xs => ∀ x ∈ xs, P x := by
  intro xs
  induction xs with
  | nil => exact fun _ h => h
  | cons x xs ih =>
    intro bytes h
    obtain ⟨hx, hxs⟩ := List.forall_mem_cons.mp h
    have hleft := hp x bytes hx
    unfold Load.each
    split
    · rename_i x' rest heq
      rw [heq] at hleft
      exact List.forall_mem_cons.mpr ⟨hleft, ih rest hxs⟩
    · rename_i x' e heq
      rw [heq] at hleft
      exact List.forall_mem_cons.mpr ⟨hleft, hxs⟩

theorem Keeps.onError {handler : σ → E → σ × E} (hp : p.Keeps P)
    (hhandler : ∀ item e, P item → P (handler item e).1) : (Load.onError handler p).Keeps P := by
  intro item bytes h
  have hleft := hp item bytes h
  unfold Load.onError
  split
  · rename_i item' rest heq
    rw [heq] at hleft
    exact hleft
  · rename_i item' e heq
    rw [heq] at hleft
    exact hhandler item' e hleft

end Load

end CCore
