import DlibAndroid.Codec.ContextTree

/-!
# Encoding and decoding a symbol in its context

`entropy_encoder_model_kernel_5::encode` and `entropy_decoder_model_kernel_5::decode`. The one looks
a symbol up in the set of a context and passes its slot to the coder; the other asks the coder for a
number and looks up the symbol whose slot it is in. Neither sees what the other does, and what
either does to its tree depends on what it finds.

They count differently. The encoder takes the counts of the excluded symbols from the total, the
decoder adds up the others; the encoder goes on through the set when it has found the symbol, the
decoder does not; the encoder has sixteen bits for its counts. `symbol_decoded` says that they agree
all the same: over any coder that serves the slots that were passed to it, the symbol comes out and
the decoder's tree is the encoder's.
-/

set_option autoImplicit false

namespace DlibAndroid.Codec

open CCore

/-- What a walk through a context set comes to. What is excluded by the time the symbol is found
does not matter, as all exclusions are cleared before the next symbol. -/
inductive Search where
  | found (before : List Entry) (e : Entry) (after : List Entry) (low high : Nat)
  | missed (high : Nat) (exc : List Nat)

/-- The set that `child_context` and `next` lead through, when it may be read. -/
def Node.members (n : Node) : Exec (List Entry) :=
  match n.fresh with
  | some _ => .error .uninitialised
  | none => if n.childContext = [] then .error .nullDeref else .ok n.childContext

/-! ## Encoding -/

namespace EncoderModel

/-- The walk when nothing is excluded. -/
def walk (symbol : Nat) : List Entry → List Entry → Nat → List Nat → Search
  | _, [], high, exc => .missed high exc
  | before, e :: rest, high, exc =>
    let high := u16 (high + e.count)
    if e.symbol = symbol then .found before e rest (u16 (high + 65536 - e.count)) high
    else walk symbol (before ++ [e]) rest high (e.symbol :: exc)

/-- The locals of the walk when something is excluded. -/
structure Scan where
  high : Nat
  total : Nat
  exc : List Nat
  found : Option Search

/-- That walk goes to the end of the set. -/
def scan (symbol : Nat) : List Entry → List Entry → Scan → Scan
  | _, [], s => s
  | before, e :: rest, s =>
    scan symbol (before ++ [e]) rest <|
      if e.symbol ∉ s.exc then
        let s := { s with exc := e.symbol :: s.exc }
        if s.found.isNone then
          let high := u16 (s.high + e.count)
          if e.symbol = symbol then
            { s with
              high := high
              found := some (.found before e rest (u16 (high + 65536 - e.count)) high) }
          else { s with high := high }
        else s
      else { s with total := u16 (s.total + 65536 - e.count) }

/-- `total_count`, and where the symbol is. When it is not found the walk has ended at the last
node, and `while (n->next)` finds nothing more to exclude. -/
def search (symbol : Nat) (n : Node) (exc : List Nat) : Exec (Nat × Search) := do
  let children ← n.members
  if exc ≠ [] then
    let s := scan symbol [] children ⟨0, n.total, exc, none⟩
    pure (s.total, s.found.getD (.missed s.high s.exc))
  else pure (n.total, walk symbol [] children 0 exc)

/-- A context is left, for a shorter one or for the root's. -/
def leave (P : Params) (symbol k : Nat) (s : Climb) : Exec (List Slot × Outcome) := do
  let s ← s.miss P k
  if k ≠ root then pure ([], .climb (s.ascend k))
  else
    let s := s.bottom
    pure ([⟨symbol, symbol + 1, P.alphabetSize⟩], .settle s.model s.stack symbol 8 2056)

/-- Once round the loop, with what it passes to the coder. -/
def round (P : Params) (symbol : Nat) (s : Climb) : Exec (List Slot × Outcome) :=
  if s.spaceLeft P then
    match s.temp with
    | none => .error .nullDeref
    | some k =>
      if (s.model.nodes k).total > 0 then do
        let s := s.scale k
        let at_ ← search symbol (s.model.nodes k) s.exc
        match at_.2 with
        | .found before e after low high =>
          let done := s.hit P k before e after
          pure ([⟨low, high, at_.1⟩],
            .settle done.1.model done.1.stack symbol done.2.1 done.2.2)
        | .missed high exc => do
          let left ← leave P symbol k (s.setExc exc)
          pure (⟨high, at_.1, at_.1⟩ :: left.1, left.2)
      else leave P symbol k s
  else pure ([], .climb s.clear)

/-- The loop, `n` times round at most. -/
def loop (P : Params) (symbol : Nat) : Nat → Climb → Exec (Option (List Slot × Outcome))
  | 0, _ => pure none
  | n + 1, s => do
    let r ← round P symbol s
    match r.2 with
    | .climb s => do
      let rest ← loop P symbol n s
      pure (rest.map fun x => (r.1 ++ x.1, x.2))
    | done => pure (some (r.1, done))

end EncoderModel

/-- `encode`. Returns what is passed to the coder, in order. The loop goes up from depth `cur_order`
to the root, and may have to begin again there once. -/
def encode (P : Params) (sym : Nat) (m : Model) : Exec (Option (List Slot × Model)) := do
  let done ← EncoderModel.loop P (u16 sym) (P.order + 2) (.start m)
  match done with
  | some (slots, .settle model stack symbol c t) => do
    let nodes ← settle P symbol c t stack model.nodes
    pure (some (slots, { model with nodes := nodes }))
  | _ => pure none

/-! ## Decoding -/

namespace DecoderModel

/-- `total_count`. -/
def available (n : Node) (children : List Entry) (exc : List Nat) : Nat :=
  if exc ≠ [] then
    children.foldl (fun total e => if e.symbol ∉ exc then total + e.count else total) n.escapes
  else n.total

/-- The walk to the slot with the number, or to the end of the set. -/
def seek (target : Nat) : List Entry → List Entry → Nat → List Nat → Search
  | _, [], high, exc => .missed high exc
  | before, e :: rest, high, exc =>
    let isNew := e.symbol ∉ exc
    let high := if isNew then high + e.count else high
    if high > target then .found before e rest (high - e.count) high
    else seek target (before ++ [e]) rest high (if isNew then e.symbol :: exc else exc)

section Coder

variable {δ : Type} (coder : Coder δ)

def leave (P : Params) (k : Nat) (s : Climb) (d : δ) : Exec (δ × Outcome) := do
  let s ← s.miss P k
  if k ≠ root then pure (d, .climb (s.ascend k))
  else do
    -- past the root every symbol has the same count
    let got ← coder.getTarget P.alphabetSize d
    let s := s.bottom
    pure (coder.decode got.1 (got.1 + 1) got.2, .settle s.model s.stack got.1 8 2056)

def round (P : Params) (s : Climb) (d : δ) : Exec (δ × Outcome) :=
  if s.spaceLeft P then
    match s.temp with
    | none => .error .nullDeref
    | some k =>
      -- a context where nothing has been seen yet takes nothing from the stream
      if (s.model.nodes k).total > 0 then do
        let s := s.scale k
        let children ← (s.model.nodes k).members
        let total := available (s.model.nodes k) children s.exc
        let got ← coder.getTarget total d
        match seek got.1 [] children 0 s.exc with
        | .found before e after low high =>
          let done := s.hit P k before e after
          pure (coder.decode low high got.2,
            .settle done.1.model done.1.stack e.symbol done.2.1 done.2.2)
        | .missed high exc => leave coder P k (s.setExc exc) (coder.decode high total got.2)
      else leave coder P k s d
  else pure (d, .climb s.clear)

def loop (P : Params) : Nat → Climb → δ → Exec (Option (δ × Outcome))
  | 0, _, _ => pure none
  | n + 1, s, d => do
    let r ← round coder P s d
    match r.2 with
    | .climb s => loop P n s r.1
    | done => pure (some (r.1, done))

end Coder

end DecoderModel

/-- `decode`. Returns the symbol. -/
def decode {δ : Type} (coder : Coder δ) (P : Params) (m : Model) (d : δ) :
    Exec (Option (Nat × Model × δ)) := do
  let done ← DecoderModel.loop coder P (P.order + 2) (.start m) d
  match done with
  | some (d, .settle model stack symbol c t) => do
    let nodes ← settle P symbol c t stack model.nodes
    pure (some (symbol, { model with nodes := nodes }, d))
  | _ => pure none

/-! ## Walks through a set -/

/-- The counts of the symbols that are not excluded. -/
def liveWeight (exc : List Nat) (children : List Entry) : Nat :=
  weight (children.filter (·.symbol ∉ exc))

/-- The exclusions behind the set. -/
def excludeAll (exc : List Nat) (children : List Entry) : List Nat :=
  children.foldl (fun exc e => if e.symbol ∉ exc then e.symbol :: exc else exc) exc

section Walks

variable {exc : List Nat} {children before xs ys : List Entry} {e : Entry}
variable {symbol target high total : Nat}

theorem liveWeight_cons_live (h : e.symbol ∉ exc) :
    liveWeight exc (e :: children) = e.count + liveWeight exc children := by
  simp [liveWeight, h]

theorem liveWeight_cons_excluded (h : e.symbol ∈ exc) :
    liveWeight exc (e :: children) = liveWeight exc children := by
  simp [liveWeight, h]

theorem liveWeight_append (exc : List Nat) (xs ys : List Entry) :
    liveWeight exc (xs ++ ys) = liveWeight exc xs + liveWeight exc ys := by
  simp [liveWeight]

theorem liveWeight_le (exc : List Nat) (children : List Entry) :
    liveWeight exc children ≤ weight children := by
  induction children with
  | nil => exact le_rfl
  | cons e children ih =>
    by_cases h : e.symbol ∈ exc
    · rw [liveWeight_cons_excluded h, weight_cons]
      omega
    · rw [liveWeight_cons_live h, weight_cons]
      omega

theorem liveWeight_nil (children : List Entry) : liveWeight [] children = weight children := by
  simp [liveWeight]

/-- Excluding a symbol that is not in the set. -/
theorem liveWeight_exclude (h : symbol ∉ children.map Entry.symbol) :
    liveWeight (symbol :: exc) children = liveWeight exc children := by
  unfold liveWeight
  congr 1
  refine List.filter_congr fun e he => ?_
  have hne : e.symbol ≠ symbol := fun heq => h (heq ▸ List.mem_map_of_mem he)
  simp [hne]

theorem mem_excludeAll (h : symbol ∉ exc) (h' : symbol ∉ children.map Entry.symbol) :
    symbol ∉ excludeAll exc children := by
  induction children generalizing exc with
  | nil => exact h
  | cons e children ih =>
    simp only [List.map_cons, List.mem_cons, not_or] at h'
    rw [excludeAll, List.foldl_cons]
    refine ih ?_ h'.2
    split
    · simp [h'.1, h]
    · exact h

/-! ### The decoder's -/

theorem foldl_available (n : Nat) : children.foldl (fun total e =>
    if e.symbol ∉ exc then total + e.count else total) n = n + liveWeight exc children := by
  induction children generalizing n with
  | nil => rfl
  | cons e children ih =>
    rw [List.foldl_cons, ih]
    by_cases h : e.symbol ∈ exc
    · rw [liveWeight_cons_excluded h, if_neg (not_not.mpr h)]
    · rw [liveWeight_cons_live h, if_pos h, Nat.add_assoc]

/-- The walk finds the slot that the number is in. -/
theorem seek_found (hnodup : ((xs ++ e :: ys).map Entry.symbol).Nodup) (he : e.symbol ∉ exc)
    (hlow : high + liveWeight exc xs ≤ target)
    (hhigh : target < high + liveWeight exc xs + e.count) :
    DecoderModel.seek target before (xs ++ e :: ys) high exc =
      .found (before ++ xs) e ys (high + liveWeight exc xs)
        (high + liveWeight exc xs + e.count) := by
  induction xs generalizing before high exc with
  | nil =>
    change target < high + e.count at hhigh
    rw [List.nil_append, DecoderModel.seek]
    simp only [he, not_false_eq_true, if_true]
    rw [if_pos hhigh, Nat.add_sub_cancel, List.append_nil]
    rfl
  | cons x xs ih =>
    obtain ⟨hx, hnodup⟩ := List.nodup_cons.mp hnodup
    have hxs : x.symbol ∉ xs.map Entry.symbol := fun hmem => hx (by simp_all)
    have hxe : e.symbol ≠ x.symbol := fun heq => hx (by simp [heq])
    rw [List.cons_append, DecoderModel.seek]
    by_cases h : x.symbol ∈ exc
    · rw [liveWeight_cons_excluded h] at hlow hhigh ⊢
      simp only [h, not_true_eq_false, if_false]
      rw [if_neg (by omega), ih hnodup he hlow hhigh, List.append_assoc, List.singleton_append]
    · have hexc : liveWeight (x.symbol :: exc) xs = liveWeight exc xs := liveWeight_exclude hxs
      rw [liveWeight_cons_live h, ← Nat.add_assoc] at hlow hhigh ⊢
      simp only [h, not_false_eq_true, if_true]
      rw [if_neg (by omega), ih hnodup (by simp [hxe, he]) (hexc ▸ hlow) (hexc ▸ hhigh), hexc,
        List.append_assoc, List.singleton_append]

theorem seek_missed (hnodup : (children.map Entry.symbol).Nodup)
    (hhigh : high + liveWeight exc children ≤ target) :
    DecoderModel.seek target before children high exc =
      .missed (high + liveWeight exc children) (excludeAll exc children) := by
  induction children generalizing before high exc with
  | nil => rfl
  | cons x children ih =>
    obtain ⟨hx, hnodup⟩ := List.nodup_cons.mp hnodup
    rw [DecoderModel.seek, excludeAll, List.foldl_cons]
    by_cases h : x.symbol ∈ exc
    · rw [liveWeight_cons_excluded h] at hhigh ⊢
      simp only [h, not_true_eq_false, if_false]
      rw [if_neg (by omega), ih hnodup hhigh, excludeAll]
    · have hexc : liveWeight (x.symbol :: exc) children = liveWeight exc children :=
        liveWeight_exclude hx
      rw [liveWeight_cons_live h, ← Nat.add_assoc] at hhigh ⊢
      simp only [h, not_false_eq_true, if_true]
      rw [if_neg (by omega), ih hnodup (hexc ▸ hhigh), hexc, excludeAll]

/-! ### The encoder's -/

theorem u16_sub {a b : Nat} (hb : b ≤ a) (ha : a < 65536) : u16 (a + 65536 - b) = a - b := by
  unfold u16
  omega

theorem walk_found (hnew : e.symbol ∉ xs.map Entry.symbol)
    (hlt : high + weight xs + e.count < 65536) :
    EncoderModel.walk e.symbol before (xs ++ e :: ys) high exc =
      .found (before ++ xs) e ys (high + weight xs) (high + weight xs + e.count) := by
  induction xs generalizing before high exc with
  | nil =>
    have hu16 : u16 (high + e.count) = high + e.count := Nat.mod_eq_of_lt (by simp_all)
    simp [EncoderModel.walk, hu16, u16_sub (Nat.le_add_left _ high) (show high + e.count < 65536 by
      simpa using hlt)]
  | cons x xs ih =>
    simp only [List.map_cons, List.mem_cons, not_or] at hnew
    rw [weight_cons, ← Nat.add_assoc] at hlt ⊢
    have hu16 : u16 (high + x.count) = high + x.count := Nat.mod_eq_of_lt (by omega)
    rw [List.cons_append, EncoderModel.walk, hu16]
    simp only [Ne.symm hnew.1, if_false]
    rw [ih hnew.2 hlt, List.append_assoc, List.singleton_append]

theorem walk_missed (hnodup : (children.map Entry.symbol).Nodup)
    (hnew : symbol ∉ children.map Entry.symbol) (hexc : ∀ e ∈ children, e.symbol ∉ exc)
    (hlt : high + weight children < 65536) :
    EncoderModel.walk symbol before children high exc =
      .missed (high + weight children) (excludeAll exc children) := by
  induction children generalizing before high exc with
  | nil => rfl
  | cons x children ih =>
    obtain ⟨hx, hnodup⟩ := List.nodup_cons.mp hnodup
    simp only [List.map_cons, List.mem_cons, not_or] at hnew
    rw [weight_cons, ← Nat.add_assoc] at hlt ⊢
    have hu16 : u16 (high + x.count) = high + x.count := Nat.mod_eq_of_lt (by omega)
    have hrest : ∀ e ∈ children, e.symbol ∉ x.symbol :: exc := by
      intro e he hmem
      rcases List.mem_cons.mp hmem with heq | hmem
      · exact hx (heq ▸ List.mem_map_of_mem he)
      · exact hexc e (List.mem_cons_of_mem _ he) hmem
    rw [EncoderModel.walk, hu16, excludeAll, List.foldl_cons,
      if_pos (hexc x List.mem_cons_self)]
    simp only [Ne.symm hnew.1, if_false]
    rw [ih hnodup hnew.2 hrest hlt, excludeAll]

/-- The counts of the symbols that are excluded. -/
def deadWeight (exc : List Nat) (children : List Entry) : Nat :=
  weight children - liveWeight exc children

theorem deadWeight_cons_live (h : e.symbol ∉ exc) :
    deadWeight exc (e :: children) = deadWeight exc children := by
  have hle := liveWeight_le exc children
  rw [deadWeight, deadWeight, liveWeight_cons_live h, weight_cons]
  omega

theorem deadWeight_cons_excluded (h : e.symbol ∈ exc) :
    deadWeight exc (e :: children) = e.count + deadWeight exc children := by
  have hle := liveWeight_le exc children
  rw [deadWeight, deadWeight, liveWeight_cons_excluded h, weight_cons]
  omega

theorem deadWeight_exclude (h : symbol ∉ children.map Entry.symbol) :
    deadWeight (symbol :: exc) children = deadWeight exc children := by
  rw [deadWeight, deadWeight, liveWeight_exclude h]

theorem excludeAll_cons_live (h : e.symbol ∉ exc) :
    excludeAll exc (e :: children) = excludeAll (e.symbol :: exc) children := by
  rw [excludeAll, List.foldl_cons, if_pos h, excludeAll]

theorem excludeAll_cons_excluded (h : e.symbol ∈ exc) :
    excludeAll exc (e :: children) = excludeAll exc children := by
  rw [excludeAll, List.foldl_cons, if_neg (not_not.mpr h), excludeAll]

/-- An excluded symbol only comes off the total. -/
theorem scan_excluded {found : Option Search} (h : e.symbol ∈ exc) (hle : e.count ≤ total)
    (hlt : total < 65536) : EncoderModel.scan symbol before (e :: ys) ⟨high, total, exc, found⟩ =
      EncoderModel.scan symbol (before ++ [e]) ys ⟨high, total - e.count, exc, found⟩ := by
  rw [EncoderModel.scan, if_neg (not_not.mpr h), u16_sub hle hlt]

/-- Once the symbol is found, the walk only excludes. -/
theorem scan_done {r : Search} (hnodup : (children.map Entry.symbol).Nodup)
    (hle : deadWeight exc children ≤ total) (hlt : total < 65536) :
    EncoderModel.scan symbol before children ⟨high, total, exc, some r⟩ =
      ⟨high, total - deadWeight exc children, excludeAll exc children, some r⟩ := by
  induction children generalizing before total exc with
  | nil => rfl
  | cons x children ih =>
    obtain ⟨hx, hnodup⟩ := List.nodup_cons.mp hnodup
    by_cases h : x.symbol ∈ exc
    · rw [deadWeight_cons_excluded h] at hle ⊢
      rw [scan_excluded h (by omega) hlt, excludeAll_cons_excluded h,
        ih hnodup (by omega) (by omega), Nat.sub_sub]
    · rw [deadWeight_cons_live h, ← deadWeight_exclude hx] at hle ⊢
      rw [EncoderModel.scan, excludeAll_cons_live h]
      simp only [h, not_false_eq_true, if_true, Option.isNone_some, Bool.false_eq_true, if_false]
      exact ih hnodup hle hlt

theorem scan_missed (hnodup : (children.map Entry.symbol).Nodup)
    (hnew : symbol ∉ children.map Entry.symbol) (hhigh : high + liveWeight exc children < 65536)
    (hle : deadWeight exc children ≤ total) (hlt : total < 65536) :
    EncoderModel.scan symbol before children ⟨high, total, exc, none⟩ =
      ⟨high + liveWeight exc children, total - deadWeight exc children, excludeAll exc children,
        none⟩ := by
  induction children generalizing before high total exc with
  | nil => rfl
  | cons x children ih =>
    obtain ⟨hx, hnodup⟩ := List.nodup_cons.mp hnodup
    simp only [List.map_cons, List.mem_cons, not_or] at hnew
    by_cases h : x.symbol ∈ exc
    · rw [deadWeight_cons_excluded h] at hle ⊢
      rw [liveWeight_cons_excluded h] at hhigh ⊢
      rw [scan_excluded h (by omega) hlt, excludeAll_cons_excluded h,
        ih hnodup hnew.2 hhigh (by omega) (by omega), Nat.sub_sub]
    · rw [deadWeight_cons_live h, ← deadWeight_exclude hx] at hle ⊢
      rw [liveWeight_cons_live h, ← Nat.add_assoc, ← liveWeight_exclude hx] at hhigh ⊢
      have hu16 : u16 (high + x.count) = high + x.count := Nat.mod_eq_of_lt (by omega)
      rw [EncoderModel.scan, excludeAll_cons_live h]
      simp only [h, not_false_eq_true, if_true, Option.isNone_none, Ne.symm hnew.1, if_false, hu16]
      exact ih hnodup hnew.2 hhigh hle hlt

theorem scan_found (hnodup : ((xs ++ e :: ys).map Entry.symbol).Nodup) (he : e.symbol ∉ exc)
    (hhigh : high + liveWeight exc (xs ++ e :: ys) < 65536)
    (hle : deadWeight exc (xs ++ e :: ys) ≤ total) (hlt : total < 65536) :
    EncoderModel.scan e.symbol before (xs ++ e :: ys) ⟨high, total, exc, none⟩ =
      ⟨high + liveWeight exc xs + e.count, total - deadWeight exc (xs ++ e :: ys),
        excludeAll exc (xs ++ e :: ys),
        some (.found (before ++ xs) e ys (high + liveWeight exc xs)
          (high + liveWeight exc xs + e.count))⟩ := by
  induction xs generalizing before high total exc with
  | nil =>
    obtain ⟨hx, hnodup⟩ := List.nodup_cons.mp hnodup
    rw [List.nil_append] at hhigh hle ⊢
    rw [deadWeight_cons_live he, ← deadWeight_exclude hx] at hle ⊢
    rw [liveWeight_cons_live he, ← Nat.add_assoc] at hhigh
    have hu16 : u16 (high + e.count) = high + e.count := Nat.mod_eq_of_lt (by omega)
    rw [EncoderModel.scan, excludeAll_cons_live he]
    simp only [he, not_false_eq_true, if_true, Option.isNone_none, hu16,
      u16_sub (Nat.le_add_left e.count high) (show high + e.count < 65536 by omega)]
    rw [scan_done hnodup hle hlt, List.append_nil, Nat.add_sub_cancel]
    rfl
  | cons x xs ih =>
    obtain ⟨hx, hnodup⟩ : x.symbol ∉ (xs ++ e :: ys).map Entry.symbol ∧
        ((xs ++ e :: ys).map Entry.symbol).Nodup := List.nodup_cons.mp hnodup
    have hxs : x.symbol ∉ xs.map Entry.symbol := fun hmem => hx (by simp_all)
    have hxe : e.symbol ≠ x.symbol := fun heq => hx (by simp [heq])
    rw [List.cons_append] at hhigh hle ⊢
    by_cases h : x.symbol ∈ exc
    · rw [deadWeight_cons_excluded h] at hle ⊢
      rw [liveWeight_cons_excluded h] at hhigh ⊢
      rw [scan_excluded h (by omega) hlt, excludeAll_cons_excluded h,
        ih hnodup he hhigh (by omega) (by omega), Nat.sub_sub, List.append_assoc,
        List.singleton_append]
    · rw [deadWeight_cons_live h, ← deadWeight_exclude hx] at hle ⊢
      rw [liveWeight_cons_live h, ← Nat.add_assoc, ← liveWeight_exclude hx] at hhigh
      rw [liveWeight_cons_live h, ← Nat.add_assoc, ← liveWeight_exclude hxs]
      have hu16 : u16 (high + x.count) = high + x.count := Nat.mod_eq_of_lt (by omega)
      rw [EncoderModel.scan, excludeAll_cons_live h]
      simp only [h, not_false_eq_true, if_true, Option.isNone_none, Ne.symm hxe, if_false, hu16]
      rw [ih hnodup (by simp [hxe, he]) hhigh hle hlt, List.append_assoc, List.singleton_append]

end Walks

/-! ## One set, searched from both sides -/

section Agreement

variable {P : Params} {n : Node} {exc : List Nat} {symbol : Nat}

/-- What both sides come to in a set: the same total, with the escapes in the slot behind all the
symbols, and the same place when the coder answers with a number of the slot. -/
inductive Agree (n : Node) (symbol : Nat) (exc : List Nat) : Prop
  | found (before : List Entry) (e : Entry) (after : List Entry) (slot : Slot) (hslot : slot.Ok)
      (hset : n.childContext = before ++ e :: after) (hsymbol : e.symbol = symbol)
      (hsearch : EncoderModel.search symbol n exc =
        .ok (slot.total, .found before e after slot.low slot.high))
      (htotal : DecoderModel.available n n.childContext exc = slot.total)
      (hseek : ∀ target, slot.low ≤ target → target < slot.high →
        DecoderModel.seek target [] n.childContext 0 exc = .found before e after slot.low slot.high)
  | missed (slot : Slot) (hslot : slot.Ok) (exc' : List Nat)
      (hnew : symbol ∉ n.childContext.map Entry.symbol) (hexc : symbol ∉ exc')
      (hhigh : slot.high = slot.total)
      (hsearch : EncoderModel.search symbol n exc = .ok (slot.total, .missed slot.low exc'))
      (htotal : DecoderModel.available n n.childContext exc = slot.total)
      (hseek : ∀ target, slot.low ≤ target →
        DecoderModel.seek target [] n.childContext 0 exc = .missed slot.low exc')

theorem Node.members_eq (hfresh : n.fresh = none) (hne : n.childContext ≠ []) :
    n.members = .ok n.childContext := by
  rw [Node.members, hfresh]
  exact if_neg hne

theorem available_eq (h : Counts P n) (exc : List Nat) :
    DecoderModel.available n n.childContext exc = n.escapes + liveWeight exc n.childContext := by
  unfold DecoderModel.available
  split
  · exact foldl_available n.escapes
  · rename_i hexc
    obtain rfl := not_not.mp hexc
    rw [liveWeight_nil, h.total]

theorem agree_found {before after : List Entry} {e : Entry} (h : Counts P n)
    (hfresh : n.fresh = none) (hexc : e.symbol ∉ exc)
    (hset : n.childContext = before ++ e :: after) : Agree n e.symbol exc := by
  have hlive := liveWeight_append exc before (e :: after)
  rw [liveWeight_cons_live hexc, ← hset] at hlive
  have hle := liveWeight_le exc n.childContext
  have htotal := h.total
  have hlt := h.total_lt
  have hpos := h.count_pos e (by simp [hset])
  have hnodup := hset ▸ h.nodup
  have hmembers := Node.members_eq hfresh (by simp [hset])
  refine .found before e after ⟨liveWeight exc before, liveWeight exc before + e.count,
    n.escapes + liveWeight exc n.childContext⟩ ⟨?_, ?_, ?_⟩ hset rfl ?_ (available_eq h exc) ?_
  · exact Nat.lt_add_of_pos_right hpos
  · simp only
    omega
  · simp only
    omega
  · rw [EncoderModel.search, hmembers, ok_bind]
    by_cases hnone : exc = []
    · subst hnone
      have hweight : weight n.childContext = weight before + (e.count + weight after) := by
        rw [hset, weight_append, weight_cons]
      have hnew : e.symbol ∉ before.map Entry.symbol := by
        rw [List.map_append, List.nodup_append] at hnodup
        exact fun hmem => hnodup.2.2 _ hmem _ (by simp) rfl
      rw [if_neg (not_not.mpr rfl), hset, walk_found hnew (by omega), ← hset]
      simp only [liveWeight_nil, htotal, Nat.zero_add, List.nil_append, pure_eq_ok]
    · have hdead : deadWeight exc n.childContext =
          weight n.childContext - liveWeight exc n.childContext := rfl
      have hscan :
          EncoderModel.scan e.symbol [] (before ++ e :: after) ⟨0, n.total, exc, none⟩ = _ :=
        scan_found hnodup hexc (by rw [← hset]; omega) (by rw [← hset]; omega) hlt
      rw [← hset] at hscan
      rw [if_pos hnone, hscan, hdead]
      simp only [pure_eq_ok, Option.getD_some, Nat.zero_add, List.nil_append]
      congr 2
      omega
  · intro target hlow hhigh
    have hseek : DecoderModel.seek target [] (before ++ e :: after) 0 exc = _ :=
      seek_found hnodup hexc (by rw [Nat.zero_add]; exact hlow) (by rw [Nat.zero_add]; exact hhigh)
    rwa [← hset, Nat.zero_add, List.nil_append] at hseek

theorem agree_missed (h : Counts P n) (hfresh : n.fresh = none) (hne : n.childContext ≠ [])
    (hexc : symbol ∉ exc) (hnew : symbol ∉ n.childContext.map Entry.symbol) :
    Agree n symbol exc := by
  have hle := liveWeight_le exc n.childContext
  have htotal := h.total
  have hlt := h.total_lt
  have hpos := h.escapes_pos hne
  have hmembers := Node.members_eq hfresh hne
  have hdead : deadWeight exc n.childContext =
      weight n.childContext - liveWeight exc n.childContext := rfl
  refine .missed ⟨liveWeight exc n.childContext, n.escapes + liveWeight exc n.childContext,
    n.escapes + liveWeight exc n.childContext⟩ ⟨?_, le_rfl, ?_⟩ (excludeAll exc n.childContext) hnew
    (mem_excludeAll hexc hnew) rfl ?_ (available_eq h exc) ?_
  · simp only
    omega
  · simp only
    omega
  · rw [EncoderModel.search, hmembers, ok_bind]
    by_cases hnone : exc = []
    · subst hnone
      rw [if_neg (not_not.mpr rfl), walk_missed h.nodup hnew (fun _ _ => List.not_mem_nil)
        (by omega), Nat.zero_add, liveWeight_nil, htotal, pure_eq_ok]
    · rw [if_pos hnone, scan_missed h.nodup hnew (by omega) (by omega) hlt, hdead]
      simp only [pure_eq_ok, Option.getD_none, Nat.zero_add]
      congr 2
      omega
  · intro target hlow
    have hseek : DecoderModel.seek target [] n.childContext 0 exc = _ :=
      seek_missed h.nodup (by rw [Nat.zero_add]; exact hlow)
    rwa [Nat.zero_add] at hseek

/-- **Both sides agree in every set** that may come up. -/
theorem agree (h : Counts P n) (hfresh : n.fresh = none) (hne : n.childContext ≠ [])
    (hexc : symbol ∉ exc) : Agree n symbol exc := by
  by_cases hmem : symbol ∈ n.childContext.map Entry.symbol
  · obtain ⟨e, he, rfl⟩ := List.mem_map.mp hmem
    obtain ⟨before, after, hset⟩ := List.append_of_mem he
    exact agree_found h hfresh hexc hset
  · exact agree_missed h hfresh hne hexc hmem

end Agreement

/-! ## One round, and the loop -/

/-- What a round may come to: it goes on closer to the root, or is done with the symbol. -/
def Outcome.Good (P : Params) (symbol level : Nat) : Outcome → Prop
  | .climb s => s.localOrder < level ∧
      ∃ depth k, Climbing P symbol depth (s.localOrder + 1) s ∧ At depth s k
  | .settle m stack sym c t => sym = symbol ∧ (∃ depth, Climbed P symbol depth m stack) ∧
      Tallied c t

section Rounds

variable {P : Params} {depth : Nat → Nat} {symbol k n : Nat} {s : Climb} {m : Model}

/-- A context left. At the root the slot is the symbol itself, so that the number the coder answers
with can only be the symbol. -/
theorem leave_agrees (hP : P.Ok) (h : Climbing P symbol depth (s.localOrder + 1) s)
    (hat : At depth s k) (hspace : s.spaceLeft P) (hsymbol : symbol < P.alphabetSize)
    (hnew : symbol ∉ (s.model.nodes k).childContext.map Entry.symbol) :
    ∃ slots o, EncoderModel.leave P symbol k s = .ok (slots, o) ∧ (∀ slot ∈ slots, slot.Ok) ∧
      o.Good P symbol s.localOrder ∧ ∀ {δ : Type} (coder : Coder δ) (d d' : δ),
        coder.Serves slots d d' → DecoderModel.leave coder P k s d = .ok (d', o) := by
  obtain ⟨s', depth', hmiss, hclimbing, hlevel, hk, hdepth, hnewNode⟩ :=
    miss_climbing h hat hspace (hat.not_mem h) hnew
  rw [← hlevel] at hclimbing hdepth
  by_cases hroot : k ≠ root
  · obtain ⟨p, hup, hclimbing, hat'⟩ := ascend_climbing hclimbing hk hdepth hroot hnewNode
    refine ⟨[], .climb (s'.ascend k), ?_, nofun, ⟨by omega, depth', p, hclimbing, hat'⟩, ?_⟩
    · rw [EncoderModel.leave, hmiss, ok_bind, if_pos hroot, pure_eq_ok]
    · intro δ coder d d' hserves
      cases hserves
      rw [DecoderModel.leave, hmiss, ok_bind, if_pos hroot, pure_eq_ok]
  · obtain rfl := not_not.mp hroot
    have hzero : s'.localOrder = 0 := by rw [← hdepth, hclimbing.tree.depth_root]
    have hclimbed := bottom_climbed (hzero ▸ hclimbing)
    refine ⟨[⟨symbol, symbol + 1, P.alphabetSize⟩],
      .settle s'.bottom.model s'.bottom.stack symbol 8 2056, ?_, ?_,
      ⟨rfl, ⟨depth', hclimbed⟩, ⟨by decide, by decide⟩⟩, ?_⟩
    · rw [EncoderModel.leave, hmiss, ok_bind, if_neg hroot, pure_eq_ok]
    · rintro slot (_ | ⟨_, ⟨⟩⟩)
      have := hP.alphabet_lt
      exact ⟨Nat.lt_succ_self _, hsymbol, by simp only; omega⟩
    · intro δ coder d d' hserves
      obtain _ | ⟨hget, hlow, hhigh, hrest⟩ := hserves
      cases hrest
      obtain rfl := Nat.le_antisymm hlow (Nat.le_of_lt_succ hhigh)
      rw [DecoderModel.leave, hmiss, ok_bind, if_neg hroot, hget, ok_bind, pure_eq_ok]

/-- **One round**, on both sides. -/
theorem round_agrees (hP : P.Ok) (h : Climbing P symbol depth (s.localOrder + 1) s)
    (hat : At depth s k) (hspace : s.spaceLeft P) (hsymbol : symbol < P.alphabetSize) :
    ∃ slots o, EncoderModel.round P symbol s = .ok (slots, o) ∧ (∀ slot ∈ slots, slot.Ok) ∧
      o.Good P symbol s.localOrder ∧ ∀ {δ : Type} (coder : Coder δ) (d d' : δ),
        coder.Serves slots d d' → DecoderModel.round coder P s d = .ok (d', o) := by
  by_cases hpos : (s.model.nodes k).total > 0
  · obtain ⟨hclimbing, hat', hle, hlevel, hexc, hspace', hne⟩ := scale_climbing hP h hat
    have hfresh : ((s.scale k).model.nodes k).fresh = none := by
      by_contra hfresh
      exact hat'.not_mem (hlevel ▸ hclimbing) (hclimbing.stackOk.fresh k hat'.lt hfresh)
    have hcounts := (hclimbing.tree.node k hat'.lt).counts
    have hne' := hne hpos.ne'
    have hmembers := Node.members_eq hfresh hne'
    rw [← hlevel] at hclimbing
    obtain ⟨before, e, after, slot, hslot, hset, rfl, hsearch, htotal, hseek⟩ |
      ⟨slot, hslot, exc', hnew, hexc', hhigh, hsearch, htotal, hseek⟩ :=
      agree hcounts hfresh hne' hclimbing.exc
    · obtain ⟨s', c, t, hhit, hclimbed, ht⟩ :=
        hit_climbed hclimbing hat' (hat'.not_mem hclimbing) hle hset
      refine ⟨[slot], .settle s'.model s'.stack e.symbol c t, ?_, ?_,
        ⟨rfl, ⟨depth, hclimbed⟩, ht⟩, ?_⟩
      · simp only [EncoderModel.round, hspace, if_true, hat.temp, hpos, hsearch, ok_bind, hhit,
          pure_eq_ok]
      · simpa using hslot
      · intro δ coder d d' hserves
        obtain _ | ⟨hget, hlow, hhigh, hrest⟩ := hserves
        cases hrest
        simp only [DecoderModel.round, hspace, if_true, hat.temp, hpos, hmembers, ok_bind, htotal,
          hget, hseek _ hlow hhigh, hhit, pure_eq_ok]
    · have hexcluded : Climbing P symbol depth (((s.scale k).setExc exc').localOrder + 1)
          ((s.scale k).setExc exc') :=
        ⟨hclimbing.tree, hclimbing.linked, hclimbing.stackOk, hclimbing.newNode, hclimbing.deeper,
          hclimbing.room, hclimbing.cur, hexc'⟩
      obtain ⟨slots, o, hleave, hok, hgood, hdecode⟩ := leave_agrees hP hexcluded
        ⟨hat'.temp, hat'.lt, hat'.depth⟩ (hspace'.trans hspace) hsymbol hnew
      have hescape : (⟨slot.low, slot.total, slot.total⟩ : Slot) = slot :=
        congrArg (fun high => Slot.mk slot.low high slot.total) hhigh.symm
      refine ⟨slot :: slots, o, ?_, ?_, hlevel ▸ hgood, ?_⟩
      · simp only [EncoderModel.round, hspace, if_true, hat.temp, hpos, hsearch, ok_bind, hleave,
          pure_eq_ok, hescape]
      · simpa using ⟨hslot, hok⟩
      · intro δ coder d d' hserves
        obtain _ | ⟨hget, hlow, -, hrest⟩ := hserves
        rw [hhigh] at hrest
        simp only [DecoderModel.round, hspace, if_true, hat.temp, hpos, hmembers, ok_bind, htotal,
          hget, hseek _ hlow, hdecode coder _ _ hrest]
  · have hzero : (s.model.nodes k).total = 0 := Nat.eq_zero_of_not_pos hpos
    have hnil := (h.tree.node k hat.lt).counts.total_eq_zero.mp hzero
    obtain ⟨slots, o, hleave, hok, hgood, hdecode⟩ :=
      leave_agrees hP h hat hspace hsymbol (by simp [hnil])
    refine ⟨slots, o, ?_, hok, hgood, fun coder d d' hserves => ?_⟩
    · simp only [EncoderModel.round, hspace, if_true, hat.temp, hpos, if_false, hleave]
    · simp only [DecoderModel.round, hspace, if_true, hat.temp, hpos, if_false,
        hdecode coder d d' hserves]

/-- **The loop**, on both sides. It ends, as it only goes up, and begins again only once, at the
root of an empty tree. -/
theorem loop_agrees (hP : P.Ok) (hsymbol : symbol < P.alphabetSize)
    (h : Climbing P symbol depth (s.localOrder + 1) s) (hat : At depth s k)
    (hn : s.localOrder + 2 ≤ n ∨ s.localOrder = 0 ∧ s.spaceLeft P ∧ 1 ≤ n) :
    ∃ slots m stack c t, EncoderModel.loop P symbol n s =
        .ok (some (slots, .settle m stack symbol c t)) ∧ (∀ slot ∈ slots, slot.Ok) ∧
      (∃ depth, Climbed P symbol depth m stack) ∧ Tallied c t ∧
      ∀ {δ : Type} (coder : Coder δ) (d d' : δ), coder.Serves slots d d' →
        DecoderModel.loop coder P n s d = .ok (some (d', .settle m stack symbol c t)) := by
  induction n generalizing s depth k with
  | zero => omega
  | succ n ih =>
    by_cases hspace : s.spaceLeft P
    · obtain ⟨first, o, hencode, hok, hgood, hdecode⟩ := round_agrees hP h hat hspace hsymbol
      cases o with
      | climb s' =>
        obtain ⟨hlt, depth', k', hclimbing, hat'⟩ := hgood
        obtain ⟨slots, m, stack, c, t, hloop, hok', hclimbed, ht, hdecode'⟩ :=
          ih hclimbing hat' (.inl (by omega))
        refine ⟨first ++ slots, m, stack, c, t, ?_, ?_, hclimbed, ht, ?_⟩
        · simp only [EncoderModel.loop, hencode, hloop, ok_bind, pure_eq_ok, Option.map_some]
        · intro slot hslot
          exact (List.mem_append.mp hslot).elim (hok slot) (hok' slot)
        · intro δ coder d d' hserves
          obtain ⟨d₁, hfirst, hrest⟩ := Coder.serves_append.mp hserves
          simp only [DecoderModel.loop, hdecode coder d d₁ hfirst, ok_bind,
            hdecode' coder d₁ d' hrest]
      | settle m stack sym c t =>
        obtain ⟨rfl, hclimbed, ht⟩ := hgood
        refine ⟨first, m, stack, c, t, ?_, hok, hclimbed, ht, fun coder d d' hserves => ?_⟩
        · simp only [EncoderModel.loop, hencode, ok_bind, pure_eq_ok]
        · simp only [DecoderModel.loop, hdecode coder d d' hserves, ok_bind, pure_eq_ok]
    · have hone : 1 ≤ n := by
        rcases hn with hn | hn
        · omega
        · exact absurd hn.2.1 hspace
      obtain ⟨hclimbing, hat'⟩ := climbing_clear hP s
      have hspace' : s.clear.spaceLeft P := by
        have := hP.nodes
        exact decide_eq_true (show 1 < P.totalNodes by omega)
      obtain ⟨slots, m, stack, c, t, hloop, hok, hclimbed, ht, hdecode⟩ :=
        ih hclimbing hat' (.inr ⟨rfl, hspace', hone⟩)
      refine ⟨slots, m, stack, c, t, ?_, hok, hclimbed, ht, fun coder d d' hserves => ?_⟩
      · simp only [EncoderModel.loop, EncoderModel.round, hspace, Bool.false_eq_true, if_false,
          pure_eq_ok, ok_bind, hloop, Option.map_some, List.nil_append]
      · simp only [DecoderModel.loop, DecoderModel.round, hspace, Bool.false_eq_true, if_false,
          pure_eq_ok, ok_bind, hdecode coder d d' hserves]

end Rounds

/-- **What is encoded is decoded.** In every state both models can be in, and over every coder that
serves what the encoder has passed, the decoder comes to the symbol, and both come to the same state
again. The loops and the array `stack` are long enough. -/
theorem symbol_decoded {P : Params} (hP : P.Ok) {m : Model} (hm : m.Inv P) {sym : Nat}
    (hsym : sym < P.alphabetSize) :
    ∃ slots m', encode P sym m = .ok (some (slots, m')) ∧ m'.Inv P ∧ (∀ slot ∈ slots, slot.Ok) ∧
      ∀ {δ : Type} (coder : Coder δ) (d d' : δ), coder.Serves slots d d' →
        decode coder P m d = .ok (some (sym, m', d')) := by
  have halphabet := hP.alphabet_lt
  have hu16 : u16 sym = sym := Nat.mod_eq_of_lt (by omega)
  obtain ⟨depth, k, hclimbing, hat⟩ := climbing_start sym hm
  have hroom : 0 + (m.curOrder + 1) ≤ P.order + 1 := hclimbing.room
  obtain ⟨slots, m', stack, c, t, hloop, hok, ⟨depth', hclimbed⟩, ht, hdecode⟩ :=
    loop_agrees hP hsym hclimbing hat (n := P.order + 2)
      (.inl (show m.curOrder + 2 ≤ P.order + 2 by omega))
  obtain ⟨nodes, hsettle, hinv⟩ := settle_inv hP hclimbed hsym ht
  refine ⟨slots, { m' with nodes := nodes }, ?_, hinv, hok, fun coder d d' hserves => ?_⟩
  · simp only [encode, hu16, hloop, ok_bind, hsettle, pure_eq_ok]
  · simp only [decode, hdecode coder d d' hserves, ok_bind, hsettle, pure_eq_ok]

/-! ## Symbol after symbol -/

def encodeAll (P : Params) : List Nat → Model → Exec (Option (List Slot × Model))
  | [], m => pure (some ([], m))
  | symbol :: symbols, m => thenRun (encode P symbol m) fun r =>
      thenRun (encodeAll P symbols r.2) fun last => pure (some (r.1 ++ last.1, last.2))

def decodeAll {δ : Type} (coder : Coder δ) (P : Params) :
    Nat → Model → δ → Exec (Option (List Nat × Model × δ))
  | 0, m, d => pure (some ([], m, d))
  | n + 1, m, d => thenRun (decode coder P m d) fun r =>
      thenRun (decodeAll coder P n r.2.1 r.2.2) fun last => pure (some (r.1 :: last.1, last.2))

/-- **A text, there and back**, of any length and over any coder. The two models are in the same
state at either end. -/
theorem symbols_decoded {P : Params} (hP : P.Ok) {m : Model} (hm : m.Inv P) (symbols : List Nat)
    (hsymbols : ∀ sym ∈ symbols, sym < P.alphabetSize) :
    ∃ slots m', encodeAll P symbols m = .ok (some (slots, m')) ∧ m'.Inv P ∧
      (∀ slot ∈ slots, slot.Ok) ∧
      ∀ {δ : Type} (coder : Coder δ) (d d' : δ), coder.Serves slots d d' →
        decodeAll coder P symbols.length m d = .ok (some (symbols, m', d')) := by
  induction symbols generalizing m with
  | nil =>
    refine ⟨[], m, rfl, hm, nofun, fun coder d d' hserves => ?_⟩
    cases hserves
    rfl
  | cons sym symbols ih =>
    obtain ⟨xs, m₁, hencode, hm₁, hxs, hdecode⟩ :=
      symbol_decoded hP hm (hsymbols sym List.mem_cons_self)
    obtain ⟨ys, m', hencode', hm', hys, hdecode'⟩ :=
      ih hm₁ fun s hs => hsymbols s (List.mem_cons_of_mem _ hs)
    refine ⟨xs ++ ys, m', ?_, hm', ?_, fun coder d d' hserves => ?_⟩
    · rw [encodeAll, thenRun_some hencode, thenRun_some hencode']
      rfl
    · exact fun slot hslot => (List.mem_append.mp hslot).elim (hxs slot) (hys slot)
    · obtain ⟨d₁, hfirst, hlast⟩ := Coder.serves_append.mp hserves
      rw [List.length_cons, decodeAll, thenRun_some (hdecode coder d d₁ hfirst),
        thenRun_some (hdecode' coder d₁ d' hlast)]
      rfl

theorem symbols_decoded_threeSymbols :
    ∃ slots m', encodeAll ⟨257, 200000, 4, 32⟩ [65, 66, 65] .init = .ok (some (slots, m')) ∧
      m'.Inv ⟨257, 200000, 4, 32⟩ ∧ (∀ slot ∈ slots, slot.Ok) ∧
      ∀ {δ : Type} (coder : Coder δ) (d d' : δ), coder.Serves slots d d' →
        decodeAll coder ⟨257, 200000, 4, 32⟩ 3 .init d = .ok (some ([65, 66, 65], m', d')) :=
  have hP : Params.Ok ⟨257, 200000, 4, 32⟩ := ⟨by decide, by decide, by decide⟩
  symbols_decoded hP (init_inv hP) [65, 66, 65] (by decide)

end DlibAndroid.Codec
