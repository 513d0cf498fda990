import DlibAndroid.Lib.Interval
import DlibAndroid.Lib.Loop
import Mathlib.Data.Finset.Card
import Mathlib.Order.Lattice

/-!
# The tree of contexts

`entropy_encoder_model_kernel_5` and `entropy_decoder_model_kernel_5` predict a symbol from the ones
before it. Each has a tree of nodes, and the two trees must be the same after every symbol, or
nothing that follows can be read. What the two classes do to their trees is the same text in both,
and is here: a symbol found in a context (`Climb.hit`), a context left for a shorter one
(`Climb.miss`), a tree that is full (`Climb.clear`), and the counts the new nodes begin with
(`settle`). How either of them finds the symbol is in `Codec/ContextModel.lean`.

A node is a number, an index into the array `root`. The nodes of one context set are strung together
by `next` in the source; here the set is a list in the node above. A node belongs to one set and its
symbol and its count are looked at through that set only, so they are in the list. A node that is
new has neither until the symbol is known: it hangs at the end of its set as `fresh`, and reading it
there is reading memory nobody has written.
-/

set_option autoImplicit false

namespace DlibAndroid.Codec

open CCore

/-! ## The tree -/

/-- The parameters of the template, and how many bits an `unsigned long` has. -/
structure Params where
  alphabetSize : Nat
  totalNodes : Nat
  order : Nat
  longBits : Nat

/-- What is asserted of them at compile time, but for the alphabet. With ten thousand symbols in one
context `while (nc->total > 10000)` would not end; the source allows 65534 and uses 257. -/
structure Params.Ok (P : Params) : Prop where
  one_lt : 1 < P.alphabetSize
  alphabet_lt : P.alphabetSize < 10000
  nodes : 4096 < P.totalNodes

/-- Storing to an `unsigned short`. -/
def u16 (n : Nat) : Nat := n % 65536

/-- A node as a member of its context set. -/
structure Entry where
  node : Nat
  symbol : Nat
  count : Nat
  deriving DecidableEq

structure Node where
  childContext : List Entry
  fresh : Option Nat
  parentContext : Option Nat
  total : Nat
  escapes : Nat
  deriving DecidableEq

abbrev Nodes := Nat → Node

/-- A write through a pointer to a node. -/
def Nodes.modify (nodes : Nodes) (k : Nat) (f : Node → Node) : Nodes :=
  fun i => if i = k then f (nodes i) else nodes i

/-- The new node's `parent_context`, when there is a new node. -/
def Nodes.link (nodes : Nodes) (newNode : Option Nat) (parent : Nat) : Nodes :=
  match newNode with
  | none => nodes
  | some n => nodes.modify n fun node => { node with parentContext := some parent }

/-- Either class, between two symbols. Its exclusions are cleared when a symbol begins and its stack
is empty when a symbol ends. -/
structure Model where
  nodes : Nodes
  nextNode : Nat
  cur : Option Nat
  curOrder : Nat

/-- `root` -/
def root : Nat := 0

/-- The fields of a node that the constructor and `clear` write. -/
def Node.emptied (n : Node) : Node :=
  { n with childContext := [], fresh := none, escapes := 0, total := 0 }

/-- A node as `new` leaves it. None of its fields has been written; that none is read before it is,
is part of the invariant below, where every pointer goes to a node below `next_node`. -/
def Node.unwritten : Node := ⟨[], none, none, 0, 0⟩

/-- The constructor. `root` is the only node there is. -/
def Model.init : Model := ⟨fun _ => .unwritten, 1, some root, 0⟩

def Entry.halve (e : Entry) : Entry := if e.count > 1 then { e with count := e.count / 2 } else e

def Node.scaleCounts (n : Node) : Node :=
  let escapes := if n.escapes > 1 then n.escapes / 2 else n.escapes
  let children := n.childContext.map Entry.halve
  { n with
    childContext := children
    escapes := escapes
    total := children.foldl (fun total e => u16 (total + e.count)) escapes }

/-- `n->count += 8; temp->total += 8;`, and the found node moved to the front of its set, where it
was behind `before`. -/
def Node.bump (n : Node) (before : List Entry) (e : Entry) (after : List Entry) : Node :=
  { n with
    childContext := { e with count := u16 (e.count + 8) } :: (before ++ after)
    total := u16 (n.total + 8) }

/-! ## One symbol -/

/-- The locals of `encode` and of `decode` that last, and the fields either works on. `exc` is the
set of excluded symbols, with `exc_used` for its not being empty. -/
structure Climb where
  model : Model
  temp : Option Nat
  localOrder : Nat
  newNode : Option Nat
  exc : List Nat
  stack : List (Nat × Nat)

namespace Climb

/-- What is done before the loop. -/
def start (m : Model) : Climb := ⟨{ m with cur := none }, m.cur, m.curOrder, none, [], []⟩

variable (P : Params) (s : Climb)

def spaceLeft : Bool := s.model.nextNode < P.totalNodes

def setNodes (nodes : Nodes) : Climb := { s with model := { s.model with nodes := nodes } }

def setExc (exc : List Nat) : Climb := { s with exc := exc }

def setCur (cur : Option Nat) (curOrder : Nat) : Climb :=
  { s with model := { s.model with cur := cur, curOrder := curOrder } }

/-- `clear()` and what follows it when there is no space left. -/
def clear : Climb :=
  { model := ⟨s.model.nodes.modify root Node.emptied, 1, none, 0⟩
    temp := some root
    localOrder := 0
    newNode := none
    exc := []
    stack := [] }

def linkNew (parent : Nat) : Climb := s.setNodes (s.model.nodes.link s.newNode parent)

/-- The counts of a context, halved when there are many. -/
def scale (k : Nat) : Climb :=
  if (s.model.nodes k).total > 10000 then s.setNodes (s.model.nodes.modify k Node.scaleCounts)
  else s

/-- A `cur` for the next symbol, when none has been found deeper: the node of this symbol, or
where that is too deep its `parent_context`. -/
def follow (n : Nat) : Climb :=
  match s.model.cur with
  | some _ => s
  | none =>
    if s.localOrder ≥ P.order then s.setCur (s.model.nodes n).parentContext s.localOrder
    else s.setCur (some n) (s.localOrder + 1)

/-- The symbol is found in the context set of `k`, behind `before`. Returns `c` and `t` also. -/
def hit (k : Nat) (before : List Entry) (e : Entry) (after : List Entry) : Climb × Nat × Nat :=
  let s := s.linkNew e.node
  let t := u16 ((s.model.nodes k).total + 8)
  let s := s.setNodes (s.model.nodes.modify k fun node => node.bump before e after)
  (s.follow P e.node, u16 (e.count + 8), t)

/-- The nodes when `n` has been allocated, hung to the end of the context set of `k`, and filled
out. -/
def grown (n k : Nat) : Nodes :=
  ((s.model.nodes.link s.newNode n).modify k fun node => { node with fresh := some n }).modify n
    Node.emptied

/-- The symbol is not in the context set of `k`. -/
def miss (k : Nat) : Exec Climb :=
  let n := s.model.nextNode
  let deepest := s.model.cur = none ∧ s.localOrder < P.order
  -- the array on the stack has a place for every depth
  if s.stack.length < P.order + 1 then
    .ok { s with
      model :=
        { nodes := s.grown n k
          nextNode := n + 1
          cur := if deepest then some n else s.model.cur
          curOrder := if deepest then s.localOrder + 1 else s.model.curOrder }
      newNode := some n
      stack := (n, k) :: s.stack }
  else .error .outOfRange

/-- `temp = temp->parent_context; --local_order`. Other nodes than the root are deeper than 0. -/
def ascend (k : Nat) : Climb :=
  { s with temp := (s.model.nodes k).parentContext, localOrder := s.localOrder - 1 }

/-- Past the root. -/
def bottom : Climb :=
  let s := s.linkNew root
  match s.model.cur with
  | some _ => s
  | none => s.setCur (some root) 0

end Climb

/-- How a round of the loop ends: with `continue`, or with `break` and with the symbol, `c` and
`t`. -/
inductive Outcome where
  | climb (s : Climb)
  | settle (model : Model) (stack : List (Nat × Nat)) (symbol c t : Nat)

/-! ## The counts of new nodes -/

/-- The count a new node in the context `nc` begins with. -/
def inherited (P : Params) (nc : Node) (c t : Nat) : Exec Nat :=
  if nc.total ≠ 0 then
    let temp2 : Nat := (((t : Int) - c + nc.total - nc.escapes - nc.escapes) % 2 ^ P.longBits).toNat
    let temp := nc.total * c % 2 ^ P.longBits / (temp2 ||| 1) + 2
    .ok (u16 (if temp > 50000 then 50000 else temp))
  else if (t : Int) - c = 0 then .error .divByZero
  else .ok ((3 + (5 * (c : Int)).tdiv (t - c)) % 65536).toNat

/-- `while (nc->total > 10000) scale_counts(nc);` -/
def Node.scaleDown (nc : Node) : Node :=
  rounds (fun n : Node => if n.total > 10000 then some n.scaleCounts else none) nc.total nc

/-- The node `n` gets its symbol and its count, and is a member of its set from now on. -/
def Node.fill (nc : Node) (n symbol count : Nat) : Node :=
  { nc with
    childContext := nc.childContext ++ [⟨n, u16 symbol, count⟩]
    fresh := none
    escapes := if nc.total ≠ 0 then u16 (nc.escapes + 4) else 4
    total := if nc.total ≠ 0 then u16 (nc.total + (count + 4)) else u16 (count + 4) }

/-- The loop over the stack. -/
def settle (P : Params) (symbol c t : Nat) : List (Nat × Nat) → Nodes → Exec Nodes
  | [], nodes => .ok nodes
  | (n, nc) :: stack, nodes => do
    let count ← inherited P (nodes nc) c t
    settle P symbol c t stack (nodes.modify nc fun node => (node.fill n symbol count).scaleDown)

/-! ## Counts -/

@[simp] theorem Nodes.modify_same (nodes : Nodes) (k : Nat) (f : Node → Node) :
    nodes.modify k f k = f (nodes k) := if_pos rfl

@[simp] theorem Nodes.modify_ne {nodes : Nodes} {k i : Nat} {f : Node → Node} (h : i ≠ k) :
    nodes.modify k f i = nodes i := if_neg h

/-- The counts of a context set, together. -/
def weight (children : List Entry) : Nat := (children.map Entry.count).sum

@[simp] theorem weight_nil : weight [] = 0 := rfl

@[simp] theorem weight_cons (e : Entry) (children : List Entry) :
    weight (e :: children) = e.count + weight children := rfl

@[simp] theorem weight_append (xs ys : List Entry) :
    weight (xs ++ ys) = weight xs + weight ys := by
  simp [weight]

/-- What the comment of the class says of the counts of a node: the total is the sum of the counts
and of the escapes, none of which is 0. No symbol is in the set twice. -/
structure Counts (P : Params) (n : Node) : Prop where
  symbol_lt : ∀ e ∈ n.childContext, e.symbol < P.alphabetSize
  nodup : (n.childContext.map Entry.symbol).Nodup
  count_pos : ∀ e ∈ n.childContext, 1 ≤ e.count
  total : n.total = n.escapes + weight n.childContext
  total_lt : n.total < 65536
  escapes_pos : n.childContext ≠ [] → 1 ≤ n.escapes
  escapes_zero : n.childContext = [] → n.escapes = 0

section Counts

variable {P : Params} {n nc : Node} {children : List Entry} {k symbol count c t : Nat}

theorem counts_emptied (n : Node) : Counts P n.emptied :=
  ⟨nofun, List.nodup_nil, nofun, rfl, Nat.zero_lt_succ _, fun h => absurd rfl h, fun _ => rfl⟩

theorem Counts.total_eq_zero (h : Counts P n) : n.total = 0 ↔ n.childContext = [] := by
  constructor
  · intro h0
    by_contra hne
    have hpos := h.escapes_pos hne
    have htotal := h.total
    omega
  · intro hnil
    rw [h.total, h.escapes_zero hnil, hnil]
    rfl

/-- A context set has at most the symbols there are. -/
theorem Counts.length_le (h : Counts P n) : n.childContext.length ≤ P.alphabetSize := by
  have hsub : (n.childContext.map Entry.symbol).toFinset ⊆ Finset.range P.alphabetSize := by
    intro x hx
    obtain ⟨e, he, rfl⟩ := List.mem_map.mp (List.mem_toFinset.mp hx)
    exact Finset.mem_range.mpr (h.symbol_lt e he)
  have hcard := Finset.card_le_card hsub
  rwa [List.toFinset_card_of_nodup h.nodup, List.length_map, Finset.card_range] at hcard

/-! ### Halving -/

@[simp] theorem halve_symbol (e : Entry) : e.halve.symbol = e.symbol := by
  unfold Entry.halve
  split <;> rfl

@[simp] theorem halve_node (e : Entry) : e.halve.node = e.node := by
  unfold Entry.halve
  split <;> rfl

theorem halve_count (e : Entry) : e.halve.count = if e.count > 1 then e.count / 2 else e.count := by
  unfold Entry.halve
  split <;> rfl

theorem weight_halve (children : List Entry) :
    weight (children.map Entry.halve) ≤ weight children ∧
      2 * weight (children.map Entry.halve) ≤ weight children + children.length := by
  induction children with
  | nil => exact ⟨le_rfl, le_rfl⟩
  | cons e children ih =>
    have hcount := halve_count e
    simp only [List.map_cons, weight_cons, List.length_cons]
    split at hcount <;> omega

/-- The sum that `scale_counts` makes is the sum. -/
theorem foldl_total (h : count + weight children < 65536) :
    children.foldl (fun total e => u16 (total + e.count)) count = count + weight children := by
  induction children generalizing count with
  | nil => rfl
  | cons e children ih =>
    rw [weight_cons, ← Nat.add_assoc] at h
    rw [List.foldl_cons, u16, Nat.mod_eq_of_lt (by omega), ih h, weight_cons, Nat.add_assoc]

theorem scaleCounts_total (h : Counts P n) : n.scaleCounts.total =
    n.scaleCounts.escapes + weight n.scaleCounts.childContext := by
  have hweight := (weight_halve n.childContext).1
  have htotal := h.total
  have hlt := h.total_lt
  refine foldl_total ?_
  split <;> omega

theorem counts_scaleCounts (h : Counts P n) : Counts P n.scaleCounts := by
  have hweight := (weight_halve n.childContext).1
  have htotal := h.total
  have hlt := h.total_lt
  have hscaled := scaleCounts_total h
  have hescapes : n.scaleCounts.escapes = if n.escapes > 1 then n.escapes / 2 else n.escapes := rfl
  have hchildren : n.scaleCounts.childContext = n.childContext.map Entry.halve := rfl
  refine ⟨?_, ?_, ?_, hscaled, ?_, ?_, ?_⟩
  · intro e he
    obtain ⟨e, he', rfl⟩ := List.mem_map.mp he
    rw [halve_symbol]
    exact h.symbol_lt e he'
  · have hsymbols : n.scaleCounts.childContext.map Entry.symbol =
        n.childContext.map Entry.symbol := by
      simp [hchildren]
    exact hsymbols ▸ h.nodup
  · intro e he
    obtain ⟨e, he', rfl⟩ := List.mem_map.mp he
    have := h.count_pos e he'
    rw [halve_count]
    split <;> omega
  · rw [hscaled, hescapes, hchildren]
    split <;> omega
  · intro hne
    have := h.escapes_pos fun hnil => hne (by rw [hchildren, hnil]; rfl)
    rw [hescapes]
    split <;> omega
  · intro hnil
    rw [hescapes, h.escapes_zero (List.map_eq_nil_iff.mp hnil)]
    rfl

/-- Scaling does not make the total larger, and almost halves it. -/
theorem scaleCounts_le (h : Counts P n) : n.scaleCounts.total ≤ n.total ∧
    2 * n.scaleCounts.total ≤ n.total + n.childContext.length + 1 := by
  obtain ⟨hle, hhalf⟩ := weight_halve n.childContext
  have htotal := h.total
  have hscaled := scaleCounts_total h
  have hescapes : n.scaleCounts.escapes = if n.escapes > 1 then n.escapes / 2 else n.escapes := rfl
  have hchildren : n.scaleCounts.childContext = n.childContext.map Entry.halve := rfl
  rw [hchildren] at hscaled
  split at hescapes <;> omega

/-- Two nodes with the same members in their sets, but for the counts. -/
structure SameSet (n n' : Node) : Prop where
  symbol : n'.childContext.map Entry.symbol = n.childContext.map Entry.symbol
  node : n'.childContext.map Entry.node = n.childContext.map Entry.node
  fresh : n'.fresh = n.fresh
  parentContext : n'.parentContext = n.parentContext

theorem SameSet.rfl (n : Node) : SameSet n n := ⟨Eq.refl _, Eq.refl _, Eq.refl _, Eq.refl _⟩

theorem SameSet.trans {n'' : Node} (h : SameSet n nc) (h' : SameSet nc n'') : SameSet n n'' :=
  ⟨h'.symbol.trans h.symbol, h'.node.trans h.node, h'.fresh.trans h.fresh,
    h'.parentContext.trans h.parentContext⟩

theorem sameSet_scaleCounts (n : Node) : SameSet n n.scaleCounts := by
  refine ⟨?_, ?_, Eq.refl _, Eq.refl _⟩ <;> simp [Node.scaleCounts]

/-- **The scaling ends**, and under the limit. -/
theorem scaleDown_spec (hP : P.Ok) (h : Counts P n) :
    Counts P n.scaleDown ∧ n.scaleDown.total ≤ 10000 ∧ SameSet n n.scaleDown := by
  have hround : ∀ s t : Node, Counts P s ∧ SameSet n s →
      (if s.total > 10000 then some s.scaleCounts else none) = some t →
      (Counts P t ∧ SameSet n t) ∧ t.total < s.total := by
    rintro s t ⟨hs, hsame⟩ hround
    split_ifs at hround with hgt
    obtain rfl := Option.some.inj hround
    have hlen := hs.length_le
    have halphabet := hP.alphabet_lt
    obtain ⟨-, hhalf⟩ := scaleCounts_le hs
    exact ⟨⟨counts_scaleCounts hs, hsame.trans (sameSet_scaleCounts s)⟩, by omega⟩
  obtain ⟨⟨hcounts, hsame⟩, hend⟩ := rounds_ended (fun m => Counts P m ∧ SameSet n m) Node.total
    hround ⟨h, SameSet.rfl n⟩ (le_refl n.total)
  refine ⟨hcounts, ?_, hsame⟩
  by_contra hgt
  exact absurd ((if_pos (not_le.mp hgt)).symm.trans hend) nofun

/-! ### New counts -/

/-- `c` and `t` as a symbol leaves them. -/
structure Tallied (c t : Nat) : Prop where
  lt : c < t
  le : c ≤ 10016

theorem inherited_spec (P : Params) (nc : Node) (h : Tallied c t) :
    ∃ count, inherited P nc c t = .ok count ∧ 1 ≤ count ∧ count ≤ 50083 ∧
      (nc.total ≠ 0 → count ≤ 50000) := by
  have hlt := h.lt
  have hle := h.le
  unfold inherited
  by_cases h0 : nc.total ≠ 0
  · refine ⟨_, if_pos h0, ?_⟩
    generalize nc.total * c % 2 ^ P.longBits / _ = quotient
    unfold u16
    split <;> omega
  · have hne : (t : Int) - c ≠ 0 := by omega
    have hnn : 0 ≤ (5 * (c : Int)).tdiv (t - c) := Int.tdiv_nonneg (by omega) (by omega)
    have hmax : (5 * (c : Int)).tdiv (t - c) ≤ 5 * c := by
      rw [Int.tdiv_eq_ediv_of_nonneg (by omega)]
      exact Int.ediv_le_self _ (by omega)
    refine ⟨_, by rw [if_neg h0, if_neg hne], ?_⟩
    rw [Int.emod_eq_of_lt (by omega) (by omega)]
    omega

theorem counts_fill (hP : P.Ok) (h : Counts P nc) (hle : nc.total ≤ 10016) (hcount : 1 ≤ count)
    (hcount_le : count ≤ 50083) (hcount_le' : nc.total ≠ 0 → count ≤ 50000)
    (hsymbol : symbol < P.alphabetSize) (hnew : symbol ∉ nc.childContext.map Entry.symbol) :
    Counts P (nc.fill k symbol count) := by
  have halphabet := hP.alphabet_lt
  have hu16 : u16 symbol = symbol := Nat.mod_eq_of_lt (by omega)
  have hsymbols : (nc.fill k symbol count).childContext.map Entry.symbol =
      nc.childContext.map Entry.symbol ++ [symbol] := by
    simp [Node.fill, hu16]
  have htotal := h.total
  have hzero := h.total_eq_zero
  have hsum :
      (nc.fill k symbol count).escapes + weight (nc.fill k symbol count).childContext < 65536 ∧
      (nc.fill k symbol count).total =
        (nc.fill k symbol count).escapes + weight (nc.fill k symbol count).childContext ∧
      1 ≤ (nc.fill k symbol count).escapes := by
    simp only [Node.fill, weight_append, weight_cons, weight_nil, u16]
    by_cases h0 : nc.total ≠ 0
    · have := hcount_le' h0
      rw [if_pos h0, if_pos h0]
      omega
    · rw [if_neg h0, if_neg h0]
      omega
  refine ⟨?_, ?_, ?_, hsum.2.1, hsum.2.1 ▸ hsum.1, fun _ => hsum.2.2, fun hnil => ?_⟩
  · intro e he
    rcases List.mem_append.mp he with he | he
    · exact h.symbol_lt e he
    · obtain rfl := List.mem_singleton.mp he
      change u16 symbol < _
      rwa [hu16]
  · rw [hsymbols, List.nodup_append]
    refine ⟨h.nodup, List.nodup_singleton _, ?_⟩
    rintro a ha b hb rfl
    exact hnew (List.mem_singleton.mp hb ▸ ha)
  · intro e he
    rcases List.mem_append.mp he with he | he
    · exact h.count_pos e he
    · obtain rfl := List.mem_singleton.mp he
      exact hcount
  · simp [Node.fill] at hnil

end Counts

/-! ## The invariant -/

/-- A node of depth `depth k`, with the members of its set one deeper. -/
structure NodeOk (P : Params) (depth : Nat → Nat) (next k : Nat) (n : Node) : Prop where
  counts : Counts P n
  total_le : n.total ≤ 10016
  child : ∀ i ∈ n.childContext.map Entry.node, 0 < i ∧ i < next ∧ depth i = depth k + 1

structure TreeOk (P : Params) (depth : Nat → Nat) (next : Nat) (nodes : Nodes) : Prop where
  next_pos : 0 < next
  next_le : next ≤ P.totalNodes
  depth_root : depth root = 0
  node : ∀ k < next, NodeOk P depth next k (nodes k)

/-- `parent_context` goes one up. -/
def Rooted (depth : Nat → Nat) (next k : Nat) (n : Node) : Prop :=
  ∃ p, n.parentContext = some p ∧ p < next ∧ depth p + 1 = depth k

/-- Every node but the root and the newest has its `parent_context`. -/
def Linked (depth : Nat → Nat) (next : Nat) (newNode : Option Nat) (nodes : Nodes) : Prop :=
  ∀ k < next, k ≠ root → newNode ≠ some k → Rooted depth next k (nodes k)

/-- A pair on the stack: the first node is going to be in the set of the second, where nothing has
the symbol yet. -/
structure Pending (symbol : Nat) (depth : Nat → Nat) (next : Nat) (nodes : Nodes) (p : Nat × Nat) :
    Prop where
  node : 0 < p.1 ∧ p.1 < next ∧ depth p.1 = depth p.2 + 1
  context : p.2 < next
  new : symbol ∉ (nodes p.2).childContext.map Entry.symbol

/-- The new nodes that hang in a set without a symbol are on the stack. -/
structure StackOk (symbol : Nat) (depth : Nat → Nat) (next : Nat) (stack : List (Nat × Nat))
    (nodes : Nodes) : Prop where
  fresh : ∀ k < next, (nodes k).fresh ≠ none → k ∈ stack.map Prod.snd
  pending : ∀ p ∈ stack, Pending symbol depth next nodes p
  distinct : (stack.map Prod.snd).Nodup

/-- `cur` is a node, and `cur_order` its depth. -/
def CurOk (P : Params) (depth : Nat → Nat) (m : Model) (k : Nat) : Prop :=
  k < m.nextNode ∧ depth k = m.curOrder ∧ m.curOrder ≤ P.order

/-- What holds between two symbols. -/
def Model.Inv (P : Params) (m : Model) : Prop :=
  ∃ depth, TreeOk P depth m.nextNode m.nodes ∧ Linked depth m.nextNode none m.nodes ∧
    StackOk 0 depth m.nextNode [] m.nodes ∧ ∃ k, m.cur = some k ∧ CurOk P depth m k

/-- What holds in the loop. `level` is the depth the newest node's `parent_context` must have. -/
structure Climbing (P : Params) (symbol : Nat) (depth : Nat → Nat) (level : Nat) (s : Climb) :
    Prop where
  tree : TreeOk P depth s.model.nextNode s.model.nodes
  linked : Linked depth s.model.nextNode s.newNode s.model.nodes
  stackOk : StackOk symbol depth s.model.nextNode s.stack s.model.nodes
  newNode : ∀ n, s.newNode = some n → 0 < n ∧ n < s.model.nextNode ∧ depth n = level + 1
  deeper : ∀ p ∈ s.stack, level ≤ depth p.2
  room : s.stack.length + level ≤ P.order + 1
  cur : ∀ k, s.model.cur = some k → CurOk P depth s.model k
  exc : symbol ∉ s.exc

/-- What holds behind the loop. -/
structure Climbed (P : Params) (symbol : Nat) (depth : Nat → Nat) (m : Model)
    (stack : List (Nat × Nat)) : Prop where
  tree : TreeOk P depth m.nextNode m.nodes
  linked : Linked depth m.nextNode none m.nodes
  stackOk : StackOk symbol depth m.nextNode stack m.nodes
  cur : ∃ k, m.cur = some k ∧ CurOk P depth m k

/-- The loop stands at this node. -/
structure At (depth : Nat → Nat) (s : Climb) (k : Nat) : Prop where
  temp : s.temp = some k
  lt : k < s.model.nextNode
  depth : depth k = s.localOrder

section Invariant

variable {P : Params} {depth : Nat → Nat} {next level symbol k : Nat} {nodes : Nodes}
variable {s : Climb} {m : Model} {stack : List (Nat × Nat)} {f : Node → Node}

/-! ### One node written -/

theorem TreeOk.modify (h : TreeOk P depth next nodes)
    (hf : k < next → NodeOk P depth next k (f (nodes k))) :
    TreeOk P depth next (nodes.modify k f) := by
  refine ⟨h.next_pos, h.next_le, h.depth_root, fun i hi => ?_⟩
  by_cases hik : i = k
  · subst hik
    rw [Nodes.modify_same]
    exact hf hi
  · rw [Nodes.modify_ne hik]
    exact h.node i hi

theorem Linked.modify {newNode : Option Nat} (h : Linked depth next newNode nodes)
    (hf : (f (nodes k)).parentContext = (nodes k).parentContext) :
    Linked depth next newNode (nodes.modify k f) := by
  intro i hi hroot hnew
  by_cases hik : i = k
  · subst hik
    rw [Nodes.modify_same, Rooted, hf]
    exact h i hi hroot hnew
  · rw [Nodes.modify_ne hik]
    exact h i hi hroot hnew

/-- A write to a context none of the new nodes is in. -/
theorem StackOk.modify (h : StackOk symbol depth next stack nodes) (hk : k ∉ stack.map Prod.snd)
    (hf : (f (nodes k)).fresh = none) : StackOk symbol depth next stack (nodes.modify k f) := by
  refine ⟨fun i hi hfresh => ?_, fun p hp => ?_, h.distinct⟩
  · by_cases hik : i = k
    · subst hik
      rw [Nodes.modify_same] at hfresh
      exact absurd hf hfresh
    · rw [Nodes.modify_ne hik] at hfresh
      exact h.fresh i hi hfresh
  · have hne : p.2 ≠ k := fun heq => hk (heq ▸ List.mem_map_of_mem hp)
    obtain ⟨hnode, hcontext, hnew⟩ := h.pending p hp
    exact ⟨hnode, hcontext, by rwa [Nodes.modify_ne hne]⟩

/-- A write to a node that leaves its context set alone. -/
theorem StackOk.modify_set (h : StackOk symbol depth next stack nodes)
    (hchild : (f (nodes k)).childContext.map Entry.symbol =
      (nodes k).childContext.map Entry.symbol)
    (hfresh : (f (nodes k)).fresh = (nodes k).fresh) :
    StackOk symbol depth next stack (nodes.modify k f) := by
  have hsame : ∀ i, ((nodes.modify k f) i).childContext.map Entry.symbol =
      (nodes i).childContext.map Entry.symbol ∧ ((nodes.modify k f) i).fresh = (nodes i).fresh := by
    intro i
    by_cases hik : i = k
    · subst hik
      rw [Nodes.modify_same]
      exact ⟨hchild, hfresh⟩
    · rw [Nodes.modify_ne hik]
      exact ⟨rfl, rfl⟩
  refine ⟨fun i hi hi' => h.fresh i hi ((hsame i).2 ▸ hi'), fun p hp => ?_, h.distinct⟩
  obtain ⟨hnode, hcontext, hnew⟩ := h.pending p hp
  exact ⟨hnode, hcontext, (hsame p.2).1 ▸ hnew⟩

/-! ### Into the loop -/

theorem root_lt (h : TreeOk P depth next nodes) : root < next := h.next_pos

theorem climbing_start (symbol : Nat) (h : m.Inv P) : ∃ depth k,
    Climbing P symbol depth (m.curOrder + 1) (.start m) ∧ At depth (.start m) k := by
  obtain ⟨depth, htree, hlinked, hstack, k, hcur, hlt, hdepth, hle⟩ := h
  refine ⟨depth, k, ⟨htree, hlinked, ⟨hstack.fresh, nofun, List.nodup_nil⟩, nofun, nofun, ?_, nofun,
    nofun⟩, ⟨hcur, hlt, hdepth⟩⟩
  simp [Climb.start, hle]

theorem climbing_clear (hP : P.Ok) (s : Climb) :
    Climbing P symbol (fun _ => 0) 1 s.clear ∧ At (fun _ => 0) s.clear root := by
  have hnode : (s.model.nodes.modify root Node.emptied) root = (s.model.nodes root).emptied :=
    Nodes.modify_same _ _ _
  have hroot : ∀ k < 1, k = root := fun k hk => Nat.lt_one_iff.mp hk
  have hnodes := hP.nodes
  refine ⟨⟨⟨Nat.one_pos, by change 1 ≤ _; omega, rfl, fun k hk => ?_⟩, fun k hk hne => ?_,
    ⟨fun k hk hfresh => ?_, nofun, List.nodup_nil⟩, nofun, nofun, ?_, nofun, nofun⟩,
    ⟨rfl, Nat.one_pos, rfl⟩⟩
  · obtain rfl := hroot k hk
    change NodeOk P _ _ _ ((s.model.nodes.modify root Node.emptied) root)
    rw [hnode]
    exact ⟨counts_emptied _, Nat.zero_le _, nofun⟩
  · exact absurd (hroot k hk) hne
  · obtain rfl := hroot k hk
    change (s.model.nodes.modify root Node.emptied root).fresh ≠ none at hfresh
    rw [hnode] at hfresh
    exact absurd rfl hfresh
  · simp [Climb.clear]

/-! ### The newest node's `parent_context` -/

theorem TreeOk.link (h : TreeOk P depth next nodes) (newNode : Option Nat) (p : Nat) :
    TreeOk P depth next (nodes.link newNode p) := by
  cases newNode with
  | none => exact h
  | some n =>
    rw [Nodes.link]
    refine h.modify fun hn => ?_
    obtain ⟨hcounts, hle, hchild⟩ := h.node n hn
    exact ⟨⟨hcounts.symbol_lt, hcounts.nodup, hcounts.count_pos, hcounts.total, hcounts.total_lt,
      hcounts.escapes_pos, hcounts.escapes_zero⟩, hle, hchild⟩

theorem StackOk.link (h : StackOk symbol depth next stack nodes) (newNode : Option Nat) (p : Nat) :
    StackOk symbol depth next stack (nodes.link newNode p) := by
  cases newNode with
  | none => exact h
  | some n =>
    rw [Nodes.link]
    exact h.modify_set rfl rfl

/-- The newest node has its `parent_context` too. -/
theorem Linked.link {newNode : Option Nat} {p : Nat} (h : Linked depth next newNode nodes)
    (hp : p < next) (hdepth : ∀ n, newNode = some n → depth n = depth p + 1) :
    Linked depth next none (nodes.link newNode p) := by
  intro i hi hroot _
  cases newNode with
  | none => exact h i hi hroot nofun
  | some n =>
    by_cases hin : i = n
    · subst hin
      rw [Nodes.link, Nodes.modify_same]
      exact ⟨p, rfl, hp, (hdepth i rfl).symm⟩
    · rw [Nodes.link, Nodes.modify_ne hin]
      exact h i hi hroot fun heq => hin (Option.some.inj heq).symm

/-- Nothing but a `parent_context` has changed. -/
theorem link_childContext (nodes : Nodes) (newNode : Option Nat) (p i : Nat) :
    (nodes.link newNode p i).childContext = (nodes i).childContext ∧
      (nodes.link newNode p i).total = (nodes i).total := by
  cases newNode with
  | none => exact ⟨rfl, rfl⟩
  | some n =>
    by_cases hin : i = n
    · subst hin
      rw [Nodes.link, Nodes.modify_same]
      exact ⟨rfl, rfl⟩
    · rw [Nodes.link, Nodes.modify_ne hin]
      exact ⟨rfl, rfl⟩

/-! ### A context scaled -/

theorem scale_climbing (hP : P.Ok) (h : Climbing P symbol depth level s) (hat : At depth s k) :
    Climbing P symbol depth level (s.scale k) ∧ At depth (s.scale k) k ∧
      ((s.scale k).model.nodes k).total ≤ 10008 ∧ (s.scale k).localOrder = s.localOrder ∧
      (s.scale k).exc = s.exc ∧ (s.scale k).spaceLeft P = s.spaceLeft P ∧
      ((s.model.nodes k).total ≠ 0 → ((s.scale k).model.nodes k).childContext ≠ []) := by
  obtain ⟨hcounts, hle, hchild⟩ := h.tree.node k hat.lt
  unfold Climb.scale
  by_cases hgt : (s.model.nodes k).total > 10000
  · have hsame := sameSet_scaleCounts (s.model.nodes k)
    have hhalf := (scaleCounts_le hcounts).2
    have hlen := hcounts.length_le
    have halphabet := hP.alphabet_lt
    have hnode : (s.model.nodes.modify k Node.scaleCounts) k = (s.model.nodes k).scaleCounts :=
      Nodes.modify_same _ _ _
    rw [if_pos hgt]
    refine ⟨⟨h.tree.modify fun _ => ⟨counts_scaleCounts hcounts, by omega, hsame.node ▸ hchild⟩,
      h.linked.modify hsame.parentContext, h.stackOk.modify_set hsame.symbol hsame.fresh,
      h.newNode, h.deeper, h.room, h.cur, h.exc⟩, ⟨hat.temp, hat.lt, hat.depth⟩, ?_, rfl, rfl, rfl,
      ?_⟩
    · change ((s.model.nodes.modify k Node.scaleCounts) k).total ≤ 10008
      rw [hnode]
      omega
    · intro h0 hnil
      change ((s.model.nodes.modify k Node.scaleCounts) k).childContext = [] at hnil
      rw [hnode] at hnil
      exact h0 (hcounts.total_eq_zero.mpr (List.map_eq_nil_iff.mp hnil))
  · rw [if_neg hgt]
    exact ⟨h, hat, by omega, rfl, rfl, rfl, fun h0 hnil => h0 (hcounts.total_eq_zero.mpr hnil)⟩

/-! ### Out of the loop, and on -/

theorem counts_bump {n : Node} {before after : List Entry} {e : Entry} (h : Counts P n)
    (hle : n.total ≤ 10008) (hset : n.childContext = before ++ e :: after) :
    Counts P (n.bump before e after) ∧ (n.bump before e after).total = n.total + 8 ∧
      Tallied (u16 (e.count + 8)) (u16 (n.total + 8)) := by
  have htotal := h.total
  have hmem : e ∈ n.childContext := by simp [hset]
  have hescapes := h.escapes_pos (List.ne_nil_of_mem hmem)
  rw [hset, weight_append, weight_cons] at htotal
  have hcount : u16 (e.count + 8) = e.count + 8 := Nat.mod_eq_of_lt (by omega)
  have hsum : u16 (n.total + 8) = n.total + 8 := Nat.mod_eq_of_lt (by omega)
  have hperm : List.Perm ((before ++ e :: after).map Entry.symbol)
      ((n.bump before e after).childContext.map Entry.symbol) := by
    simp only [Node.bump, List.map_append, List.map_cons]
    exact List.perm_middle
  refine ⟨⟨?_, hperm.nodup_iff.mp (hset ▸ h.nodup), ?_, ?_, ?_, fun _ => hescapes, nofun⟩, hsum, ?_⟩
  · have hall : ∀ x ∈ n.childContext.map Entry.symbol, x < P.alphabetSize := by
      simpa using h.symbol_lt
    intro x hx
    exact hall _ (hset ▸ hperm.mem_iff.mpr (List.mem_map_of_mem hx))
  · intro x hx
    rcases List.mem_cons.mp hx with rfl | hx
    · change 1 ≤ u16 (e.count + 8)
      omega
    · refine h.count_pos x (hset ▸ ?_)
      rcases List.mem_append.mp hx with hx | hx <;> simp [hx]
  · simp only [Node.bump, weight_cons, weight_append, hcount, hsum]
    omega
  · change u16 (n.total + 8) < _
    omega
  · rw [hcount, hsum]
    exact ⟨by omega, by omega⟩

/-- There is a `cur` then, no deeper than `order`. -/
theorem follow_climbed {n : Nat} (htree : TreeOk P depth s.model.nextNode s.model.nodes)
    (hlinked : Linked depth s.model.nextNode none s.model.nodes)
    (hstack : StackOk symbol depth s.model.nextNode s.stack s.model.nodes)
    (hcur : ∀ k, s.model.cur = some k → CurOk P depth s.model k) (horder : s.localOrder ≤ P.order)
    (hn : 0 < n) (hlt : n < s.model.nextNode) (hdepth : depth n = s.localOrder + 1) :
    Climbed P symbol depth (s.follow P n).model (s.follow P n).stack := by
  unfold Climb.follow
  cases hc : s.model.cur with
  | some c => exact ⟨htree, hlinked, hstack, c, hc, hcur c hc⟩
  | none =>
    by_cases hdeep : s.localOrder ≥ P.order
    · obtain ⟨p, hparent, hp, hpdepth⟩ := hlinked n hlt hn.ne' nofun
      have hcur' : CurOk P depth (s.setCur (some p) s.localOrder).model p :=
        ⟨hp, Nat.succ.inj (hpdepth.trans hdepth), horder⟩
      simp only [if_pos hdeep]
      exact ⟨htree, hlinked, hstack, p, hparent, hcur'⟩
    · have hcur' : CurOk P depth (s.setCur (some n) (s.localOrder + 1)).model n :=
        ⟨hlt, hdepth, not_le.mp hdeep⟩
      simp only [if_neg hdeep]
      exact ⟨htree, hlinked, hstack, n, rfl, hcur'⟩

/-- Found: `n->count += 8`, to the front, and with a `cur` for the next symbol. -/
theorem hit_climbed {before after : List Entry} {e : Entry}
    (h : Climbing P symbol depth (s.localOrder + 1) s) (hat : At depth s k)
    (hk : k ∉ s.stack.map Prod.snd) (hle : (s.model.nodes k).total ≤ 10008)
    (hset : (s.model.nodes k).childContext = before ++ e :: after) :
    ∃ s' c t, s.hit P k before e after = (s', c, t) ∧
      Climbed P symbol depth s'.model s'.stack ∧ Tallied c t := by
  obtain ⟨hchild, htotal⟩ := link_childContext s.model.nodes s.newNode e.node k
  have hnode := (h.tree.link s.newNode e.node).node k hat.lt
  obtain ⟨hcounts, hbump, htallied⟩ := counts_bump hnode.counts (htotal ▸ hle) (hchild ▸ hset)
  have hmem : e ∈ (s.model.nodes k).childContext := by simp [hset]
  obtain ⟨he0, helt, hedepth⟩ := (h.tree.node k hat.lt).child e.node (List.mem_map_of_mem hmem)
  rw [hat.depth] at hedepth
  let written := (s.model.nodes.link s.newNode e.node).modify k fun node => node.bump before e after
  have htree : TreeOk P depth s.model.nextNode written := by
    refine (h.tree.link s.newNode e.node).modify fun _ => ⟨hcounts, by omega, ?_⟩
    intro i hi
    refine hnode.child i (hchild ▸ hset ▸ ?_)
    simp only [Node.bump, List.map_cons, List.map_append, List.mem_cons, List.mem_append] at hi ⊢
    tauto
  have hlinked : Linked depth s.model.nextNode none written :=
    (h.linked.link helt fun n hn => by rw [(h.newNode n hn).2.2, hedepth]).modify rfl
  have hfresh : (s.model.nodes.link s.newNode e.node k).fresh = none := by
    by_contra hne
    exact hk ((h.stackOk.link s.newNode e.node).fresh k hat.lt hne)
  have hstack : StackOk symbol depth s.model.nextNode s.stack written :=
    (h.stackOk.link s.newNode e.node).modify hk hfresh
  have hroom := h.room
  exact ⟨_, _, _, rfl, follow_climbed (s := (s.linkNew e.node).setNodes written) htree hlinked
    hstack h.cur (show s.localOrder ≤ P.order by omega) he0 helt hedepth, htallied⟩

/-! ### A longer context given up -/

/-- The depths when `n` is new. -/
def deepen (depth : Nat → Nat) (n d : Nat) : Nat → Nat := fun i => if i = n then d else depth i

@[simp] theorem deepen_same (depth : Nat → Nat) (n d : Nat) : deepen depth n d n = d := if_pos rfl

theorem deepen_lt {d n i : Nat} (h : i < n) : deepen depth n d i = depth i := if_neg h.ne

@[simp] theorem grown_same (s : Climb) (n : Nat) :
    s.grown n k n = (((s.model.nodes.link s.newNode n).modify k fun node =>
      { node with fresh := some n }) n).emptied := Nodes.modify_same _ _ _

theorem grown_ne (s : Climb) {n i : Nat} (h : i ≠ n) :
    s.grown n k i = { s.model.nodes i with
      fresh := if i = k then some n else (s.model.nodes i).fresh
      parentContext :=
        if s.newNode = some i then some n else (s.model.nodes i).parentContext } := by
  have hlink : (s.model.nodes.link s.newNode n) i = { s.model.nodes i with
      parentContext :=
        if s.newNode = some i then some n else (s.model.nodes i).parentContext } := by
    cases s.newNode with
    | none => rfl
    | some m =>
      by_cases him : i = m
      · subst him
        rw [Nodes.link, Nodes.modify_same, if_pos rfl]
      · rw [Nodes.link, Nodes.modify_ne him, if_neg fun heq => him (Option.some.inj heq).symm]
  rw [Climb.grown, Nodes.modify_ne h]
  by_cases hik : i = k
  · subst hik
    rw [Nodes.modify_same, hlink, if_pos rfl]
  · rw [Nodes.modify_ne hik, hlink, if_neg hik]

theorem miss_tree (h : Climbing P symbol depth (s.localOrder + 1) s) (hspace : s.spaceLeft P) :
    TreeOk P (deepen depth s.model.nextNode (s.localOrder + 1)) (s.model.nextNode + 1)
      (s.grown s.model.nextNode k) := by
  have hpos := h.tree.next_pos
  refine ⟨Nat.succ_pos _, of_decide_eq_true hspace, ?_, fun i hi => ?_⟩
  · rw [deepen_lt (root_lt h.tree)]
    exact h.tree.depth_root
  · rcases Nat.lt_succ_iff_lt_or_eq.mp hi with hlt | rfl
    · obtain ⟨hcounts, hle, hchild⟩ := h.tree.node i hlt
      rw [grown_ne s hlt.ne]
      refine ⟨⟨hcounts.symbol_lt, hcounts.nodup, hcounts.count_pos, hcounts.total, hcounts.total_lt,
        hcounts.escapes_pos, hcounts.escapes_zero⟩, hle, fun j hj => ?_⟩
      obtain ⟨hj0, hjlt, hjdepth⟩ := hchild j hj
      rw [deepen_lt hjlt, deepen_lt hlt]
      exact ⟨hj0, hjlt.trans (Nat.lt_succ_self _), hjdepth⟩
    · rw [grown_same]
      exact ⟨counts_emptied _, Nat.zero_le _, nofun⟩

theorem miss_linked (h : Climbing P symbol depth (s.localOrder + 1) s) :
    Linked (deepen depth s.model.nextNode (s.localOrder + 1)) (s.model.nextNode + 1)
      (some s.model.nextNode) (s.grown s.model.nextNode k) := by
  intro i hi hroot hnew
  have hlt : i < s.model.nextNode :=
    (Nat.lt_succ_iff.mp hi).lt_of_ne fun heq => hnew (congrArg some heq.symm)
  rw [grown_ne s hlt.ne, Rooted, deepen_lt hlt]
  by_cases hi' : s.newNode = some i
  · obtain ⟨-, -, hdepth⟩ := h.newNode i hi'
    exact ⟨_, if_pos hi', Nat.lt_succ_self _, by rw [deepen_same, hdepth]⟩
  · obtain ⟨p, hparent, hp, hpdepth⟩ := h.linked i hlt hroot hi'
    refine ⟨p, (if_neg hi').trans hparent, hp.trans (Nat.lt_succ_self _), ?_⟩
    rw [deepen_lt hp]
    exact hpdepth

theorem miss_stackOk (h : Climbing P symbol depth (s.localOrder + 1) s) (hat : At depth s k)
    (hk : k ∉ s.stack.map Prod.snd)
    (hnew : symbol ∉ (s.model.nodes k).childContext.map Entry.symbol) :
    StackOk symbol (deepen depth s.model.nextNode (s.localOrder + 1)) (s.model.nextNode + 1)
      ((s.model.nextNode, k) :: s.stack) (s.grown s.model.nextNode k) := by
  have hpos := h.tree.next_pos
  have hsucc := Nat.lt_succ_self s.model.nextNode
  refine ⟨fun i hi hfresh => ?_, ?_, List.nodup_cons.mpr ⟨hk, h.stackOk.distinct⟩⟩
  · rcases Nat.lt_succ_iff_lt_or_eq.mp hi with hlt | rfl
    · rw [grown_ne s hlt.ne] at hfresh
      by_cases hik : i = k
      · simp [hik]
      · rw [if_neg hik] at hfresh
        exact List.mem_cons_of_mem _ (h.stackOk.fresh i hlt hfresh)
    · rw [grown_same] at hfresh
      exact absurd rfl hfresh
  · rintro p (_ | ⟨_, hp⟩)
    · refine ⟨⟨hpos, hsucc, ?_⟩, hat.lt.trans hsucc, ?_⟩
      · rw [deepen_same, deepen_lt hat.lt, hat.depth]
      · rwa [grown_ne s hat.lt.ne]
    · obtain ⟨⟨hp0, hplt, hpdepth⟩, hcontext, hsymbol⟩ := h.stackOk.pending p hp
      refine ⟨⟨hp0, hplt.trans hsucc, ?_⟩, hcontext.trans hsucc, ?_⟩
      · rw [deepen_lt hplt, deepen_lt hcontext]
        exact hpdepth
      · rwa [grown_ne s hcontext.ne]

theorem CurOk.deepen {n d : Nat} (h : CurOk P depth m k) (hn : n = m.nextNode) :
    k < n + 1 ∧ deepen depth n d k = m.curOrder ∧ m.curOrder ≤ P.order := by
  obtain ⟨hlt, hdepth, hle⟩ := h
  subst hn
  rw [deepen_lt hlt]
  exact ⟨hlt.trans (Nat.lt_succ_self _), hdepth, hle⟩

/-- **Not found**: a new node waits in the context set, and the loop goes to the next shorter
context. -/
theorem miss_climbing (h : Climbing P symbol depth (s.localOrder + 1) s) (hat : At depth s k)
    (hspace : s.spaceLeft P) (hk : k ∉ s.stack.map Prod.snd)
    (hnew : symbol ∉ (s.model.nodes k).childContext.map Entry.symbol) :
    ∃ s' depth', s.miss P k = .ok s' ∧ Climbing P symbol depth' s.localOrder s' ∧
      s'.localOrder = s.localOrder ∧ k < s'.model.nextNode ∧ depth' k = s.localOrder ∧
      s'.newNode ≠ some k := by
  have hroom := h.room
  have hlen : s.stack.length < P.order + 1 := by omega
  refine ⟨_, deepen depth s.model.nextNode (s.localOrder + 1), if_pos hlen,
    ⟨miss_tree h hspace, miss_linked h, miss_stackOk h hat hk hnew, ?_, ?_, ?_, ?_, h.exc⟩, rfl,
    hat.lt.trans (Nat.lt_succ_self _), (deepen_lt hat.lt).trans hat.depth,
    fun heq => hat.lt.ne (Option.some.inj heq).symm⟩
  · rintro n ⟨⟩
    exact ⟨h.tree.next_pos, Nat.lt_succ_self _, deepen_same _ _ _⟩
  · rintro p (_ | ⟨_, hp⟩)
    · rw [deepen_lt hat.lt, hat.depth]
    · rw [deepen_lt (h.stackOk.pending p hp).context]
      exact (Nat.le_succ _).trans (h.deeper p hp)
  · change s.stack.length + 1 + s.localOrder ≤ P.order + 1
    omega
  · intro i hi
    by_cases hdeepest : s.model.cur = none ∧ s.localOrder < P.order
    · simp only [if_pos hdeepest] at hi
      obtain rfl := Option.some.inj hi
      simp only [CurOk, if_pos hdeepest]
      exact ⟨Nat.lt_succ_self _, deepen_same _ _ _, hdeepest.2⟩
    · simp only [if_neg hdeepest] at hi
      simp only [CurOk, if_neg hdeepest]
      exact (h.cur i hi).deepen rfl

theorem ascend_climbing (h : Climbing P symbol depth s.localOrder s) (hk : k < s.model.nextNode)
    (hdepth : depth k = s.localOrder) (hroot : k ≠ root) (hnew : s.newNode ≠ some k) :
    ∃ p, (s.ascend k).localOrder + 1 = s.localOrder ∧
      Climbing P symbol depth ((s.ascend k).localOrder + 1) (s.ascend k) ∧
      At depth (s.ascend k) p := by
  obtain ⟨p, hparent, hp, hpdepth⟩ := h.linked k hk hroot hnew
  have hup : s.localOrder - 1 + 1 = s.localOrder := by omega
  refine ⟨p, hup, ?_, hparent, hp, ?_⟩
  · change Climbing P symbol depth (s.localOrder - 1 + 1) (s.ascend k)
    rw [hup]
    exact ⟨h.tree, h.linked, h.stackOk, h.newNode, h.deeper, h.room, h.cur, h.exc⟩
  · change depth p = s.localOrder - 1
    omega

/-- Past the root. -/
theorem bottom_climbed (h : Climbing P symbol depth 0 s) :
    Climbed P symbol depth s.bottom.model s.bottom.stack := by
  have htree := h.tree.link s.newNode root
  have hstack := h.stackOk.link s.newNode root
  have hlinked := h.linked.link (p := root) (root_lt h.tree) fun n hn => by
    rw [(h.newNode n hn).2.2, h.tree.depth_root]
  cases hc : (s.linkNew root).model.cur with
  | some c =>
    simp only [Climb.bottom, hc]
    exact ⟨htree, hlinked, hstack, c, hc, h.cur c hc⟩
  | none =>
    simp only [Climb.bottom, hc]
    exact ⟨htree, hlinked, hstack, root, rfl, root_lt h.tree, h.tree.depth_root, Nat.zero_le _⟩

/-- The node the loop stands at has not been left behind. -/
theorem At.not_mem (h : Climbing P symbol depth (s.localOrder + 1) s) (hat : At depth s k) :
    k ∉ s.stack.map Prod.snd := by
  intro hmem
  obtain ⟨p, hp, rfl⟩ := List.mem_map.mp hmem
  have hdeeper := h.deeper p hp
  rw [hat.depth] at hdeeper
  exact absurd hdeeper (Nat.not_succ_le_self _)

/-! ### The new nodes -/

theorem nodeOk_fill {n nc : Nat} (hP : P.Ok) (h : NodeOk P depth next nc (nodes nc))
    (hp : Pending symbol depth next nodes (n, nc)) (hsymbol : symbol < P.alphabetSize)
    {count : Nat} (hcount : 1 ≤ count) (hle : count ≤ 50083)
    (hle' : (nodes nc).total ≠ 0 → count ≤ 50000) :
    NodeOk P depth next nc ((nodes nc).fill n symbol count).scaleDown := by
  obtain ⟨hcounts, htotal, hsame⟩ :=
    scaleDown_spec hP (counts_fill (k := n) hP h.counts h.total_le hcount hle hle' hsymbol hp.new)
  refine ⟨hcounts, by omega, fun i hi => ?_⟩
  rw [hsame.node] at hi
  simp only [Node.fill, List.map_append, List.mem_append, List.map_cons, List.map_nil,
    List.mem_singleton] at hi
  rcases hi with hi | rfl
  · exact h.child i hi
  · exact hp.node

/-- **The new nodes join their sets**, and the tree is as it was between symbols. -/
theorem settle_spec {c t : Nat} (hP : P.Ok) (htree : TreeOk P depth next nodes)
    (hlinked : Linked depth next none nodes) (hstack : StackOk symbol depth next stack nodes)
    (hsymbol : symbol < P.alphabetSize) (ht : Tallied c t) :
    ∃ nodes', settle P symbol c t stack nodes = .ok nodes' ∧ TreeOk P depth next nodes' ∧
      Linked depth next none nodes' ∧ StackOk symbol depth next [] nodes' := by
  induction stack generalizing nodes with
  | nil => exact ⟨nodes, rfl, htree, hlinked, hstack⟩
  | cons p stack ih =>
    obtain ⟨n, nc⟩ := p
    obtain ⟨hnotin, hdistinct⟩ := List.nodup_cons.mp hstack.distinct
    have hp := hstack.pending (n, nc) List.mem_cons_self
    obtain ⟨count, hinherited, hcount, hle, hle'⟩ := inherited_spec P (nodes nc) ht
    have hok := nodeOk_fill hP (htree.node nc hp.context) hp hsymbol hcount hle hle'
    have hsame := (scaleDown_spec hP (counts_fill (k := n) hP (htree.node nc hp.context).counts
      (htree.node nc hp.context).total_le hcount hle hle' hsymbol hp.new)).2.2
    rw [settle, hinherited, ok_bind]
    refine ih (htree.modify fun _ => hok) (hlinked.modify hsame.parentContext) ⟨?_, ?_, hdistinct⟩
    · intro i hi hfresh
      by_cases hinc : i = nc
      · subst hinc
        rw [Nodes.modify_same, hsame.fresh] at hfresh
        exact absurd rfl hfresh
      · rw [Nodes.modify_ne hinc] at hfresh
        exact (List.mem_cons.mp (hstack.fresh i hi hfresh)).resolve_left hinc
    · intro q hq
      obtain ⟨hnode, hcontext, hnew⟩ := hstack.pending q (List.mem_cons_of_mem _ hq)
      have hne : q.2 ≠ nc := by
        rintro rfl
        exact hnotin (List.mem_map.mpr ⟨q, hq, rfl⟩)
      exact ⟨hnode, hcontext, by rwa [Nodes.modify_ne hne]⟩

/-- Behind the loop over the stack the model is as it was between symbols. -/
theorem settle_inv {c t : Nat} (hP : P.Ok) (h : Climbed P symbol depth m stack)
    (hsymbol : symbol < P.alphabetSize) (ht : Tallied c t) :
    ∃ nodes, settle P symbol c t stack m.nodes = .ok nodes ∧
      ({ m with nodes := nodes } : Model).Inv P := by
  obtain ⟨nodes, hsettle, htree, hlinked, hstack⟩ :=
    settle_spec hP h.tree h.linked h.stackOk hsymbol ht
  exact ⟨nodes, hsettle, depth, htree, hlinked, ⟨hstack.fresh, nofun, List.nodup_nil⟩, h.cur⟩

theorem init_inv (hP : P.Ok) : Model.init.Inv P := by
  have hnodes := hP.nodes
  have hroot : ∀ k < 1, k = root := fun k hk => Nat.lt_one_iff.mp hk
  refine ⟨fun _ => 0, ⟨Nat.one_pos, by change 1 ≤ _; omega, rfl, fun k hk => ?_⟩,
    fun k hk hne => absurd (hroot k hk) hne, ⟨fun k hk hfresh => absurd rfl hfresh, nofun,
    List.nodup_nil⟩, root, rfl, Nat.one_pos, rfl, Nat.zero_le _⟩
  exact ⟨counts_emptied .unwritten, Nat.zero_le _, nofun⟩

end Invariant

end DlibAndroid.Codec
