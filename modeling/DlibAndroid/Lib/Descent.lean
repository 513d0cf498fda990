import Mathlib.Tactic.Linarith

/-!
# Descents through an implicit binary tree

A tree stored in an array has no pointers: the children of node `i` are the nodes `2 * i + 1` and
`2 * i + 2`. A descent from the root is steered by a choice at each node, `true` for the left
child, and every node can be reached by some choices (`exists_reaches`), whatever the tree is made
of. Which nodes a descent visits therefore says nothing about the tree until the choices are tied
to its contents.
-/

set_option autoImplicit false

namespace CCore

def leftChild (i : Nat) : Nat := 2 * i + 1

def rightChild (i : Nat) : Nat := 2 * i + 2

/-- The child the choice `left` leads to. -/
def child (left : Bool) (i : Nat) : Nat := if left then leftChild i else rightChild i

variable {c c' : Nat → Bool} {i k n : Nat} {left : Bool}

theorem lt_child : i < child left i := by
  unfold child leftChild rightChild
  split <;> omega

theorem child_le (h : i < n) : child left i ≤ 2 * n := by
  unfold child leftChild rightChild
  split <;> omega

theorem lt_of_child_le (h : child left i ≤ 2 * n) : i < n := by
  unfold child leftChild rightChild at h
  split at h <;> omega

/-- Node `k` is on the descent the choices `c` make from the root. -/
inductive Reaches (c : Nat → Bool) : Nat → Prop
  | root : Reaches c 0
  | child (i : Nat) (h : Reaches c i) : Reaches c (child (c i) i)

/-- A descent does not look at the choices below its end. -/
theorem Reaches.congr (h : Reaches c k) (hagree : ∀ j, j < k → c j = c' j) : Reaches c' k := by
  induction h with
  | root => exact .root
  | child i h ih =>
    have hi : c i = c' i := hagree i lt_child
    rw [hi]
    exact .child i (ih fun j hj => hagree j (Nat.lt_trans hj lt_child))

/-- Every node but the root is a child. -/
theorem exists_parent (h : 0 < k) : ∃ left i, child left i = k := by
  by_cases hodd : k % 2 = 1
  · exact ⟨true, k / 2, by rw [child, if_pos rfl, leftChild]; omega⟩
  · exact ⟨false, k / 2 - 1, by rw [child, if_neg Bool.false_ne_true, rightChild]; omega⟩

/-- **Every node is reached** by some choices. -/
theorem exists_reaches (k : Nat) : ∃ c, Reaches c k := by
  induction k using Nat.strong_induction_on with
  | _ k ih =>
    rcases Nat.eq_zero_or_pos k with rfl | hpos
    · exact ⟨fun _ => true, .root⟩
    · obtain ⟨left, i, rfl⟩ := exists_parent hpos
      obtain ⟨c, hc⟩ := ih i lt_child
      -- keep the descent to the parent, and turn there
      have hturn : Reaches (fun j => if j = i then left else c j) i :=
        hc.congr fun j hj => (if_neg hj.ne).symm
      have hreach := Reaches.child i hturn
      rw [if_pos rfl] at hreach
      exact ⟨_, hreach⟩

/-- Choices that reach `k`. -/
noncomputable def toward (k : Nat) : Nat → Bool := (exists_reaches k).choose

theorem reaches_toward (k : Nat) : Reaches (toward k) k := (exists_reaches k).choose_spec

end CCore
