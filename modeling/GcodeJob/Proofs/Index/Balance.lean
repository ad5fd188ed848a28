import GcodeJob.Index.LineIndex
import Mathlib.Data.Nat.Log
import Mathlib.Order.MinMax

/-!
# GcodeJob.Proofs.Index.Balance

The tree of a chain is flat.  Its halves differ by one mark at most, at every
node, and this alone decides the number of levels (`Tree.Balanced.depth_eq`).

**Main result** (`LineIndex.flat_and_in_order`): from chain to tree and from
tree to list nothing is lost, doubled or moved, and the levels are as many as
the binary logarithm says.
-/

namespace GcodeJob

namespace Tree

/-- The subtrees of every node are as large as each other, but for one mark. -/
def Balanced : Tree → Prop
  | leaf => True
  | node left _ right =>
    left.size ≤ right.size + 1 ∧ right.size ≤ left.size + 1 ∧ left.Balanced ∧ right.Balanced

theorem size_eq_length_toList (t : Tree) : t.size = t.toList.length := by
  induction t with
  | leaf => rfl
  | node left mark right ihl ihr =>
    rw [size, toList, List.length_append, List.length_cons, ihl, ihr]
    omega

@[simp] theorem size_ofList (chain : List Mark) : (ofList chain).size = chain.length := by
  rw [size_eq_length_toList, toList_ofList]

theorem balanced_ofList (chain : List Mark) : (ofList chain).Balanced := by
  induction chain using ofList_induction with
  | nil => trivial
  | node before middle after halves ihl ihr =>
    rw [Balanced, size_ofList, size_ofList]
    exact ⟨by omega, by omega, ihl, ihr⟩

/-- Halving decides the number of levels. -/
theorem Balanced.depth_eq {t : Tree} (balanced : t.Balanced) :
    t.depth = Nat.clog 2 (t.size + 1) := by
  induction t with
  | leaf => rfl
  | node left mark right ihl ihr =>
    obtain ⟨left_le, right_le, balanced_left, balanced_right⟩ := balanced
    -- Of two subtrees so alike the larger one has half of the marks below the root, rounded up.
    have larger : max (left.size + 1) (right.size + 1) =
        (left.size + 1 + right.size + 1 + 2 - 1) / 2 := by omega
    calc 1 + max left.depth right.depth
        = 1 + max (Nat.clog 2 (left.size + 1)) (Nat.clog 2 (right.size + 1)) := by
          rw [ihl balanced_left, ihr balanced_right]
      _ = Nat.clog 2 (max (left.size + 1) (right.size + 1)) + 1 := by
          rw [Monotone.map_max (Nat.clog_monotone 2), Nat.add_comm]
      _ = Nat.clog 2 (left.size + 1 + right.size + 1) := by
          rw [larger, ← Nat.clog_of_two_le (by decide) (by omega)]

end Tree

/-- **Nothing is lost, and the tree is flat.**  The tree of a chain has the
marks of the chain in their order; at every node its halves differ by one mark
at most; its levels are as many as the binary logarithm of the marks and one,
rounded up.  Going through the tree of an index with a stack gives the marks
in order. -/
theorem LineIndex.flat_and_in_order (chain : List Mark) (index : LineIndex) :
    (Tree.ofList chain).toList = chain ∧ (Tree.ofList chain).Balanced ∧
      (Tree.ofList chain).depth = Nat.clog 2 (chain.length + 1) ∧
      index.nodes = index.tree.toList := by
  have balanced := Tree.balanced_ofList chain
  refine ⟨Tree.toList_ofList chain, balanced, ?_, index.nodes_eq_toList⟩
  rw [balanced.depth_eq, Tree.size_ofList]

end GcodeJob
