import GcodeJob.Index.Tree

/-!
# GcodeJob.Index.LineIndex

The finished index of a file: its marks in a search tree, and its number of
lines.  Any line is reached from the mark `floor` gives by reading forward.
-/

namespace GcodeJob

structure LineIndex where
  tree : Tree
  nodeCount : Nat
  totalLines : Nat
  deriving DecidableEq, Repr

namespace LineIndex

/-- The index of a finished chain. -/
def ofChain (chain : Chain) (totalLines : Nat) : LineIndex :=
  ⟨.ofList chain.toList, chain.length, totalLines⟩

/-- The last mark not after a line, or the first of all. -/
def floor (index : LineIndex) (line : Nat) : Mark :=
  ((index.tree.floor? line).or index.tree.first?).getD ⟨0, 0⟩

/-- All marks in order. -/
def nodes (index : LineIndex) : List Mark := index.tree.walk [] []

def depth (index : LineIndex) : Nat := index.tree.depth

/-- The marks met on the way through the tree are those it holds. -/
theorem nodes_eq_toList (index : LineIndex) : index.nodes = index.tree.toList := by
  rw [nodes, Tree.walk_eq, List.reverse_nil, List.flatMap_nil, List.nil_append, List.append_nil]

end LineIndex

end GcodeJob
