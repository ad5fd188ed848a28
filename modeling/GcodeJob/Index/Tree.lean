import GcodeJob.Index.Chain

/-!
# GcodeJob.Index.Tree

A balanced search tree of marks.  `Tree.ofList` cuts a chain of marks in the
middle, and both parts again by the lengths they must have; reading the tree
in order gives the chain back.  A tree is gone through with a stack of what
is still to be read (`Tree.walk`), which takes no deeper calls for a deeper
tree.
-/

namespace GcodeJob

/-- A search tree of marks, keyed by line. -/
inductive Tree
  | leaf
  | node (left : Tree) (mark : Mark) (right : Tree)
  deriving DecidableEq, Repr

namespace Tree

/-! ## From a chain to a tree -/

/-- A chain as it stands: every mark is the right child of the one before. -/
def spine (chain : List Mark) : Tree := chain.foldr (fun mark rest => .node .leaf mark rest) .leaf

/-- Cuts a chain behind its first `count` marks and gives both parts.  The cut
is looked for from the first mark on, so this one is always kept; of a chain
that ends before, nothing is cut off. -/
def detachAfter (count : Nat) (chain : List Mark) : List Mark × List Mark :=
  chain.splitAt (max count 1)

/-- The tree of a chain that has `length` marks.  The mark in the middle
becomes the root, and both parts are treated alike, each by its own length;
no part is counted again. -/
def splitMiddle (chain : List Mark) (length : Nat) : Tree :=
  match chain with
  | [] => .leaf
  | head :: rest =>
    if length ≤ 1 then .node .leaf head .leaf
    else
      match detachAfter (length / 2) (head :: rest) with
      | (kept, []) => spine kept
      | (kept, middle :: after) =>
        .node (splitMiddle kept (length / 2)) middle (splitMiddle after (length - length / 2 - 1))
termination_by length

/-- The tree of a chain. -/
def ofList (chain : List Mark) : Tree := splitMiddle chain chain.length

/-! ## Reading a tree -/

/-- The marks in order. -/
def toList : Tree → List Mark
  | leaf => []
  | node left mark right => left.toList ++ mark :: right.toList

/-- The number of marks. -/
def size : Tree → Nat
  | leaf => 0
  | node left _ right => left.size + 1 + right.size

/-- The number of levels. -/
def depth : Tree → Nat
  | leaf => 0
  | node left _ right => 1 + max left.depth right.depth

/-- What is left of a stack of marks and their right subtrees: a step for each
mark, and two for each in a subtree. -/
def stackSize : List (Mark × Tree) → Nat
  | [] => 0
  | (_, right) :: stack => 2 * right.size + 1 + stackSize stack

/-- Goes through `next`, and then through what is stacked: the marks that were
passed on the way down to the left, each with its right subtree.  The marks
in `found` are latest first. -/
def walk (next : Tree) (stack : List (Mark × Tree)) (found : List Mark) : List Mark :=
  match next, stack with
  | .node left mark right, stack => walk left ((mark, right) :: stack) found
  | .leaf, (mark, right) :: stack => walk right stack (mark :: found)
  | .leaf, [] => found.reverse
termination_by 2 * next.size + stackSize stack
decreasing_by
  all_goals
    simp only [size, stackSize]
    omega

/-- The mark with the greatest line not after `line`. -/
def floor? (line : Nat) : Tree → Option Mark
  | leaf => none
  | node left mark right =>
    if mark.line = line then some mark
    else if mark.line < line then some ((right.floor? line).getD mark)
    else left.floor? line

/-- The first mark in order. -/
def first? : Tree → Option Mark
  | leaf => none
  | node left mark _ => some (left.first?.getD mark)

/-! ## Nothing is lost -/

/-- A chain of two marks or more is cut in front of its middle mark. -/
theorem exists_detachAfter_eq {chain : List Mark} (more : 1 < chain.length) :
    ∃ before middle after, detachAfter (chain.length / 2) chain = (before, middle :: after) ∧
      chain = before ++ middle :: after ∧ before.length = chain.length / 2 := by
  have inside : chain.length / 2 < chain.length := by omega
  refine ⟨chain.take (chain.length / 2), chain[chain.length / 2],
    chain.drop (chain.length / 2 + 1), ?_, ?_, ?_⟩
  · rw [detachAfter, Nat.max_eq_left (by omega), List.splitAt_eq,
      List.drop_eq_getElem_cons inside]
  · rw [← List.drop_eq_getElem_cons inside, List.take_append_drop]
  · rw [List.length_take]
    omega

/-- The tree of a chain by its middle mark: both parts have the lengths by
which they are treated. -/
theorem exists_ofList_eq_node {chain : List Mark} (ne_nil : chain ≠ []) :
    ∃ before middle after, ofList chain = .node (ofList before) middle (ofList after) ∧
      chain = before ++ middle :: after ∧ before.length = chain.length / 2 := by
  obtain ⟨head, rest, rfl⟩ := List.exists_cons_of_ne_nil ne_nil
  rw [ofList, splitMiddle]
  split
  next few =>
    obtain rfl : rest = [] := List.eq_nil_of_length_eq_zero (by simpa using few)
    exact ⟨[], head, [], by simp [ofList, splitMiddle], by simp⟩
  next more =>
    obtain ⟨before, middle, after, cut, parts, half⟩ :=
      exists_detachAfter_eq (Nat.lt_of_not_le more)
    have length := congrArg List.length parts
    rw [List.length_append, List.length_cons (a := middle)] at length
    have rest_length : after.length =
        (head :: rest).length - (head :: rest).length / 2 - 1 := by omega
    refine ⟨before, middle, after, ?_, parts, half⟩
    rw [cut]
    dsimp only
    rw [ofList, ofList, half, rest_length]

/-- What holds of no tree, and of each tree whose parts are those of two
chains as long as each other, but for one mark more in the first, holds of
the tree of every chain. -/
theorem ofList_induction {motive : List Mark → Tree → Prop} (nil : motive [] .leaf)
    (node : ∀ before middle after,
      before.length = after.length ∨ before.length = after.length + 1 →
      motive before (ofList before) → motive after (ofList after) →
        motive (before ++ middle :: after) (.node (ofList before) middle (ofList after)))
    (chain : List Mark) : motive chain (ofList chain) := by
  by_cases none : chain = []
  · rw [none, ofList, splitMiddle]
    exact nil
  · obtain ⟨before, middle, after, eq, rfl, half⟩ := exists_ofList_eq_node none
    rw [List.length_append, List.length_cons] at half
    rw [eq]
    exact node before middle after (by omega) (ofList_induction nil node before)
      (ofList_induction nil node after)
termination_by chain.length
decreasing_by
  all_goals
    subst_vars
    simp only [List.length_append, List.length_cons]
    omega

/-- Nothing is lost, doubled or moved by building the tree. -/
@[simp] theorem toList_ofList (chain : List Mark) : (ofList chain).toList = chain := by
  induction chain using ofList_induction with
  | nil => rfl
  | node before middle after _ ihl ihr => rw [toList, ihl, ihr]

/-- Going through a tree with a stack meets its marks in order, and then those
that are stacked. -/
theorem walk_eq (next : Tree) (stack : List (Mark × Tree)) (found : List Mark) :
    next.walk stack found =
      found.reverse ++ next.toList ++ stack.flatMap fun (mark, right) => mark :: right.toList := by
  fun_induction walk next stack found with
  | case1 left mark right stack found ih =>
    rw [ih, toList, List.flatMap_cons]
    simp only [List.append_assoc]
  | case2 mark right stack found ih =>
    rw [ih, toList, List.flatMap_cons, List.reverse_cons]
    simp only [List.append_assoc, List.nil_append, List.cons_append]
  | case3 found => simp [toList]

end Tree

end GcodeJob
