import GcodeJob.Index.LineIndex

/-!
# GcodeJob.Proofs.Index.Floor

Looking up a line.  The lines of a chain strictly increase, whatever is
offered to it, so a tree of its marks is a search tree, and `floor` gives the
mark with the greatest line not after the one asked for.

**Main result** (`LineIndex.floor_pushAll`): of all marks that are offered in
any order, `floor` gives the one that is nearest among those taken.
-/

namespace GcodeJob

/-! ## Chains -/

namespace Chain

/-- A chain begins with the first line, and its lines strictly increase. -/
structure Ordered (c : Chain) : Prop where
  first : ⟨0, 0⟩ ∈ c.toList
  increasing : c.toList.Pairwise (·.line < ·.line)

theorem lastLine_eq (c : Chain) : c.lastLine = (c.toList.getLast?.map Mark.line).getD 0 := by
  rw [lastLine, toList, Array.getLast?_toList]

/-- Lines of a chain are at most its last. -/
theorem line_le_lastLine {c : Chain} (ordered : c.Ordered) {m : Mark} (mem : m ∈ c.toList) :
    m.line ≤ c.lastLine := by
  have increasing := ordered.increasing
  rw [lastLine_eq]
  rcases List.eq_nil_or_concat c.toList with nil | ⟨before, last, eq⟩
  · rw [nil] at mem
    exact absurd mem List.not_mem_nil
  · rw [eq, List.concat_eq_append] at mem increasing ⊢
    rw [List.getLast?_concat, Option.map_some, Option.getD_some]
    rcases List.mem_append.mp mem with inside | is_last
    · exact Nat.le_of_lt ((List.pairwise_append.mp increasing).2.2 m inside last (by simp))
    · exact Nat.le_of_eq (congrArg Mark.line (List.mem_singleton.mp is_last))

theorem mem_push {c : Chain} {m offered : Mark} (mem : m ∈ (c.push offered).toList) :
    m ∈ c.toList ∨ m = offered := by
  rw [toList_push] at mem
  split at mem
  · simpa using mem
  · exact .inl mem

namespace Ordered

theorem start : start.Ordered where
  first := by simp
  increasing := by simp

theorem push {c : Chain} (ordered : c.Ordered) (m : Mark) : (c.push m).Ordered := by
  have keep := c.toList_push m
  split at keep
  next accepted =>
    refine ⟨by simp [keep, ordered.first], ?_⟩
    rw [keep, List.pairwise_append]
    refine ⟨ordered.increasing, List.pairwise_singleton .., ?_⟩
    intro before mem last is_last
    rw [List.mem_singleton.mp is_last]
    exact Nat.lt_of_le_of_lt (line_le_lastLine ordered mem) (of_decide_eq_true accepted)
  next => exact ⟨keep ▸ ordered.first, keep ▸ ordered.increasing⟩

theorem pushAll {c : Chain} (ordered : c.Ordered) (offered : List Mark) :
    (c.pushAll offered).Ordered := by
  induction offered generalizing c with
  | nil => exact ordered
  | cons m offered ih => exact ih (ordered.push m)

end Ordered

/-- A chain takes a mark just if its line is beyond those of all marks it has. -/
theorem accepts_iff {c : Chain} (ordered : c.Ordered) (m : Mark) :
    c.accepts m = true ↔ ∀ before ∈ c.toList, before.line < m.line := by
  rw [accepts, decide_eq_true_eq]
  constructor
  · intro lt before mem
    exact Nat.lt_of_le_of_lt (line_le_lastLine ordered mem) lt
  · intro beyond
    have first : 0 < m.line := beyond _ ordered.first
    rw [lastLine_eq]
    cases last : c.toList.getLast? with
    | none => exact first
    | some before => exact beyond before (List.mem_of_getLast? last)

/-- The marks that are taken of those offered one after the other. -/
def taken (before : List Mark) : List Mark → List Mark
  | [] => before
  | m :: offered => taken (if before.all (·.line < m.line) then before ++ [m] else before) offered

theorem toList_pushAll {c : Chain} (ordered : c.Ordered) (offered : List Mark) :
    (c.pushAll offered).toList = taken c.toList offered := by
  induction offered generalizing c with
  | nil => rfl
  | cons m offered ih =>
    have same : c.accepts m = c.toList.all (·.line < m.line) := by
      rw [Bool.eq_iff_iff, accepts_iff ordered]
      simp
    have step := ih (ordered.push m)
    rw [toList_push, same] at step
    exact step

end Chain

/-! ## Trees -/

/-- In a search tree the descent finds the last mark in order whose line is
not after the one asked for. -/
theorem Tree.floor?_eq_getLast? {t : Tree} (line : Nat)
    (increasing : t.toList.Pairwise (·.line < ·.line)) :
    t.floor? line = (t.toList.filter (·.line ≤ line)).getLast? := by
  induction t with
  | leaf => rfl
  | node left mark right ihl ihr =>
    rw [toList, List.pairwise_append, List.pairwise_cons] at increasing
    obtain ⟨increasing_left, ⟨mark_lt, increasing_right⟩, left_lt⟩ := increasing
    have none (le : line ≤ mark.line) : right.toList.filter (·.line ≤ line) = [] := by
      rw [List.filter_eq_nil_iff]
      intro m mem
      have lt := mark_lt m mem
      simp only [decide_eq_true_eq]
      omega
    rw [floor?, toList, List.filter_append, List.filter_cons]
    split
    next eq => rw [if_pos (by simp [eq]), none (by omega), List.getLast?_concat]
    next ne =>
      split
      next lt =>
        rw [if_pos (by simp; omega), List.getLast?_append, List.getLast?_cons, ihr increasing_right,
          Option.some_or]
      next not_lt =>
        rw [if_neg (by simp; omega), none (by omega), List.append_nil, ihl increasing_left]

/-! ## Indexes -/

/-- The mark found is met on the way down the tree, and the first of all is
never fallen back on. -/
theorem LineIndex.floor?_ofChain {c : Chain} (ordered : c.Ordered) (totalLines line : Nat) :
    let index := ofChain c totalLines
    index.tree.floor? line = some (index.floor line) ∧
      ∃ before, c.toList.filter (·.line ≤ line) = before ++ [index.floor line] := by
  intro index
  have toList : index.tree.toList = c.toList := Tree.toList_ofList _
  have found := Tree.floor?_eq_getLast? (t := index.tree) line
    (by rw [toList]; exact ordered.increasing)
  rw [toList] at found
  have first : (⟨0, 0⟩ : Mark) ∈ c.toList.filter (·.line ≤ line) := by
    rw [List.mem_filter]
    exact ⟨ordered.first, by simp⟩
  obtain ⟨before, last, eq⟩ := List.eq_nil_or_concat _ |>.resolve_left (List.ne_nil_of_mem first)
  rw [List.concat_eq_append] at eq
  rw [eq, List.getLast?_concat] at found
  have floor_eq : index.floor line = last := by
    rw [floor, found, Option.some_or, Option.getD_some]
  rw [floor_eq]
  exact ⟨found, before, eq⟩

/-- What a look-up gives: a mark of the chain not after the line, and all the
others that are not after it come before this one. -/
theorem LineIndex.floor_ofChain_lt {c : Chain} (ordered : c.Ordered) (totalLines line : Nat) :
    let m := (ofChain c totalLines).floor line
    m ∈ c.toList ∧ m.line ≤ line ∧
      ∀ other ∈ c.toList, other.line ≤ line → other ≠ m → other.line < m.line := by
  intro m
  obtain ⟨-, before, eq⟩ := floor?_ofChain ordered totalLines line
  have increasing := ordered.increasing.filter (·.line ≤ line)
  rw [eq] at increasing
  have mem : m ∈ c.toList.filter (·.line ≤ line) := by simp [eq, m]
  rw [List.mem_filter, decide_eq_true_eq] at mem
  refine ⟨mem.1, mem.2, fun other in_chain le ne => ?_⟩
  have other_mem : other ∈ before ++ [m] := by
    rw [← eq, List.mem_filter]
    exact ⟨in_chain, by simp [le]⟩
  rcases List.mem_append.mp other_mem with inside | is_last
  · exact (List.pairwise_append.mp increasing).2.2 other inside m (List.mem_singleton_self m)
  · exact absurd (List.mem_singleton.mp is_last) ne

/-- None of the other marks comes closer. -/
theorem LineIndex.floor_ofChain {c : Chain} (ordered : c.Ordered) (totalLines line : Nat) :
    let m := (ofChain c totalLines).floor line
    m ∈ c.toList ∧ m.line ≤ line ∧ ∀ other ∈ c.toList, other.line ≤ line → other.line ≤ m.line := by
  intro m
  obtain ⟨mem, le, before⟩ := floor_ofChain_lt ordered totalLines line
  refine ⟨mem, le, fun other in_chain other_le => ?_⟩
  by_cases same : other = m
  · exact Nat.le_of_eq (congrArg Mark.line same)
  · exact Nat.le_of_lt (before other in_chain other_le same)

/-- **The nearest line that is marked.**  Marks are offered to a new chain in
any order, and one is taken just if its line is beyond all taken before.  Then
looking up a line gives, of the first line and the marks taken, the one with
the greatest line not after it. -/
theorem LineIndex.floor_pushAll (offered : List Mark) (totalLines line : Nat) :
    let chain := Chain.start.pushAll offered
    let index := ofChain chain totalLines
    let taken := Chain.taken [⟨0, 0⟩] offered
    (∀ m, chain.accepts m = true ↔ ∀ before ∈ taken, before.line < m.line) ∧
      index.floor line ∈ taken ∧ (index.floor line).line ≤ line ∧
      (∀ m ∈ taken, m.line ≤ line → m ≠ index.floor line → m.line < (index.floor line).line) ∧
      index.tree.floor? line = some (index.floor line) := by
  intro chain index taken
  have ordered : chain.Ordered := Chain.Ordered.start.pushAll offered
  have toList : chain.toList = taken := Chain.toList_pushAll .start offered
  obtain ⟨mem, le, before⟩ := floor_ofChain_lt ordered totalLines line
  rw [← toList]
  exact ⟨chain.accepts_iff ordered, mem, le, before, (floor?_ofChain ordered totalLines line).1⟩

/-- A line that is offered again, and one that comes too late. -/
example : Chain.taken [⟨0, 0⟩] [⟨10, 100⟩, ⟨10, 100⟩, ⟨3, 30⟩, ⟨11, 200⟩] =
    [⟨0, 0⟩, ⟨10, 100⟩, ⟨11, 200⟩] := by decide

end GcodeJob
