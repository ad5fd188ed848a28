import GcodeJob.Proofs.Yaml.Mapping
import GcodeJob.Yaml.Field
import Mathlib.Data.List.Forall2

/-!
# GcodeJob.Proofs.Yaml.Field

Records, from the events of a mapping to the values of their fields.

A node in a document is a place in the list of events, with everything that
follows it still behind.  `fields?_mapping` cuts the nodes of a mapping's
values out; what is read of them may not depend on what follows, and
`field?_eq` turns the search for the one field with a name into a lookup among
what was written.
-/

namespace GcodeJob.Yaml

/-! ## Nodes -/

/-- Events that are one node: to walk over them is to walk over nothing else,
whether they stand alone or inside collections. -/
structure IsNode (node : List Event) : Prop where
  alone : ∀ rest, afterNode 0 (node ++ rest) = rest
  inside : ∀ depth rest, afterNode (depth + 1) (node ++ rest) = afterNode (depth + 1) rest

theorem isNode_scalar (style : Style) (tag? : Option String) (text : String) :
    IsNode [.scalar style tag? text] := by
  constructor <;> simp [afterNode]

section
variable {α : Type} {name : α → String} {node : α → List Event} {items : List α}

/-- The entries of a mapping are walked over inside it. -/
theorem afterNode_entries (nodes : ∀ i ∈ items, IsNode (node i)) (depth : Nat) (rest : List Event) :
    afterNode (depth + 1)
        ((items.flatMap fun i => .scalar .plain none (name i) :: node i) ++ rest) =
      afterNode (depth + 1) rest := by
  induction items with
  | nil => rfl
  | cons i items ih =>
    have value := (nodes i (by simp)).inside depth
    have more := ih fun j mem => nodes j (by simp [mem])
    simp [afterNode, value, more]

/-- **A mapping of nodes is a node.** -/
theorem isNode_mapping (nodes : ∀ i ∈ items, IsNode (node i)) :
    IsNode (mapping (items.map fun i => (name i, node i))) := by
  by_cases empty : items = []
  · rw [empty]
    exact isNode_scalar ..
  · rw [mapping_eq empty]
    constructor <;> intros <;> simp [afterNode, afterNode_entries nodes]

/-! ## Records -/

theorem pairs?_entries (name : α → String) (d : Document) (nodes : ∀ i ∈ items, IsNode (node i))
    {fuel : Nat} (enough : items.length < fuel) (rest : List Event) :
    ∃ pairs,
      d.pairs? fuel ((items.flatMap fun i => .scalar .plain none (name i) :: node i) ++
        .close :: rest) = some pairs ∧
      List.Forall₂ (fun p i => p.1 = name i ∧ ∃ more, p.2 = node i ++ more) pairs items := by
  induction items generalizing fuel with
  | nil =>
    obtain ⟨fuel, rfl⟩ : ∃ k, fuel = k + 1 := ⟨fuel - 1, by omega⟩
    exact ⟨[], by simp [Document.pairs?], .nil⟩
  | cons i items ih =>
    obtain ⟨fuel, rfl⟩ : ∃ k, fuel = k + 1 := ⟨fuel - 1, by omega⟩
    obtain ⟨pairs, read, alike⟩ := ih (fun j mem => nodes j (by simp [mem]))
      (show items.length < fuel by simp only [List.length_cons] at enough; omega)
    generalize behind_eq : (items.flatMap fun i => Event.scalar .plain none (name i) :: node i) ++
      .close :: rest = behind at read
    have own : d.pairs? (fuel + 1) (.scalar .plain none (name i) :: (node i ++ behind)) =
        some ((name i, node i ++ behind) :: pairs) := by
      simp [Document.pairs?, Document.text?, Document.resolve, afterNode, read,
        (nodes i (by simp)).alone]
    exact ⟨_, by simpa [behind_eq] using own, .cons ⟨rfl, behind, rfl⟩ alike⟩

theorem length_lt_entries (name : α → String) (node : α → List Event) (items : List α)
    (rest : List Event) :
    items.length < ((items.flatMap fun i => Event.scalar .plain none (name i) :: node i) ++
      .close :: rest).length + 1 := by
  induction items with
  | nil => simp
  | cons i items ih =>
    simp only [List.flatMap_cons, List.length_append, List.length_cons] at ih ⊢
    omega

/-- **The fields of a mapping** are its keys with its values, other events behind them. -/
theorem fields?_mapping (name : α → String) (d : Document) (nodes : ∀ i ∈ items, IsNode (node i))
    (rest : List Event) :
    ∃ fields, d.fields? (mapping (items.map fun i => (name i, node i)) ++ rest) = some fields ∧
      List.Forall₂ (fun p i => p.1 = name i ∧ ∃ more, p.2 = node i ++ more) fields items := by
  by_cases empty : items = []
  · rw [empty]
    exact ⟨[], by simp [mapping, Document.fields?, Document.resolve], .nil⟩
  · obtain ⟨pairs, read, alike⟩ :=
      pairs?_entries name d nodes (length_lt_entries name node items rest) rest
    refine ⟨pairs, ?_, alike⟩
    rw [mapping_eq empty]
    simpa [Document.fields?, Document.resolve] using read

end

/-! ## Fields -/

section
variable {β γ : Type} (Writes : List Event → β → Prop) {fields : List (String × List Event)}
  {given : List (String × β)} {name : String} {read : List Event → Option γ} {value : β → γ}

theorem filter_eq_nil_of_alike
    (alike : List.Forall₂ (fun p g => p.1 = g.1 ∧ Writes p.2 g.2) fields given)
    (absent : name ∉ given.map Prod.fst) : fields.filter (·.1 = name) = [] := by
  induction alike with
  | nil => rfl
  | cons same _ ih =>
    simp only [List.map_cons, List.mem_cons, not_or] at absent
    rw [List.filter_cons_of_neg]
    · exact ih absent.2
    · simpa [same.1] using Ne.symm absent.1

/-- **A field of a record whose names are distinct** is what was written under its
name, and its default if nothing was. -/
theorem field?_eq (alike : List.Forall₂ (fun p g => p.1 = g.1 ∧ Writes p.2 g.2) fields given)
    (distinct : (given.map Prod.fst).Nodup)
    (reads : ∀ node b, Writes node b → read node = some (value b)) (name : String) (default : γ) :
    field? fields name default read = some (((given.lookup name).map value).getD default) := by
  induction alike with
  | nil => rfl
  | @cons p g fields given same alike ih =>
    obtain ⟨other, b⟩ := g
    obtain ⟨apart, distinct⟩ := List.nodup_cons.mp distinct
    by_cases here : other = name
    · have others : fields.filter (·.1 = name) = [] :=
        filter_eq_nil_of_alike Writes alike (here ▸ apart)
      have own := reads p.2 b same.2
      simp [field?, same.1, here, others, own]
    · have skipped : field? (p :: fields) name default read = field? fields name default read := by
        simp [field?, same.1, here]
      have beyond : ((other, b) :: given).lookup name = given.lookup name := by
        rw [List.lookup_cons, beq_false_of_ne (Ne.symm here)]
      rw [skipped, beyond, ih distinct]

end

theorem lookup_eq {α : Type} (fields : List (String × α)) (name : String) :
    fields.lookup name = (fields.filter (·.1 = name)).head?.map Prod.snd := by
  induction fields with
  | nil => rfl
  | cons f fields ih =>
    obtain ⟨other, a⟩ := f
    by_cases here : other = name
    · simp [here]
    · rw [List.lookup_cons, beq_false_of_ne (Ne.symm here), List.filter_cons_of_neg (by simpa), ih]

/-- A field that was read is what the only entry with its name holds, and its
default where there is none. -/
theorem eq_of_field? {γ : Type} {fields : List (String × List Event)} {name : String}
    {default v : γ} {read : List Event → Option γ}
    (given : field? fields name default read = some v) :
    (fields.lookup name = none ∧ v = default) ∨
      ∃ node, fields.lookup name = some node ∧ read node = some v := by
  rw [lookup_eq]
  unfold field? at given
  split at given
  case h_1 none =>
    exact .inl ⟨by simp [none], by simpa using given.symm⟩
  case h_2 node only =>
    exact .inr ⟨node, by simp [only], given⟩
  case h_3 => cases given

/-! ## Numbers -/

theorem hexDigit?_digitChar {n : Nat} (lt : n < 10) : hexDigit? n.digitChar = some n := by
  revert n
  decide

/-- The digits of a number write that number. -/
theorem digits?_toDigits {n : Nat} (lt : n < Word.count64) :
    digits? 10 (Nat.toDigits 10 n) = some n := by
  have fold : (Nat.toDigits 10 n).foldlM (fun n d => (hexDigit? d).bind fun v =>
      if v < 10 then some (10 * n + v) |>.filter (· < Word.count64) else none) 0 = some n := by
    induction n using Nat.strongRecOn with
    | ind n ih =>
      by_cases small : n < 10
      · rw [Nat.toDigits_of_lt_base small]
        simp [hexDigit?_digitChar small, small, lt]
      · have front := ih (n / 10) (by omega) (by omega)
        have last : n % 10 < 10 := Nat.mod_lt n (by omega)
        have whole : 10 * (n / 10) + n % 10 = n := Nat.div_add_mod n 10
        rw [Nat.toDigits_of_base_le (by omega) (by omega), List.foldlM_append, front]
        simp [hexDigit?_digitChar last, last, whole, lt]
  unfold digits?
  simp [Nat.toDigits_ne_nil, fold]

/-- No number but zero begins with the digit zero. -/
theorem head?_toDigits {n : Nat} (pos : 0 < n) : (Nat.toDigits 10 n).head? ≠ some '0' := by
  induction n using Nat.strongRecOn with
  | ind n ih =>
    by_cases small : n < 10
    · have digit : ∀ d < 10, 0 < d → d.digitChar ≠ '0' := by decide
      simpa [Nat.toDigits_of_lt_base small] using digit n small pos
    · have front := ih (n / 10) (by omega) (by omega)
      rwa [Nat.toDigits_of_base_le (by omega) (by omega),
        List.head?_append_of_ne_nil _ Nat.toDigits_ne_nil]

/-- **A number in decimal digits** reads as itself if a word can hold it. -/
theorem number?_toDigits {n : Nat} (lt : n < Word.count64) :
    number? (.ofList (Nat.toDigits 10 n)) = some n := by
  by_cases pos : 0 < n
  · have read := digits?_toDigits lt
    have front := head?_toDigits pos
    obtain ⟨c, cs, digits⟩ := List.exists_cons_of_ne_nil (Nat.toDigits_ne_nil (n := n) (b := 10))
    have digit : c.isDigit = true :=
      Nat.isDigit_of_mem_toDigits (b := 10) (n := n) (by omega) (by omega) (by simp [digits])
    rw [digits] at read front ⊢
    have zero : c ≠ '0' := by simpa using front
    have plus : c ≠ '+' := by
      rintro rfl
      cases digit
    unfold number?
    simp [plus, zero, read]
  · obtain rfl : n = 0 := by omega
    rfl

end GcodeJob.Yaml
