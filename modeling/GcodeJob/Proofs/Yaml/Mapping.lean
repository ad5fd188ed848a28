import GcodeJob.Yaml.Event

/-!
# GcodeJob.Proofs.Yaml.Mapping

Block mappings, from their tokens to their events.

The tokens of a block mapping hold the tokens of its values, and its events
hold their events.  That tokens read as some events, `ReadAs`, goes from the
values to the mapping (`readAs_block`), so it holds of mappings inside mappings
to any depth, and `Document.read_block` says what document comes out.
-/

namespace GcodeJob.Yaml

/-- The tokens of a block mapping with the tokens of its values, none at all where
there are no keys. -/
def blockTokens : List (String × List Token) → List Token
  | [] => []
  | items =>
    .blockMapping ::
      (items.flatMap fun (name, node) => .key :: .scalar .plain name :: .value :: node) ++
        [.blockEnd]

/-- The events of a mapping with the events of its values, an empty scalar where there
are no keys. -/
def mapping : List (String × List Event) → List Event
  | [] => [.scalar .plain none ""]
  | items =>
    .openMapping :: (items.flatMap fun (name, node) => .scalar .plain none name :: node) ++ [.close]

section
variable {α : Type} {name : α → String} {tokens : α → List Token} {node : α → List Event}

theorem blockTokens_eq {items : List α} (ne : items ≠ []) :
    blockTokens (items.map fun i => (name i, tokens i)) =
      .blockMapping :: ((items.flatMap fun i =>
        .key :: .scalar .plain (name i) :: .value :: tokens i) ++ [.blockEnd]) := by
  obtain ⟨i, more, rfl⟩ := List.exists_cons_of_ne_nil ne
  simp [blockTokens, List.flatMap_map]

theorem mapping_eq {items : List α} (ne : items ≠ []) :
    mapping (items.map fun i => (name i, node i)) =
      .openMapping :: ((items.flatMap fun i => .scalar .plain none (name i) :: node i) ++
        [.close]) := by
  obtain ⟨i, more, rfl⟩ := List.exists_cons_of_ne_nil ne
  simp [mapping, List.flatMap_map]

end

namespace Reading

/-- Working off goals comes from one reading to another one in `k` steps. -/
def Runs (k : Nat) (r r' : Reading) : Prop := ∀ fuel, run (fuel + k) r = run fuel r'

theorem Runs.trans {k l : Nat} {r t u : Reading} (first : Runs k r t) (second : Runs l t u) :
    Runs (k + l) r u := by
  intro fuel
  rw [show fuel + (k + l) = fuel + l + k by omega, first, second]

theorem runs_step {r r' : Reading} (goals : r.goals ≠ []) (steps : r.step = some r') :
    Runs 1 r r' := by
  intro fuel
  simp [run, goals, steps]

theorem run_done {r : Reading} (goals : r.goals = []) (fuel : Nat) : run fuel r = some r := by
  cases fuel <;> simp [run, goals]

/-- A reading without anchors. -/
def plainly (handles : List (String × String)) (tokens : List Token) (goals : List Goal)
    (events : List Event) : Reading :=
  { tokens, goals, events := events.toArray, handles }

section
variable {handles : List (String × String)} {rest : List Token} {goals : List Goal}
  {events : List Event}

/-- What may stand behind a value in a block mapping: the next key or the end. -/
def EndsValue (rest : List Token) : Prop := ∃ more, rest = .key :: more ∨ rest = .blockEnd :: more

/-- The tokens of a value in a block mapping read as some events. -/
def ReadAs (tokens : List Token) (node : List Event) : Prop :=
  ∀ (handles : List (String × String)) (rest : List Token) (goals : List Goal)
    (events : List Event), EndsValue rest → ∃ k ≤ 2 * (tokens.length + 1),
    Runs k (plainly handles (.value :: (tokens ++ rest)) (.blockValue :: goals) events)
      (plainly handles rest (.blockKeys :: goals) (events ++ node))

/-- A node that is one scalar. -/
theorem runs_scalar (block dash : Bool) (text : String) :
    Runs 1 (plainly handles (.scalar .plain text :: rest) (.node block dash :: goals) events)
      (plainly handles rest goals (events ++ [.scalar .plain none text])) := by
  refine runs_step (by simp [plainly]) ?_
  simp [step, plainly, readNode, takeProperties, takeAnchor, takeTag, emit]

/-- The beginning of a node that is a block mapping. -/
theorem runs_opening (dash : Bool) :
    Runs 1 (plainly handles (.blockMapping :: rest) (.node true dash :: goals) events)
      (plainly handles rest (.blockKeys :: goals) (events ++ [.openMapping])) := by
  refine runs_step (by simp [plainly]) ?_
  simp [step, plainly, readNode, takeProperties, takeAnchor, takeTag, emit]

/-- A value is a node unless a key or the end follows its mark. -/
theorem runs_value {t : Token} (ne : t ≠ .key) (ne' : t ≠ .value) (ne'' : t ≠ .blockEnd) :
    Runs 1 (plainly handles (.value :: t :: rest) (.blockValue :: goals) events)
      (plainly handles (t :: rest) (.node true true :: .blockKeys :: goals) events) := by
  refine runs_step (by simp [plainly]) ?_
  simp [step, plainly, nodeOr, expect, ne, ne', ne'']

/-- A key that is one scalar. -/
theorem runs_key (name : String) :
    Runs 2 (plainly handles (.key :: .scalar .plain name :: rest) (.blockKeys :: goals) events)
      (plainly handles rest (.blockValue :: goals) (events ++ [.scalar .plain none name])) := by
  have marked : (plainly handles (.key :: .scalar .plain name :: rest)
      (.blockKeys :: goals) events).step =
      some (plainly handles (.scalar .plain name :: rest) (.node true true :: .blockValue :: goals)
        events) := by
    simp [step, plainly, nodeOr, expect]
  exact (runs_step (by simp [plainly]) marked).trans (runs_scalar true true name)

/-- A value that is one scalar. -/
theorem readAs_scalar (text : String) :
    ReadAs [.scalar .plain text] [.scalar .plain none text] := by
  intro handles rest goals events _
  exact ⟨2, by simp, (runs_value (by simp) (by simp) (by simp)).trans (runs_scalar true true text)⟩

/-- A value that is left out. -/
theorem readAs_nothing : ReadAs [] [.scalar .plain none ""] := by
  intro handles rest goals events ends
  have marked : (plainly handles (.value :: rest) (.blockValue :: goals) events).step =
      some (plainly handles rest (.nothing :: .blockKeys :: goals) events) := by
    obtain ⟨more, rfl | rfl⟩ := ends <;> simp [step, plainly, nodeOr, expect]
  have empty : (plainly handles rest (.nothing :: .blockKeys :: goals) events).step =
      some (plainly handles rest (.blockKeys :: goals)
        (events ++ [Event.scalar .plain none ""])) := by
    simp [step, plainly, emit]
  exact ⟨2, by simp, (runs_step (by simp [plainly]) marked).trans
    (runs_step (by simp [plainly]) empty)⟩

end

section
variable {α : Type} {name : α → String} {tokens : α → List Token} {node : α → List Event}

/-- The tokens of the entries of a block mapping. -/
theorem runs_entries (name : α → String) (handles : List (String × String)) (items : List α)
    (read : ∀ i ∈ items, ReadAs (tokens i) (node i)) (rest : List Token) (goals : List Goal)
    (events : List Event) :
    ∃ k ≤ 2 * (items.flatMap fun i =>
        .key :: .scalar .plain (name i) :: .value :: tokens i).length + 1,
      Runs k
        (plainly handles ((items.flatMap fun i =>
            .key :: .scalar .plain (name i) :: .value :: tokens i) ++ .blockEnd :: rest)
          (.blockKeys :: goals) events)
        (plainly handles rest goals (events ++
          ((items.flatMap fun i => .scalar .plain none (name i) :: node i) ++ [.close]))) := by
  induction items generalizing events with
  | nil =>
    refine ⟨1, by simp, runs_step (by simp [plainly]) ?_⟩
    simp [step, plainly, emit]
  | cons i items ih =>
    -- Behind the value stands the key of the next entry, or the end if there is none.
    have ends : EndsValue ((items.flatMap fun i =>
        .key :: .scalar .plain (name i) :: .value :: tokens i) ++ .blockEnd :: rest) := by
      cases items with
      | nil => exact ⟨_, .inr rfl⟩
      | cons j items => exact ⟨_, .inl rfl⟩
    obtain ⟨k, short, value⟩ := read i (by simp) handles _ goals
      (events ++ [.scalar .plain none (name i)]) ends
    obtain ⟨l, short', more⟩ := ih (fun j mem => read j (by simp [mem]))
      (events ++ [.scalar .plain none (name i)] ++ node i)
    refine ⟨2 + k + l, ?_, ?_⟩
    · simp only [List.flatMap_cons, List.length_append, List.length_cons]
      omega
    · have run := ((runs_key (name i)).trans value).trans more
      simpa using run

/-- A block mapping with any keys at all, from its beginning on. -/
theorem runs_block (name : α → String) (handles : List (String × String)) {items : List α}
    (ne : items ≠ []) (read : ∀ i ∈ items, ReadAs (tokens i) (node i)) (dash : Bool)
    (rest : List Token) (goals : List Goal) (events : List Event) :
    ∃ k ≤ 2 * (blockTokens (items.map fun i => (name i, tokens i))).length,
      Runs k
        (plainly handles (blockTokens (items.map fun i => (name i, tokens i)) ++ rest)
          (.node true dash :: goals) events)
        (plainly handles rest goals (events ++ mapping (items.map fun i => (name i, node i)))) := by
  obtain ⟨k, short, entries⟩ :=
    runs_entries name handles items read rest goals (events ++ [.openMapping])
  rw [blockTokens_eq ne, mapping_eq ne]
  refine ⟨1 + k, ?_, ?_⟩
  · simp only [List.length_append, List.length_cons]
    omega
  · simpa using (runs_opening dash).trans entries

/-- **A value that is a block mapping.** -/
theorem readAs_block (items : List α) (read : ∀ i ∈ items, ReadAs (tokens i) (node i)) :
    ReadAs (blockTokens (items.map fun i => (name i, tokens i)))
      (mapping (items.map fun i => (name i, node i))) := by
  intro handles rest goals events ends
  by_cases empty : items = []
  · rw [empty]
    exact readAs_nothing handles rest goals events ends
  · obtain ⟨k, short, block⟩ :=
      runs_block name handles empty read true rest (.blockKeys :: goals) events
    refine ⟨1 + k, by omega, ?_⟩
    obtain ⟨i, more, given⟩ := List.exists_cons_of_ne_nil empty
    refine Runs.trans ?_ block
    rw [given]
    exact runs_value (by simp) (by simp) (by simp)

end

end Reading

/-- **A text that is cut into the tokens of a block mapping** reads as that mapping. -/
theorem Document.read_block {α : Type} {name : α → String} {tokens : α → List Token}
    {node : α → List Event} {text : List Char} (items : List α)
    (cut : tokens? text =
      some (blockTokens (items.map fun i => (name i, tokens i)) ++ [.streamEnd]))
    (read : ∀ i ∈ items, Reading.ReadAs (tokens i) (node i)) :
    Document.read text = some { events := mapping (items.map fun i => (name i, node i)) } := by
  rw [Document.read, cut]
  by_cases empty : items = []
  · simp [empty, blockTokens, mapping]
  · obtain ⟨k, short, block⟩ :=
      Reading.runs_block name commonHandles empty read false [.streamEnd] [] []
    have goal : documentGoal (blockTokens (items.map fun i => (name i, tokens i)) ++ [.streamEnd]) =
        some (.node true false, commonHandles,
          blockTokens (items.map fun i => (name i, tokens i)) ++ [.streamEnd]) := by
      rw [blockTokens_eq empty]
      rfl
    have ne : blockTokens (items.map fun i => (name i, tokens i)) ++ [.streamEnd] ≠
        [.streamEnd] := by
      rw [blockTokens_eq empty]
      simp
    generalize blockTokens (items.map fun i => (name i, tokens i)) = tokens' at *
    obtain ⟨fuel, enough⟩ : ∃ fuel, 16 * ((tokens' ++ [Token.streamEnd]).length + 1) = fuel + k :=
      ⟨16 * ((tokens' ++ [Token.streamEnd]).length + 1) - k, by rw [List.length_append]; omega⟩
    have run := (block fuel).trans (Reading.run_done rfl fuel)
    rw [Reading.plainly] at run
    simp only [bind, Option.bind, ne, if_false, goal, enough]
    rw [run]
    simp [Reading.plainly]

end GcodeJob.Yaml
