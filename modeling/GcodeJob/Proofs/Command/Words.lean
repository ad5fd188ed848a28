import GcodeJob.Proofs.Command.Grammar

/-!
# GcodeJob.Proofs.Command.Words

The words of a code and its parameters.  `Spaced` says how a text is made of
words without reading it: each word behind one space or more.  A text without
a semicolon that begins with a space is made so of its words and of no others
(`Spaced.words_eq`), and each parameter is read off its own word.

**Main result** (`Command.params_of_words`): the parameters of a code are its
words in order, nothing of the text but the length of its runs of spaces is
lost, and no word has a say in anything but its own parameter.
-/

namespace GcodeJob

/-! ## Texts made of words -/

/-- The characters of a word. -/
def Word.text (w : Word) : List Char := w.1 :: w.2

/-- A text made of words without spaces and semicolons, each behind one space
or more, and of spaces behind the last. -/
inductive Spaced : List Word → List Char → Prop
  | nil (n : Nat) : Spaced [] (.replicate n ' ')
  | cons (n : Nat) {word : Word} (plain : ∀ c ∈ word.text, c ≠ ' ' ∧ c ≠ ';') {words : List Word}
    {rest : List Char} (others : Spaced words rest) :
    Spaced (word :: words) (.replicate (n + 1) ' ' ++ (word.text ++ rest))

/-- A text with one space for each run of spaces inside it, and none around it. -/
def squeeze (text : List Char) : List Char := single (text.dropWhile (· == ' '))
where
  /-- Leaves out each space in front of another one and at the end. -/
  single : List Char → List Char
    | [] => []
    | c :: rest =>
      if c = ' ' ∧ rest.head?.all (· == ' ') then single rest else c :: single rest

theorem words_spaces (n : Nat) : words (.replicate n ' ') = [] := by
  rw [words]
  split
  · rfl
  next eq => cases (dropWhile_spaces n).symm.trans eq

theorem words_append (n : Nat) {c : Char} (other : c ≠ ' ') (rest : List Char) :
    words (.replicate n ' ' ++ c :: rest) =
      (c, rest.takeWhile (· != separator)) :: words (rest.dropWhile (· != separator)) := by
  have dropped := dropWhile_spaces_append n other rest
  rw [words]
  split
  next eq => cases dropped.symm.trans eq
  next eq =>
    cases dropped.symm.trans eq
    rfl

/-- A text without a semicolon is made of its words, if a space parts it from
what stands before it. -/
theorem spaced_words (text : List Char) (nowhere : ';' ∉ text)
    (parted : ∀ c, text.head? = some c → c = ' ') : Spaced (words text) text := by
  rcases eq_spaces_or text with ⟨n, rfl⟩ | ⟨n, c, rest, other, rfl⟩
  · rw [words_spaces]
    exact .nil n
  · obtain ⟨m, rfl⟩ : ∃ m, n = m + 1 := by
      cases n with
      | zero => exact absurd (parted c rfl) other
      | succ m => exact ⟨m, rfl⟩
    obtain ⟨eq, inside, stops⟩ := scan_iff.mp
      (⟨rfl, rfl⟩ : rest.takeWhile (· != separator) = _ ∧ rest.dropWhile (· != separator) = _)
    rw [words_append _ other]
    -- What stands behind the first word begins with a space again, and is shorter.
    generalize rest.takeWhile (· != separator) = inner, rest.dropWhile (· != separator) = behind
      at eq inside stops ⊢
    subst eq
    simp only [List.mem_append, List.mem_cons, List.mem_replicate, not_or] at nowhere
    have others := spaced_words behind nowhere.2.2.2 fun d first => by
      simpa [separator] using stops d first
    have plain : ∀ d ∈ Word.text (c, inner), d ≠ ' ' ∧ d ≠ ';' := by
      intro d mem
      rcases List.mem_cons.mp mem with rfl | mem
      · exact ⟨other, fun same => nowhere.2.1 same.symm⟩
      · refine ⟨bne_iff_ne.mp (inside d mem), ?_⟩
        rintro rfl
        exact nowhere.2.2.1 mem
    exact .cons m plain others
termination_by text.length
decreasing_by
  have le := (rest.dropWhile_sublist (· != separator)).length_le
  subst_vars
  simp only [List.length_append, List.length_cons]
  omega

/-! ## Other ways to the words -/

/-- Spaces in front add no piece that is not empty. -/
theorem filter_splitOn_spaces (n : Nat) (rest : List Char) :
    ((List.replicate n ' ' ++ rest).splitOn ' ').filter (· ≠ []) =
      (rest.splitOn ' ').filter (· ≠ []) := by
  induction n with
  | zero => rfl
  | succ n ih =>
    rw [List.replicate_succ, List.cons_append, List.splitOn_cons_eq_if_modifyHead, ← ih]
    simp

/-- A word in front of a space or of the end is one more. -/
theorem filter_splitOn_append {word rest : List Char} (ne_nil : word ≠ []) (whole : ' ' ∉ word)
    (parted : ∀ c, rest.head? = some c → c = ' ') :
    ((word ++ rest).splitOn ' ').filter (· ≠ []) = word :: (rest.splitOn ' ').filter (· ≠ []) := by
  cases rest with
  | nil =>
    rw [List.append_nil, List.splitOn_eq_singleton whole]
    simp [ne_nil]
  | cons c rest =>
    obtain rfl : c = ' ' := parted c rfl
    have first := filter_splitOn_spaces 1 rest
    have parts : (word ++ ' ' :: rest).splitOn ' ' = word :: rest.splitOn ' ' := by
      rw [List.splitOn_eq_splitOnP, List.splitOnP_append_cons _ _ (by decide),
        ← List.splitOn_eq_splitOnP, ← List.splitOn_eq_splitOnP, List.splitOn_eq_singleton whole,
        List.singleton_append]
    rw [parts, List.filter_cons_of_pos (by simpa using ne_nil)]
    exact congrArg (word :: ·) first.symm

section
open squeeze

theorem single_cons {c : Char} (other : c ≠ ' ') (rest : List Char) :
    single (c :: rest) = c :: single rest := by
  rw [single, if_neg fun both => other both.1]

theorem single_append {word : List Char} (whole : ' ' ∉ word) (rest : List Char) :
    single (word ++ rest) = word ++ single rest := by
  induction word with
  | nil => rfl
  | cons c word ih =>
    rw [List.mem_cons, not_or] at whole
    rw [List.cons_append, single_cons (Ne.symm whole.1), ih whole.2, List.cons_append]

theorem single_spaces (n : Nat) : single (.replicate n ' ') = [] := by
  induction n with
  | zero => rfl
  | succ n ih =>
    have spaces : (List.replicate n ' ').head?.all (· == ' ') = true := by
      cases n <;> simp [List.replicate_succ]
    rw [List.replicate_succ, single, if_pos ⟨rfl, spaces⟩, ih]

/-- Of the spaces in front of a word one is left. -/
theorem single_spaces_append (n : Nat) {c : Char} (other : c ≠ ' ') (rest : List Char) :
    single (.replicate (n + 1) ' ' ++ c :: rest) = ' ' :: single (c :: rest) := by
  induction n with
  | zero =>
    have last : ¬(' ' = ' ' ∧ (c :: rest).head?.all (· == ' ') = true) := by simpa using other
    exact if_neg last
  | succ n ih =>
    rw [List.replicate_succ, List.cons_append, single, if_pos, ih]
    exact ⟨rfl, by simp [List.replicate_succ]⟩

end

theorem intercalate_cons_eq_flatMap (first : List Char) (others : List (List Char)) :
    [' '].intercalate (first :: others) = first ++ others.flatMap (' ' :: ·) := by
  induction others generalizing first with
  | nil => simp [List.intercalate]
  | cons second others ih => rw [List.intercalate_cons_cons, ih, List.flatMap_cons]; simp

namespace Spaced
variable {ws : List Word} {text : List Char}

/-- Such a text begins with a space. -/
theorem head_eq (h : Spaced ws text) : ∀ c, text.head? = some c → c = ' ' := by
  intro c first
  cases h with
  | nil n => exact List.eq_of_mem_replicate (List.mem_of_head? first)
  | cons n plain others =>
    rw [List.replicate_succ, List.cons_append] at first
    exact (Option.some.inj first).symm

/-- It has no other words. -/
theorem words_eq (h : Spaced ws text) : words text = ws := by
  induction h with
  | nil n => exact words_spaces n
  | cons n plain others ih =>
    rename_i word words rest
    have inside : ∀ c ∈ word.2, (c != separator) = true := fun c mem =>
      bne_iff_ne.mpr (plain c (List.mem_cons_of_mem _ mem)).1
    obtain ⟨taken, dropped⟩ := scan_iff.mpr ⟨rfl, inside, fun c first => by
      simpa [separator] using others.head_eq c first⟩
    rw [Word.text, List.cons_append, words_append _ (plain _ List.mem_cons_self).1, taken, dropped,
      ih]

/-- No word has a space or a semicolon in it. -/
theorem plain_of_mem (h : Spaced ws text) : ∀ w ∈ ws, ∀ c ∈ w.text, c ≠ ' ' ∧ c ≠ ';' := by
  induction h with
  | nil n => simp
  | cons n plain others ih => exact List.forall_mem_cons.mpr ⟨plain, ih⟩

/-- It has no semicolon. -/
theorem not_mem (h : Spaced ws text) : ';' ∉ text := by
  induction h with
  | nil n => simp
  | cons n plain others ih =>
    simp only [List.mem_append, List.mem_replicate, not_or]
    exact ⟨by simp, fun mem => (plain _ mem).2 rfl, ih⟩

/-- Its words are the pieces between its spaces, but for the empty ones. -/
theorem filter_splitOn (h : Spaced ws text) :
    (text.splitOn ' ').filter (· ≠ []) = ws.map Word.text := by
  induction h with
  | nil n => simpa using filter_splitOn_spaces n []
  | cons n plain others ih =>
    rw [filter_splitOn_spaces, List.map_cons, ← ih]
    exact filter_splitOn_append (by simp [Word.text]) (fun mem => (plain _ mem).1 rfl)
      others.head_eq

/-- Each word is left with one space in front of it. -/
theorem single_eq (h : Spaced ws text) : squeeze.single text = ws.flatMap (' ' :: ·.text) := by
  induction h with
  | nil n => exact single_spaces n
  | cons n plain others ih =>
    rename_i word words rest
    have whole : ' ' ∉ word.text := fun mem => (plain _ mem).1 rfl
    have initial : word.1 ≠ ' ' := (plain _ List.mem_cons_self).1
    calc squeeze.single (.replicate (n + 1) ' ' ++ (word.text ++ rest))
        = ' ' :: squeeze.single (word.text ++ rest) := single_spaces_append n initial _
      _ = ' ' :: word.text ++ squeeze.single rest := by rw [single_append whole, List.cons_append]
      _ = (word :: words).flatMap (' ' :: ·.text) := by rw [ih, List.flatMap_cons]

/-- But for the length of its runs of spaces it is its words with one space between two. -/
theorem squeeze_eq (h : Spaced ws text) : squeeze text = [' '].intercalate (ws.map Word.text) := by
  cases h with
  | nil n => exact congrArg squeeze.single (dropWhile_spaces n)
  | cons n plain others =>
    rename_i word words rest
    have whole : ' ' ∉ word.text := fun mem => (plain _ mem).1 rfl
    have initial : word.1 ≠ ' ' := (plain _ List.mem_cons_self).1
    have dropped := dropWhile_spaces_append (n + 1) initial (word.2 ++ rest)
    calc squeeze (.replicate (n + 1) ' ' ++ (word.text ++ rest))
        = squeeze.single (word.text ++ rest) := congrArg squeeze.single dropped
      _ = word.text ++ words.flatMap (' ' :: ·.text) := by
        rw [single_append whole, others.single_eq]
      _ = [' '].intercalate ((word :: words).map Word.text) := by
        rw [List.map_cons, intercalate_cons_eq_flatMap, List.flatMap_map]

end Spaced

/-! ## Parameters -/

/-- How a parameter stands for a word: by its first character and by the finite
number that the others write, if they do. -/
structure Parameter.StandsFor (p : Parameter) (w : Word) : Prop where
  raw : p.raw.toList = w.text
  name : p.name = w.1
  valid : p.isValid = true ↔ w.1.isAlpha = true ∧ (w.2 = [] ∨ (Numeral.finite? w.2).isSome)
  bare : w.2 = [] → p.value = .zero
  number : ∀ x, Numeral.finite? w.2 = some x → p.value = x
  other : Numeral.finite? w.2 = none → p.value = .zero

theorem Parameter.ofWord_standsFor (w : Word) : (ofWord w).StandsFor w := by
  obtain ⟨name, digits⟩ := w
  cases digits with
  | nil =>
    -- No digits are no number, so a bare name is not asked for one.
    have unread : Numeral.finite? [] = none := rfl
    exact
      { raw := String.toList_ofList
        name := rfl
        valid := by simp [isValid, ofWord]
        bare := fun _ => rfl
        number := fun x read => by cases unread.symm.trans read
        other := fun _ => rfl }
  | cons d rest =>
    have number_eq : (ofWord (name, d :: rest)).number? = Numeral.finite? (d :: rest) := rfl
    exact
      { raw := String.toList_ofList
        name := rfl
        valid := by simp [isValid, ofWord]
        bare := fun none => by cases none
        number := fun x read => by rw [value, number_eq, read, Option.getD_some]
        other := fun none => by rw [value, number_eq, none, Option.getD_none] }

namespace Command

/-- **Parameters are words.**  Between the number of a code and its first
semicolon, or the end, the line is made of words behind spaces.  The
parameters are these words in order, each read by itself: with single spaces
between them they give that part of the line, but for the length of its runs
of spaces.  With any other words in their place the line is read with the same
letter, number and comment, and the other words are its parameters. -/
theorem params_of_words {line : Nat} {raw : String} {letter : Letter} {number : Nat}
    {params : List Parameter} {comment : Option String}
    (code : (parse line raw).content = .code letter number params comment) :
    ∃ head part tail ws, raw.toList = head ++ (part ++ tail) ∧ CodeHead head letter number ∧
      (∀ c, tail.head? = some c → c = ';') ∧ Spaced ws part ∧ params = ws.map .ofWord ∧
      (∀ w, (Parameter.ofWord w).StandsFor w) ∧
      params.map (·.raw.toList) = (part.splitOn ' ').filter (· ≠ []) ∧
      (∀ p ∈ params, ' ' ∉ p.raw.toList ∧ ';' ∉ p.raw.toList) ∧
      squeeze part = [' '].intercalate (params.map (·.raw.toList)) ∧
      ∀ ws' part', Spaced ws' part' →
        (parse line (.ofList (head ++ (part' ++ tail)))).content =
          .code letter number (ws'.map .ofWord) comment := by
  -- What was read says how the line is put together; the comment is cut off first.
  have read := ofText?_eq line raw
  rw [code] at read
  obtain ⟨head, rest, split, code_head, ends, rfl, comment_eq⟩ :=
    Content.exists_codeHead_of_ofText? read
  obtain ⟨part, tail, rfl, first, tail_head, comment', cut⟩ := exists_splitComment_eq rest
  rw [cut part first] at comment_eq ⊢
  obtain rfl : comment' = comment := comment_eq
  have spaced : Spaced (words part) part := spaced_words part first fun c head => by
    refine (ends c ?_).resolve_right ?_
    · rw [List.head?_append, head, Option.some_or]
    · rintro rfl
      exact first (List.mem_of_head? head)
  have raws :
      ((words part).map Parameter.ofWord).map (·.raw.toList) = (words part).map Word.text := by
    rw [List.map_map]
    exact List.map_congr_left fun w _ => (Parameter.ofWord_standsFor w).raw
  refine ⟨head, part, tail, words part, split, code_head, tail_head, spaced, rfl,
    Parameter.ofWord_standsFor, ?_, ?_, ?_, fun ws' part' spaced' => ?_⟩
  · rw [raws, spaced.filter_splitOn]
  · rw [List.forall_mem_map]
    intro w mem
    rw [(Parameter.ofWord_standsFor w).raw]
    have plain := spaced.plain_of_mem w mem
    exact ⟨fun mem => (plain _ mem).1 rfl, fun mem => (plain _ mem).2 rfl⟩
  · rw [raws, spaced.squeeze_eq]
  · -- With other words the number ends as before, and the same comment is cut off.
    have ends' : EndsNumber (part' ++ tail) := fun c head => by
      cases part' with
      | nil => exact .inr (tail_head c head)
      | cons d part' => exact .inl (spaced'.head_eq c head)
    have read' := code_head.ofText?_append ends'
    rw [cut part' spaced'.not_mem, spaced'.words_eq] at read'
    have parsed := ofText?_eq line (.ofList (head ++ (part' ++ tail)))
    rw [String.toList_ofList, read'] at parsed
    exact (Option.some.inj parsed).symm

/-- A word that holds no number leaves the bare name in front of it as it is,
and gives way to any other words. -/
theorem params_of_words_with_invalid :
    let raw := "g1 X  Fabc;c"
    (parse 0 raw).content =
        .code .g 1 [⟨'X', some .zero, "X"⟩, ⟨'F', none, "Fabc"⟩] (some "c") ∧
      ∃ head part tail, raw.toList = head ++ (part ++ tail) ∧ squeeze part = "X Fabc".toList ∧
        ∀ ws part', Spaced ws part' →
          (parse 0 (.ofList (head ++ (part' ++ tail)))).content =
            .code .g 1 (ws.map .ofWord) (some "c") := by
  intro raw
  have code : (parse 0 raw).content =
      .code .g 1 [⟨'X', some .zero, "X"⟩, ⟨'F', none, "Fabc"⟩] (some "c") := by decide +kernel
  obtain ⟨head, part, tail, _, split, -, -, -, -, -, -, -, squeezed, replaced⟩ :=
    params_of_words code
  refine ⟨code, head, part, tail, split, ?_, replaced⟩
  rw [squeezed]
  decide +kernel

end Command

end GcodeJob
