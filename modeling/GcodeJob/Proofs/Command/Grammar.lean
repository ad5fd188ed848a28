import GcodeJob.Command.Parse

/-!
# GcodeJob.Proofs.Command.Grammar

The grammar of a line, said without reading it, and that a line is read by
it.  A line with a code has a head of spaces, letter and digits (`CodeHead`);
the number ends with the line, or in front of a space or semicolon.

**Main result** (`Command.parse_iff_grammar`): a line is blank, a code or
invalid just as the grammar says, with the number and the comment it says,
and no cut that reading makes goes through a character.
-/

namespace GcodeJob

/-! ## The grammar -/

/-- The comment in what follows the number of a code: the trimmed text behind
the first semicolon, or none where there is no semicolon. -/
inductive CommentIn : List Char → Option String → Prop
  | absent {rest : List Char} (nowhere : ';' ∉ rest) : CommentIn rest none
  | behind {before : List Char} (after : List Char) (first : ';' ∉ before) :
    CommentIn (before ++ ';' :: after) (some (.ofList (Text.trim after)))

/-- A line of spaces, or of spaces and a comment. -/
inductive BlankLine : List Char → Option String → Prop
  | spaces (n : Nat) : BlankLine (.replicate n ' ') none
  | comment (n : Nat) (text : List Char) :
    BlankLine (.replicate n ' ' ++ ';' :: text) (some (.ofList (Text.trim text)))

/-- What a line with a code begins with: spaces, the letter in either case, and
digits that write a number of 32 bits. -/
inductive CodeHead : List Char → Letter → Nat → Prop
  | intro (n : Nat) {letter : Letter} {c : Char} {digits : List Char}
    (initial : c = letter.toChar ∨ c = letter.toChar.toLower) (some_digit : digits ≠ [])
    (all_digits : ∀ d ∈ digits, d.isDigit = true)
    (fits : Nat.ofDigitChars 10 digits 0 ≤ 4294967295) :
    CodeHead (.replicate n ' ' ++ c :: digits) letter (Nat.ofDigitChars 10 digits 0)

/-- A number ends with the line, or in front of a space or semicolon. -/
def EndsNumber (rest : List Char) : Prop := ∀ c, rest.head? = some c → c = ' ' ∨ c = ';'

/-- A line with a code. -/
inductive CodeLine : List Char → Letter → Nat → Option String → Prop
  | intro {head rest : List Char} {letter : Letter} {number : Nat} {comment : Option String}
    (code : CodeHead head letter number) (ends : EndsNumber rest)
    (comment_in : CommentIn rest comment) : CodeLine (head ++ rest) letter number comment

/-! ## Scans -/

/-- Where a scan parts a text: it passes over characters of one kind and stops
in front of the first of another. -/
theorem scan_iff {p : Char → Bool} {text before rest : List Char} :
    text.takeWhile p = before ∧ text.dropWhile p = rest ↔
      text = before ++ rest ∧ (∀ c ∈ before, p c = true) ∧
        ∀ c, rest.head? = some c → p c = false := by
  constructor
  · rintro ⟨rfl, rfl⟩
    refine ⟨List.takeWhile_append_dropWhile.symm, List.all_eq_true.mp List.all_takeWhile, ?_⟩
    intro c first
    have stops := List.head?_dropWhile_not p text
    rw [first] at stops
    exact stops
  · rintro ⟨rfl, passed, stops⟩
    rw [List.takeWhile_append_of_pos passed, List.dropWhile_append_of_pos passed]
    cases rest with
    | nil => simp
    | cons c rest => simp [stops c rfl]

/-- A text is spaces only, or spaces and then another character. -/
theorem eq_spaces_or (text : List Char) :
    (∃ n, text = .replicate n ' ') ∨
      ∃ n c rest, c ≠ ' ' ∧ text = .replicate n ' ' ++ c :: rest := by
  obtain ⟨eq, spaces, stops⟩ :=
    scan_iff.mp (⟨rfl, rfl⟩ : text.takeWhile (· == ' ') = _ ∧ text.dropWhile (· == ' ') = _)
  rw [List.eq_replicate_of_mem fun c mem => beq_iff_eq.mp (spaces c mem)] at eq
  cases rest : text.dropWhile (· == ' ') with
  | nil => exact .inl ⟨_, by rwa [rest, List.append_nil] at eq⟩
  | cons c rest' =>
    rw [rest] at eq stops
    exact .inr ⟨_, c, rest', by simpa using stops c rfl, eq⟩

theorem dropWhile_spaces (n : Nat) : (List.replicate n ' ').dropWhile (· == separator) = [] := by
  rw [List.dropWhile_replicate]
  rfl

theorem dropWhile_spaces_append (n : Nat) {c : Char} (other : c ≠ ' ') (rest : List Char) :
    (List.replicate n ' ' ++ c :: rest).dropWhile (· == separator) = c :: rest := by
  refine (scan_iff.mpr ⟨rfl, fun d mem => ?_, fun d first => ?_⟩).2
  · exact beq_iff_eq.mpr (List.eq_of_mem_replicate mem)
  · cases first
    exact beq_eq_false_iff_ne.mpr other

/-! ## Parts of a code -/

theorem Letter.ofChar?_eq_some_iff {c : Char} {letter : Letter} :
    Letter.ofChar? c = some letter ↔ c = letter.toChar ∨ c = letter.toChar.toLower := by
  constructor
  · intro read
    unfold Letter.ofChar? at read
    split at read <;> cases read <;> decide
  · cases letter <;> rintro (rfl | rfl) <;> rfl

theorem codeNumber?_eq_some_iff {digits : List Char} {number : Nat} :
    codeNumber? digits = some number ↔
      digits ≠ [] ∧ (∀ d ∈ digits, d.isDigit = true) ∧
        number = Nat.ofDigitChars 10 digits 0 ∧ number ≤ 4294967295 := by
  have value : Numeral.value digits = Nat.ofDigitChars 10 digits 0 := Numeral.value_eq_foldl digits
  unfold codeNumber?
  rw [value]
  split
  next shape =>
    simp only [Bool.and_eq_true, Bool.not_eq_true', List.isEmpty_eq_false_iff, List.all_eq_true]
      at shape
    rw [Option.filter_eq_some_iff, Option.some_inj, decide_eq_true_eq]
    constructor
    · rintro ⟨rfl, lt⟩
      exact ⟨shape.1, shape.2, rfl, Nat.le_of_lt_succ lt⟩
    · rintro ⟨-, -, rfl, le⟩
      exact ⟨rfl, Nat.lt_succ_of_le le⟩
  next shape =>
    simp only [reduceCtorEq, false_iff]
    rintro ⟨some_digit, all_digits, -⟩
    exact shape (by simpa using ⟨some_digit, all_digits⟩)

/-! ## Comments -/

theorem isPlain_of_not_mem {text : List Char} (nowhere : ';' ∉ text) :
    ∀ c ∈ text, (c != commentStart) = true := by
  intro c mem
  rw [bne_iff_ne]
  rintro rfl
  exact nowhere mem

theorem splitComment_of_not_mem {rest : List Char} (nowhere : ';' ∉ rest) :
    splitComment rest = (rest, none) := by
  have none := (scan_iff.mpr ⟨(List.append_nil rest).symm, isPlain_of_not_mem nowhere, by simp⟩).2
  rw [splitComment, none]

theorem splitComment_append {before : List Char} (first : ';' ∉ before) (after : List Char) :
    splitComment (before ++ ';' :: after) = (before, some (.ofList (Text.trim after))) := by
  obtain ⟨taken, dropped⟩ := scan_iff.mpr
    ⟨rfl, isPlain_of_not_mem first, fun c (head : (';' :: after).head? = some c) => by
      cases head; rfl⟩
  rw [splitComment, dropped]
  dsimp only
  rw [taken]

theorem commentIn_iff {rest : List Char} {comment : Option String} :
    CommentIn rest comment ↔ (splitComment rest).2 = comment := by
  constructor
  · intro written
    cases written with
    | absent nowhere => rw [splitComment_of_not_mem nowhere]
    | behind after first => rw [splitComment_append first]
  · rintro rfl
    by_cases mem : ';' ∈ rest
    · obtain ⟨before, after, rfl, first⟩ := List.eq_append_cons_of_mem mem
      rw [splitComment_append first]
      exact .behind after first
    · rw [splitComment_of_not_mem mem]
      exact .absent mem

/-- What is split off a text is the same behind any other text without a semicolon. -/
theorem exists_splitComment_eq (rest : List Char) :
    ∃ part tail, rest = part ++ tail ∧ ';' ∉ part ∧ (∀ c, tail.head? = some c → c = ';') ∧
      ∃ comment, ∀ part', ';' ∉ part' → splitComment (part' ++ tail) = (part', comment) := by
  by_cases mem : ';' ∈ rest
  · obtain ⟨part, after, rfl, first⟩ := List.eq_append_cons_of_mem mem
    exact ⟨part, ';' :: after, rfl, first, fun c head => (Option.some.inj head).symm, _,
      fun part' first => splitComment_append first after⟩
  · refine ⟨rest, [], (List.append_nil rest).symm, mem, fun c head => (nomatch head), none,
      fun part' first => ?_⟩
    rw [List.append_nil, splitComment_of_not_mem first]

/-! ## Behind the spaces -/

theorem Content.ofText?_spaces (n : Nat) :
    ofText? (.replicate n ' ') = some (.blank none) := by
  rw [ofText?, dropWhile_spaces]

/-- The first character that is no space says what a line holds. -/
theorem Content.ofText?_append (n : Nat) {c : Char} (other : c ≠ ' ') (rest : List Char) :
    ofText? (.replicate n ' ' ++ c :: rest) =
      if c = commentStart then some (.blank (some (.ofList (Text.trim rest))))
      else
        match Letter.ofChar? c with
        | some letter => ofCode? letter rest
        | none => some .invalid := by
  have dropped := dropWhile_spaces_append n other rest
  unfold ofText?
  split
  next eq => cases dropped.symm.trans eq
  next eq =>
    cases dropped.symm.trans eq
    rfl

/-- A line is read as blank just if it is. -/
theorem Content.ofText?_eq_blank_iff {text : List Char} {comment : Option String} :
    ofText? text = some (.blank comment) ↔ BlankLine text comment := by
  constructor
  · intro read
    rcases eq_spaces_or text with ⟨n, rfl⟩ | ⟨n, c, rest, other, rfl⟩
    · rw [ofText?_spaces] at read
      cases read
      exact .spaces n
    · rw [ofText?_append n other] at read
      split at read
      next first =>
        cases read
        subst first
        exact .comment n rest
      · split at read
        · rw [ofCode?_eq, Option.some_inj, ofParts] at read
          split at read <;> cases read
        · cases read
  · intro blank
    cases blank with
    | spaces n => exact ofText?_spaces n
    | comment n rest => exact ofText?_append n (by decide) rest

/-! ## Codes -/

theorem not_endsNumber_of_isDigit {d : Char} (digit : d.isDigit = true) :
    (!endsNumber d) = true := by
  rw [Bool.not_eq_true', Bool.eq_false_iff]
  intro ends
  simp only [endsNumber, Bool.or_eq_true, beq_iff_eq] at ends
  rcases ends with rfl | rfl <;> revert digit <;> decide

theorem endsNumber_iff {c : Char} : (!endsNumber c) = false ↔ c = ' ' ∨ c = ';' := by
  rw [Bool.not_eq_false', endsNumber, Bool.or_eq_true, beq_iff_eq, beq_iff_eq]
  rfl

/-- The letter of a code is no space and no semicolon. -/
theorem Letter.ne_of_ofChar? {c : Char} {letter : Letter} (read : Letter.ofChar? c = some letter) :
    c ≠ ' ' ∧ c ≠ commentStart := by
  constructor <;> rintro rfl <;> cases read

/-- What a code says is said by the digits behind its letter and what follows them. -/
theorem Content.ofCode?_append {letter : Letter} {digits rest : List Char}
    (all_digits : ∀ d ∈ digits, d.isDigit = true) (ends : EndsNumber rest) :
    ofCode? letter (digits ++ rest) = some (.ofParts letter digits rest) := by
  obtain ⟨taken, dropped⟩ := scan_iff.mpr
    ⟨rfl, fun d mem => not_endsNumber_of_isDigit (all_digits d mem),
      fun c first => endsNumber_iff.mpr (ends c first)⟩
  rw [ofCode?_eq, taken, dropped]

theorem Content.ofParts_eq_code_iff {letter letter' : Letter} {digits rest : List Char}
    {number : Nat} {params : List Parameter} {comment : Option String} :
    ofParts letter digits rest = .code letter' number params comment ↔
      letter = letter' ∧ codeNumber? digits = some number ∧
        (words (splitComment rest).1).map .ofWord = params ∧ (splitComment rest).2 = comment := by
  unfold ofParts
  cases codeNumber? digits with
  | none => simp
  | some number' => simp only [Content.code.injEq, Option.some_inj]

/-- A line that begins like a code is read as one, whatever follows. -/
theorem CodeHead.ofText?_append {head rest : List Char} {letter : Letter} {number : Nat}
    (code : CodeHead head letter number) (ends : EndsNumber rest) :
    Content.ofText? (head ++ rest) =
      some (.code letter number ((words (splitComment rest).1).map .ofWord)
        (splitComment rest).2) := by
  obtain ⟨n, initial, some_digit, all_digits, fits⟩ := code
  have read := Letter.ofChar?_eq_some_iff.mpr initial
  obtain ⟨not_space, not_comment⟩ := Letter.ne_of_ofChar? read
  rw [List.append_assoc, List.cons_append, Content.ofText?_append n not_space,
    if_neg not_comment, read]
  dsimp only
  rw [Content.ofCode?_append all_digits ends, Option.some_inj, Content.ofParts_eq_code_iff]
  exact ⟨rfl, codeNumber?_eq_some_iff.mpr ⟨some_digit, all_digits, rfl, fits⟩, rfl, rfl⟩

/-- And only such a line is read as a code. -/
theorem Content.exists_codeHead_of_ofText? {text : List Char} {letter : Letter} {number : Nat}
    {params : List Parameter} {comment : Option String}
    (read : ofText? text = some (.code letter number params comment)) :
    ∃ head rest, text = head ++ rest ∧ CodeHead head letter number ∧ EndsNumber rest ∧
      (words (splitComment rest).1).map .ofWord = params ∧ (splitComment rest).2 = comment := by
  rcases eq_spaces_or text with ⟨n, rfl⟩ | ⟨n, c, body, other, rfl⟩
  · rw [ofText?_spaces] at read
    cases read
  · rw [ofText?_append n other] at read
    split at read
    · cases read
    · split at read
      next letter' initial =>
        rw [ofCode?_eq, Option.some_inj, ofParts_eq_code_iff] at read
        obtain ⟨rfl, number_eq, params_eq, comment_eq⟩ := read
        obtain ⟨some_digit, all_digits, rfl, fits⟩ := codeNumber?_eq_some_iff.mp number_eq
        obtain ⟨split_eq, -, stops⟩ :=
          scan_iff.mp (⟨rfl, rfl⟩ : body.takeWhile (!endsNumber ·) = _ ∧ _)
        refine ⟨.replicate n ' ' ++ c :: body.takeWhile (!endsNumber ·), _, ?_,
          .intro n (Letter.ofChar?_eq_some_iff.mp initial) some_digit all_digits fits,
          fun c first => endsNumber_iff.mp (stops c first), params_eq, comment_eq⟩
        rw [List.append_assoc, List.cons_append, ← split_eq]
      · cases read

/-- A line is read as a code with some number and comment just if it is one. -/
theorem Content.exists_params_iff {text : List Char} {letter : Letter} {number : Nat}
    {comment : Option String} :
    (∃ params, ofText? text = some (.code letter number params comment)) ↔
      CodeLine text letter number comment := by
  constructor
  · rintro ⟨params, read⟩
    obtain ⟨head, rest, rfl, code, ends, -, comment_eq⟩ := exists_codeHead_of_ofText? read
    exact .intro code ends (commentIn_iff.mpr comment_eq)
  · rintro ⟨code, ends, comment_in⟩
    exact ⟨_, commentIn_iff.mp comment_in ▸ code.ofText?_append ends⟩

/-! ## Lines -/

namespace Command

theorem ofText?_eq (line : Nat) (raw : String) :
    Content.ofText? raw.toList = some (parse line raw).content := (Option.some_get _).symm

/-- Letter, number and comment of a code. -/
theorem exists_params_iff {c : Command} {letter : Letter} {number : Nat}
    {comment : Option String} :
    (∃ params, c.content = .code letter number params comment) ↔
      c.letter? = some letter ∧ c.number = number ∧ c.comment = comment := by
  cases content : c.content with
  | code letter' number' params' comment' =>
    simp only [letter?, Command.number, Command.comment, content, Content.code.injEq,
      Option.some_inj]
    constructor
    · rintro ⟨_, rfl, rfl, -, rfl⟩
      exact ⟨rfl, rfl, rfl⟩
    · rintro ⟨rfl, rfl, rfl⟩
      exact ⟨_, rfl, rfl, rfl, rfl⟩
  | blank => simp [letter?, content]
  | invalid => simp [letter?, content]

/-- **A line is what the grammar says.**  Every line is read, and no cut goes
through a character.  It is blank, with the comment it has, just if it is
spaces or spaces and a comment; it is a code, with its letter, number and
comment, just if it begins with a code that ends where a number may; and it is
invalid just if it is neither.  A line without a code has the number zero and
no parameters, and one that is invalid has no comment either. -/
theorem parse_iff_grammar (line : Nat) (raw : String) :
    let c := parse line raw
    Content.ofText? raw.toList = some c.content ∧
      (∀ comment, c.content = .blank comment ↔ BlankLine raw.toList comment) ∧
      (∀ letter number comment,
        c.letter? = some letter ∧ c.number = number ∧ c.comment = comment ↔
          CodeLine raw.toList letter number comment) ∧
      (c.content = .invalid ↔ (∀ comment, ¬BlankLine raw.toList comment) ∧
        ∀ letter number comment, ¬CodeLine raw.toList letter number comment) ∧
      (∀ comment, c.content = .blank comment →
        c.number = 0 ∧ c.params = [] ∧ c.comment = comment) ∧
      (c.content = .invalid → c.number = 0 ∧ c.params = [] ∧ c.comment = none) := by
  intro c
  have read : Content.ofText? raw.toList = some c.content := ofText?_eq line raw
  have blank (comment : Option String) :
      c.content = .blank comment ↔ BlankLine raw.toList comment := by
    rw [← Content.ofText?_eq_blank_iff, read, Option.some_inj]
  have code (letter : Letter) (number : Nat) (comment : Option String) :
      (∃ params, c.content = .code letter number params comment) ↔
        CodeLine raw.toList letter number comment := by
    rw [← Content.exists_params_iff, read]
    simp only [Option.some_inj]
  refine ⟨read, blank, fun letter number comment => ?_, ?_, fun comment is_blank => ?_,
    fun is_invalid => ?_⟩
  · rw [← exists_params_iff, code]
  · simp only [← blank, ← code]
    cases c.content <;> simp
  · simp [Command.number, params, Command.comment, is_blank]
  · simp [Command.number, params, Command.comment, is_invalid]

end Command

end GcodeJob
