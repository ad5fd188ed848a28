import GcodeJob.Proofs.Command.Words
import Mathlib.Data.List.DropRight

/-!
# GcodeJob.Proofs.Command.Spelling

One command, many spellings.  A code has a normal spelling, with its letter in
upper case, its number without leading zeros, and one space in front of each
word (`Command.spelling?`).  Other spellings have longer runs of spaces
(`Padded`).

**Main result** (`Command.parse_spelling`): the normal spelling of what was read
is read as the same command again and is its own normal spelling, and so is
every line read that has more spaces in it.
-/

namespace GcodeJob

/-! ## Trimming -/

namespace Text

theorem trimEnd_eq_rdropWhile (text : List Char) : trimEnd text = text.rdropWhile isBlank := rfl

/-- A text that begins with no blank still does so without its trailing blanks. -/
theorem trimStart_trimEnd {text : List Char} (h : trimStart text = text) :
    trimStart (trimEnd text) = trimEnd text := by
  rw [trimStart, List.dropWhile_eq_self_iff] at h ⊢
  intro pos
  have initial : trimEnd text <+: text := List.rdropWhile_prefix isBlank text
  rw [initial.getElem pos]
  exact h (Nat.lt_of_lt_of_le pos initial.length_le)

/-- Trimming twice is trimming once. -/
theorem trim_trim (text : List Char) : trim (trim text) = trim text := by
  have start : trimStart (trimStart text) = trimStart text := List.dropWhile_idempotent ..
  calc trim (trim text)
      = trimEnd (trimEnd (trimStart text)) := by simp only [trim, trimStart_trimEnd start]
    _ = trim text := by simp only [trim, trimEnd_eq_rdropWhile, List.rdropWhile_idempotent]

theorem trim_space_cons (text : List Char) : trim (' ' :: text) = trim text := by
  simp [trim, trimStart, show isBlank ' ' = true by decide]

end Text

/-- The comment of a code is trimmed. -/
theorem CommentIn.trim_eq {rest : List Char} {comment : String}
    (h : CommentIn rest (some comment)) : Text.trim comment.toList = comment.toList := by
  cases h with
  | behind after first => simp [Text.trim_trim]

/-! ## Words and spaces -/

theorem words_spaces_append (n : Nat) (text : List Char) :
    words (.replicate n ' ' ++ text) = words text := by
  rcases eq_spaces_or text with ⟨m, rfl⟩ | ⟨m, c, rest, other, rfl⟩
  · simp [words_spaces]
  · rw [← List.append_assoc, List.replicate_append_replicate, words_append _ other,
      words_append _ other]

/-- A space parts the words in front of it from those behind it. -/
theorem words_append_space (before after : List Char) :
    words (before ++ ' ' :: after) = words before ++ words after := by
  rcases eq_spaces_or before with ⟨n, rfl⟩ | ⟨n, c, rest, other, rfl⟩
  · rw [words_spaces, words_spaces_append]
    exact words_spaces_append 1 after
  · obtain ⟨eq, inside, stops⟩ := scan_iff.mp
      (⟨rfl, rfl⟩ : rest.takeWhile (· != separator) = _ ∧ rest.dropWhile (· != separator) = _)
    rw [List.append_assoc, List.cons_append, words_append n other, words_append n other]
    -- The first word ends where it ended, and what stands behind it is shorter.
    generalize rest.takeWhile (· != separator) = inner, rest.dropWhile (· != separator) = behind
      at eq inside stops ⊢
    subst eq
    obtain ⟨taken, dropped⟩ : (inner ++ behind ++ ' ' :: after).takeWhile (· != separator) = inner ∧
        (inner ++ behind ++ ' ' :: after).dropWhile (· != separator) = behind ++ ' ' :: after := by
      refine scan_iff.mpr ⟨List.append_assoc .., inside, ?_⟩
      cases behind with
      | nil => simp [separator]
      | cons d behind => exact stops
    rw [taken, dropped, words_append_space behind after, List.cons_append]
termination_by before.length
decreasing_by
  have le := (rest.dropWhile_sublist (· != separator)).length_le
  subst_vars
  simp only [List.length_append, List.length_cons]
  omega

/-- So words are parted wherever a space or nothing follows. -/
theorem words_append_of_head {before after : List Char}
    (parted : ∀ c, after.head? = some c → c = ' ') :
    words (before ++ after) = words before ++ words after := by
  cases after with
  | nil => simp [show words [] = [] from words_spaces 0]
  | cons c after =>
    obtain rfl := parted c rfl
    have spaced : words (' ' :: after) = words after := words_spaces_append 1 after
    rw [words_append_space, spaced]

/-- More spaces between two words are read as fewer. -/
theorem words_append_spaces {before after : List Char} (n : Nat)
    (parted : ∀ c, after.head? = some c → c = ' ') :
    words (before ++ (.replicate n ' ' ++ after)) = words (before ++ after) := by
  have parted' : ∀ c, (List.replicate n ' ' ++ after).head? = some c → c = ' ' := by
    cases n with
    | zero => exact parted
    | succ n => simp [List.replicate_succ]
  rw [words_append_of_head parted', words_spaces_append, words_append_of_head parted]

/-! ## Lines with more spaces -/

/-- Where spaces may be put into a line: in front of its letter; and behind its
number and in front of its comment, wherever a space, the comment or nothing
follows, so behind the number, between two words and in front of the semicolon. -/
inductive Gap : List Char → List Char → Prop
  | letter (n : Nat) (after : List Char) : Gap (.replicate n ' ') after
  | word {head part after : List Char} {letter : Letter} {number : Nat}
    (code : CodeHead head letter number) (ends : EndsNumber (part ++ after))
    (no_comment : ';' ∉ part) (parted : EndsNumber after) : Gap (head ++ part) after

/-- A line with more spaces in it. -/
inductive Padded : List Char → List Char → Prop
  | refl (text : List Char) : Padded text text
  | insert {text before after : List Char} (n : Nat) (earlier : Padded text (before ++ after))
    (gap : Gap before after) : Padded text (before ++ (.replicate n ' ' ++ after))

/-- Spaces in front of a line are passed over. -/
theorem Content.ofText?_spaces_append (n : Nat) (text : List Char) :
    ofText? (.replicate n ' ' ++ text) = ofText? text := by
  have dropped : (List.replicate n ' ' ++ text).dropWhile (· == separator) =
      text.dropWhile (· == separator) :=
    List.dropWhile_append_of_pos fun c mem => beq_iff_eq.mpr (List.eq_of_mem_replicate mem)
  unfold ofText?
  rw [dropped]

/-- Spaces in a gap are passed over. -/
theorem Gap.ofText?_insert {before after : List Char} (gap : Gap before after) (n : Nat) :
    Content.ofText? (before ++ (.replicate n ' ' ++ after)) =
      Content.ofText? (before ++ after) := by
  cases gap with
  | letter m after =>
    rw [Content.ofText?_spaces_append, Content.ofText?_spaces_append,
      Content.ofText?_spaces_append]
  | word code ends no_comment parted =>
    rename_i head part letter number
    -- The comment is cut off behind the gap, and what is left in front of it has the same words.
    obtain ⟨more, tail, rfl, no_comment', -, comment, cut⟩ := exists_splitComment_eq after
    have ends' : EndsNumber (part ++ (.replicate n ' ' ++ (more ++ tail))) := by
      cases part with
      | cons c part => simpa [EndsNumber] using ends
      | nil =>
        cases n with
        | zero => simpa using ends
        | succ n => simp [EndsNumber, List.replicate_succ]
    have parted' : ∀ c, more.head? = some c → c = ' ' := by
      intro c first
      refine (parted c (by simp [first])).resolve_right ?_
      rintro rfl
      exact no_comment' (List.mem_of_mem_head? first)
    have cut_part := cut (part ++ more) (by simp [no_comment, no_comment'])
    have cut_part' := cut (part ++ (.replicate n ' ' ++ more)) (by simp [no_comment, no_comment'])
    rw [List.append_assoc] at cut_part cut_part'
    rw [List.append_assoc] at cut_part'
    rw [List.append_assoc, List.append_assoc, code.ofText?_append ends, code.ofText?_append ends',
      cut_part, cut_part', words_append_spaces n parted']

/-- A line with more spaces in it says the same. -/
theorem Padded.ofText?_eq {text text' : List Char} (h : Padded text text') :
    Content.ofText? text' = Content.ofText? text := by
  induction h with
  | refl => rfl
  | insert n earlier gap ih => rw [gap.ofText?_insert, ih]

/-! ## Normal spellings -/

/-- How a spelling ends: with the comment behind a semicolon between two spaces, if there is one. -/
def remark : Option String → List Char
  | none => []
  | some comment => " ; ".toList ++ comment.toList

/-- The comment is read back off the end of a spelling, and a space may be left in front of it. -/
theorem splitComment_remark {part : List Char} (no_comment : ';' ∉ part) {comment : Option String}
    (trimmed : ∀ c, comment = some c → Text.trim c.toList = c.toList) :
    ∃ n, splitComment (part ++ remark comment) = (part ++ .replicate n ' ', comment) := by
  cases comment with
  | none => exact ⟨0, by simp [remark, splitComment_of_not_mem no_comment]⟩
  | some c =>
    have text : part ++ remark (some c) = (part ++ [' ']) ++ ';' :: ' ' :: c.toList := by
      simp [remark]
    refine ⟨1, ?_⟩
    rw [text, splitComment_append (by simpa using no_comment), Text.trim_space_cons, trimmed c rfl,
      String.ofList_toList]
    rfl

/-- Words with one space in front of each are made of these words. -/
theorem spaced_flatMap {ws : List Word} (plain : ∀ w ∈ ws, ∀ c ∈ w.text, c ≠ ' ' ∧ c ≠ ';') :
    Spaced ws (ws.flatMap (' ' :: ·.text)) := by
  induction ws with
  | nil => exact .nil 0
  | cons w ws ih =>
    have others := ih fun w mem => plain w (List.mem_cons_of_mem _ mem)
    exact .cons 0 (plain w List.mem_cons_self) others

/-- A letter in upper case and a number without leading zeros are the head of a code. -/
theorem codeHead_toDigits (letter : Letter) {number : Nat} (fits : number ≤ 4294967295) :
    CodeHead (letter.toChar :: Nat.toDigits 10 number) letter number := by
  have value : Nat.ofDigitChars 10 (Nat.toDigits 10 number) 0 = number :=
    Nat.ofDigitChars_toDigits (by decide) (by decide)
  have head : CodeHead (letter.toChar :: Nat.toDigits 10 number) letter
      (Nat.ofDigitChars 10 (Nat.toDigits 10 number) 0) :=
    .intro 0 (.inl rfl) Nat.toDigits_ne_nil
      (fun d mem => Nat.isDigit_of_mem_toDigits (by decide) (by decide) mem) (by rwa [value])
  rwa [value] at head

theorem CodeHead.number_le {head : List Char} {letter : Letter} {number : Nat}
    (code : CodeHead head letter number) : number ≤ 4294967295 := by
  obtain ⟨-, -, -, -, fits⟩ := code
  exact fits

/-- What a spelling is made of is read back off it. -/
theorem Content.ofText?_spelled (letter : Letter) {number : Nat} (fits : number ≤ 4294967295)
    {ws : List Word} (plain : ∀ w ∈ ws, ∀ c ∈ w.text, c ≠ ' ' ∧ c ≠ ';') {comment : Option String}
    (trimmed : ∀ c, comment = some c → Text.trim c.toList = c.toList) :
    ofText? (letter.toChar :: Nat.toDigits 10 number ++
        (ws.flatMap (' ' :: ·.text) ++ remark comment)) =
      some (.code letter number (ws.map .ofWord) comment) := by
  have spaced := spaced_flatMap plain
  obtain ⟨n, cut⟩ := splitComment_remark spaced.not_mem trimmed
  have ends : EndsNumber (ws.flatMap (' ' :: ·.text) ++ remark comment) := by
    cases ws with
    | cons w ws => simp [EndsNumber]
    | nil => cases comment <;> simp [EndsNumber, remark]
  have words_eq : words (ws.flatMap (' ' :: ·.text) ++ .replicate n ' ') = ws := by
    calc words (ws.flatMap (' ' :: ·.text) ++ .replicate n ' ')
        = words (ws.flatMap (' ' :: ·.text) ++ (.replicate n ' ' ++ [])) := by simp
      _ = words (ws.flatMap (' ' :: ·.text) ++ []) := words_append_spaces n (by simp)
      _ = ws := by simpa using spaced.words_eq
  rw [(codeHead_toDigits letter fits).ofText?_append ends, cut, words_eq]

/-- What a code is read as can be spelled: its number fits, its words have no space or
semicolon in them, and its comment is trimmed. -/
theorem Content.exists_words_of_ofText? {text : List Char} {letter : Letter} {number : Nat}
    {params : List Parameter} {comment : Option String}
    (read : ofText? text = some (.code letter number params comment)) :
    number ≤ 4294967295 ∧ (∃ ws : List Word, params = ws.map .ofWord ∧
      ∀ w ∈ ws, ∀ c ∈ w.text, c ≠ ' ' ∧ c ≠ ';') ∧
      ∀ c, comment = some c → Text.trim c.toList = c.toList := by
  obtain ⟨head, rest, -, code, ends, params_eq, comment_eq⟩ := exists_codeHead_of_ofText? read
  refine ⟨code.number_le, ?_, fun c some_c => ?_⟩
  · obtain ⟨part, tail, rfl, first, -, comment', cut⟩ := exists_splitComment_eq rest
    rw [cut part first] at params_eq
    have spaced : Spaced (words part) part := spaced_words part first fun c head => by
      refine (ends c (by simp [head])).resolve_right ?_
      rintro rfl
      exact first (List.mem_of_head? head)
    exact ⟨words part, params_eq.symm, spaced.plain_of_mem⟩
  · have written : CommentIn rest comment := commentIn_iff.mpr comment_eq
    rw [some_c] at written
    exact written.trim_eq

namespace Command

/-- The normal spelling of a code: its letter in upper case and its number, then
each of its words behind a space, then its comment behind a semicolon between
two spaces. -/
def spelling? (c : Command) : Option String :=
  c.code?.map fun code =>
    code ++ String.join (c.params.map (" " ++ ·.raw)) ++ (c.comment.map (" ; " ++ ·)).getD ""

theorem spelling?_of_code {c : Command} {letter : Letter} {number : Nat} {ws : List Word}
    {comment : Option String} (code : c.content = .code letter number (ws.map .ofWord) comment) :
    ∃ text, c.spelling? = some text ∧ text.toList = letter.toChar :: Nat.toDigits 10 number ++
      (ws.flatMap (' ' :: ·.text) ++ remark comment) := by
  have letter_eq : c.letter? = some letter := by rw [letter?, code]
  refine ⟨_, by rw [spelling?, code?, letter_eq]; rfl, ?_⟩
  have params_eq : (String.join (c.params.map (" " ++ ·.raw))).toList =
      ws.flatMap (' ' :: ·.text) := by
    simp [params, code, String.toList_join, List.flatMap_map, (Parameter.ofWord_standsFor _).raw]
  have comment_eq : ((c.comment.map (" ; " ++ ·)).getD "").toList = remark comment := by
    cases comment <;> simp [Command.comment, code, remark]
  rw [String.toList_append, String.toList_append, params_eq, comment_eq]
  simp [Command.number, code]

/-- Commands that say the same have one normal spelling. -/
theorem spelling?_congr {c d : Command} (same : c.content = d.content) :
    c.spelling? = d.spelling? := by
  simp only [spelling?, code?, letter?, Command.number, params, Command.comment, same]

theorem exists_code_of_isExecutable {c : Command} (h : c.isExecutable = true) :
    ∃ letter number params comment, c.content = .code letter number params comment := by
  cases content : c.content with
  | code letter number params comment => exact ⟨letter, number, params, comment, rfl⟩
  | blank => simp [isExecutable, letter?, content] at h
  | invalid => simp [isExecutable, letter?, content] at h

/-- **A command has one normal spelling and many others.**  What is read from a
line with a code has a normal spelling, which is read as the same letter,
number, parameters and comment, and so has itself as its normal spelling.  The
line is read as the same, too, with more spaces in it: in front of its letter,
behind its number, between its words or in front of its comment. -/
theorem parse_spelling {line : Nat} {raw : String} (code : (parse line raw).isExecutable = true) :
    ∃ text, (parse line raw).spelling? = some text ∧
      (∀ line', (parse line' text).content = (parse line raw).content ∧
        (parse line' text).spelling? = some text) ∧
      ∀ line' raw', Padded raw.toList raw'.toList →
        (parse line' raw').content = (parse line raw).content := by
  obtain ⟨letter, number, params, comment, content⟩ := exists_code_of_isExecutable code
  have read := ofText?_eq line raw
  rw [content] at read
  obtain ⟨fits, ⟨ws, rfl, plain⟩, trimmed⟩ := Content.exists_words_of_ofText? read
  obtain ⟨text, spelled, text_eq⟩ := spelling?_of_code content
  have again (line' : Nat) : (parse line' text).content = (parse line raw).content := by
    have read' := ofText?_eq line' text
    rw [text_eq, Content.ofText?_spelled letter fits plain trimmed] at read'
    rw [content, ← Option.some.inj read']
  refine ⟨text, spelled, fun line' => ⟨again line', ?_⟩, fun line' raw' padded => ?_⟩
  · rw [spelling?_congr (again line'), spelled]
  · have read' := ofText?_eq line' raw'
    rw [padded.ofText?_eq, ofText?_eq line raw] at read'
    exact (Option.some.inj read').symm

/-- A code in lower case with a padded number, a word that is no number, and an
empty comment. -/
theorem parse_spelling_of_empty_comment :
    let raw := " g007 x1  Y?; "
    (parse 0 raw).isExecutable = true ∧
      (∃ text, (parse 0 raw).spelling? = some text ∧ text = "G7 x1 Y? ; " ∧
        (parse 3 text).content = (parse 0 raw).content) ∧
      (parse 3 " g007 x1   Y?; ").content = (parse 0 raw).content := by
  intro raw
  have code : (parse 0 raw).isExecutable = true := by decide +kernel
  obtain ⟨text, spelled, again, padded⟩ := parse_spelling code
  refine ⟨code, ⟨text, spelled, ?_, (again 3).1⟩, padded 3 _ ?_⟩
  · have normal : (parse 0 raw).spelling? = some "G7 x1 Y? ; " := by decide +kernel
    exact Option.some.inj (spelled.symm.trans normal)
  · have head : CodeHead [' ', 'g', '0', '0', '7'] .g 7 :=
      .intro 1 (.inr (by decide)) (by decide) (by simp [Char.isDigit]) (by decide)
    have gap : Gap ([' ', 'g', '0', '0', '7'] ++ [' ', 'x', '1']) "  Y?; ".toList :=
      .word head (by simp [EndsNumber]) (by decide) (by simp [EndsNumber])
    have at_gap : raw.toList = [' ', 'g', '0', '0', '7'] ++ [' ', 'x', '1'] ++ "  Y?; ".toList := by
      decide +kernel
    have more : " g007 x1   Y?; ".toList =
        [' ', 'g', '0', '0', '7'] ++ [' ', 'x', '1'] ++ (.replicate 1 ' ' ++ "  Y?; ".toList) := by
      decide +kernel
    rw [more]
    exact .insert 1 (at_gap ▸ .refl raw.toList) gap

end Command

end GcodeJob
