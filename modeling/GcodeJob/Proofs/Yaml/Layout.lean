import GcodeJob.Proofs.Yaml.Scalar
import GcodeJob.Yaml.Layout

/-!
# GcodeJob.Proofs.Yaml.Layout

How the lines of a block mapping are cut into tokens, when every scalar on them
is a word of letters, digits and underscores.

A line of such a mapping is a key and then nothing or a value.  The key is read
in two steps, the word and the colon, and only the second shows that the word
was a key: in between its place is remembered (`Holding`), and the tokens are
put in there afterwards.  A value reads on over the line feed to the first word
of the next line, to see whether that line belongs to it.  So the places that
proofs go from and to are the first words of the lines (`At`), not their first
columns:

* `readAll_key` reads a key and its colon;
* `readAll_word` reads a value and leaves its line;
* `readAll_lineFeed` leaves a line that holds no value;
* `readAll_nil` ends the text.
-/

namespace GcodeJob.Yaml

namespace Layout

/-- A layout between two tokens of block context: what is left to read and in which
column, the tokens so far, and the blocks that are open. -/
structure At (s : Layout) (text : List Char) (column : Nat) (tokens : List Token) (indent : Int)
    (outer : List Int) (keyAllowed : Bool) : Prop where
  rest : s.cursor.rest = text
  column : s.cursor.column = column
  size : text.length ≤ s.cursor.size
  tokens : s.tokens = tokens.toArray
  indent : s.indent = indent
  outer : s.outer = outer
  allowed : s.keyAllowed = keyAllowed
  noKey : s.blockKey? = none
  block : s.flowKeys = []

/-- Reading on from a layout comes to another one, and takes `k` tokens up to there. -/
def Reads (k : Nat) (s s' : Layout) : Prop :=
  ∀ fuel, readAll (fuel + k + 1) s = readAll (fuel + 1) s'

theorem Reads.refl (s : Layout) : Reads 0 s s := fun _ => rfl

theorem Reads.trans {k l : Nat} {s t u : Layout} (first : Reads k s t) (second : Reads l t u) :
    Reads (k + l) s u := by
  intro fuel
  rw [show fuel + (k + l) + 1 = fuel + l + k + 1 by omega, first, second]

/-- A layout at the first word of a line, as it is once the blocks that lie right of
the word have ended. -/
structure AtLine (s : Layout) (text : List Char) (column : Nat) (tokens : List Token)
    (indent : Int) (outer : List Int) : Prop where
  inside : (s.unroll column).At text column tokens indent outer true
  column : s.cursor.column = column
  noKey : s.blockKey? = none
  block : s.flowKeys = []

section
variable {s : Layout} {text : List Char} {n column : Nat} {tokens : List Token} {indent : Int}
  {outer : List Int} {keyAllowed : Bool}

/-! ## In front of a token -/

/-- The next token on the line is behind the blanks. -/
theorem toToken_blanks (fuel : Nat) (at_ : s.cursor.rest = List.replicate n ' ' ++ text)
    (begins : BeginsToken text) :
    s.toToken (fuel + 1) = { s with cursor := s.cursor.advance n } := by
  have behind : BeginsToken (s.cursor.advance n).rest := by
    simpa [at_, List.drop_append] using begins
  unfold toToken
  dsimp only
  rw [Cursor.skipOrderMark_eq at_ begins, Cursor.span_blanks at_ begins (by simp),
    Cursor.skipComment_eq behind, Cursor.lineBreak?_eq_none behind]
  intro x none
  simp only [isBlank, Bool.or_eq_false_iff, decide_eq_false_iff_not] at none
  simp [none]

/-- A line that has been read to its end is left. -/
theorem toToken_lineFeed (fuel : Nat) (at_ : s.cursor.rest = '\n' :: text) :
    s.toToken (fuel + 1) = toToken fuel { s with
      cursor := { s.cursor with
        rest := text, offset := s.cursor.offset + 1, line := s.cursor.line + 1, column := 0 }
      keyAllowed := s.keyAllowed || !s.inFlow } := by
  have mark : s.cursor.skipOrderMark = s.cursor := by simp [Cursor.skipOrderMark, Cursor.sees, at_]
  have comment : s.cursor.skipComment = s.cursor := by simp [Cursor.skipComment, Cursor.sees, at_]
  conv => lhs; unfold toToken
  dsimp only
  rw [mark]
  have blanks (p : Char → Bool) (none : p '\n' = false) : (s.cursor.span p).2 = s.cursor := by
    simp [Cursor.span, at_, none]
  rw [blanks _ (by simp), comment, lineBreak?_lineFeed at_]

/-- A token that begins here is the next one. -/
theorem toToken_self (fuel : Nat) (begins : BeginsToken s.cursor.rest) :
    s.toToken (fuel + 1) = s := by
  have none : s.cursor.rest = List.replicate 0 ' ' ++ s.cursor.rest := rfl
  have here := toToken_blanks fuel none begins
  rwa [Cursor.advance_zero] at here

/-! ## One step -/

/-- Blocks stay open that do not lie right of a column. -/
theorem unroll_of_le {column : Int} (block : s.flowKeys = []) (le : s.indent ≤ column) :
    s.unroll column = s := by
  unfold unroll inFlow
  rw [block]
  cases s.outer with
  | nil => simp [unrollTo]
  | cons next outer => simp [unrollTo, le]

/-- Of two blocks the inner one ends at a column between theirs. -/
theorem At.unroll {column' : Int} {next : Int}
    (at_ : s.At text column tokens indent (next :: outer) keyAllowed) (lt : column' < indent)
    (le : next ≤ column') :
    (s.unroll column').At text column (tokens ++ [.blockEnd]) next outer keyAllowed := by
  obtain ⟨rest, at_column, size, at_tokens, at_indent, at_outer, allowed, noKey, block⟩ := at_
  have ended : s.unroll column' = { s.emit .blockEnd with indent := next, outer } := by
    unfold Layout.unroll inFlow
    rw [block, at_outer]
    have inner : ¬ s.indent ≤ column' := by omega
    cases outer with
    | nil => simp [unrollTo, inner]
    | cons last outer => simp [unrollTo, inner, le]
  rw [ended]
  constructor <;> simp [emit, *]

/-- The line belongs to the innermost block, or to one that it begins. -/
theorem At.atLine (at_ : s.At text column tokens indent outer true) (le : indent ≤ column) :
    s.AtLine text column tokens indent outer := by
  refine ⟨?_, at_.column, at_.noKey, at_.block⟩
  rwa [unroll_of_le at_.block (at_.indent ▸ le)]

/-- The line ends the innermost block. -/
theorem At.atLine_left {next : Int} (at_ : s.At text column tokens indent (next :: outer) true)
    (lt : column < indent) (le : next ≤ column) :
    s.AtLine text column (tokens ++ [.blockEnd]) next outer :=
  ⟨at_.unroll lt le, at_.column, at_.noKey, at_.block⟩

theorem cursor_unrollTo (column : Int) (outer : List Int) (s : Layout) :
    (unrollTo column outer s).cursor = s.cursor := by
  induction outer generalizing s with
  | nil => rfl
  | cons next outer ih =>
    unfold unrollTo
    split
    · rfl
    · exact ih _

theorem cursor_unroll (s : Layout) (column : Int) : (s.unroll column).cursor = s.cursor := by
  unfold unroll
  split
  · rfl
  · exact cursor_unrollTo ..

/-- The next token, when nothing stands in front of it. -/
theorem readAll_succ {x : Char} (fuel : Nat) (block : s.flowKeys = [])
    (fresh : hasStale s.cursor s.blockKey? = false) (at_ : s.cursor.rest = x :: text)
    (begins : BeginsToken (x :: text)) :
    readAll (fuel + 1) s = ((s.unroll s.cursor.column).readToken x text).bind (readAll fuel) := by
  have still : s.toToken s.cursor.steps = s := toToken_self _ (at_ ▸ begins)
  have key : s.key? = s.blockKey? := by simp [key?, block]
  have kept : s.dropStale = some s := by simp [dropStale, key, fresh]
  simp only [readAll, still, kept, bind, Option.bind]
  rw [cursor_unroll, at_]

/-! ## Words -/

/-- A word begins a plain scalar. -/
theorem readToken_of_isWordChar {x : Char} (h : isWordChar x = true)
    (at_ : s.cursor.rest = x :: text) : s.readToken x text = s.readPlainScalar := by
  have ne {d : Char} (mark : isWordChar d = false) : x ≠ d := ne_of_isWordChar h mark
  have minus := ne (d := '-') rfl
  have mark := atDocumentMark_of_isWordChar h at_
  have starts : startsPlain s.inFlow x text = true := by
    have others : (",[]\x7b\x7d#&*!|>'\"%@\x60".toList.all fun d => !isWordChar d) = true := by
      decide
    have question := ne (d := '?') rfl
    have colon := ne (d := ':') rfl
    have absent : x ∉ ",[]\x7b\x7d#&*!|>'\"%@\x60".toList := by
      intro mem
      have mark := List.all_eq_true.mp others x mem
      rw [h] at mark
      cases mark
    simp only [startsPlain, minus, question, colon, isGap_of_isWordChar h]
    simpa using absent
  unfold readToken
  simp [mark, starts, minus, ne (d := '%') rfl, ne (d := '[') rfl, ne (d := '\x7b') rfl,
    ne (d := ']') rfl, ne (d := '\x7d') rfl, ne (d := ',') rfl, ne (d := '?') rfl,
    ne (d := ':') rfl, ne (d := '*') rfl, ne (d := '&') rfl, ne (d := '!') rfl,
    ne (d := '|') rfl, ne (d := '>') rfl, ne (d := '\'') rfl, ne (d := '"') rfl]

/-- Where a word is next, the step reads a plain scalar. -/
theorem readAll_plain (w : Plain) (block : s.flowKeys = []) (noKey : s.blockKey? = none)
    (at_ : s.cursor.rest = w.chars ++ text) (fuel : Nat) :
    readAll (fuel + 1) s =
      ((s.unroll s.cursor.column).readPlainScalar).bind (readAll fuel) := by
  obtain ⟨x, rest, first, own⟩ := w.exists_first
  have here : s.cursor.rest = x :: (rest ++ text) := by simp [at_, first]
  rw [readAll_succ fuel block (by simp [noKey, hasStale]) here (beginsToken_of_isWordChar own _),
    readToken_of_isWordChar own (by rw [cursor_unroll, here])]

/-- A colon that white space follows marks a value. -/
theorem readToken_colon (inLine : s.cursor.column ≠ 0) (gap : gapFollows text = true) :
    s.readToken ':' text = s.readValue := by
  have mark : s.cursor.atDocumentMark = false := by simp [Cursor.atDocumentMark, inLine]
  unfold readToken
  simp [mark, gap]

/-! ## Keys and values -/

/-- Where a key may start, its place is remembered. -/
theorem saveKey_of_allowed (allowed : s.keyAllowed = true) (noKey : s.blockKey? = none)
    (block : s.flowKeys = []) : s.saveKey = some { s with
      blockKey? := some
        { token := s.tokens.size, isRequired := s.indent = s.cursor.column
          offset := s.cursor.offset, line := s.cursor.line, column := s.cursor.column } } := by
  simp [saveKey, allowed, dropKey, key?, block, noKey, setKey, inFlow]

theorem saveKey_of_not_allowed (allowed : s.keyAllowed = false) : s.saveKey = some s := by
  simp [saveKey, allowed]

/-- A layout behind a word that began at a column where a key may start, in front
of the colon that makes it one. -/
structure Holding (s : Layout) (w : Plain) (text : List Char) (column : Nat) (tokens : List Token)
    (indent : Int) (outer : List Int) : Prop where
  key : ∃ k, s.blockKey? = some k ∧ k.token = tokens.length ∧ k.column = column ∧
    isStale s.cursor k = false
  rest : s.cursor.rest = ':' :: text
  column : s.cursor.column = column + w.chars.length
  size : text.length + 1 ≤ s.cursor.size
  tokens : s.tokens = (tokens ++ [Token.scalar .plain w.text]).toArray
  indent : s.indent = indent
  outer : s.outer = outer
  block : s.flowKeys = []

/-- The word of a key is read, and its place remembered. -/
theorem readPlainScalar_key (w : Key) (gap : gapFollows text = true)
    (at_ : s.At (w.chars ++ ':' :: text) column tokens indent outer true) :
    ∃ s', s.readPlainScalar = some s' ∧ s'.Holding w.toPlain text column tokens indent outer := by
  have ends : plainWord false w.chars.toArray (':' :: text) = some w.chars.toArray := by
    simp [plainWord, isGap, isBlank, isBreak, gap]
  have read := readPlain_word w.toPlain at_.rest ends
  have block := at_.block
  have size := at_.size
  have count := byteCount_eq w.isWord
  have scalar : s.readPlainScalar = some { s with
      cursor := s.cursor.advance w.chars.length
      tokens := s.tokens.push (.scalar .plain w.text)
      keyAllowed := false
      blockKey? := some
        { token := tokens.length, isRequired := indent = column
          offset := s.cursor.offset, line := s.cursor.line, column } } := by
    unfold readPlainScalar
    rw [saveKey_of_allowed at_.allowed at_.noKey at_.block]
    simp [inFlow, block, Cursor.steps, read, isGap, isBlank, isBreak, allowKey, emit, at_.tokens,
      at_.indent, at_.column, Plain.text]
  refine ⟨_, scalar, ⟨_, rfl, rfl, rfl, ?_⟩, ?_, ?_, ?_, ?_, at_.indent, at_.outer, block⟩
  · simp [isStale, at_.rest, count, w.short]
  · simp [at_.rest]
  · simp [at_.column]
  · simp only [List.length_append, List.length_cons] at size
    simp only [Cursor.size_advance]
    omega
  · simp [at_.tokens]

/-- The tokens that open a block at a column, when it lies right of the innermost one. -/
def opening (indent : Int) (column : Nat) : List Token :=
  if (column : Int) ≤ indent then [] else [.blockMapping]

/-- The columns of the blocks around one that a key at a column belongs to. -/
def around (indent : Int) (outer : List Int) (column : Nat) : List Int :=
  if (column : Int) ≤ indent then outer else indent :: outer

theorem insertIdx_append {α : Type} (front back : List α) (a : α) :
    (front ++ back).insertIdx front.length a = front ++ a :: back := by
  induction front with
  | nil => simp
  | cons b front ih => simp [ih]

/-- What stood in front of a colon becomes a key, of a new block if it lies
right of the innermost one. -/
theorem readValue_key {t : Token} {k : PossibleKey} (key : s.blockKey? = some k)
    (block : s.flowKeys = []) (token : k.token = tokens.length)
    (at_ : s.tokens = (tokens ++ [t]).toArray) :
    s.readValue = some { s with
      cursor := s.cursor.advance
      tokens := (tokens ++ opening s.indent k.column ++ [.key, t, .value]).toArray
      indent := max s.indent k.column
      outer := around s.indent s.outer k.column
      keyAllowed := false
      blockKey? := none } := by
  have insert (back : List Token) (a : Token) :
      (tokens ++ back).toArray.insertIdxIfInBounds tokens.length a =
        (tokens ++ a :: back).toArray := by
    rw [List.insertIdxIfInBounds_toArray, insertIdx_append]
  unfold readValue key?
  rw [block, key]
  simp only [List.headD_nil, Layout.insert, token, at_, insert, roll, inFlow, block]
  by_cases le : (k.column : Int) ≤ s.indent
  · rw [Int.max_eq_left le]
    simp [le, setKey, allowKey, skip, emit, opening, around]
  · rw [Int.max_eq_right (by omega)]
    simp [le, setKey, allowKey, skip, emit, opening, around]

/-- The colon behind a word makes it a key. -/
theorem Holding.readAll_colon {w : Plain} (h : s.Holding w text column tokens indent outer)
    (le : indent ≤ column) (gap : gapFollows text = true) :
    ∃ s', s'.At text (column + w.chars.length + 1)
        (tokens ++ opening indent column ++ [.key, .scalar .plain w.text, .value])
        (max indent column) (around indent outer column) false ∧
      ∀ fuel, readAll (fuel + 1) s = readAll fuel s' := by
  obtain ⟨k, key, token, at_column, fresh⟩ := h.key
  have inside : s.unroll s.cursor.column = s := by
    refine unroll_of_le h.block ?_
    rw [h.column, h.indent]
    omega
  have colon : BeginsToken (':' :: text) := by
    intro x first
    obtain rfl : ':' = x := by simpa using first
    decide
  have step (fuel : Nat) := readAll_succ fuel h.block (by simp [hasStale, key, fresh]) h.rest colon
  have in_line : s.cursor.column ≠ 0 := by
    have positive := w.length_pos
    rw [h.column]
    omega
  rw [inside, readToken_colon in_line gap, readValue_key key h.block token h.tokens, at_column,
    h.indent, h.outer] at step
  refine ⟨_, ?_, step⟩
  have size := h.size
  constructor <;> simp [h.rest, h.column, h.block]
  omega

/-- **A key**: its word and the colon behind it. -/
theorem readAll_key (w : Key) (gap : gapFollows text = true)
    (at_ : s.AtLine (w.chars ++ ':' :: text) column tokens indent outer) (le : indent ≤ column) :
    ∃ s', s'.At text (column + w.chars.length + 1)
        (tokens ++ opening indent column ++ [.key, .scalar .plain w.text, .value])
        (max indent column) (around indent outer column) false ∧
      Reads 2 s s' := by
  obtain ⟨inside, at_column, noKey, block⟩ := at_
  have rest : s.cursor.rest = w.chars ++ ':' :: text := by rw [← inside.rest, cursor_unroll]
  obtain ⟨u, read, held⟩ := readPlainScalar_key w gap inside
  obtain ⟨s', at_', colon⟩ := held.readAll_colon le gap
  refine ⟨s', at_', fun fuel => ?_⟩
  rw [readAll_plain w.toPlain block noKey rest, at_column, read, Option.bind_some, colon]

/-! ## Lines -/

/-- Only the next token counts, not what stands in front of it. -/
theorem readAll_congr {s' : Layout} (same : s.toToken s.cursor.steps = s'.toToken s'.cursor.steps)
    (fuel : Nat) : readAll (fuel + 1) s = readAll (fuel + 1) s' := by
  simp only [readAll, same]

theorem readAll_blanks (fuel : Nat) (at_ : s.cursor.rest = List.replicate n ' ' ++ text)
    (begins : BeginsToken text) :
    readAll (fuel + 1) s = readAll (fuel + 1) { s with cursor := s.cursor.advance n } := by
  refine readAll_congr ?_ fuel
  rw [Cursor.steps, toToken_blanks _ at_ begins]
  exact (toToken_self _ (by simpa [at_] using begins)).symm

/-- **A line that is empty from here on**: the next token is on the next line. -/
theorem readAll_lineFeed (begins : BeginsToken text)
    (at_ : s.At ('\n' :: (List.replicate n ' ' ++ text)) column tokens indent outer keyAllowed) :
    ∃ s', s'.At text n tokens indent outer true ∧ Reads 0 s s' := by
  have size := at_.size
  simp only [List.length_cons, List.length_append, List.length_replicate] at size
  have flow : s.inFlow = false := by simp [inFlow, at_.block]
  obtain ⟨fuel, enough⟩ : ∃ k, s.cursor.size = k + 1 := ⟨s.cursor.size - 1, by omega⟩
  have left := toToken_lineFeed s.cursor.size at_.rest
  rw [enough, toToken_blanks fuel rfl begins, ← enough] at left
  obtain ⟨s', left, there⟩ : ∃ s', s.toToken (s.cursor.size + 1) = s' ∧
      s'.At text n tokens indent outer true := by
    refine ⟨_, left, ?_⟩
    constructor <;> simp [flow, at_.tokens, at_.indent, at_.outer, at_.noKey, at_.block]
    omega
  have begins' : BeginsToken s'.cursor.rest := there.rest ▸ begins
  exact ⟨s', there, readAll_congr (left.trans (toToken_self _ begins').symm)⟩

/-- A plain scalar that is one word and the last on its line. -/
theorem readPlainScalar_word (w : Plain) (begins : BeginsToken text)
    (at_ : s.At (w.chars ++ '\n' :: (List.replicate n ' ' ++ text)) column tokens indent outer
      false)
    (left : n ≤ indent) :
    ∃ s', s.readPlainScalar = some s' ∧
      s'.At text n (tokens ++ [.scalar .plain w.text]) indent outer true := by
  have ends : plainWord false w.chars.toArray ('\n' :: (List.replicate n ' ' ++ text)) =
      some w.chars.toArray := by
    simp [plainWord, isGap, isBlank, isBreak]
  have size := at_.size
  simp only [List.length_cons, List.length_append, List.length_replicate] at size
  have read := readPlain_word w at_.rest ends (indent + 1).toNat s.cursor.size
  have block := at_.block
  have behind : (s.cursor.advance w.chars.length).rest =
      '\n' :: (List.replicate n ' ' ++ text) := by
    simp [at_.rest]
  obtain ⟨gap, c, skipped, broken, rest, at_column, same⟩ :=
    read_gap (indent + 1).toNat behind begins
      (show n + 1 < s.cursor.steps by simp only [Cursor.steps]; omega)
  rw [skipped] at read
  have scalar : s.readPlainScalar = some { s with
      cursor := c
      tokens := s.tokens.push (.scalar .plain w.text)
      keyAllowed := true } := by
    unfold readPlainScalar
    rw [saveKey_of_not_allowed at_.allowed]
    simp [inFlow, block, Cursor.steps, read, isGap, isBlank, isBreak, allowKey, emit, at_.indent,
      at_column, Int.lt_add_one_iff, left, broken, Plain.text]
  refine ⟨_, scalar, rest, at_column, ?_, ?_, at_.indent, at_.outer, rfl, at_.noKey, block⟩
  · rw [same]
    simp only [Cursor.size_advance]
    omega
  · simp [at_.tokens]

/-- **A value that is one word**, up to the first word of the next line. -/
theorem readAll_word (w : Plain) (begins : BeginsToken text)
    (at_ : s.At (' ' :: (w.chars ++ '\n' :: (List.replicate n ' ' ++ text))) column tokens indent
      outer false)
    (inside : indent ≤ column) (left : n ≤ indent) :
    ∃ s', s'.At text n (tokens ++ [.scalar .plain w.text]) indent outer true ∧ Reads 1 s s' := by
  have size := at_.size
  have moved : At { s with cursor := s.cursor.advance 1 }
      (w.chars ++ '\n' :: (List.replicate n ' ' ++ text)) (column + 1) tokens indent outer
      false := by
    constructor <;> simp [at_.rest, at_.column, at_.tokens, at_.indent, at_.outer, at_.allowed,
      at_.noKey, at_.block]
    simp only [List.length_cons, List.length_append, List.length_replicate] at size
    omega
  have skips (fuel : Nat) :=
    readAll_blanks (n := 1) fuel (by simpa using at_.rest) (w.beginsToken _)
  generalize ({ s with cursor := s.cursor.advance 1 } : Layout) = t at moved skips
  have stays : t.unroll t.cursor.column = t := by
    refine unroll_of_le moved.block ?_
    rw [moved.column, moved.indent]
    omega
  obtain ⟨s', read, there⟩ := readPlainScalar_word w begins moved left
  refine ⟨s', there, fun fuel => ?_⟩
  rw [skips, readAll_plain w moved.block moved.noKey moved.rest, stays, read, Option.bind_some]

/-- **The end of the text** ends all blocks. -/
theorem readAll_nil (at_ : s.AtLine [] column tokens indent outer) {all : List Token}
    (ended : ((s.unroll column).unroll (-1)).At [] column all (-1) [] true) (fuel : Nat) :
    readAll (fuel + 1) s = some (all ++ [.streamEnd]) := by
  obtain ⟨at_, at_column, noKey, block⟩ := at_
  have rest : s.cursor.rest = [] := by rw [← at_.rest, cursor_unroll]
  have still : s.toToken s.cursor.steps = s := toToken_self _ (rest ▸ beginsToken_nil)
  have kept : s.dropStale = some s := by simp [dropStale, key?, block, noKey, hasStale]
  have dropped := ended.noKey
  have block' := ended.block
  have tokens' := ended.tokens
  simp only [readAll, still, kept, bind, Option.bind, at_column]
  rw [cursor_unroll, rest]
  simp [dropKey, key?, block', dropped, setKey, tokens']

end

end Layout

end GcodeJob.Yaml
