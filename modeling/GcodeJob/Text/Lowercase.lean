import GcodeJob.Text.CaseTable

/-!
# GcodeJob.Text.Lowercase

Full Unicode lower-casing, independent of language.  All characters but two
are lower-cased on their own: the dotted capital i becomes two characters,
and a capital sigma becomes the final form `ς` at the end of a word, which
is where a cased letter stands before it and none after it, case-ignorable
characters aside.
-/

namespace GcodeJob.Text

def inRanges (ranges : List (Nat × Nat)) (c : Char) : Bool :=
  ranges.any fun (low, high) => decide (low ≤ c.toNat ∧ c.toNat ≤ high)

def isCased (c : Char) : Bool := inRanges casedRanges c

def isCaseIgnorable (c : Char) : Bool := inRanges caseIgnorableRanges c

def CaseRun.covers (run : CaseRun) (c : Char) : Bool :=
  decide (run.first ≤ c.toNat ∧ c.toNat ≤ run.last ∧ (c.toNat - run.first) % run.stride = 0)

/-- The lower-case form of a character by itself. -/
def lowerChar (c : Char) : List Char :=
  if c = '\u0130' then ['i', '\u0307']
  else
    match lowerRuns.find? (·.covers c) with
    | some run => [Char.ofNat (c.toNat + run.offset).toNat]
    | none => [c]

/-- Whether the nearest character that is not case-ignorable is a cased letter. -/
def startsCased (text : List Char) : Bool :=
  ((text.dropWhile isCaseIgnorable).head?.map isCased).getD false

/-- Lower-cases `text`, given what stands before it, nearest first. -/
def lowerAfter (before : List Char) : List Char → List Char
  | [] => []
  | c :: rest =>
    let form :=
      if c = 'Σ' then [if startsCased before && !startsCased rest then 'ς' else 'σ']
      else lowerChar c
    form ++ lowerAfter (c :: before) rest

/-- The lower-case form of a text. -/
def lowercase (text : List Char) : List Char := lowerAfter [] text

end GcodeJob.Text
