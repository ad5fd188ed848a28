import GcodeJob.Number.Numeral

/-!
# GcodeJob.CommandLine.Arguments

The arguments of the program:

```
[-c | --config-path PATH] [--show LINE] [-n | --count COUNT] [-h | --help] FILE
```

An option takes its value after an equals sign, a short one also right after
its letter, and otherwise from the next argument, unless that one looks like
an option itself.  After `--` every argument is a file.

A value is read when the argument after it begins something new, so an
unknown option is reported before a bad value of the option in front of it.
-/

namespace GcodeJob

/-- What the program is asked to do. -/
structure Arguments where
  /-- The program file. -/
  path : String
  configPath? : Option String := none
  /-- List commands from this line instead of running the file. -/
  show? : Option Int := none
  /-- How many commands to list. -/
  count : Nat := 10
  deriving DecidableEq, Repr

/-- Why arguments are refused, or what is asked for instead. -/
inductive ArgumentFault
  | unknownArgument
  /-- An option stands without its value. -/
  | missingValue
  /-- A value is not of the kind the option takes. -/
  | badValue
  /-- A value is given to an option that takes none. -/
  | unneededValue
  /-- An option is given twice. -/
  | repeated
  /-- No file is given. -/
  | missingFile
  | helpRequested
  deriving DecidableEq, Repr

namespace Arguments

/-- The options that take a value. -/
inductive Key
  | configPath
  | show
  | count
  deriving DecidableEq, Repr

/-- What an option's name leads to. -/
inductive Meaning
  | takesValue (key : Key)
  | help
  deriving DecidableEq, Repr

def Meaning.ofLong? : String → Option Meaning
  | "config-path" => some (.takesValue .configPath)
  | "show" => some (.takesValue .show)
  | "count" => some (.takesValue .count)
  | "help" => some .help
  | _ => none

def Meaning.ofShort? : Char → Option Meaning
  | 'c' => some (.takesValue .configPath)
  | 'n' => some (.takesValue .count)
  | 'h' => some .help
  | _ => none

/-! ## Values -/

/-- A natural number below `2 ^ 64`; a plus sign may stand before it. -/
def count? (text : String) : Option Nat :=
  let digits := match text.toList with
    | '+' :: rest => rest
    | rest => rest
  if !digits.isEmpty && digits.all Char.isDigit then
    some (Numeral.value digits) |>.filter (· < Word.count64)
  else none

/-- A signed 64-bit number. -/
def line? (text : String) : Option Int :=
  let (negative, digits) := Numeral.takeSign text.toList
  if !digits.isEmpty && digits.all Char.isDigit then
    let magnitude : Int := Numeral.value digits
    some (if negative then -magnitude else magnitude) |>.filter fun n =>
      decide (Word.lowest ≤ n ∧ n ≤ Word.highest)
  else none

/-! ## Reading -/

/-- What has been read so far. -/
structure Partial where
  path? : Option String := none
  configPath? : Option String := none
  show? : Option Int := none
  count? : Option Nat := none
  /-- The option given last, if its value has not been read, and the value
  if that has been given. -/
  pending? : Option (Key × Option String) := none
  /-- Only files follow. -/
  filesOnly : Bool := false
  deriving DecidableEq, Repr

abbrev Reading := Except ArgumentFault Partial

/-- Reads the value of an option. -/
def Partial.set (a : Partial) (key : Key) (value : String) : Reading :=
  let assign {α : Type} (before : Option α) (read : Option α) (store : α → Partial) : Reading :=
    if before.isSome then .error .repeated
    else
      match read with
      | some v => .ok (store v)
      | none => .error .badValue
  match key with
  | .configPath => assign a.configPath? (some value) fun v => { a with configPath? := some v }
  | .show => assign a.show? (line? value) fun v => { a with show? := some v }
  | .count => assign a.count? (Arguments.count? value) fun v => { a with count? := some v }

/-- Reads the value that has been waiting, if one has. -/
def Partial.resolve (a : Partial) : Reading :=
  match a.pending? with
  | none => .ok a
  | some (_, none) => .error .missingValue
  | some (key, some value) => { a with pending? := none }.set key value

/-- An option of a known meaning, with the value attached to it. -/
def Partial.option (a : Partial) (meaning : Meaning) (attached? : Option String) : Reading := do
  match meaning, attached? with
  | .help, _ =>
    let _ ← a.resolve
    throw .helpRequested
  | .takesValue key, some value => (← a.resolve).set key value
  | .takesValue key, none => return { ← a.resolve with pending? := some (key, none) }

/-- The text before the first equals sign and, if there is one, after it. -/
def splitEquals (text : List Char) : List Char × Option String :=
  match text.dropWhile (· != '=') with
  | [] => (text, none)
  | _ :: value => (text.takeWhile (· != '='), some (.ofList value))

/-- A long option, without its dashes. -/
def Partial.long (a : Partial) (text : List Char) : Reading :=
  let (name, attached?) := splitEquals text
  match Meaning.ofLong? (.ofList name), attached? with
  | none, _ => .error .unknownArgument
  | some .help, some _ => .error .unneededValue
  | some meaning, attached? => a.option meaning attached?

/-- A short option and what stands right after its letter. -/
def Partial.short (a : Partial) (letter : Char) (rest : List Char) : Reading :=
  match Meaning.ofShort? letter, rest with
  | none, _ => .error .unknownArgument
  | some meaning, [] => a.option meaning none
  | some meaning, '=' :: value => a.option meaning (some (.ofList value))
  | some meaning, value => a.option meaning (some (.ofList value))

/-- An argument that is no option: a value that is waited for, or the file. -/
def Partial.plain (a : Partial) (text : String) : Reading :=
  match a.pending?, a.filesOnly with
  | some (key, none), false => .ok { a with pending? := some (key, some text) }
  | _, _ =>
    if a.path?.isSome then .error .unknownArgument
    else return { ← a.resolve with path? := some text }

/-- Reads one argument. -/
def Partial.argument (a : Partial) (text : String) : Reading :=
  if a.filesOnly then a.plain text
  else
    match text.toList with
    | ['-', '-'] => .ok { a with filesOnly := true }
    | '-' :: '-' :: rest => a.long rest
    | '-' :: letter :: rest => a.short letter rest
    | _ => a.plain text

/-- Reads all arguments. -/
def read (arguments : List String) : Except ArgumentFault Arguments := do
  let a ← arguments.foldlM Partial.argument ({} : Partial)
  let a ← a.resolve
  match a.path? with
  | none => throw .missingFile
  | some path => return ⟨path, a.configPath?, a.show?, a.count?.getD 10⟩

end Arguments

end GcodeJob
