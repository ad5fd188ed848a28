import GcodeJob.Number.Word
import GcodeJob.Yaml.Event

/-!
# GcodeJob.Yaml.Field

Reading records out of a document.

A node is the list of events that starts with it.  A record is a mapping, or
nothing at all, which leaves every field out.  Keys are compared by their
text, keys that are no field are passed over together with their values, and
a field may be given once.
-/

namespace GcodeJob.Yaml

/-- What follows a node, `depth` collections being open in front of it. -/
def afterNode : Nat → List Event → List Event
  | _, [] => []
  | depth, .openSequence :: rest | depth, .openMapping :: rest => afterNode (depth + 1) rest
  | depth, .close :: rest => if depth ≤ 1 then rest else afterNode (depth - 1) rest
  | depth, .scalar .. :: rest | depth, .aliasOf _ :: rest =>
    if depth = 0 then rest else afterNode depth rest

namespace Document

/-- A node, an alias being replaced by what it stands for. -/
def resolve (d : Document) : List Event → List Event
  | .aliasOf anchor :: _ => d.events.drop ((d.anchors.lookup anchor).getD d.events.length)
  | node => node

/-- The text of a scalar. -/
def text? (d : Document) (node : List Event) : Option String :=
  match d.resolve node with
  | .scalar _ _ text :: _ => some text
  | _ => none

/-- The keys of a mapping with the nodes of their values. -/
def pairs? (d : Document) : Nat → List Event → Option (List (String × List Event))
  | 0, _ => none
  | _ + 1, [] => none
  | _ + 1, .close :: _ => some []
  | fuel + 1, node => do
    let key ← d.text? node
    let value := afterNode 0 node
    let more ← pairs? d fuel (afterNode 0 value)
    return (key, value) :: more

/-- The fields of a record. -/
def fields? (d : Document) (node : List Event) : Option (List (String × List Event)) :=
  match d.resolve node with
  | .openMapping :: rest => d.pairs? (rest.length + 1) rest
  | .scalar .plain _ "" :: _ => some []
  | _ => none

end Document

/-- Reads the field with a name, which keeps its default when it is not given. -/
def field? (fields : List (String × List Event)) (name : String) (default : α)
    (read : List Event → Option α) : Option α :=
  match fields.filter (·.1 = name) with
  | [] => some default
  | [(_, node)] => read node
  | _ => none

/-! ## Numbers -/

/-- The tag of whole numbers. -/
def integerTag : String := "tag:yaml.org,2002:int"

/-- The number below `2 ^ 64` that digits write in some base of at most sixteen. -/
def digits? (base : Nat) (digits : List Char) : Option Nat :=
  if digits.isEmpty then none
  else digits.foldlM (fun n d => (hexDigit? d).bind fun v =>
    if v < base then some (base * n + v) |>.filter (· < Word.count64) else none) 0

/-- A number below `2 ^ 64`: a plus sign or none, then digits, in base
sixteen, eight or two behind `0x`, `0o` and `0b`.  Other digits have no zero
in front. -/
def number? (text : String) : Option Nat :=
  let text := match text.toList with
    | '+' :: rest => rest
    | text => text
  match text with
  | '0' :: 'x' :: rest => digits? 16 rest
  | '0' :: 'o' :: rest => digits? 8 rest
  | '0' :: 'b' :: rest => digits? 2 rest
  | ['0'] => some 0
  | '0' :: _ => none
  | text => digits? 10 text

/-- The number that a node holds, written plainly or as a literal block whose tag
says that it is a number. -/
def Document.number? (d : Document) (node : List Event) : Option Nat :=
  match d.resolve node with
  | .scalar .plain _ text :: _ => Yaml.number? text
  | .scalar .literal (some t) text :: _ => if t = integerTag then Yaml.number? text else none
  | _ => none

end GcodeJob.Yaml
