import GcodeJob.Yaml.Layout

/-!
# GcodeJob.Yaml.Event

The document that tokens write, as the events of walking through it: each
scalar, and the beginning and the end of each collection.

The grammar is worked off a stack of goals.  A goal looks at the next tokens,
takes those that belong to it, and leaves further goals.

Anchors are counted as their names come up.  The number of an anchor is how
many names there were before it; a name that is given again does not add to
them, so the next anchor gets the same number and takes its place.
-/

namespace GcodeJob.Yaml

inductive Event
  | scalar (style : Style) (tag? : Option String) (text : String)
  /-- The node with an anchor's number once more. -/
  | aliasOf (anchor : Nat)
  | openSequence
  | openMapping
  | close
  deriving DecidableEq, Repr

/-- A document: its events, and for each anchor's number, the latest first,
how many events stand in front of the node. -/
structure Document where
  events : List Event
  anchors : List (Nat × Nat) := []
  deriving Repr

/-! ## Grammar -/

/-- What has to be found next. -/
inductive Goal
  /-- A node; of block collections only where `block` is set, of sequences
  without indentation only where `dash` is set. -/
  | node (block dash : Bool)
  /-- A node that is left out. -/
  | nothing
  | blockEntries
  | dashEntries
  | blockKeys
  | blockValue
  | flowEntries (first : Bool)
  | pairKey
  | pairValue
  | close
  | flowKeys (first : Bool)
  | flowValue
  deriving DecidableEq, Repr

/-- A document while it is read. -/
structure Reading where
  tokens : List Token
  goals : List Goal
  events : Array Event := #[]
  /-- The names of anchors with their numbers, the latest first. -/
  names : List (String × Nat) := []
  anchors : List (Nat × Nat) := []
  /-- Names that anchors have had. -/
  nameCount : Nat := 0
  /-- What the handles of tags stand for. -/
  handles : List (String × String) := []

namespace Reading

/-- Adds an event and goes on with other goals behind other tokens. -/
def emit (r : Reading) (e : Event) (tokens : List Token) (goals : List Goal) : Reading :=
  { r with events := r.events.push e, tokens, goals }

/-- Goes on with other goals behind other tokens. -/
def expect (r : Reading) (tokens : List Token) (goals : List Goal) : Reading :=
  { r with tokens, goals }

/-- Gives the next node an anchor. -/
def addAnchor (r : Reading) (name : String) : Reading :=
  let number := r.nameCount
  { r with
    names := (name, number) :: r.names
    anchors := (number, r.events.size) :: r.anchors
    nameCount := if (r.names.lookup name).isSome then number else number + 1 }

/-- The whole tag that a written tag stands for. -/
def resolve (r : Reading) (t : Tag) : Option String :=
  if t.handle.isEmpty then some t.rest
  else (r.handles.lookup t.handle).map (· ++ t.rest)

def takeAnchor : List Token → Option String × List Token
  | .anchor name :: rest => (some name, rest)
  | tokens => (none, tokens)

def takeTag : List Token → Option Tag × List Token
  | .tag t :: rest => (some t, rest)
  | tokens => (none, tokens)

/-- Reads the anchor and the tag of a node, in either order, and gives the tokens
behind them. -/
def takeProperties (tokens : List Token) : Option String × Option Tag × List Token :=
  match takeAnchor tokens with
  | (some name, rest) => let (t?, rest) := takeTag rest; (some name, t?, rest)
  | (none, _) =>
    let (t?, rest) := takeTag tokens
    if t?.isNone then (none, none, tokens)
    else let (name?, rest) := takeAnchor rest; (name?, t?, rest)

/-- The beginning of a node. -/
def readNode (r : Reading) (block dash : Bool) (goals : List Goal) : Option Reading :=
  match r.tokens with
  | .aliasOf name :: rest => (r.names.lookup name).map fun n => r.emit (.aliasOf n) rest goals
  | _ => do
    let (name?, t?, tokens) := takeProperties r.tokens
    let tag? ← match t? with
      | some t => (r.resolve t).map some
      | none => some none
    let r := match name? with
      | some name => r.addAnchor name
      | none => r
    match tokens with
    | .entry :: _ =>
      if dash then return r.emit .openSequence tokens (.dashEntries :: goals)
      else if name?.isSome || tag?.isSome then return r.emit (.scalar .plain tag? "") tokens goals
      else none
    | .scalar style text :: rest =>
      return r.emit (.scalar style (if tag? = some "!" then none else tag?) text) rest goals
    | .flowSequence :: rest => return r.emit .openSequence rest (.flowEntries true :: goals)
    | .flowMapping :: rest => return r.emit .openMapping rest (.flowKeys true :: goals)
    | .blockSequence :: rest =>
      if block then return r.emit .openSequence rest (.blockEntries :: goals)
      else if name?.isSome || tag?.isSome then return r.emit (.scalar .plain tag? "") tokens goals
      else none
    | .blockMapping :: rest =>
      if block then return r.emit .openMapping rest (.blockKeys :: goals)
      else if name?.isSome || tag?.isSome then return r.emit (.scalar .plain tag? "") tokens goals
      else none
    | _ =>
      if name?.isSome || tag?.isSome then return r.emit (.scalar .plain tag? "") tokens goals
      else none

/-- A node behind a mark, or nothing where a token shows that it is left out. -/
def nodeOr (r : Reading) (ends : List Token) (node : Goal) (tokens : List Token)
    (goals : List Goal) : Reading :=
  if tokens.head?.any ends.contains then r.expect tokens (.nothing :: goals)
  else r.expect tokens (node :: goals)

/-- The entries of a flow collection from the second on follow a comma. -/
def afterComma (first : Bool) (tokens : List Token) : Option (List Token) :=
  if first then some tokens
  else match tokens with
    | .comma :: rest => some rest
    | _ => none

/-- Works off the next goal. -/
def step (r : Reading) : Option Reading :=
  match r.goals with
  | [] => none
  | .node block dash :: goals => r.readNode block dash goals
  | .nothing :: goals => some (r.emit (.scalar .plain none "") r.tokens goals)
  | .blockEntries :: goals =>
    match r.tokens with
    | .entry :: rest =>
      some (r.nodeOr [.entry, .blockEnd] (.node true false) rest (.blockEntries :: goals))
    | .blockEnd :: rest => some (r.emit .close rest goals)
    | _ => none
  | .dashEntries :: goals =>
    match r.tokens with
    | .entry :: rest =>
      some (r.nodeOr [.entry, .key, .value, .blockEnd] (.node true false) rest
        (.dashEntries :: goals))
    | tokens => some (r.emit .close tokens goals)
  | .blockKeys :: goals =>
    match r.tokens with
    | .key :: rest =>
      some (r.nodeOr [.key, .value, .blockEnd] (.node true true) rest (.blockValue :: goals))
    | .blockEnd :: rest => some (r.emit .close rest goals)
    | _ => none
  | .blockValue :: goals =>
    match r.tokens with
    | .value :: rest =>
      some (r.nodeOr [.key, .value, .blockEnd] (.node true true) rest (.blockKeys :: goals))
    | tokens => some (r.expect tokens (.nothing :: .blockKeys :: goals))
  | .flowEntries first :: goals =>
    match r.tokens with
    | .flowSequenceEnd :: rest => some (r.emit .close rest goals)
    | tokens => (afterComma first tokens).map fun tokens =>
      match tokens with
      | .key :: rest =>
        r.emit .openMapping rest (.pairKey :: .pairValue :: .close :: .flowEntries false :: goals)
      | .flowSequenceEnd :: rest => r.emit .close rest goals
      | tokens => r.expect tokens (.node false false :: .flowEntries false :: goals)
  | .pairKey :: goals =>
    match r.tokens with
    | .value :: rest | .comma :: rest | .flowSequenceEnd :: rest =>
      some (r.expect rest (.nothing :: goals))
    | tokens => some (r.expect tokens (.node false false :: goals))
  | .pairValue :: goals =>
    match r.tokens with
    | .value :: rest => some (r.nodeOr [.comma, .flowSequenceEnd] (.node false false) rest goals)
    | tokens => some (r.expect tokens (.nothing :: goals))
  | .close :: goals => some (r.emit .close r.tokens goals)
  | .flowKeys first :: goals =>
    match r.tokens with
    | .flowMappingEnd :: rest => some (r.emit .close rest goals)
    | tokens => (afterComma first tokens).map fun tokens =>
      match tokens with
      | .key :: rest =>
        r.nodeOr [.value, .comma, .flowMappingEnd] (.node false false) rest
          (.flowValue :: .flowKeys false :: goals)
      | .flowMappingEnd :: rest => r.emit .close rest goals
      | tokens => r.expect tokens (.node false false :: .nothing :: .flowKeys false :: goals)
  | .flowValue :: goals =>
    match r.tokens with
    | .value :: rest => some (r.nodeOr [.comma, .flowMappingEnd] (.node false false) rest goals)
    | tokens => some (r.expect tokens (.nothing :: goals))

/-- Works off all goals. -/
def run : Nat → Reading → Option Reading
  | 0, r => if r.goals.isEmpty then some r else none
  | fuel + 1, r => if r.goals.isEmpty then some r else r.step.bind (run fuel)

end Reading

/-! ## Documents -/

/-- Takes the directives in front of a document.  A version is given once and
is 1.1 or 1.2; no handle is given twice. -/
def takeDirectives (hasVersion : Bool) (handles : List (String × String)) :
    List Token → Option (List (String × String) × List Token)
  | .directive (.version major minor) :: rest =>
    if hasVersion || major ≠ 1 || (minor ≠ 1 && minor ≠ 2) then none
    else takeDirectives true handles rest
  | .directive (.handle name beginning) :: rest =>
    if (handles.lookup name).isSome then none
    else takeDirectives hasVersion (handles ++ [(name, beginning)]) rest
  | tokens => some (handles, tokens)

/-- What handles stand for unless directives say otherwise. -/
def commonHandles : List (String × String) := [("!", "!"), ("!!", "tag:yaml.org,2002:")]

/-- The goal that the first token of a document leaves, with the handles for
its tags and the tokens behind what was taken.  Directives need a document
start behind them. -/
def documentGoal (tokens : List Token) : Option (Goal × List (String × String) × List Token) :=
  match tokens with
  | .directive _ :: _ | .documentStart :: _ => do
    match ← takeDirectives false [] tokens with
    | (handles, .documentStart :: rest) =>
      let isEmpty := match rest with
        | .directive _ :: _ | .documentStart :: _ | .documentEnd :: _ | .streamEnd :: _ => true
        | _ => false
      return (if isEmpty then .nothing else .node true false, handles ++ commonHandles, rest)
    | _ => none
  | _ => some (.node true false, commonHandles, tokens)

/-- The only document of a text.  A text without any reads as an empty scalar.
No token leaves more than a few goals, so the number of steps is bounded. -/
def Document.read (text : List Char) : Option Document := do
  let tokens ← tokens? text
  if tokens = [.streamEnd] then return { events := [.scalar .plain none ""] }
  let (goal, handles, tokens) ← documentGoal tokens
  let r ← Reading.run (16 * (tokens.length + 1)) { tokens, goals := [goal], handles }
  if r.tokens.dropWhile (· = .documentEnd) = [.streamEnd] then
    return { events := r.events.toList, anchors := r.anchors }
  else none

end GcodeJob.Yaml
