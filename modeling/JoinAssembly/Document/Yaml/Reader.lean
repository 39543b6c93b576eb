import JoinAssembly.Document.Yaml.Node
import JoinAssembly.Document.Yaml.Token

/-!
# Reading YAML

A text holds at most one document. Lists and records are written in blocks or in brackets, scalars
in any style. Before a value its name and its tag may stand, in either order; directives may stand
before the document.
-/

namespace JoinAssembly.Yaml

/-- The state of reading a document. -/
structure Reading where
  tokens : List Token
  /-- The names given so far and the numbers of the values they stand for. -/
  names : List (String × Nat)
  /-- What the handles of tags stand for. -/
  handles : List (String × String)

abbrev Parse := StateT Reading (Except SyntaxError)

namespace Parse

private def next? : Parse (Option Token) := return (← get).tokens.head?

private def advance : Parse Unit := modify fun s => { s with tokens := s.tokens.drop 1 }

/-- Whether the next token is one of some tokens. -/
private def nextIn (ts : List Token) : Parse Bool := return (← next?).any ts.contains

/-! ### Names and tags -/

/-- Give a name to a new value. Its number is the count of the names already given, so a value whose
name was given before shares its number with the next value of a new name. -/
private def register (name : String) : Parse Nat := do
  let s ← get
  set { s with names := (name, s.names.length) :: s.names.filter fun n => n.1 != name }
  return s.names.length

/-- The value that a name stands for. -/
private def named (name : String) : Parse Node := do
  match (← get).names.lookup name with
  | some number => return .reference number
  | none => throw (.unknownName name)

/-- The whole tag. -/
private def wholeTag (t : TagName) : Parse String := do
  if t.handle.isEmpty then return t.rest
  match (← get).handles.lookup t.handle with
  | some start => return start ++ t.rest
  | none => throw (.unknownName t.handle)

private def anchor? : Parse (Option Nat) := do
  match ← next? with
  | some (.anchor name) =>
    advance
    some <$> register name
  | _ => return none

private def tag? : Parse (Option String) := do
  match ← next? with
  | some (.tag t) =>
    advance
    some <$> wholeTag t
  | _ => return none

/-- The anchor and the tag before a value, in either order. -/
private def properties : Parse (Option Nat × Option String) := do
  let before ← anchor?
  let tag ← tag?
  let anchor ← if before.isSome then pure before else anchor?
  return (anchor, tag)

/-- The kind that a tag names. -/
def tagOf (name : String) : Tag :=
  if name == "tag:yaml.org,2002:null" then .null
  else if name == "tag:yaml.org,2002:bool" then .bool
  else if name == "tag:yaml.org,2002:int" then .int
  else .other

/-- The value of a scalar. A quoted one is a text whatever its tag. -/
def scalarValue (text : String) : Style → Option String → Value
  | .plain, none => .plain text
  | .plain, some tag => .tagged (tagOf tag) text
  | .literal, some tag => .taggedBlock (tagOf tag) text
  | _, _ => .text text

/-- A value that is left out. -/
def absent : Node := .scalar (.plain "")

/-! ### Values -/

mutual

/-- Read a value: `inBlock` tells whether it may be a block collection, `dashes` whether it may be a
list whose dashes are not indented. After an anchor or a tag it may be left out. Before a scalar a
tag that is a lone mark says nothing. -/
def value (inBlock dashes : Bool) : Nat → Parse Node
  | 0 => throw .tooDeep
  | fuel + 1 => do
    if let some (.reference name) ← next? then
      advance
      return ← named name
    let (anchor, tag) ← properties
    let n ← match ← next? with
      | some (.scalar text style) => do
        advance
        pure (.scalar (scalarValue text style (tag.filter (· != "!"))))
      | some .listStart => do
        advance
        .list <$> bracketedList true fuel
      | some .recordStart => do
        advance
        .record <$> bracketedRecord true fuel
      | t =>
        if dashes && t == some .element then .list <$> dashedList fuel
        else if inBlock && t == some .blockListStart then do
          advance
          .list <$> blockList fuel
        else if inBlock && t == some .blockRecordStart then do
          advance
          .record <$> blockRecord fuel
        else if anchor.isSome || tag.isSome then pure (.scalar (scalarValue "" .plain tag))
        else throw (.expected "a value")
    return match anchor with
      | some number => .anchored number n
      | none => n

/-- Read a value, or nothing if one of some tokens follows. -/
def valueUnless (ts : List Token) (inBlock dashes : Bool) : Nat → Parse Node
  | 0 => throw .tooDeep
  | fuel + 1 => do
    if ← nextIn ts then return absent
    value inBlock dashes fuel

/-- Read the elements of a block list. -/
def blockList : Nat → Parse (List Node)
  | 0 => throw .tooDeep
  | fuel + 1 => do
    match ← next? with
    | some .element =>
      advance
      let v ← valueUnless [.element, .blockEnd] true false fuel
      return v :: (← blockList fuel)
    | some .blockEnd =>
      advance
      return []
    | _ => throw (.expected "a dash")

/-- Read the elements of a list whose dashes are not indented. -/
def dashedList : Nat → Parse (List Node)
  | 0 => throw .tooDeep
  | fuel + 1 => do
    match ← next? with
    | some .element =>
      advance
      let v ← valueUnless [.element, .key, .value, .blockEnd] true false fuel
      return v :: (← dashedList fuel)
    | _ => return []

/-- Read the fields of a block record. -/
def blockRecord : Nat → Parse (List (Node × Node))
  | 0 => throw .tooDeep
  | fuel + 1 => do
    match ← next? with
    | some .key =>
      advance
      let k ← valueUnless [.key, .value, .blockEnd] true true fuel
      let v ← fieldValue [.key, .value, .blockEnd] true fuel
      return (k, v) :: (← blockRecord fuel)
    | some .blockEnd =>
      advance
      return []
    | _ => throw (.expected "a key")

/-- Read the value of a field after its key, or nothing if there is no colon. -/
def fieldValue (ends : List Token) (inBlock : Bool) : Nat → Parse Node
  | 0 => throw .tooDeep
  | fuel + 1 => do
    if (← next?) != some .value then return absent
    advance
    valueUnless ends inBlock inBlock fuel

/-- Read the elements of a list in brackets. A key begins a record of one field. A mark that stands
in the place of the key is skipped, and the key is left out. -/
def bracketedList (first : Bool) : Nat → Parse (List Node)
  | 0 => throw .tooDeep
  | fuel + 1 => do
    if (← next?) == some .listEnd then
      advance
      return []
    if !first then
      if (← next?) != some .comma then throw (.expected "a comma or a closing bracket")
      advance
    match ← next? with
    | some .listEnd =>
      advance
      return []
    | some .key =>
      advance
      let ends := [.comma, .listEnd]
      let k ←
        if ← nextIn (.value :: ends) then
          advance
          pure absent
        else value false false fuel
      let v ← fieldValue ends false fuel
      return .record [(k, v)] :: (← bracketedList false fuel)
    | _ =>
      let v ← value false false fuel
      return v :: (← bracketedList false fuel)

/-- Read the fields of a record in brackets. -/
def bracketedRecord (first : Bool) : Nat → Parse (List (Node × Node))
  | 0 => throw .tooDeep
  | fuel + 1 => do
    if (← next?) == some .recordEnd then
      advance
      return []
    if !first then
      if (← next?) != some .comma then throw (.expected "a comma or a closing brace")
      advance
    match ← next? with
    | some .recordEnd =>
      advance
      return []
    | some .key =>
      advance
      let ends := [.comma, .recordEnd]
      let k ← valueUnless (.value :: ends) false false fuel
      let v ← fieldValue ends false fuel
      return (k, v) :: (← bracketedRecord false fuel)
    | _ =>
      let k ← value false false fuel
      return (k, absent) :: (← bracketedRecord false fuel)

end

/-! ### Documents -/

/-- The directive that a token is. -/
def directive? : Token → Option Directive
  | .directive d => some d
  | _ => none

/-- The version that a directive tells. -/
def version? : Directive → Option (Nat × Nat)
  | .version major minor => some (major, minor)
  | .handle _ _ => none

/-- The handle that a directive explains, and what it stands for. -/
def handle? : Directive → Option (String × String)
  | .handle name start => some (name, start)
  | .version _ _ => none

/-- The handles that need no directive. -/
def commonHandles : List (String × String) := [("!", "!"), ("!!", "tag:yaml.org,2002:")]

/-- What handles stand for after some directives. Nothing may be told twice. -/
def handlesAfter (ds : List Directive) : Except SyntaxError (List (String × String)) := do
  let versions := ds.filterMap version?
  let handles := ds.filterMap handle?
  if 1 < versions.length || handles.any fun h => 1 < handles.countP fun g => g.1 == h.1 then
    throw .repeatedDirective
  if !versions.all [(1, 1), (1, 2)].contains then throw (.unsupported "version of the format")
  return handles ++ commonHandles

/-- Read the directives before a document. The answer tells whether there were any. -/
private def directives : Parse Bool := do
  let s ← get
  let ds := (s.tokens.takeWhile fun t => (directive? t).isSome).filterMap directive?
  let handles ← handlesAfter ds
  set { s with tokens := s.tokens.drop ds.length, handles }
  return !ds.isEmpty

/-- Read a text that holds at most one document. An empty text holds nothing. -/
def document (fuel : Nat) : Parse Node := do
  let told ← directives
  let n ← match ← next? with
    | some .documentStart => do
      advance
      if (← next?).isNone then pure absent
      else valueUnless [.documentStart, .documentEnd] true false fuel
    | t => do
      if told then throw (.expected "the start of the document")
      if t.isNone then pure absent else value true false fuel
  modify fun s => { s with tokens := s.tokens.dropWhile (· == .documentEnd) }
  match ← next? with
  | none => return n
  | some .documentStart => throw .severalDocuments
  | some _ => throw (.expected "the end of the document")

end Parse

/-- The value that a text holds. -/
def read (text : String) : Except SyntaxError Value := do
  let ts ← tokens text
  let (n, _) ← (Parse.document (2 * ts.length + 2)).run ⟨ts, [], []⟩
  return n.resolve

end JoinAssembly.Yaml
