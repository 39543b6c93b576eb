import JoinAssembly.Document.Yaml.Property
import JoinAssembly.Document.Yaml.Scalar

/-!
# Tokens

A YAML text is a row of tokens. Where block collections begin and end is told by indentation alone,
so the tokens for it are put in while reading. That a scalar or a bracketed collection is the key of
a record is known only when the colon after it is met; the tokens for it are put in before it then.
-/

namespace JoinAssembly.Yaml

inductive Token where
  | directive (d : Directive)
  | documentStart
  | documentEnd
  | blockListStart
  | blockRecordStart
  | blockEnd
  | listStart
  | listEnd
  | recordStart
  | recordEnd
  /-- The dash before an element of a block list. -/
  | element
  /-- The comma inside brackets. -/
  | comma
  | key
  | value
  | scalar (text : String) (style : Style)
  /-- The name that the next value is given. -/
  | anchor (name : String)
  /-- The name of a value that is used again. -/
  | reference (name : String)
  | tag (name : TagName)
deriving DecidableEq

/-- A place where the key of a record may have begun. -/
structure PossibleKey where
  /-- Whether only a key can stand there. -/
  required : Bool
  /-- The number of tokens before it. -/
  place : Nat
  /-- The number of bytes before it. -/
  index : Nat
  line : Nat
  column : Nat

/-- The state of reading tokens. -/
structure Scanner where
  source : Source
  /-- The number of open brackets. -/
  depth : Nat
  /-- One more than the column of the innermost block collection, nought if there is none. -/
  margin : Nat
  /-- The margins of the enclosing block collections, the innermost first. -/
  outer : List Nat
  /-- Whether the key of a record may begin here. -/
  keyAllowed : Bool
  /-- Inside every open bracket and outside of all, the innermost first, where a key may have
  begun. -/
  keys : List (Option PossibleKey)
  tokens : List Token

abbrev Scan := StateT Scanner (Except SyntaxError)

namespace Scan

def start (text : String) : Scanner := ⟨.ofString text, 0, 0, [], true, [none], []⟩

def emit (t : Token) : Scan Unit := modify fun s => { s with tokens := s.tokens ++ [t] }

def insertAt (place : Nat) (t : Token) : Scan Unit :=
  modify fun s => { s with tokens := s.tokens.insertIdx place t }

def skip (n : Nat) : Scan Unit := modify fun s => { s with source := s.source.skip n }

def allowKey (allowed : Bool) : Scan Unit := modify fun s => { s with keyAllowed := allowed }

/-! ### Keys -/

private def setKey (k : Option PossibleKey) : Scan Unit :=
  modify fun s => { s with keys := k :: s.keys.drop 1 }

private def possibleKey? : Scan (Option PossibleKey) := return (← get).keys.head?.join

/-- Whatever began here last was no key. -/
def dropKey : Scan Unit := do
  if (← possibleKey?).any (·.required) then throw (.expected "a colon")
  setKey none

/-- A key may begin here. -/
def saveKey : Scan Unit := do
  let s ← get
  if s.keyAllowed then
    dropKey
    let required := s.depth == 0 && s.margin == s.source.column + 1
    setKey (some ⟨required, s.tokens.length, s.source.index, s.source.line, s.source.column⟩)

/-- A key must end on the line where it began, and take at most 1024 bytes. -/
def dropStaleKeys : Scan Unit := do
  let s ← get
  let isStale (k : PossibleKey) : Bool :=
    k.line < s.source.line || k.index + 1024 < s.source.index
  if s.keys.any fun k => k.any fun k => isStale k && k.required then throw (.expected "a colon")
  set { s with keys := s.keys.map (Option.filter fun k => !isStale k) }

/-! ### Block collections -/

/-- Begin a block collection at a column, unless one is open there or a bracket is. Its token goes
to a given place. -/
def openBlock (column place : Nat) (t : Token) : Scan Unit := do
  let s ← get
  if s.depth == 0 && s.margin ≤ column then
    set { s with margin := column + 1, outer := s.margin :: s.outer }
    insertAt place t

/-- End the block collections right of a margin. -/
def closeBlocks (margin : Nat) : Scan Unit :=
  modify fun s =>
    if s.depth != 0 then s
    else
      let margins := s.margin :: s.outer
      let ended := margins.takeWhile (margin < ·)
      let rest := margins.drop ended.length
      { s with
        margin := rest.headD 0
        outer := rest.drop 1
        tokens := s.tokens ++ ended.map fun _ => .blockEnd }

/-! ### Single tokens -/

private def documentMark (t : Token) : Scan Unit := do
  closeBlocks 0
  dropKey
  allowKey false
  skip 3
  emit t

private def directive : Scan Unit := do
  closeBlocks 0
  dropKey
  allowKey false
  let s ← get
  let (source, d) ← readDirective s.source
  set { s with source }
  emit (.directive d)

private def openBracket (t : Token) : Scan Unit := do
  saveKey
  modify fun s => { s with depth := s.depth + 1, keys := none :: s.keys }
  allowKey true
  skip 1
  emit t

private def closeBracket (t : Token) : Scan Unit := do
  dropKey
  modify fun s =>
    if s.depth == 0 then s else { s with depth := s.depth - 1, keys := s.keys.drop 1 }
  allowKey false
  skip 1
  emit t

private def comma : Scan Unit := do
  dropKey
  allowKey true
  skip 1
  emit .comma

private def element : Scan Unit := do
  let s ← get
  if s.depth == 0 then
    if !s.keyAllowed then throw (.expected "no element of a block list")
    openBlock s.source.column s.tokens.length .blockListStart
  dropKey
  allowKey true
  skip 1
  emit .element

private def explicitKey : Scan Unit := do
  let s ← get
  if s.depth == 0 then
    if !s.keyAllowed then throw (.expected "no key of a record")
    openBlock s.source.column s.tokens.length .blockRecordStart
  dropKey
  allowKey (s.depth == 0)
  skip 1
  emit .key

private def colon : Scan Unit := do
  let s ← get
  match ← possibleKey? with
  | some k =>
    insertAt k.place .key
    openBlock k.column k.place .blockRecordStart
    setKey none
    allowKey false
  | none =>
    if s.depth == 0 then
      if !s.keyAllowed then throw (.expected "no value of a record")
      openBlock s.source.column s.tokens.length .blockRecordStart
    allowKey (s.depth == 0)
  skip 1
  emit .value

private def nameToken (token : String → Token) : Scan Unit := do
  saveKey
  allowKey false
  let s ← get
  let (source, name) ← readName s.source
  set { s with source }
  emit (token name)

private def tag : Scan Unit := do
  saveKey
  allowKey false
  let s ← get
  let (source, name) ← readTag s.source
  let next := source.peek 0
  if !endsWord next && (s.depth == 0 || next != some ',') then
    throw (.expected "a blank after a tag")
  set { s with source }
  emit (.tag name)

private def block (literal : Bool) : Scan Unit := do
  dropKey
  allowKey true
  let s ← get
  let (source, text) ← readBlock literal s.margin s.source
  set { s with source }
  emit (.scalar text (if literal then .literal else .quoted))

private def quotedScalar (quote : Char) : Scan Unit := do
  saveKey
  allowKey false
  let s ← get
  let (source, text) ← readQuoted quote s.source
  set { s with source }
  emit (.scalar text .quoted)

private def plainScalar : Scan Unit := do
  saveKey
  allowKey false
  let s ← get
  let (source, text, broken) ← readPlain (s.depth != 0) s.margin s.source
  set { s with source, keyAllowed := broken }
  emit (.scalar text .plain)

/-! ### All tokens -/

/-- Skip blanks, comments and line breaks. Tabs do not count as blanks where a key may begin. A byte
order mark before a line is skipped too, and keeps its place in the line. -/
def skipToToken : Nat → Scan Unit
  | 0 => pure ()
  | fuel + 1 => do
    let s ← get
    match s.source.rest with
    | [] => pure ()
    | c :: _ =>
      if c == ' ' || (c == '\t' && (s.depth != 0 || !s.keyAllowed))
          || (isByteOrderMark c && s.source.column == 0) then
        skip 1
        skipToToken fuel
      else if c == '#' then
        set { s with source := s.source.skipLine }
        skipToToken fuel
      else if isBreak c then
        set { s with source := s.source.skipBreak, keyAllowed := s.keyAllowed || s.depth == 0 }
        skipToToken fuel
      else pure ()

/-- The characters that no plain scalar begins with. -/
def isIndicator (c : Char) : Bool :=
  ['-', '?', ':', ',', '[', ']', '{', '}', '#', '&', '*', '!', '|', '>', '\'', '"', '%', '@',
    '\x60'].contains c

/-- Read the token that begins with a character. -/
def readToken (c : Char) : Scan Unit := do
  let s ← get
  let inBrackets := s.depth != 0
  let next := s.source.peek 1
  if s.source.atDocumentMark then
    documentMark (if c == '-' then .documentStart else .documentEnd)
  else if s.source.column == 0 && c == '%' then directive
  else if c == '[' then openBracket .listStart
  else if c == '{' then openBracket .recordStart
  else if c == ']' then closeBracket .listEnd
  else if c == '}' then closeBracket .recordEnd
  else if c == ',' then comma
  else if c == '-' && endsWord next then element
  else if c == '?' && (inBrackets || endsWord next) then explicitKey
  else if c == ':' && (inBrackets || endsWord next) then colon
  else if c == '*' then nameToken .reference
  else if c == '&' then nameToken .anchor
  else if c == '!' then tag
  else if c == '|' && !inBrackets then block true
  else if c == '>' && !inBrackets then block false
  else if c == '\'' || c == '"' then quotedScalar c
  else if !isIndicator c && !isBlank c || c == '-' || (!inBrackets && (c == '?' || c == ':')) then
    plainScalar
  else throw (.forbiddenCharacter c)

/-- Read the tokens up to the end of the text. -/
def readTokens : Nat → Scan Unit
  | 0 => pure ()
  | fuel + 1 => do
    skipToToken ((← get).source.rest.length + 1)
    dropStaleKeys
    closeBlocks ((← get).source.column + 1)
    match (← get).source.rest with
    | [] =>
      closeBlocks 0
      dropKey
    | c :: _ =>
      readToken c
      readTokens fuel

end Scan

/-- The tokens of a text. -/
def tokens (text : String) : Except SyntaxError (List Token) := do
  let start := Scan.start text
  match start.source.rest.find? fun c => !isAllowed c with
  | some c => throw (.forbiddenCharacter c)
  | none =>
    let (_, s) ← (Scan.readTokens (start.source.rest.length + 1)).run start
    return s.tokens

end JoinAssembly.Yaml
