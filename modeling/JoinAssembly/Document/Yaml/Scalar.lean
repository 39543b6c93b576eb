import JoinAssembly.Document.Yaml.Source
import JoinAssembly.Text.Quoted

/-!
# Scalars

The styles of scalars: plain, in single or double quotes, and blocks of lines, literal or folded.
-/

namespace JoinAssembly.Yaml

/-- How a scalar is written, as far as it matters to what it may stand for. -/
inductive Style where
  | plain
  /-- A block of lines whose line breaks are kept. -/
  | literal
  /-- In quotes, or a block of lines whose line breaks are folded. -/
  | quoted
deriving DecidableEq

/-! ### Plain scalars -/

/-- The characters that end a plain scalar inside brackets. -/
def isFlowMark (c : Char) : Bool := [',', '[', ']', '{', '}'].contains c

/-- The next word of a plain scalar. Inside brackets a colon must not stand before a mark. -/
def plainWord (inBrackets : Bool) : List Char → Except SyntaxError (List Char)
  | [] => .ok []
  | c :: rest =>
    if endsWord (some c) then .ok []
    else if inBrackets && c == ':' && rest.head?.any fun d => d == '?' || isFlowMark d then
      .error (.expected "a blank after a colon")
    else if (c == ':' && endsWord rest.head?) || (inBrackets && isFlowMark c) then .ok []
    else do
      let word ← plainWord inBrackets rest
      return c :: word

/-- Read the words of a plain scalar. The answer tells whether line breaks follow it. -/
def plainWords (inBrackets : Bool) (margin : Nat) :
    Nat → Source → Gap → String → Except SyntaxError (Source × String × Bool)
  | 0, s, gap, text => .ok (s, text, gap.broken)
  | fuel + 1, s, gap, text =>
    if s.atDocumentMark || s.peek 0 == some '#' then .ok (s, text, gap.broken)
    else do
      let word ← plainWord inBrackets s.rest
      if word.isEmpty then return (s, text, gap.broken)
      let text := text ++ gap.text ++ String.ofList word
      let s := s.skip word.length
      if !endsWord (s.peek 0) then return (s, text, false)
      let (s, gap) ← readGap margin s.rest.length s .empty
      if !inBrackets && s.column < margin then return (s, text, gap.broken)
      plainWords inBrackets margin fuel s gap text

def readPlain (inBrackets : Bool) (margin : Nat) (s : Source) :
    Except SyntaxError (Source × String × Bool) :=
  plainWords inBrackets margin s.rest.length s .empty ""

/-! ### Quoted scalars -/

/-- The characters that a letter after a backslash stands for. -/
def escapes : List (Char × Nat) := [
  ('0', 0x00), ('a', 0x07), ('b', 0x08), ('t', 0x09), ('\t', 0x09), ('n', 0x0a), ('v', 0x0b),
  ('f', 0x0c), ('r', 0x0d), ('e', 0x1b), (' ', 0x20), ('"', 0x22), ('/', 0x2f), ('\\', 0x5c),
  ('N', 0x85), ('_', 0xa0), ('L', 0x2028), ('P', 0x2029)]

/-- The number of hexadecimal digits that follow a letter after a backslash. -/
def escapeDigits : Char → Option Nat
  | 'x' => some 2
  | 'u' => some 4
  | 'U' => some 8
  | _ => none

/-- The character of an escape sequence and the number of characters after the backslash. -/
def readEscape : List Char → Except SyntaxError (Char × Nat)
  | [] => .error .badEscape
  | c :: rest =>
    match escapes.lookup c, escapeDigits c with
    | some n, _ => .ok (Char.ofNat n, 1)
    | none, none => .error .badEscape
    | none, some digits =>
      match Text.characterOfHex? (rest.take digits) with
      | some d => if digits ≤ rest.length then .ok (d, digits + 1) else .error .badEscape
      | none => .error .badEscape

/-- Read a word inside quotes. The answer tells whether an escaped line break ended it. -/
def quotedWord (quote : Char) :
    Nat → Source → String → Except SyntaxError (Source × String × Bool)
  | 0, s, text => .ok (s, text, false)
  | fuel + 1, s, text =>
    match s.rest with
    | [] => .ok (s, text, false)
    | c :: rest =>
      if endsWord (some c) then .ok (s, text, false)
      else if c == quote then
        if quote == '\'' && rest.head? == some '\'' then
          quotedWord quote fuel (s.skip 2) (text.push '\'')
        else .ok (s, text, false)
      else if quote == '"' && c == '\\' then
        if rest.head?.any isBreak then .ok ((s.skip 1).skipBreak, text, true)
        else do
          let (d, n) ← readEscape rest
          quotedWord quote fuel (s.skip (n + 1)) (text.push d)
      else quotedWord quote fuel (s.skip 1) (text.push c)

/-- Read the words inside quotes up to the closing quote. -/
def quotedWords (quote : Char) :
    Nat → Source → String → Except SyntaxError (Source × String)
  | 0, _, _ => .error (.unterminated "a quoted scalar")
  | fuel + 1, s, text => do
    if s.atDocumentMark || s.rest.isEmpty then throw (.unterminated "a quoted scalar")
    let (s, text, escaped) ← quotedWord quote (s.rest.length + 1) s text
    if s.peek 0 == some quote then return (s.skip 1, text)
    let (s, gap) ← readGap 0 s.rest.length s (if escaped then .afterEscapedBreak else .empty)
    quotedWords quote fuel s (text ++ gap.text)

/-- Read a quoted scalar from its opening quote. -/
def readQuoted (quote : Char) (s : Source) : Except SyntaxError (Source × String) :=
  quotedWords quote (s.rest.length + 1) (s.skip 1) ""

/-! ### Blocks of lines -/

/-- What happens to the line breaks at the end of a block. -/
inductive Chomping where
  | strip
  | clip
  | keep
deriving DecidableEq

private def chomping? : Option Char → Option Chomping
  | some '-' => some .strip
  | some '+' => some .keep
  | _ => none

private def indentDigit? (c : Option Char) : Option Nat :=
  c.bind fun c => if '1' ≤ c ∧ c ≤ '9' then some (c.toNat - '0'.toNat) else none

/-- The signs after a block's mark: how it ends and how far it is indented, in either order. -/
def readBlockSigns (s : Source) : Source × Chomping × Option Nat :=
  match chomping? (s.peek 0), indentDigit? (s.peek 0) with
  | some chomping, _ =>
    match indentDigit? (s.peek 1) with
    | some n => (s.skip 2, chomping, some n)
    | none => (s.skip 1, chomping, none)
  | none, some n =>
    match chomping? (s.peek 1) with
    | some chomping => (s.skip 2, chomping, some n)
    | none => (s.skip 1, .clip, some n)
  | none, none => (s, .clip, none)

/-- Skip the indentation and the empty lines before a line of a block. The answer holds the line
breaks and the largest indentation met. -/
def skipBlockBreaks (indent : Option Nat) :
    Nat → Source → String → Nat → Except SyntaxError (Source × String × Nat)
  | 0, s, breaks, widest => .ok (s, breaks, widest)
  | fuel + 1, s, breaks, widest =>
    let inside := indent.all fun n => s.column < n
    match s.rest with
    | ' ' :: _ =>
      if inside then skipBlockBreaks indent fuel (s.skip 1) breaks (max widest (s.column + 1))
      else .ok (s, breaks, widest)
    | c :: _ =>
      if inside && c == '\t' then .error .badIndentation
      else if isBreak c then
        skipBlockBreaks indent fuel s.skipBreak (breaks ++ s.breakText) widest
      else .ok (s, breaks, widest)
    | [] => .ok (s, breaks, widest)

/-- A block in the making: its text, the line break after it, the empty lines after that, and
whether the last line began with a blank. -/
structure BlockText where
  text : String
  lastBreak : String
  breaks : String
  blankStart : Bool

/-- Read the lines of a block. -/
def readBlockLines (literal : Bool) (indent : Nat) :
    Nat → Source → BlockText → Except SyntaxError (Source × BlockText)
  | 0, s, b => .ok (s, b)
  | fuel + 1, s, b =>
    if s.column ≠ indent || s.rest.isEmpty then .ok (s, b)
    else do
      let blankStart := (s.peek 0).any isBlank
      let joined :=
        if !literal && b.lastBreak == "\n" && !b.blankStart && !blankStart then
          (if b.breaks.isEmpty then " " else "")
        else b.lastBreak
      let line := s.rest.takeWhile fun c => !isBreak c
      let s := s.skip line.length
      let text := b.text ++ joined ++ b.breaks ++ String.ofList line
      let lastBreak := s.breakText
      let s := s.skipBreak
      let (s, breaks, _) ← skipBlockBreaks (some indent) (s.rest.length + 1) s "" 0
      readBlockLines literal indent fuel s ⟨text, lastBreak, breaks, blankStart⟩

/-- Read a block of lines from its mark; a literal block keeps its line breaks. -/
def readBlock (literal : Bool) (margin : Nat) (s : Source) :
    Except SyntaxError (Source × String) := do
  let (s, chomping, increment) := readBlockSigns (s.skip 1)
  let s := s.skip (s.rest.takeWhile isBlank).length
  let s := if s.peek 0 == some '#' then s.skipLine else s
  if !(s.peek 0).all isBreak then throw (.expected "a line break after the signs of a block")
  let s := s.skipBreak
  let given := increment.map fun n => margin - 1 + n
  let (s, breaks, widest) ← skipBlockBreaks given (s.rest.length + 1) s "" 0
  let indent := given.getD (max widest (max margin 1))
  let (s, b) ← readBlockLines literal indent (s.rest.length + 1) s ⟨"", "", breaks, false⟩
  match chomping with
  | .strip => return (s, b.text)
  | .clip => return (s, b.text ++ b.lastBreak)
  | .keep => return (s, b.text ++ b.lastBreak ++ b.breaks)

end JoinAssembly.Yaml
