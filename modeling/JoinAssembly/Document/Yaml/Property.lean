import JoinAssembly.Document.Yaml.Source
import JoinAssembly.Text.Quoted

/-!
# Names, tags and directives

What may be said of a value before it is written: a name under which it can be used again, and a
tag. A tag is written with a handle, which stands for its beginning; lines before the document, the
directives, tell what handles stand for.
-/

namespace JoinAssembly.Yaml

/-- A tag as it is written. The handle is empty if the whole tag is written. -/
structure TagName where
  handle : String
  rest : String
deriving DecidableEq

/-- What a line before a document tells. -/
inductive Directive where
  | version (major minor : Nat)
  /-- The beginning of a tag that a handle stands for. -/
  | handle (name start : String)
deriving DecidableEq

/-! ### Names -/

/-- The characters of names and of handles. -/
def isNameChar (c : Char) : Bool := c.isAlphanum || c == '-' || c == '_'

/-- The marks that may stand right after a name. -/
def isNameEnd (c : Char) : Bool := ['?', ':', ',', ']', '}', '%', '@', '\x60'].contains c

/-- Read characters as long as they are of a kind. -/
def Source.readWhile (p : Char → Bool) (s : Source) : Source × String :=
  let word := s.rest.takeWhile p
  (s.skip word.length, String.ofList word)

/-- Read a name from the mark before it. -/
def readName (s : Source) : Except SyntaxError (Source × String) :=
  let (s, name) := (s.skip 1).readWhile isNameChar
  if name.isEmpty then .error (.expected "a name")
  else if endsWord (s.peek 0) || (s.peek 0).any isNameEnd then .ok (s, name)
  else .error (.expected "the end of a name")

/-! ### Tags -/

/-- The characters of a tag that are written as they are. Commas and brackets belong to a tag only
where they cannot be taken for marks. -/
def isTagChar (marks : Bool) (c : Char) : Bool :=
  isNameChar c || [';', '/', '?', ':', '@', '&', '=', '+', '$', '.', '!', '~', '*', '\'', '(',
    ')'].contains c || (marks && [',', '[', ']'].contains c)

/-- The number of octets after the first octet of a character. -/
def octetsAfter? (octet : Nat) : Option Nat :=
  if octet < 0x80 then some 0
  else if octet < 0xc0 then none
  else if octet < 0xe0 then some 1
  else if octet < 0xf0 then some 2
  else if octet < 0xf8 then some 3
  else none

/-- The number of octets that a character still lacks after an octet, of which it lacked some before
it. -/
def lackAfter? (lack octet : Nat) : Option Nat :=
  match lack with
  | 0 => octetsAfter? octet
  | lack + 1 => if 0x80 ≤ octet ∧ octet < 0xc0 then some lack else none

/-- The octets of a part of a tag, and the number of characters it is written with. An octet may be
written as a percent sign and two digits; `lack` octets are to follow so. -/
def tagOctets (marks : Bool) (lack : Nat) : List Char → Except SyntaxError (List Char × Nat)
  | '%' :: a :: b :: rest =>
    match (Text.numeral? 16 [a, b]).bind fun n => (lackAfter? lack n).map (n, ·) with
    | none => .error .badEscape
    | some (octet, lack) => do
      let (octets, n) ← tagOctets marks lack rest
      return (Char.ofNat octet :: octets, n + 3)
  | c :: rest =>
    if lack ≠ 0 || c == '%' then .error .badEscape
    else if isTagChar marks c then do
      let (octets, n) ← tagOctets marks 0 rest
      return (c :: octets, n + 1)
    else .ok ([], 0)
  | [] => if lack = 0 then .ok ([], 0) else .error .badEscape

/-- What is left of a text at the first octet that is nought. -/
def untilNought (text : List Char) : String := String.ofList (text.takeWhile (·.toNat != 0))

/-- Read a part of a tag. -/
def readTagPart (marks : Bool) (s : Source) : Except SyntaxError (Source × List Char) := do
  let (octets, n) ← tagOctets marks 0 s.rest
  return (s.skip n, octets)

/-- Read a part of a tag that must not be empty. -/
def readTagText (marks : Bool) (s : Source) : Except SyntaxError (Source × String) := do
  let (s, octets) ← readTagPart marks s
  if octets.isEmpty then throw (.expected "a tag")
  return (s, untilNought octets)

/-- Read the characters of a handle: a name between exclamation marks, of which the last may be
missing. -/
def readHandle (s : Source) : Source × String :=
  let (s, name) := (s.skip 1).readWhile isNameChar
  if s.peek 0 == some '!' then (s.skip 1, "!" ++ name ++ "!") else (s, "!" ++ name)

/-- Whether the last exclamation mark of a handle is there and is not the first one. -/
def isClosedHandle (handle : String) : Bool := 2 ≤ handle.length && handle.endsWith "!"

/-- Read a tag from its exclamation mark: in angle brackets, or after a handle. A lone mark is a tag
of its own. -/
def readTag (s : Source) : Except SyntaxError (Source × TagName) := do
  if s.peek 1 == some '<' then
    let (s, rest) ← readTagText true (s.skip 2)
    if s.peek 0 != some '>' then throw (.unterminated "a tag")
    return (s.skip 1, ⟨"", rest⟩)
  let (s, handle) := readHandle s
  if isClosedHandle handle then
    let (s, rest) ← readTagText false s
    return (s, ⟨handle, rest⟩)
  let (s, octets) ← readTagPart false s
  let rest := untilNought (handle.toList.drop 1 ++ octets)
  return (s, if rest.isEmpty then ⟨"", "!"⟩ else ⟨"!", rest⟩)

/-! ### Directives -/

/-- Skip the blanks of a line. -/
def Source.skipBlanks (s : Source) : Source := s.skip (s.rest.takeWhile isBlank).length

/-- Read a number of at most nine digits. -/
def readVersionNumber (s : Source) : Except SyntaxError (Source × Nat) :=
  let (s, digits) := s.readWhile Char.isDigit
  match Text.numeral? 10 digits.toList with
  | some n => if digits.length ≤ 9 then .ok (s, n) else .error (.badNumber digits)
  | none => .error (.badNumber digits)

/-- Read the two numbers of a version. -/
def readVersion (s : Source) : Except SyntaxError (Source × Directive) := do
  let (s, major) ← readVersionNumber s
  if s.peek 0 != some '.' then throw (.expected "a point")
  let (s, minor) ← readVersionNumber (s.skip 1)
  return (s, .version major minor)

/-- Read a handle and the beginning of a tag. -/
def readHandleMeaning (s : Source) : Except SyntaxError (Source × Directive) := do
  if s.peek 0 != some '!' then throw (.expected "an exclamation mark")
  let (s, handle) := readHandle s
  if handle != "!" && !isClosedHandle handle then throw (.expected "an exclamation mark")
  if !(s.peek 0).any isBlank then throw (.expected "a blank after a handle")
  let (s, start) ← readTagText true s.skipBlanks
  if !endsWord (s.peek 0) then throw (.expected "a blank after a tag")
  return (s, .handle handle start)

/-- Read a directive and the rest of its line, on which a comment may stand. -/
def readDirective (s : Source) : Except SyntaxError (Source × Directive) := do
  let (s, name) := (s.skip 1).readWhile isNameChar
  if !endsWord (s.peek 0) then throw (.expected "a blank after the name of a directive")
  let (s, d) ←
    if name == "YAML" then readVersion s.skipBlanks
    else if name == "TAG" then readHandleMeaning s.skipBlanks
    else .error (.unsupported s!"directive '{name}'")
  let s := s.skipBlanks
  let s := if s.peek 0 == some '#' then s.skipLine else s
  if !(s.peek 0).all isBreak then throw (.expected "a line break after a directive")
  return (s.skipBreak, d)

end JoinAssembly.Yaml
