import JoinAssembly.Document.Value

/-!
# Texts under the eye of a YAML reader

A text that is read from the left, with the line and column reached, and the gaps of blanks and line
breaks between the words of a scalar.
-/

namespace JoinAssembly.Yaml

def isBlank (c : Char) : Bool := c == ' ' || c == '\t'

/-- The characters that end a line. -/
def isBreak (c : Char) : Bool :=
  c == '\n' || c == '\r' || c.toNat == 0x85 || c.toNat == 0x2028 || c.toNat == 0x2029

/-- Whether a word ends before a character, or at the end of the text. -/
def endsWord : Option Char → Bool
  | none => true
  | some c => isBlank c || isBreak c

/-- Whether a character may occur in a text. -/
def isAllowed (c : Char) : Bool :=
  let n := c.toNat
  n == 0x09 || n == 0x0a || n == 0x0d || (0x20 ≤ n && n ≤ 0x7e) || n == 0x85 ||
    (0xa0 ≤ n && n ≤ 0xfffd) || 0x10000 ≤ n

def isByteOrderMark (c : Char) : Bool := c.toNat == 0xfeff

/-- What is left of a text, and where it begins. -/
structure Source where
  rest : List Char
  /-- The number of bytes before it. -/
  index : Nat
  line : Nat
  column : Nat

namespace Source

/-- A whole text. -/
def ofString (text : String) : Source := ⟨text.toList, 0, 0, 0⟩

def peek (s : Source) (n : Nat) : Option Char := s.rest[n]?

/-- Skip characters of a line. -/
def skip (s : Source) (n : Nat) : Source :=
  ⟨s.rest.drop n, (s.rest.take n).foldl (fun i c => i + c.utf8Size) s.index, s.line, s.column + n⟩

/-- Skip a line break. -/
def skipBreak (s : Source) : Source :=
  match s.rest with
  | '\r' :: '\n' :: rest => ⟨rest, s.index + 2, s.line + 1, 0⟩
  | c :: rest => ⟨rest, s.index + c.utf8Size, s.line + 1, 0⟩
  | [] => s

/-- The text that a line break stands for. -/
def breakText (s : Source) : String :=
  match s.rest with
  | c :: _ => if c.toNat == 0x2028 || c.toNat == 0x2029 then c.toString else "\n"
  | [] => ""

/-- Whether a line begins here that starts or ends a document. -/
def atDocumentMark (s : Source) : Bool :=
  s.column == 0 && endsWord (s.peek 3) &&
    (s.rest.take 3 == ['-', '-', '-'] || s.rest.take 3 == ['.', '.', '.'])

/-- Skip what is left of a line. -/
def skipLine (s : Source) : Source :=
  s.skip (s.rest.takeWhile fun c => !isBreak c).length

end Source

/-! ### Gaps -/

/-- What stands between two words of a scalar. -/
structure Gap where
  /-- The blanks before the first line break. -/
  blanks : String
  /-- The first line break, if it counts. -/
  firstBreak : String
  /-- The line breaks after the first. -/
  breaks : String
  /-- Whether there was a line break. -/
  broken : Bool

namespace Gap

def empty : Gap := ⟨"", "", "", false⟩

/-- A gap that begins with a line break that does not count. -/
def afterEscapedBreak : Gap := ⟨"", "", "", true⟩

def addBreak (g : Gap) (text : String) : Gap :=
  if g.broken then { g with breaks := g.breaks ++ text }
  else ⟨"", text, "", true⟩

/-- Line breaks fold: one becomes a blank, of several the first is dropped. -/
def fold (firstBreak breaks : String) : String :=
  if firstBreak == "\n" then (if breaks.isEmpty then " " else breaks) else firstBreak ++ breaks

/-- The text that a gap leaves in a scalar. -/
def text (g : Gap) : String := if g.broken then fold g.firstBreak g.breaks else g.blanks

end Gap

/-- Read on to the next word. Left of the margin a line must not be indented by tabs. -/
def readGap (margin : Nat) : Nat → Source → Gap → Except SyntaxError (Source × Gap)
  | 0, s, g => .ok (s, g)
  | fuel + 1, s, g =>
    match s.rest with
    | [] => .ok (s, g)
    | c :: _ =>
      if isBlank c then
        if g.broken && s.column < margin && c == '\t' then .error .badIndentation
        else
          readGap margin fuel (s.skip 1)
            (if g.broken then g else { g with blanks := g.blanks.push c })
      else if isBreak c then readGap margin fuel s.skipBreak (g.addBreak s.breakText)
      else .ok (s, g)

end JoinAssembly.Yaml
