import JoinAssembly.Document.Value
import JoinAssembly.Text.Quoted

/-!
# Scalars of TOML

Strings in four forms, truth values, integers, other numbers, dates and times.
-/

namespace JoinAssembly.Toml

abbrev Scan := StateT (List Char) (Except SyntaxError)

/-! ### Characters -/

def isBlank (c : Char) : Bool := c == ' ' || c == '\t'

/-- Whether a character may stand in a comment or, as it is, in a string. -/
def isTextChar (c : Char) : Bool := c == '\t' || (0x20 ≤ c.toNat && c.toNat != 0x7f)

/-- The number of characters of a line break at the start of a text. -/
def breakLength : List Char → Nat
  | '\n' :: _ => 1
  | '\r' :: '\n' :: _ => 2
  | _ => 0

namespace Scan

def peek? : Scan (Option Char) := return (← get).head?

def skip (n : Nat) : Scan Unit := modify (·.drop n)

/-- Take characters as long as they satisfy a predicate. -/
def takeWhile (p : Char → Bool) : Scan (List Char) := do
  let taken := (← get).takeWhile p
  skip taken.length
  return taken

def skipBlanks : Scan Unit := discard (takeWhile isBlank)

/-- Take a character that has to stand here. -/
def expect (c : Char) (what : String) : Scan Unit := do
  if (← peek?) != some c then throw (.expected what)
  skip 1

def startsWith (start : List Char) : Scan Bool := return start.isPrefixOf (← get)

end Scan

/-! ### Strings -/

/-- The characters that a letter after a backslash stands for. -/
def escapes : List (Char × Nat) :=
  [('b', 0x08), ('t', 0x09), ('n', 0x0a), ('f', 0x0c), ('r', 0x0d), ('"', 0x22), ('\\', 0x5c)]

/-- The number of hexadecimal digits that follow a letter after a backslash. -/
def escapeDigits : Char → Option Nat
  | 'u' => some 4
  | 'U' => some 8
  | _ => none

/-- Read an escape sequence after its backslash. -/
def readEscape : Scan Char := do
  match ← get with
  | [] => throw .badEscape
  | c :: rest =>
    match escapes.lookup c, escapeDigits c with
    | some n, _ =>
      Scan.skip 1
      return Char.ofNat n
    | none, none => throw .badEscape
    | none, some digits =>
      match Text.characterOfHex? (rest.take digits) with
      | some d =>
        if rest.length < digits then throw .badEscape
        Scan.skip (digits + 1)
        return d
      | none => throw .badEscape

/-- Skip blanks and line breaks after a backslash at the end of a line. -/
def skipFolded : Nat → Scan Unit
  | 0 => pure ()
  | fuel + 1 => do
    Scan.skipBlanks
    let n := breakLength (← get)
    if n != 0 then
      Scan.skip n
      skipFolded fuel

/-- Read a string on one line up to its closing quote. Only in double quotes are there escapes. -/
def readLine (quote : Char) : Nat → String → Scan String
  | 0, _ => throw (.unterminated "a string")
  | fuel + 1, text => do
    match ← Scan.peek? with
    | none => throw (.unterminated "a string")
    | some c =>
      Scan.skip 1
      if c == quote then return text
      else if quote == '"' && c == '\\' then readLine quote fuel (text.push (← readEscape))
      else if isTextChar c then readLine quote fuel (text.push c)
      else throw (.forbiddenCharacter c)

/-- Read a string of several lines up to its three closing quotes, which up to two more quotes may
precede. -/
def readLines (quote : Char) : Nat → String → Scan String
  | 0, _ => throw (.unterminated "a string")
  | fuel + 1, text => do
    match ← get with
    | [] => throw (.unterminated "a string")
    | c :: rest =>
      let quotes := ((c :: rest).takeWhile (· == quote)).length
      let n := breakLength (c :: rest)
      if 3 ≤ quotes then
        if 5 < quotes then throw (.expected "at most five quotes")
        Scan.skip quotes
        return text ++ String.ofList (List.replicate (quotes - 3) quote)
      else if n != 0 then
        Scan.skip n
        readLines quote fuel (text.push '\n')
      else if quote == '"' && c == '\\' then
        Scan.skip 1
        if breakLength (rest.dropWhile isBlank) != 0 then
          skipFolded rest.length
          readLines quote fuel text
        else readLines quote fuel (text.push (← readEscape))
      else if isTextChar c then
        Scan.skip 1
        readLines quote fuel (text.push c)
      else throw (.forbiddenCharacter c)

/-- Read a string from its opening quote. -/
def readString (quote : Char) : Scan String := do
  let fuel := (← get).length + 1
  if ← Scan.startsWith [quote, quote, quote] then
    Scan.skip 3
    Scan.skip (breakLength (← get))
    readLines quote fuel ""
  else
    Scan.skip 1
    readLine quote fuel ""

/-! ### Numbers -/

/-- The digits of a number without the underscores, each of which must stand between digits. -/
def plainDigits? (base : Nat) (digits : List Char) : Option (List Char) :=
  let ends := [digits.head?, digits.getLast?]
  let adjacent := (digits.zip (digits.drop 1)).any fun (a, b) => a == '_' && b == '_'
  if digits.isEmpty || ends.contains (some '_') || adjacent then none
  else
    let plain := digits.filter (· != '_')
    if plain.all (Text.isDigitOf base) then some plain else none

/-- Split a sign off a number. -/
def splitSign : List Char → Bool × List Char
  | '-' :: rest => (true, rest)
  | '+' :: rest => (false, rest)
  | cs => (false, cs)

/-- A whole number without sign, in decimal. It has no leading zeros. -/
def wholeNumber? (cs : List Char) : Option Nat :=
  match plainDigits? 10 cs with
  | some ('0' :: _ :: _) => none
  | some digits => Text.numeral? 10 digits
  | none => none

/-- An integer: decimal with an optional sign, or hexadecimal, octal or binary after `0x`, `0o` or
`0b`. -/
def integer? (literal : List Char) : Option Int :=
  let inBase (base : Nat) (cs : List Char) : Option Int :=
    ((plainDigits? base cs).bind (Text.numeral? base)).map Int.ofNat
  match literal with
  | '0' :: 'x' :: cs => inBase 16 cs
  | '0' :: 'o' :: cs => inBase 8 cs
  | '0' :: 'b' :: cs => inBase 2 cs
  | cs =>
    let (negative, cs) := splitSign cs
    (wholeNumber? cs).map fun n => if negative then -n else n

/-- Integers have 64 bits. -/
def fitsInteger (n : Int) : Bool := -9223372036854775808 ≤ n && n < 9223372036854775808

/-- A number with a fraction or an exponent. -/
structure Decimal where
  negative : Bool
  /-- The digits before and after the point. -/
  digits : List Char
  /-- How many of the digits stand before the point when the exponent is taken into account. -/
  point : Int

/-- The exponent that ends a number; if nothing is left of it, that is nought. -/
private def exponent? : List Char → Option Int
  | [] => some 0
  | c :: cs =>
    let (negative, digits) := splitSign cs
    if c == 'e' || c == 'E' then
      ((plainDigits? 10 digits).bind (Text.numeral? 10)).map fun n => if negative then -n else n
    else none

/-- A number with a fraction, an exponent, or both. -/
def decimal? (literal : List Char) : Option Decimal := do
  let (negative, cs) := splitSign literal
  let isPart (c : Char) : Bool := c.isDigit || c == '_'
  let start := cs.takeWhile isPart
  let _ ← wholeNumber? start
  let whole ← plainDigits? 10 start
  let point (exponent : Int) : Int := whole.length + exponent
  match cs.dropWhile isPart with
  | [] => none
  | '.' :: rest =>
    let fraction ← plainDigits? 10 (rest.takeWhile isPart)
    return ⟨negative, whole ++ fraction, point (← exponent? (rest.dropWhile isPart))⟩
  | rest => return ⟨negative, whole, point (← exponent? rest)⟩

/-- The least number that no binary number of 64 bits is near enough to stand for, which is half a
step beyond the largest. -/
def decimalLimit : Nat := 1 <<< 1024 - 1 <<< 970

/-- Whether the size of a number reaches the limit, which has 309 digits. -/
def Decimal.reachesLimit (d : Decimal) : Bool :=
  let zeros := (d.digits.takeWhile (· == '0')).length
  let digits := d.digits.drop zeros
  let length := d.point - zeros
  let whole := digits.take 309 ++ List.replicate (309 - digits.length) '0'
  !digits.isEmpty &&
    (309 < length || (length == 309 && decimalLimit ≤ (Text.numeral? 10 whole).getD 0))

/-- Whether a literal is a number with a fraction or an exponent, or one of the words `inf` and
`nan`. Only a negative number may be beyond the limit. -/
def isReal (literal : List Char) : Bool :=
  [['i', 'n', 'f'], ['n', 'a', 'n']].contains (splitSign literal).2 ||
    (decimal? literal).any fun d => d.negative || !d.reachesLimit

/-! ### Dates and times -/

private def twoDigits? : List Char → Option Nat
  | [a, b] => Text.numeral? 10 [a, b]
  | _ => none

/-- The number of days of a month. -/
def daysIn (year month : Nat) : Nat :=
  if month == 2 then
    if year % 4 == 0 && (year % 100 != 0 || year % 400 == 0) then 29 else 28
  else if [4, 6, 9, 11].contains month then 30
  else 31

/-- Whether a literal is a date: year, month and day joined by dashes. -/
def isDate (cs : List Char) : Bool :=
  match cs.take 4, cs.drop 4 with
  | year, ['-', m, m', '-', d, d'] =>
    match Text.numeral? 10 year, twoDigits? [m, m'], twoDigits? [d, d'] with
    | some year, some month, some day =>
      1 ≤ month && month ≤ 12 && 1 ≤ day && day ≤ daysIn year month
    | _, _, _ => false
  | _, _ => false

private def isHourMinute (cs : List Char) : Bool :=
  match cs with
  | [h, h', ':', m, m'] =>
    (twoDigits? [h, h']).any (· < 24) && (twoDigits? [m, m']).any (· < 60)
  | _ => false

/-- Whether a literal is a time of day: hour, minute and second, which may have a fraction. -/
def isTime (cs : List Char) : Bool :=
  isHourMinute (cs.take 5) &&
    match cs.drop 5 with
    | ':' :: s :: s' :: rest =>
      (twoDigits? [s, s']).any (· ≤ 60) &&
        match rest with
        | [] => true
        | '.' :: digits => !digits.isEmpty && digits.all Char.isDigit
        | _ => false
    | _ => false

/-- Whether a literal is a time of day that may be followed by an offset. -/
def isOffsetTime (cs : List Char) : Bool :=
  let isPart (c : Char) : Bool := c.isDigit || c == ':' || c == '.'
  isTime (cs.takeWhile isPart) &&
    match cs.dropWhile isPart with
    | [] | ['Z'] | ['z'] => true
    | c :: offset => (c == '+' || c == '-') && isHourMinute offset

/-- Whether a literal is a date, a time, or both. -/
def isMoment (cs : List Char) : Bool :=
  isTime cs || isDate cs ||
    isDate (cs.take 10) &&
      match cs.drop 10 with
      | c :: time => (c == 'T' || c == 't' || c == ' ') && isOffsetTime time
      | [] => false

/-! ### Literals -/

private def isLiteralChar (c : Char) : Bool := c.isAlphanum || ['_', '+', '-', '.', ':'].contains c

/-- Read a value that is a single word. A date may be joined to a time by a blank. -/
def readLiteral : Scan Value := do
  let word ← Scan.takeWhile isLiteralChar
  let literal ← match ← get with
    | ' ' :: a :: b :: ':' :: _ =>
      if isDate word && a.isDigit && b.isDigit then do
        Scan.skip 1
        pure (word ++ ' ' :: (← Scan.takeWhile isLiteralChar))
      else pure word
    | _ => pure word
  let text := String.ofList literal
  if text.isEmpty then throw (.expected "a value")
  else if text == "true" then return .bool true
  else if text == "false" then return .bool false
  else
    match integer? literal with
    | some n => if fitsInteger n then return .int n else throw (.badNumber text)
    | none =>
      if isReal literal then return .real text
      else if isMoment literal then return .moment text
      else throw (.badNumber text)

end JoinAssembly.Toml
