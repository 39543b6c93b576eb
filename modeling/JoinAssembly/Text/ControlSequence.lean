/-!
# Control sequences

A text may hold sequences of characters that are meant for a terminal: an escape character with what
belongs to it. Taken away from a text, they leave what a reader sees.
-/

namespace JoinAssembly.Text

/-- Where a character stands. -/
inductive Place where
  /-- Outside of all sequences. -/
  | outside
  /-- After an escape character. -/
  | escape
  /-- After an escape character and signs that do not end the sequence. -/
  | escapeSigns
  /-- In a sequence with parameters, which a letter ends. -/
  | control
  /-- At the start of a device's control string. -/
  | device
  /-- Among the parameters of a device's control string. -/
  | deviceParameters
  /-- After the parameters of a device's control string. -/
  | deviceSigns
  /-- In a string that a byte of its own ends. -/
  | string
  /-- In a command that a bell ends. -/
  | command
deriving DecidableEq

/-- The byte that ends a string. -/
def stringEnd : UInt8 := 0x9c

namespace Place

/-- The place of the next character, after one that is not shown. Escape characters begin a sequence
everywhere, and two control characters end any. -/
def next (p : Place) (c : Char) : Place :=
  let n := c.toNat
  let within (low high : Nat) : Bool := low ≤ n && n ≤ high
  if n == 0x1b then .escape
  else if n == 0x18 || n == 0x1a then .outside
  else
    match p with
    | .outside => .outside
    | .escape =>
      if within 0x20 0x2f then .escapeSigns
      else if c == '[' then .control
      else if c == ']' then .command
      else if c == 'P' then .device
      else if c == 'X' || c == '^' || c == '_' then .string
      else if within 0x30 0x7e then .outside
      else .escape
    | .escapeSigns => if within 0x30 0x7e then .outside else .escapeSigns
    | .control => if within 0x40 0x7e then .outside else .control
    | .device =>
      if within 0x20 0x2f then .deviceSigns
      else if within 0x30 0x3f then .deviceParameters
      else if within 0x40 0x7e then .string
      else .device
    | .deviceParameters =>
      if within 0x20 0x2f then .deviceSigns
      else if within 0x3c 0x7e then .string
      else .deviceParameters
    | .deviceSigns => if within 0x30 0x7e then .string else .deviceSigns
    | .string => if (String.utf8EncodeChar c).contains stringEnd then .outside else .string
    | .command => if n == 0x07 then .outside else .command

/-- Whether a character is shown at a place. Tabs and ends of lines are shown even inside of
sequences, other than strings. -/
def shows (p : Place) (c : Char) : Bool :=
  let isSpace := ['\t', '\n', '\x0c', '\r'].contains c
  match p with
  | .outside => isSpace || (0x20 ≤ c.toNat && c.toNat != 0x7f)
  | .escape | .escapeSigns | .control => isSpace
  | _ => false

end Place

/-- The characters that are shown. While characters are being shown the next one is judged as if
outside of all sequences; the sequence that they interrupt goes on after them. -/
def shownChars : Place → Bool → List Char → List Char
  | _, _, [] => []
  | p, showing, c :: cs =>
    if (if showing then .outside else p : Place).shows c then
      c :: shownChars (if c.toNat < 0x80 then p else .outside) true cs
    else shownChars (p.next c) false cs

/-- A text without its control sequences and control characters. -/
def withoutControls (s : String) : String := String.ofList (shownChars .outside false s.toList)

end JoinAssembly.Text
