import JoinAssembly.Document.Toml.Scalar
import JoinAssembly.Document.Toml.Table

/-!
# Reading TOML

A text is a row of lines: headers that name tables, and values under keys of the table named last.
-/

namespace JoinAssembly.Toml

/-! ### Keys -/

/-- Whether a character may stand in a key without quotes. -/
def isBareKeyChar (c : Char) : Bool :=
  ('a' ≤ c && c ≤ 'z') || ('A' ≤ c && c ≤ 'Z') || c.isDigit || c == '-' || c == '_'

/-- Read one part of a key. -/
def readKeyPart : Scan String := do
  match ← Scan.peek? with
  | some '"' =>
    Scan.skip 1
    readLine '"' ((← get).length + 1) ""
  | some '\'' =>
    Scan.skip 1
    readLine '\'' ((← get).length + 1) ""
  | _ =>
    let part ← Scan.takeWhile isBareKeyChar
    if part.isEmpty then throw (.expected "a key")
    return String.ofList part

/-- How many brackets and braces may stand inside one another, and how many parts a key may have. -/
def depthLimit : Nat := 79

/-- Read a key: its parts before the last dot and its last part. -/
def readKey : Nat → Scan (List String × String)
  | 0 => throw .tooDeep
  | room + 1 => do
    Scan.skipBlanks
    let part ← readKeyPart
    Scan.skipBlanks
    if (← Scan.peek?) == some '.' then
      Scan.skip 1
      let (path, key) ← readKey room
      return (part :: path, key)
    return ([], part)

/-! ### Values -/

/-- Skip a comment, up to the end of its line. -/
def skipComment : Scan Unit := do
  if (← Scan.peek?) == some '#' then
    discard (Scan.takeWhile isTextChar)

/-- Skip blanks, comments and line breaks. -/
def skipFiller : Nat → Scan Unit
  | 0 => pure ()
  | fuel + 1 => do
    Scan.skipBlanks
    skipComment
    let n := breakLength (← get)
    if n != 0 then
      Scan.skip n
      skipFiller fuel

mutual

/-- Read a value, inside which so many brackets may be open at once. -/
def readValue (room : Nat) : Nat → Scan Value
  | 0 => throw .tooDeep
  | fuel + 1 => do
    match ← Scan.peek?, room with
    | some '"', _ => .text <$> readString '"'
    | some '\'', _ => .text <$> readString '\''
    | some '[', 0 | some '{', 0 => throw .tooDeep
    | some '[', room + 1 =>
      Scan.skip 1
      .list <$> readElements room fuel
    | some '{', room + 1 =>
      Scan.skip 1
      Scan.skipBlanks
      if (← Scan.peek?) == some '}' then
        Scan.skip 1
        return .record []
      return .record (recordOf (← readFields room fuel []))
    | _, _ => readLiteral

/-- Read the elements of a list up to its closing bracket. A comma may follow the last one. -/
def readElements (room : Nat) : Nat → Scan (List Value)
  | 0 => throw .tooDeep
  | fuel + 1 => do
    skipFiller ((← get).length + 1)
    if (← Scan.peek?) == some ']' then
      Scan.skip 1
      return []
    let v ← readValue room fuel
    skipFiller ((← get).length + 1)
    match ← Scan.peek? with
    | some ',' =>
      Scan.skip 1
      return v :: (← readElements room fuel)
    | some ']' =>
      Scan.skip 1
      return [v]
    | _ => throw (.expected "a comma or a closing bracket")

/-- Read the fields of a record on one line up to its closing brace. -/
def readFields (room : Nat) : Nat → Entries → Scan Entries
  | 0, _ => throw .tooDeep
  | fuel + 1, entries => do
    let (path, key) ← readKey depthLimit
    Scan.expect '=' "an equals sign"
    Scan.skipBlanks
    let v ← readValue room fuel
    let entries ← addValue path key v entries
    Scan.skipBlanks
    match ← Scan.peek? with
    | some ',' =>
      Scan.skip 1
      readFields room fuel entries
    | some '}' =>
      Scan.skip 1
      return entries
    | _ => throw (.expected "a comma or a closing brace")

end

/-! ### Lines -/

/-- The tables filled so far, and the path of the one that is being filled. -/
structure Filling where
  entries : Entries
  current : List String

/-- Read a header. -/
def readHeader (f : Filling) : Scan Filling := do
  let double ← Scan.startsWith ['[', '[']
  Scan.skip (if double then 2 else 1)
  let (path, key) ← readKey depthLimit
  Scan.expect ']' "a closing bracket"
  if double then Scan.expect ']' "a second closing bracket"
  let entries ←
    if double then beginElement path key f.entries else beginTable path key f.entries
  return ⟨entries, path ++ [key]⟩

/-- Read a key and its value. -/
def readField (f : Filling) : Scan Filling := do
  let (path, key) ← readKey depthLimit
  Scan.expect '=' "an equals sign"
  Scan.skipBlanks
  let v ← readValue depthLimit ((← get).length + 1)
  let entries ← changeCurrent f.current (addValue path key v) f.entries
  return { f with entries }

/-- Read all lines. -/
def readAll : Nat → Filling → Scan Filling
  | 0, f => return f
  | fuel + 1, f => do
    skipFiller ((← get).length + 1)
    match ← Scan.peek? with
    | none => return f
    | some c =>
      let f ← if c == '[' then readHeader f else readField f
      Scan.skipBlanks
      skipComment
      if !(← get).isEmpty && breakLength (← get) == 0 then throw (.expected "the end of the line")
      readAll fuel f

/-- The record that a text holds. A byte order mark before it does not count. -/
def read (text : String) : Except SyntaxError Value := do
  let cs := match text.toList with
    | c :: rest => if c.toNat == 0xfeff then rest else c :: rest
    | [] => []
  let (filling, _) ← (readAll (cs.length + 1) ⟨[], []⟩).run cs
  return .record (recordOf filling.entries)

end JoinAssembly.Toml
