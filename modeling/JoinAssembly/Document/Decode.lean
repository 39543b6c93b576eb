import JoinAssembly.Document.Value
import JoinAssembly.Text.Quoted

/-!
# Taking values apart

What a reader of a document asks of a value: a text, a truth value, a natural number, a list, a
record. Nothing is converted from one kind to another; only an unquoted scalar may serve as any
kind that its spelling allows. A tag matters in two places: where a value may be absent, one that is
tagged as absent must be spelled so, and a literal block may be spelled as what its tag names.
-/

namespace JoinAssembly

/-- Why a value is not what a reader asks for. -/
inductive DecodeError where
  | wrongKind (expected : String)
  | outOfRange (number : Int)
  | missingField (name : String)
  | repeatedField (name : String)
  | tooManyFields (expected actual : Nat)
deriving DecidableEq

def DecodeError.message : DecodeError → String
  | .wrongKind expected => s!"expected {expected}"
  | .outOfRange number => s!"number {number} is out of range"
  | .missingField name => s!"missing field '{name}'"
  | .repeatedField name => s!"field '{name}' is given more than once"
  | .tooManyFields expected actual => s!"expected {expected} fields, found {actual}"

/-! ### Spellings of unquoted scalars -/

/-- Natural numbers have 64 bits. -/
def numberLimit : Nat := 18446744073709551616

/-- Whether an unquoted scalar stands for an absent value. -/
def spellsNull (s : String) : Bool := ["", "~", "null", "Null", "NULL"].contains s

/-- The truth value that an unquoted scalar spells. -/
def spelledBool? (s : String) : Option Bool :=
  if ["true", "True", "TRUE"].contains s then some true
  else if ["false", "False", "FALSE"].contains s then some false
  else none

private def afterPlus : List Char → List Char
  | '+' :: cs => cs
  | cs => cs

/-- The natural number that an unquoted scalar spells: decimal without leading zeros, or
hexadecimal, octal or binary after `0x`, `0o` or `0b`; a plus sign may precede it. -/
def spelledNat? (s : String) : Option Nat :=
  match afterPlus s.toList with
  | '0' :: 'x' :: cs => Text.numeral? 16 cs
  | '0' :: 'o' :: cs => Text.numeral? 8 cs
  | '0' :: 'b' :: cs => Text.numeral? 2 cs
  | '0' :: c :: cs => if (c :: cs).all Char.isDigit then none else Text.numeral? 10 ('0' :: c :: cs)
  | cs => Text.numeral? 10 cs

/-! ### Kinds -/

namespace Value

abbrev Reader (α : Type) := Value → Except DecodeError α

def asText : Reader String
  | .text s | .plain s | .tagged _ s | .taggedBlock _ s => .ok s
  | _ => .error (.wrongKind "a text")

def asBool : Reader Bool
  | .bool b => .ok b
  | .plain s | .tagged _ s | .taggedBlock .bool s =>
    match spelledBool? s with
    | some b => .ok b
    | none => .error (.wrongKind "a truth value")
  | _ => .error (.wrongKind "a truth value")

/-- A natural number below the limit. -/
def asNat : Reader Nat
  | .int n => if 0 ≤ n ∧ n < numberLimit then .ok n.toNat else .error (.outOfRange n)
  | .plain s | .tagged _ s | .taggedBlock .int s =>
    match spelledNat? s with
    | some n => if n < numberLimit then .ok n else .error (.outOfRange n)
    | none => .error (.wrongKind "a number")
  | _ => .error (.wrongKind "a number")

/-- An absent value, or a value of some kind. -/
def asOption {α : Type} (read : Reader α) : Reader (Option α)
  | .null => .ok none
  | .plain s => if spellsNull s then .ok none else some <$> read (.plain s)
  | .tagged .null s =>
    if s.isEmpty || !spellsNull s then .error (.wrongKind "an absent value") else .ok none
  | v => some <$> read v

/-- A list of values of one kind. An empty unquoted scalar is the empty list. -/
def asList {α : Type} (read : Reader α) : Reader (List α)
  | .list vs => vs.mapM read
  | .plain "" | .tagged _ "" => .ok []
  | _ => .error (.wrongKind "a list")

/-! ### Records -/

/-- The first of some names that occurs twice among the keys of a record. -/
def repeatedField? (names : List String) (fields : List (String × Value)) : Option String :=
  names.find? fun name => 1 < fields.countP fun f => f.1 == name

/-- The values given for the fields of a record whose field names are known. Unknown fields are left
out. An empty unquoted scalar gives no field, nor does a date. -/
def asFields (d : Dialect) (names : List String) : Reader (List (String × Value))
  | .record fields =>
    match repeatedField? names fields with
    | some name => .error (.repeatedField name)
    | none => .ok (fields.filter fun f => names.contains f.1)
  | .list values =>
    if !d.listsAsRecords then .error (.wrongKind "a record")
    else if values.length ≤ names.length ∨ d.surplusAllowed then .ok (names.zip values)
    else .error (.tooManyFields names.length values.length)
  | .plain "" | .tagged _ "" | .moment _ => .ok []
  | _ => .error (.wrongKind "a record")

end Value

/-- The value of a field that has to be given. -/
def requiredField {α : Type} (fields : List (String × Value)) (name : String)
    (read : Value.Reader α) : Except DecodeError α :=
  match fields.lookup name with
  | some v => read v
  | none => .error (.missingField name)

/-- The value of a field that may be left out. -/
def fieldOr {α : Type} (fields : List (String × Value)) (name : String) (default : α)
    (read : Value.Reader α) : Except DecodeError α :=
  match fields.lookup name with
  | some v => read v
  | none => .ok default

end JoinAssembly
