/-!
# Values of a document

Scenario files are written in several formats. Each is read into the same values, unless the text is
not a document of its format; what differs between formats is kept in a `Dialect`.
-/

namespace JoinAssembly

/-- The kind that the tag of a scalar names. -/
inductive Tag where
  | null
  | bool
  | int
  | other
deriving DecidableEq

/-- A value of a document. -/
inductive Value where
  | null
  | bool (b : Bool)
  | int (n : Int)
  /-- A number that is not written as an integer. -/
  | real (literal : String)
  /-- A date or a time. -/
  | moment (literal : String)
  | text (s : String)
  /-- An unquoted scalar, whose kind is decided by the place where it stands. -/
  | plain (s : String)
  /-- An unquoted scalar with a tag. -/
  | tagged (tag : Tag) (s : String)
  /-- A literal block of lines with a tag, which may be of the kind that the tag names. -/
  | taggedBlock (tag : Tag) (s : String)
  | list (values : List Value)
  | record (fields : List (String × Value))
  /-- A value that may stand only where nothing is read, such as a record of which some key is not a
  text. -/
  | unreadable
deriving Inhabited

/-- How a format lets records be written. -/
structure Dialect where
  /-- Whether a record may be the list of its fields in order. -/
  listsAsRecords : Bool
  /-- Whether such a list may be longer than the record. -/
  surplusAllowed : Bool
deriving DecidableEq

namespace Dialect

/-- A record may be the list of its fields. -/
def json : Dialect := ⟨true, false⟩

/-- Records are written as such, not as lists of their fields. -/
def yaml : Dialect := ⟨false, false⟩

/-- A record may be the list of its fields, of which those beyond the last are not looked at. -/
def toml : Dialect := ⟨true, true⟩

end Dialect

/-! ### What can be wrong with the text of a document -/

/-- Why a text is not a document of its format. -/
inductive SyntaxError where
  | expected (what : String)
  | unterminated (what : String)
  | forbiddenCharacter (c : Char)
  | badEscape
  | badIndentation
  | badNumber (literal : String)
  | repeatedKey (key : String)
  | repeatedDirective
  | unknownName (name : String)
  | severalDocuments
  | tooDeep
  | unsupported (what : String)
deriving DecidableEq

def SyntaxError.message : SyntaxError → String
  | .expected what => s!"expected {what}"
  | .unterminated what => s!"{what} is not closed"
  | .forbiddenCharacter c => s!"character {c.toNat} is not allowed here"
  | .badEscape => "unknown escape sequence"
  | .badIndentation => "indentation does not fit"
  | .badNumber literal => s!"{literal} is not a number of the format"
  | .repeatedKey key => s!"key '{key}' is given more than once"
  | .repeatedDirective => "directive is given more than once"
  | .unknownName name => s!"name '{name}' is not known here"
  | .severalDocuments => "more than one document"
  | .tooDeep => "nested too deeply"
  | .unsupported what => s!"{what} is not supported"

end JoinAssembly
