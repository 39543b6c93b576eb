import JoinAssembly.Document.Toml.Reader
import JoinAssembly.Document.Yaml.Reader
import JoinAssembly.Scenario.Codec
import JoinAssembly.Scenario.Runner

/-!
# Scenario files

The extension of a file tells its format. A file without such an extension is read as YAML or, if it
is none, as TOML.
-/

namespace JoinAssembly

/-! ### Formats

Only the last name on a path matters for its extension. Empty names and single dots on a path count
for nothing, and two dots lead away from a name.
-/

namespace PathName

/-- The names on a path, without empty ones and single dots. -/
def components (path : String) : List String :=
  (path.splitOn "/").filter fun name => name != "" && name != "."

/-- The last name on a path, unless it is two dots. A path that is a single dot has no name. -/
def fileName? (path : String) : Option String :=
  match (components path).getLast? with
  | some ".." => none
  | name? => name?

/-- What follows the last dot of a name, if there is a dot after its first character. -/
def extensionOf? (name : String) : Option String :=
  let afterDot := (name.toList.reverse.takeWhile (· != '.')).reverse
  let beforeDot := name.length - afterDot.length
  if 1 < beforeDot then some (String.ofList afterDot) else none

/-- The extension of the last name on a path. -/
def extension? (path : String) : Option String := (fileName? path).bind extensionOf?

end PathName

inductive FileFormat where
  | yaml
  | toml
deriving DecidableEq

/-- The format that the extension of a file names, whatever its case in ASCII. -/
def FileFormat.ofPath? (path : String) : Option FileFormat :=
  match (PathName.extension? path).map String.toLower with
  | some "yaml" | some "yml" => some .yaml
  | some "toml" => some .toml
  | _ => none

/-! ### Documents -/

/-- The text of a file. -/
def fileText (bytes : ByteArray) : Except FileError String :=
  match String.fromUTF8? bytes with
  | some text => .ok text
  | none => .error .notText

/-- Read a document and take its value as something. -/
def readDocument {α : Type} (parse : String → Except SyntaxError Value) (take : Value.Reader α)
    (text : String) : Except ParseError α :=
  match parse text with
  | .error e => .error (.malformed e)
  | .ok v =>
    match take v with
    | .error e => .error (.mismatch e)
    | .ok a => .ok a

def AssemblyOptions.ofYaml (text : String) : Except ParseError AssemblyOptions :=
  readDocument Yaml.read (AssemblyOptions.ofValue .yaml) text

def AssemblyOptions.ofToml (text : String) : Except ParseError AssemblyOptions :=
  readDocument Toml.read (AssemblyOptions.ofValue .toml) text

namespace Scenario

def ofYaml (text : String) : Except ParseError Scenario :=
  readDocument Yaml.read (Scenario.ofValue .yaml) text

def ofToml (text : String) : Except ParseError Scenario :=
  readDocument Toml.read (Scenario.ofValue .toml) text

/-- The scenario in a file with a given path. -/
def ofText (path text : String) : Except ScenarioError Scenario :=
  match FileFormat.ofPath? path with
  | some .yaml => (ofYaml text).mapError .parse
  | some .toml => (ofToml text).mapError .parse
  | none =>
    match ofYaml text with
    | .ok s => .ok s
    | .error yaml => (ofToml text).mapError fun toml => .neitherFormat yaml toml

/-- The scenario in a file, from what reading the file gave. -/
def ofFile (path : String) (content : Except FileError String) : Except ScenarioError Scenario :=
  match content with
  | .ok text => ofText path text
  | .error e => .error (.file path e)

end Scenario

/-- The plan of the scenario in a file. -/
def planOfFile (path : String) (content : Except FileError String) :
    Except ScenarioError String := do
  let s ← Scenario.ofFile path content
  s.plan

end JoinAssembly
