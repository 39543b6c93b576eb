import JoinAssembly.Assembly
import JoinAssembly.Document.Decode

/-!
# What can go wrong with a scenario
-/

namespace JoinAssembly

/-- Why a file cannot be read as a text. -/
inductive FileError where
  | notFound
  | isDirectory
  | notText
  | other (reason : String)
deriving DecidableEq

def FileError.message : FileError → String
  | .notFound => "No such file or directory (os error 2)"
  | .isDirectory => "Is a directory (os error 21)"
  | .notText => "stream did not contain valid UTF-8"
  | .other reason => reason

/-- Why a text is not a scenario: it is not a document, or the document is something else. -/
inductive ParseError where
  | malformed (error : SyntaxError)
  | mismatch (error : DecodeError)
deriving DecidableEq

def ParseError.message : ParseError → String
  | .malformed error => error.message
  | .mismatch error => error.message

/-- Why a scenario cannot be loaded or run. Passes are counted from one. -/
inductive ScenarioError where
  | file (path : String) (error : FileError)
  | parse (error : ParseError)
  | neitherFormat (yaml toml : ParseError)
  | tree (error : TreeError)
  | unknownStream (pass : Nat) (stream : String)
  | rootEntry (pass : Nat) (stream : String)
  | parentNotHeld (pass : Nat) (stream parent : String)
  | assembly (pass : Nat) (error : AssemblyError)
deriving DecidableEq

namespace ScenarioError

/-- The text shown for an error. -/
def message : ScenarioError → String
  | file path error => s!"Failed to read scenario file {path}: {error.message}"
  | parse error => s!"Failed to parse scenario: {error.message}"
  | neitherFormat yaml toml =>
    s!"Scenario is neither YAML ({yaml.message}) nor TOML ({toml.message})"
  | tree error => s!"Invalid join: {error.message}"
  | unknownStream pass stream => s!"Pass {pass}: unknown stream '{stream}'"
  | rootEntry pass stream =>
    s!"Pass {pass}: root stream '{stream}' takes its events from \x60root\x60"
  | parentNotHeld pass stream parent =>
    s!"Pass {pass}: no match of the parent stream of '{stream}' holds event '{parent}'"
  | assembly pass error => s!"Pass {pass}: {error.message}"

/-- The text of the error behind an error, if there is one. -/
def cause? : ScenarioError → Option String
  | tree error => some error.message
  | assembly _ error => some error.message
  | _ => none

end ScenarioError

end JoinAssembly
