import JoinAssembly.CommandLine.Help
import JoinAssembly.Scenario.File

/-!
# Carrying out a command line

What the program prints, logs and reports, given what reading the file gave. Rows are printed only
if all passes succeed; what was logged up to a failure stays.
-/

namespace JoinAssembly.CommandLine

/-- An error with the error behind it. -/
structure Report where
  message : String
  cause : Option String

/-- A text with every line indented. -/
def indented (text : String) : String :=
  "\n".intercalate ((text.splitOn "\n").map fun line => "    " ++ line)

def Report.text (r : Report) : String :=
  match r.cause with
  | none => s!"Error: {r.message}"
  | some cause => s!"Error: {r.message}\n\nCaused by:\n{indented cause}"

def Report.ofError (e : ScenarioError) : Report := ⟨e.message, e.cause?⟩

/-- What a run of the program leaves. -/
structure Outcome where
  code : Nat
  output : String
  log : List LogRecord
  report : Option Report

namespace Outcome

def success (output : String) (log : List LogRecord) : Outcome := ⟨0, output, log, none⟩

def failure (report : Report) (log : List LogRecord) : Outcome := ⟨1, "", log, some report⟩

/-- A command line that makes no sense leaves nothing but its exit code. -/
def misuse : Outcome := ⟨2, "", [], none⟩

end Outcome

/-- The level in force: the one asked for, or the scenario's own. -/
def levelFor (asked : Option LogLevel) (s : Scenario) : Except Report LogLevel :=
  match asked with
  | some level => .ok level
  | none =>
    match LogLevel.ofText? s.logging.level with
    | some level => .ok level
    | none => .error ⟨s!"invalid log level '{s.logging.level}'",
        some ("error parsing level: expected one of \"error\", \"warn\", \"info\", "
          ++ "\"debug\", \"trace\", or a number 1-5")⟩

/-- Carry out a command on a scenario. -/
def executeScenario (command : Command) (level : LogLevel) (s : Scenario) : Outcome :=
  match command with
  | .plan =>
    match s.plan with
    | .ok plan => .success plan []
    | .error e => .failure (.ofError e) []
  | .run =>
    let run := s.run
    let log := run.log.filter (·.shownAt level)
    match run.lines with
    | .ok lines => .success (String.join (lines.map (· ++ "\n"))) log
    | .error e => .failure (.ofError e) log

/-- Carry out a command on a file. -/
def execute (command : Command) (file : String) (asked : Option LogLevel)
    (content : Except FileError String) : Outcome :=
  match Scenario.ofFile file content with
  | .error e => .failure ⟨s!"loading {file}", some e.message⟩ []
  | .ok s =>
    match levelFor asked s with
    | .error report => .failure report []
    | .ok level => executeScenario command level s

end JoinAssembly.CommandLine
