import JoinAssembly.CommandLine.Arguments
import JoinAssembly.Text.ControlSequence

/-!
# Help texts

Help is composed for a terminal, with the names of options in bold. It is printed without control
sequences, those that come with the environment's value included.
-/

namespace JoinAssembly.CommandLine

def versionText : String := "strata 0.1.0\n"

def Command.name : Command → String
  | .plan => "plan"
  | .run => "run"

def Command.about : Command → String
  | .plan => "Show the assembly plan of a scenario's join"
  | .run => "Run every pass of a scenario and print the assembled rows"

private def helpAbout : String := "Print this message or the help of the given subcommand(s)"

private def bold (s : String) : String := "\x1b[1m" ++ s ++ "\x1b[0m"

/-- The line about the log level, with the environment's value. Further lines of the value are
indented. -/
private def levelLine (environment : Option String) : String :=
  let value := ("\n".pushn ' ' 31).intercalate ((environment.getD "").splitOn "\n")
  "      " ++ bold "--log-level" ++ " <LOG_LEVEL>  Log level, overriding the scenario's "
    ++ s!"\x60logging.level\x60 [env: STRATA_LOG={value}]\n"

private def helpLine : String :=
  "  " ++ bold "-h" ++ ", " ++ bold "--help" ++ "                   Print help\n"

private def versionLine : String :=
  "  " ++ bold "-V" ++ ", " ++ bold "--version" ++ "                Print version\n"

private def commandLines : String :=
  s!"  plan  {Command.plan.about}\n  run   {Command.run.about}\n  help  {helpAbout}\n"

/-- The help on a topic as it is composed, with the log level in the environment. -/
def Topic.styledText (environment : Option String) : Topic → String
  | .program =>
    "Strata - join-result assembly for continuous queries\n\n"
      ++ "Usage: strata [OPTIONS] <COMMAND>\n\nCommands:\n" ++ commandLines
      ++ "\nOptions:\n" ++ levelLine environment ++ helpLine ++ versionLine
  | .command c =>
    s!"{c.about}\n\nUsage: strata {c.name} [OPTIONS] <FILE>\n\nArguments:\n"
      ++ "  <FILE>  Path to the scenario file (YAML or TOML)\n"
      ++ "\nOptions:\n" ++ levelLine environment ++ helpLine
  | .help =>
    s!"{helpAbout}\n\nUsage: strata help [COMMAND]...\n\nArguments:\n"
      ++ "  [COMMAND]...  Print help for the subcommand(s)\n"

/-- The help on a topic as it is printed. -/
def Topic.text (environment : Option String) (t : Topic) : String :=
  Text.withoutControls (t.styledText environment)

end JoinAssembly.CommandLine
