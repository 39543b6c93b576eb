import JoinAssembly.CommandLine.Execute

/-!
# The program

Reads the arguments, the environment and the file, and prints what carrying out the command leaves.
-/

open JoinAssembly CommandLine

/-- Read a file as a text. -/
def readText (path : String) : IO (Except FileError String) := do
  try
    let bytes ← IO.FS.readBinFile path
    return fileText bytes
  catch e =>
    match e with
    | .noFileOrDirectory .. => return .error .notFound
    | .inappropriateType _ code _ =>
      if code == 21 then return .error .isDirectory
      return .error (.other s!"Not a directory (os error {code})")
    | e => return .error (.other (toString e))

/-- Print an outcome. -/
def present (o : Outcome) : IO UInt32 := do
  for record in o.log do
    IO.eprintln record.text
  IO.print o.output
  if let some report := o.report then
    IO.eprintln report.text
  return o.code.toUInt32

def main (args : List String) : IO UInt32 := do
  let environment ← IO.getEnv "STRATA_LOG"
  match Request.ofArguments args environment with
  | .error e =>
    IO.eprintln s!"error: {e.message}"
    present .misuse
  | .ok (.help topic) => present (.success (topic.text environment) [])
  | .ok .version => present (.success versionText [])
  | .ok (.execute command file level) =>
    present (execute command file level (← readText file))
