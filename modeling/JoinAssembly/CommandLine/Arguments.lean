import JoinAssembly.Log

/-!
# Arguments of the command line

The command line names a command and a file; a log level may be given before or after the command,
or by the environment. Arguments are read from the left, and the first that is wrong or asks for
help decides. Two things are looked at only after all the rest: a log level that stands as a word of
its own just before the command, and what the environment says.
-/

namespace JoinAssembly.CommandLine

inductive Command where
  /-- Show the plan of a scenario. -/
  | plan
  /-- Run a scenario. -/
  | run
deriving DecidableEq

/-- What help can be about. -/
inductive Topic where
  | program
  | command (c : Command)
  | help
deriving DecidableEq

/-- What the command line asks for. -/
inductive Request where
  | help (topic : Topic)
  | version
  | execute (command : Command) (file : String) (level : Option LogLevel)
deriving DecidableEq

/-- Why a command line makes no sense. -/
inductive UsageError where
  | missingCommand
  | unknownCommand (name : String)
  | missingFile
  | unexpectedArgument (argument : String)
  | missingLevel
  | invalidLevel (text : String)
  | repeatedLevel
deriving DecidableEq

def UsageError.message : UsageError → String
  | .missingCommand => "a command is required"
  | .unknownCommand name => s!"unrecognized command '{name}'"
  | .missingFile => "a file is required"
  | .unexpectedArgument argument => s!"unexpected argument '{argument}' found"
  | .missingLevel => "a value is required for '--log-level <LOG_LEVEL>' but none was supplied"
  | .invalidLevel text => s!"invalid value '{text}' for '--log-level <LOG_LEVEL>'"
  | .repeatedLevel => "the argument '--log-level <LOG_LEVEL>' cannot be used multiple times"

/-! ### Single arguments -/

/-- What an argument is by its looks. -/
inductive Shape where
  /-- The end of the options. -/
  | escape
  /-- A word after two dashes, with what follows an equals sign. -/
  | long (name : String) (value : Option String)
  /-- Letters after one dash. -/
  | short (letter : Char)
  | word

/-- What an argument looks like. A dash alone is a word. -/
def shapeOf (argument : String) : Shape :=
  match argument.toList with
  | ['-', '-'] => .escape
  | '-' :: '-' :: cs =>
    let name := String.ofList (cs.takeWhile (· != '='))
    match cs.dropWhile (· != '=') with
    | [] => .long name none
    | _ :: value => .long name (some (String.ofList value))
  | '-' :: c :: _ => .short c
  | _ => .word

/-- Whether an argument may be the value of the option before it. -/
def isWord (argument : String) : Bool :=
  match shapeOf argument with
  | .word => true
  | _ => false

/-- Take a log level that was not given before. -/
def takeLevel (before : Option LogLevel) (text : String) : Except UsageError LogLevel :=
  match LogLevel.ofText? text, before with
  | none, _ => .error (.invalidLevel text)
  | some _, some _ => .error .repeatedLevel
  | some level, none => .ok level

/-- The command of a name. -/
def commandOf? : String → Option Command
  | "plan" => some .plan
  | "run" => some .run
  | _ => none

/-! ### After the command -/

/-- The arguments of a command: a file and a log level. -/
structure Given where
  file : Option String
  level : Option LogLevel

/-- Take a file. There is only one, and its name is not empty. -/
def Given.takeFile (g : Given) (file : String) : Except UsageError Given :=
  match g.file with
  | some _ => .error (.unexpectedArgument file)
  | none => if file.isEmpty then .error .missingFile else .ok { g with file := some file }

/-- Read words only. -/
def readWords (g : Given) : List String → Except UsageError Given
  | [] => .ok g
  | argument :: rest => do
    let g ← g.takeFile argument
    readWords g rest

/-- Read the arguments of a command. Nothing is given if help is asked for. -/
def readGiven (g : Given) : List String → Except UsageError (Option Given)
  | [] => .ok (some g)
  | argument :: rest =>
    match shapeOf argument with
    | .escape => some <$> readWords g rest
    | .long "log-level" (some value) => do
      let level ← takeLevel g.level value
      readGiven { g with level := some level } rest
    | .long "log-level" none =>
      match rest with
      | [] => .error .missingLevel
      | value :: rest => do
        if !isWord value then throw .missingLevel
        let level ← takeLevel g.level value
        readGiven { g with level := some level } rest
    | .long "help" none | .short 'h' => .ok none
    | .long _ _ | .short _ => .error (.unexpectedArgument argument)
    | .word => do
      let g ← g.takeFile argument
      readGiven g rest

/-! ### The whole line -/

/-- The log level that the environment gives, where a place on the command line has none. -/
def levelOfEnvironment (environment : Option String) (places : List (Option LogLevel)) :
    Except UsageError (Option LogLevel) :=
  match environment with
  | some text => if places.contains none then some <$> takeLevel none text else .ok none
  | none => .ok none

/-- The log level in front of the command: one already taken, or one still held as a text. -/
structure Front where
  level : Option LogLevel := none
  held : Option String := none

/-- Take the level that is held. -/
def Front.settle (f : Front) : Except UsageError (Option LogLevel) :=
  match f.held with
  | none => .ok f.level
  | some text => some <$> takeLevel f.level text

/-- Read what follows the name of a command. The level after the command goes before the one in
front of it, and both before the environment's. -/
def readCommand (environment : Option String) (front : Front) (command : Command)
    (arguments : List String) : Except UsageError Request := do
  match ← readGiven ⟨none, none⟩ arguments with
  | none => return .help (.command command)
  | some given =>
    match given.file with
    | none => throw .missingFile
    | some file =>
      let outer ← front.settle
      let fallback ← levelOfEnvironment environment [outer, given.level]
      return .execute command file (given.level <|> outer <|> fallback)

/-- Read what help is asked about. -/
def readTopic : List String → Except UsageError Request
  | [] => .ok (.help .program)
  | ["help"] => .ok (.help .help)
  | [name] =>
    match commandOf? name with
    | some command => .ok (.help (.command command))
    | none => .error (.unknownCommand name)
  | name :: other :: _ =>
    if (commandOf? name).isSome || name == "help" then .error (.unknownCommand other)
    else .error (.unknownCommand name)

/-- Read a command line, with the level given so far. A level held as a text is taken before the
next option, but not before a command. -/
def readArguments (environment : Option String) (front : Front) :
    List String → Except UsageError Request
  | [] => .error .missingCommand
  | argument :: rest =>
    match shapeOf argument with
    | .escape => .error .missingCommand
    | .long "log-level" (some value) => do
      let level ← takeLevel (← front.settle) value
      readArguments environment { level } rest
    | .long "log-level" none =>
      match rest with
      | [] => .error .missingLevel
      | value :: rest => do
        if !isWord value then throw .missingLevel
        let level ← front.settle
        readArguments environment { level, held := some value } rest
    | .long "help" none | .short 'h' => do
      let _ ← front.settle
      return .help .program
    | .long "version" none | .short 'V' => do
      let _ ← front.settle
      return .version
    | .long _ _ | .short _ => .error (.unexpectedArgument argument)
    | .word =>
      if argument == "help" then readTopic rest
      else
        match commandOf? argument with
        | some command => readCommand environment front command rest
        | none => .error (.unknownCommand argument)

/-- What a command line asks for, with the log level in the environment. -/
def Request.ofArguments (arguments : List String) (environment : Option String) :
    Except UsageError Request :=
  readArguments environment {} arguments

end JoinAssembly.CommandLine
