import JoinAssembly.Text.Quoted

/-!
# Log records

A record has a level of importance. A level is named by a word or by its rank.
-/

namespace JoinAssembly

/-- How much detail a record is about, from the most important down. -/
inductive LogLevel where
  | error
  | warn
  | info
  | debug
  | trace
deriving DecidableEq

namespace LogLevel

/-- The rank of a level; a level lets through all records of no higher rank. -/
def rank : LogLevel → Nat
  | .error => 1
  | .warn => 2
  | .info => 3
  | .debug => 4
  | .trace => 5

def all : List LogLevel := [error, warn, info, debug, trace]

/-- The name of a level as it stands in a log. -/
def text : LogLevel → String
  | .error => "ERROR"
  | .warn => "WARN"
  | .info => "INFO"
  | .debug => "DEBUG"
  | .trace => "TRACE"

/-- The number that digits after an optional plus sign denote. -/
private def number? (s : String) : Option Nat :=
  match s.toList with
  | '+' :: digits => Text.numeral? 10 digits
  | digits => Text.numeral? 10 digits

/-- The level that a text names: its rank, or its name in any case. -/
def ofText? (s : String) : Option LogLevel :=
  match number? s with
  | some n => all.find? fun l => l.rank == n
  | none => all.find? fun l => l.text == s.toUpper

end LogLevel

structure LogRecord where
  level : LogLevel
  message : String
deriving DecidableEq

namespace LogRecord

/-- Whether a record is shown when a level is in force. -/
def shownAt (r : LogRecord) (level : LogLevel) : Bool := r.level.rank ≤ level.rank

/-- A character as it stands in a log. Those that could begin or be a command to a terminal are
written by their number. -/
def charText (c : Char) : String :=
  let n := c.toNat
  if n == 0x07 || n == 0x08 || n == 0x0c then s!"\\x0{Text.hexText n}"
  else if n == 0x1b || n == 0x7f then s!"\\x{Text.hexText n}"
  else if 0x80 ≤ n && n ≤ 0x9f then s!"\\u\x7b{Text.hexText n}\x7d"
  else c.toString

def text (r : LogRecord) : String :=
  r.level.text ++ " " ++ String.join (r.message.toList.map charText)

end LogRecord

end JoinAssembly
