import JoinAssembly.Document.Decode
import JoinAssembly.Scenario.Basic

/-!
# Scenarios as document values

Every part of a scenario is written as a record with all its fields. It is read from a record in
which the keys stand in any order and unknown keys are ignored, or, where the format allows it, from
the list of the fields in order. Fields with a default may be left out.
-/

namespace JoinAssembly

/-! ### Writing -/

namespace Value

def ofNat (n : Nat) : Value := .int n

def ofOption {α : Type} (write : α → Value) : Option α → Value
  | none => .null
  | some a => write a

end Value

def StreamEntry.toValue (e : StreamEntry) : Value :=
  .record [("name", .text e.name), ("parent", .ofOption .text e.parent),
    ("optional", .bool e.optional)]

def AssemblyOptions.toValue (o : AssemblyOptions) : Value :=
  .record [("single_result_fast_path", .bool o.fastPath),
    ("row_capacity", .ofNat o.rowCapacity)]

def LogSettings.toValue (l : LogSettings) : Value := .record [("level", .text l.level)]

def MatchEntry.toValue (e : MatchEntry) : Value :=
  .record [("stream", .text e.stream), ("parent", .text e.parent),
    ("parent_match", .ofOption .ofNat e.parentChoice), ("events", .list (e.events.map .text))]

def PassEntry.toValue (p : PassEntry) : Value :=
  .record [("partition", .ofOption .text p.partition), ("root", .list (p.root.map .text)),
    ("matches", .list (p.matched.map MatchEntry.toValue))]

def Scenario.toValue (s : Scenario) : Value :=
  .record [("streams", .list (s.streams.map StreamEntry.toValue)),
    ("assembly", s.options.toValue), ("logging", s.logging.toValue),
    ("passes", .list (s.passes.map PassEntry.toValue))]

/-! ### Reading -/

def StreamEntry.ofValue (d : Dialect) : Value.Reader StreamEntry := fun v => do
  let fields ← v.asFields d ["name", "parent", "optional"]
  return {
    name := ← requiredField fields "name" Value.asText
    parent := ← fieldOr fields "parent" none (Value.asOption Value.asText)
    optional := ← fieldOr fields "optional" false Value.asBool }

def AssemblyOptions.ofValue (d : Dialect) : Value.Reader AssemblyOptions := fun v => do
  let fields ← v.asFields d ["single_result_fast_path", "row_capacity"]
  return {
    fastPath := ← fieldOr fields "single_result_fast_path" true Value.asBool
    rowCapacity := ← fieldOr fields "row_capacity" 16 Value.asNat }

def LogSettings.ofValue (d : Dialect) : Value.Reader LogSettings := fun v => do
  let fields ← v.asFields d ["level"]
  return { level := ← fieldOr fields "level" "info" Value.asText }

def MatchEntry.ofValue (d : Dialect) : Value.Reader MatchEntry := fun v => do
  let fields ← v.asFields d ["stream", "parent", "parent_match", "events"]
  return {
    stream := ← requiredField fields "stream" Value.asText
    parent := ← requiredField fields "parent" Value.asText
    parentChoice := ← fieldOr fields "parent_match" none (Value.asOption Value.asNat)
    events := ← requiredField fields "events" (Value.asList Value.asText) }

def PassEntry.ofValue (d : Dialect) : Value.Reader PassEntry := fun v => do
  let fields ← v.asFields d ["partition", "root", "matches"]
  return {
    partition := ← fieldOr fields "partition" none (Value.asOption Value.asText)
    root := ← fieldOr fields "root" [] (Value.asList Value.asText)
    matched := ← fieldOr fields "matches" [] (Value.asList (MatchEntry.ofValue d)) }

def Scenario.ofValue (d : Dialect) : Value.Reader Scenario := fun v => do
  let fields ← v.asFields d ["streams", "assembly", "logging", "passes"]
  return {
    streams := ← fieldOr fields "streams" [] (Value.asList (StreamEntry.ofValue d))
    options := ← fieldOr fields "assembly" {} (AssemblyOptions.ofValue d)
    logging := ← fieldOr fields "logging" {} (LogSettings.ofValue d)
    passes := ← fieldOr fields "passes" [] (Value.asList (PassEntry.ofValue d)) }

end JoinAssembly
