import JoinAssembly.Partitions
import JoinAssembly.Scenario.Resolve

/-!
# Running scenarios

A runner keeps the join of a scenario, its partitions and the names of its events from pass to pass.
-/

namespace JoinAssembly

/-- The partition of a pass that names none. -/
def defaultPartition : String := "default"

structure Runner where
  tree : JoinTree
  partitions : Partitions String EventRef
  names : Interner

/-- What a runner has come to: the runner afterwards, what was made of its work, and what it
logged. -/
structure Progress (α : Type) where
  runner : Runner
  result : Except ScenarioError α
  log : List LogRecord

/-- The join tree of a scenario. -/
def Scenario.tree (s : Scenario) : Except ScenarioError JoinTree :=
  (JoinTree.ofEntries s.streams).mapError .tree

namespace Runner

/-- A runner for the join of a scenario. -/
def ofScenario (s : Scenario) : Except ScenarioError Runner := do
  let tree ← s.tree
  return ⟨tree, .new tree s.options, .empty⟩

/-- The plan of the join, one line per node. -/
def plan (r : Runner) : String := (Assembler.new r.tree {} : Assembler EventRef).plan

/-- Resolve a pass into match sets. The names it brings stay known even if it fails. -/
def resolve (r : Runner) (number : Nat) (pass : PassEntry) : Progress (MatchSets EventRef) :=
  match Resolution.ofPass r.tree r.names number pass with
  | (resolution, none) => ⟨{ r with names := resolution.names }, .ok resolution.sets, []⟩
  | (resolution, some e) => ⟨{ r with names := resolution.names }, .error e, []⟩

/-- Run a pass in its partition. -/
def run (r : Runner) (number : Nat) (pass : PassEntry) : Progress (RowCollection EventRef) :=
  let resolved := r.resolve number pass
  match resolved.result with
  | .error e => ⟨resolved.runner, .error e, []⟩
  | .ok sets =>
    let key := pass.partition.getD defaultPartition
    let outcome := resolved.runner.partitions.run key sets
    let runner := { resolved.runner with partitions := outcome.partitions }
    match outcome.rows with
    | .error e => ⟨runner, .error (.assembly number e), outcome.log⟩
    | .ok rows =>
      let last : LogRecord :=
        ⟨.debug, s!"Pass {number} in partition '{key}': {rows.size} rows"⟩
      ⟨runner, .ok rows, outcome.log ++ [last]⟩

/-- Run passes in order, numbered from a given number on, up to the first that fails. -/
def runFrom (r : Runner) (number : Nat) :
    List PassEntry → Progress (List (RowCollection EventRef))
  | [] => ⟨r, .ok [], []⟩
  | pass :: rest =>
    let first := r.run number pass
    match first.result with
    | .error e => ⟨first.runner, .error e, first.log⟩
    | .ok rows =>
      let later := first.runner.runFrom (number + 1) rest
      ⟨later.runner, (rows :: ·) <$> later.result, first.log ++ later.log⟩

/-- Run all passes of a scenario, up to the first that fails. -/
def runPasses (r : Runner) (passes : List PassEntry) :
    Progress (List (RowCollection EventRef)) :=
  let progress := r.runFrom 1 passes
  match progress.result with
  | .error _ => progress
  | .ok results =>
    let partitions := progress.runner.partitions.size
    let last : LogRecord :=
      ⟨.info, s!"Ran {results.length} passes across {partitions} partitions"⟩
    { progress with log := progress.log ++ [last] }

/-- The rows of passes, one text each. -/
def render (r : Runner) (results : List (RowCollection EventRef)) : List String :=
  results.flatMap fun c => c.rows.map (·.text r.names.display)

end Runner

/-! ### Scenarios from the start -/

/-- What a scenario leaves: its rows as texts, and what was logged. -/
structure Transcript where
  lines : Except ScenarioError (List String)
  log : List LogRecord

namespace Scenario

/-- Run a scenario. If a pass fails there are no rows at all. -/
def run (s : Scenario) : Transcript :=
  match Runner.ofScenario s with
  | .error e => ⟨.error e, []⟩
  | .ok runner =>
    let progress := runner.runPasses s.passes
    ⟨progress.runner.render <$> progress.result, progress.log⟩

/-- The plan of a scenario. -/
def plan (s : Scenario) : Except ScenarioError String := Runner.plan <$> Runner.ofScenario s

end Scenario

end JoinAssembly
