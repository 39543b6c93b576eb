import JoinAssembly.JoinTree.StreamEntry
import JoinAssembly.Assembly

/-!
# Scenarios

A scenario gives a join by stream names, and the events that each stream matched in a series of
passes.
-/

namespace JoinAssembly

/-- What to log. -/
structure LogSettings where
  /-- The name of a log level, not yet checked. -/
  level : String := "info"
deriving DecidableEq

/-- The events of a stream that matched one event of its parent stream. -/
structure MatchEntry where
  stream : String
  /-- The event of the parent stream. -/
  parent : String
  /-- Which of the parent stream's match nodes that hold the event is meant, counted from zero; the
  first when absent. -/
  parentChoice : Option Nat
  events : List String
deriving DecidableEq

/-- One pass of a scenario. -/
structure PassEntry where
  /-- The partition the pass belongs to. -/
  partition : Option String := none
  /-- The events of the root stream. -/
  root : List String := []
  /-- The events of the other streams, parents before children. -/
  matched : List MatchEntry := []
deriving DecidableEq

structure Scenario where
  /-- The streams of the join; the `i`-th entry is stream `i`. -/
  streams : List StreamEntry := []
  options : AssemblyOptions := {}
  logging : LogSettings := {}
  passes : List PassEntry := []
deriving DecidableEq

end JoinAssembly
