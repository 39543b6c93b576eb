import JoinAssembly.EventRef
import JoinAssembly.MatchSets.Basic
import JoinAssembly.Scenario.Basic
import JoinAssembly.Scenario.Error

/-!
# Resolving passes

The entries of a pass name streams and events. They are resolved in order into match sets: every
entry is attached to a match node of its parent stream that holds the parent event.
-/

namespace JoinAssembly

/-- The match nodes of a stream that hold an event, in order. -/
def MatchSets.holding {ε : Type} [DecidableEq ε] (m : MatchSets ε) (s : StreamIndex) (event : ε) :
    List MatchRef :=
  (m.nodesOf s).zipIdx.filterMap fun (node, index) =>
    if node.events.contains event then some ⟨s, index⟩ else none

/-- Match sets in the making, with the names met so far. -/
structure Resolution where
  names : Interner
  sets : MatchSets EventRef

namespace Resolution

/-- Resolve one entry of a pass. An entry without events is checked and leaves no match node. -/
def addEntry (tree : JoinTree) (number : Nat) (r : Resolution) (entry : MatchEntry) :
    Resolution × Option ScenarioError :=
  match tree.streamOf? entry.stream with
  | none => (r, some (.unknownStream number entry.stream))
  | some s =>
    match tree.parent? s with
    | none => (r, some (.rootEntry number entry.stream))
    | some parent =>
      let (event, names) := r.names.event entry.parent
      match (r.sets.holding parent event)[entry.parentChoice.getD 0]? with
      | none => ({ r with names }, some (.parentNotHeld number entry.stream entry.parent))
      | some place =>
        let (events, names) := names.events entry.events
        (⟨names, (r.sets.pushMatch s place event events).2⟩, none)

/-- Resolve entries in order, up to the first that fails. -/
def addEntries (tree : JoinTree) (number : Nat) (r : Resolution) :
    List MatchEntry → Resolution × Option ScenarioError
  | [] => (r, none)
  | entry :: rest =>
    match r.addEntry tree number entry with
    | (r, some e) => (r, some e)
    | (r, none) => addEntries tree number r rest

/-- Resolve a pass, which has a number in its scenario. -/
def ofPass (tree : JoinTree) (names : Interner) (number : Nat) (pass : PassEntry) :
    Resolution × Option ScenarioError :=
  let (rootEvents, names) := names.events pass.root
  addEntries tree number ⟨names, .ofRoot tree.size tree.root rootEvents⟩ pass.matched

end Resolution

end JoinAssembly
