import JoinAssembly.DistinctList
import JoinAssembly.JoinTree.Basic

/-!
# Match sets

For one pass, the events that each stream matched. The events found for one event of the parent
stream form a match node, which links back to that event and to the match node that holds it. Match
nodes of the root stream have no link.
-/

namespace JoinAssembly

/-- The address of a match node: its stream and its place among the stream's match nodes. -/
structure MatchRef where
  stream : StreamIndex
  index : Nat
deriving DecidableEq

/-- The event of a parent stream that events were matched against, together with the match node that
holds it. Where there is the one there is the other. -/
structure ParentLink (ε : Type) where
  /-- The match node that holds the event. -/
  place : MatchRef
  event : ε
deriving DecidableEq

/-- The events of a stream that matched one event of its parent stream. -/
structure MatchNode (ε : Type) where
  stream : StreamIndex
  parent : Option (ParentLink ε)
  events : DistinctList ε
deriving DecidableEq

/-- One event of a stream: the match node it is in and its place there. -/
structure Cursor where
  node : Nat
  position : Nat
deriving DecidableEq

/-- An event of a stream together with its place. -/
structure Occurrence (ε : Type) where
  cursor : Cursor
  node : MatchNode ε
  event : ε

/-- The match nodes of one pass; those of stream `s` are the `s`-th of `streams`. -/
structure MatchSets (ε : Type) where
  streams : List (List (MatchNode ε))
deriving DecidableEq

namespace MatchSets

variable {ε : Type}

def empty (width : Nat) : MatchSets ε := ⟨List.replicate width []⟩

/-- The number of streams. -/
def width (m : MatchSets ε) : Nat := m.streams.length

/-- The match nodes of a stream; none for a stream outside the sets. -/
def nodesOf (m : MatchSets ε) (s : StreamIndex) : List (MatchNode ε) := m.streams[s]?.getD []

def node? (m : MatchSets ε) (place : MatchRef) : Option (MatchNode ε) :=
  (m.nodesOf place.stream)[place.index]?

/-- The events of a stream, match node after match node, each in order of insertion. -/
def occurrences (m : MatchSets ε) (s : StreamIndex) : List (Occurrence ε) :=
  (m.nodesOf s).zipIdx.flatMap fun (node, index) =>
    node.events.toList.zipIdx.map fun (event, position) => ⟨⟨index, position⟩, node, event⟩

/-- The events of a stream with the addresses of their match nodes. -/
def cursors (m : MatchSets ε) (s : StreamIndex) : List (MatchRef × ε) :=
  (m.occurrences s).map fun o => (⟨s, o.cursor.node⟩, o.event)

/-- The number of events of a stream, counted once per match node. -/
def countEvents (m : MatchSets ε) (s : StreamIndex) : Nat :=
  (m.nodesOf s).foldl (fun count node => count + node.events.size) 0

/-- Forget all match nodes, keeping the number of streams. -/
def clear (m : MatchSets ε) : MatchSets ε := empty m.width

/-- Have exactly a given number of streams: streams beyond it are dropped, new ones have no match
nodes. -/
def resize (m : MatchSets ε) (width : Nat) : MatchSets ε :=
  ⟨m.streams.take width ++ List.replicate (width - m.width) []⟩

@[simp] theorem width_empty (n : Nat) : (empty n : MatchSets ε).width = n := by
  simp [empty, width]

@[simp] theorem width_clear (m : MatchSets ε) : m.clear.width = m.width := by simp [clear]

@[simp] theorem width_resize (m : MatchSets ε) (n : Nat) : (m.resize n).width = n := by
  simp [resize, width]
  omega

@[simp] theorem nodesOf_empty (n : Nat) (s : StreamIndex) :
    (empty n : MatchSets ε).nodesOf s = [] := by
  simp only [nodesOf, empty, List.getElem?_replicate]
  split <;> rfl

/-! ### Adding match nodes -/

variable [DecidableEq ε]

/-- Add a match node to a stream. Without events, or for a stream outside the sets, nothing is
added. -/
def push (m : MatchSets ε) (s : StreamIndex) (parent : Option (ParentLink ε)) (events : List ε) :
    Option MatchRef × MatchSets ε :=
  match m.streams[s]? with
  | none => (none, m)
  | some nodes =>
    let distinct := DistinctList.ofList events
    if distinct.isEmpty then (none, m)
    else (some ⟨s, nodes.length⟩, ⟨m.streams.set s (nodes ++ [⟨s, parent, distinct⟩])⟩)

/-- Add events of the root stream. -/
def pushRoot (m : MatchSets ε) (s : StreamIndex) (events : List ε) :
    Option MatchRef × MatchSets ε :=
  m.push s none events

/-- Add the events that matched an event of the parent stream. -/
def pushMatch (m : MatchSets ε) (s : StreamIndex) (place : MatchRef) (event : ε)
    (events : List ε) : Option MatchRef × MatchSets ε :=
  m.push s (some ⟨place, event⟩) events

/-- Match sets that hold only events of the root stream. -/
def ofRoot (width : Nat) (root : StreamIndex) (events : List ε) : MatchSets ε :=
  ((empty width).pushRoot root events).2

@[simp] theorem width_push (m : MatchSets ε) (s : StreamIndex) (parent : Option (ParentLink ε))
    (events : List ε) : (m.push s parent events).2.width = m.width := by
  unfold push
  split
  · rfl
  · simp only []
    split <;> simp [width]

end MatchSets

end JoinAssembly
