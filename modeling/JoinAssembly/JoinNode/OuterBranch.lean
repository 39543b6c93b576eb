import JoinAssembly.JoinNode.Delivery
import JoinAssembly.Assembly

/-!
# Outer branches

The node of a stream whose only child is optional passes on the rows of the child at once. When the
child is done, it emits a row with null slots below it for every event of its own that no row of the
child carried.
-/

namespace JoinAssembly

/-- How an outer branch keeps track of its events in a pass. -/
inductive Tracking (ε : Type) where
  /-- The stream has no matches. -/
  | absent
  /-- The stream has one event. -/
  | single (place : MatchRef) (event : ε)
  /-- The covered events are remembered one by one. -/
  | several
deriving DecidableEq

/-- The tracking for the match nodes of a stream. -/
def Tracking.choose {ε : Type} (fastPath : Bool) (s : StreamIndex) :
    List (MatchNode ε) → Tracking ε
  | [] => .absent
  | [node] =>
    match fastPath, node.events.toList with
    | true, [event] => .single ⟨s, 0⟩ event
    | _, _ => .several
  | _ => .several

structure OuterBranch (ε : Type) where
  child : StreamIndex
  tracking : Tracking ε
  /-- Whether a row of the child has come. -/
  received : Bool
  /-- The events that a row of the child carried. -/
  covered : List Cursor
deriving DecidableEq

namespace OuterBranch

variable {ε : Type}

def new (child : StreamIndex) : OuterBranch ε := ⟨child, .absent, false, []⟩

/-- Start a pass. -/
def start (b : OuterBranch ε) (seat : Seat) (m : MatchSets ε) (fastPath : Bool) :
    OuterBranch ε :=
  ⟨b.child, .choose fastPath seat.stream (m.nodesOf seat.stream), false, []⟩

variable [DecidableEq ε]

/-- Emit the rows of the events that no row of the child carried. -/
def finish (b : OuterBranch ε) (seat : Seat) (m : MatchSets ε) : Emission ε :=
  match b.tracking with
  | .absent => .none
  | .single place event =>
    if b.received then .none
    else .ofExcept do
      let (node, _) ← m.locate seat.stream place event
      node.send seat.stream seat.parent place.index (← seat.seed event)
  | .several =>
    .forEach (fun o => .ofExcept (seat.sendSeed o))
      ((m.occurrences seat.stream).filter fun o => !b.covered.contains o.cursor)

/-- Remember that a row of the child came for an event. -/
def cover (b : OuterBranch ε) (cursor : Cursor) : OuterBranch ε :=
  match b.tracking with
  | .several => { b with received := true, covered := cursor :: b.covered }
  | _ => { b with received := true }

/-- Take a row of the child: its event counts as covered, and the row goes on upward with the event
in it. -/
def accept (b : OuterBranch ε) (seat : Seat) (m : MatchSets ε) (h : Handoff ε) :
    OuterBranch ε × Except AssemblyError (Delivery ε) :=
  if h.sender ≠ b.child then
    (b, .error (.notAChild seat.stream h.sender))
  else
    match m.locate seat.stream h.place h.event with
    | .error e => (b, .error e)
    | .ok (node, position) =>
      (b.cover ⟨h.place.index, position⟩, do
        let row ← h.row.set seat.stream h.event
        node.send seat.stream seat.parent h.place.index row)

@[simp] theorem child_accept (b : OuterBranch ε) (seat : Seat) (m : MatchSets ε)
    (h : Handoff ε) : (b.accept seat m h).1.child = b.child := by
  unfold accept cover
  split
  · rfl
  · split
    · rfl
    · split <;> rfl

end OuterBranch

end JoinAssembly
