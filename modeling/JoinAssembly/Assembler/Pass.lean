import JoinAssembly.Assembler.Basic
import JoinAssembly.Log

/-!
# Passes

In a pass all nodes are started, then finished with children before parents. Whatever a node emits
is routed upward before the next node is finished: it ends at a product, which keeps it, or past the
root, where it is a row of the result. The journal of a pass lists the calls of nodes in order.
-/

namespace JoinAssembly

variable {ε : Type}

/-- A call of a node. -/
inductive NodeCall (ε : Type) where
  | start (stream : StreamIndex)
  /-- A node was finished, with so many deliveries still queued from before. -/
  | finish (stream : StreamIndex) (kind : JoinKind) (queued : Nat) (emission : Emission ε)
  | accept (stream : StreamIndex) (handoff : Handoff ε)
      (answer : Except AssemblyError (Option (Delivery ε)))

/-! ### Routing -/

/-- The outcome of routing: the nodes, the complete rows, the calls made, and what stopped it. -/
structure Routed (ε : Type) where
  nodes : List (JoinNode ε)
  rows : List (Row ε)
  journal : List (NodeCall ε)
  error : Option AssemblyError

/-- Route one delivery upward through at most a number of nodes. -/
def route [DecidableEq ε] (m : MatchSets ε) :
    Nat → List (JoinNode ε) → Delivery ε → Routed ε
  | _, nodes, .complete row => ⟨nodes, [row], [], none⟩
  | 0, nodes, .toParent _ _ => ⟨nodes, [], [], none⟩
  | steps + 1, nodes, .toParent s h =>
    match nodes[s]? with
    | none => ⟨nodes, [], [], none⟩
    | some node =>
      let (node, answer) := node.accept m h
      let nodes := nodes.set s node
      match answer with
      | .error e => ⟨nodes, [], [.accept s h answer], some e⟩
      | .ok none => ⟨nodes, [], [.accept s h answer], none⟩
      | .ok (some next) =>
        let routed := route m steps nodes next
        { routed with journal := .accept s h answer :: routed.journal }

/-- Route deliveries in order, up to the first error. No delivery passes more nodes than there
are. -/
def routeAll [DecidableEq ε] (m : MatchSets ε) (nodes : List (JoinNode ε)) :
    List (Delivery ε) → Routed ε
  | [] => ⟨nodes, [], [], none⟩
  | d :: rest =>
    let first := route m nodes.length nodes d
    match first.error with
    | some _ => first
    | none =>
      let later := routeAll m first.nodes rest
      ⟨later.nodes, first.rows ++ later.rows, first.journal ++ later.journal, later.error⟩

/-! ### The course of a pass -/

/-- The state of a pass: the assembler, the collection that takes the rows, and the calls made. -/
structure PassState (ε : Type) where
  assembler : Assembler ε
  collection : RowCollection ε
  journal : List (NodeCall ε)

namespace PassState

/-- Start a pass on every node. -/
def startAll (p : PassState ε) (m : MatchSets ε) : PassState ε :=
  let nodes := p.assembler.nodes
  { p with
    assembler := { p.assembler with nodes := nodes.map fun n => n.start m p.assembler.options }
    journal := p.journal ++ nodes.map fun n => .start n.stream }

variable [DecidableEq ε]

/-- Finish the node of a stream; what it emits is queued. -/
def finish (p : PassState ε) (m : MatchSets ε) (s : StreamIndex) :
    PassState ε × Option AssemblyError :=
  match p.assembler.nodes[s]? with
  | none => (p, none)
  | some node =>
    let (node', emission) := node.finish m
    let queued := p.assembler.pending
    ({ p with
        assembler := { p.assembler with
          nodes := p.assembler.nodes.set s node'
          pending := queued ++ emission.deliveries }
        journal := p.journal ++ [.finish s node.kind queued.length emission] },
      emission.error)

/-- Route all that is queued. -/
def routePending (p : PassState ε) (m : MatchSets ε) : PassState ε × Option AssemblyError :=
  let routed := routeAll m p.assembler.nodes p.assembler.pending
  ({ assembler := { p.assembler with nodes := routed.nodes, pending := [] }
     collection := p.collection.append routed.rows
     journal := p.journal ++ routed.journal },
    routed.error)

/-- Finish streams in order, routing what each emits, up to the first error. -/
def finishAll (m : MatchSets ε) (p : PassState ε) :
    List StreamIndex → PassState ε × Option AssemblyError
  | [] => (p, none)
  | s :: rest =>
    match p.finish m s with
    | (p, some e) => (p, some e)
    | (p, none) =>
      match p.routePending m with
      | (p, some e) => (p, some e)
      | (p, none) => finishAll m p rest

/-- Assemble the rows of some match sets. -/
def assembleRows (p : PassState ε) (m : MatchSets ε) : PassState ε × Option AssemblyError :=
  if m.width ≠ p.assembler.nodes.length then
    (p, some (.widthMismatch p.assembler.nodes.length m.width))
  else
    finishAll m (p.startAll m) p.assembler.tree.postorder

end PassState

/-! ### Running a pass -/

/-- The outcome of a pass. -/
structure PassOutcome (ε : Type) where
  assembler : Assembler ε
  collection : RowCollection ε
  /-- The calls of nodes, in order. -/
  journal : List (NodeCall ε)
  /-- Why the pass was aborted, if it was. -/
  error : Option AssemblyError

/-- The rows of a pass, or why it was aborted. -/
def PassOutcome.rows (o : PassOutcome ε) : Except AssemblyError (RowCollection ε) :=
  match o.error with
  | none => .ok o.collection
  | some e => .error e

namespace Assembler

variable [DecidableEq ε]

/-- Run a pass that appends its rows to a collection. If the pass fails, the collection is cut back
to what it was, the queue is emptied, and the pass is not counted. -/
def runInto (a : Assembler ε) (m : MatchSets ε) (c : RowCollection ε) : PassOutcome ε :=
  match PassState.assembleRows ⟨a, c, []⟩ m with
  | (p, none) =>
    ⟨{ p.assembler with passes := p.assembler.passes + 1 }, p.collection, p.journal, none⟩
  | (p, some e) =>
    ⟨{ p.assembler with pending := [] }, p.collection.truncate c.size, p.journal, some e⟩

/-- Run a pass. -/
def run (a : Assembler ε) (m : MatchSets ε) : PassOutcome ε := a.runInto m .empty

end Assembler

/-! ### Log records -/

/-- The record of a call; only finishing a node without error leaves one. -/
def NodeCall.log? : NodeCall ε → Option LogRecord
  | .finish s kind queued ⟨deliveries, none⟩ =>
    some ⟨.trace, s!"Assembly: stream {s} processed as {kind.text}, "
      ++ s!"{queued + deliveries.length} deliveries pending"⟩
  | _ => none

/-- The records of a pass that began with a collection of a given size. -/
def PassOutcome.log (o : PassOutcome ε) (start : Nat) : List LogRecord :=
  let last := match o.error with
    | none => ⟨.debug, s!"Assembly pass {o.assembler.passes} produced "
        ++ s!"{o.collection.size - start} rows"⟩
    | some e => ⟨.error, s!"Assembly pass aborted: {e.message}"⟩
  o.journal.filterMap NodeCall.log? ++ [last]

end JoinAssembly
