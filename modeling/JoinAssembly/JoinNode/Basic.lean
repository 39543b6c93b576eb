import JoinAssembly.JoinNode.OuterBranch
import JoinAssembly.JoinNode.Product

/-!
# Join nodes

Every stream of a join has a node that makes its rows. Its kind follows from the stream's children:

* a leaf, without children, emits a row for every event of its own;
* an inner branch, with one required child, only passes rows of the child on;
* an outer branch, with one optional child, adds rows for the events the child did not cover;
* a product, with several children, combines their rows.

In a pass a node is started, accepts the rows of its children, and finishes with the rows for its
own events.
-/

namespace JoinAssembly

inductive JoinKind where
  | leaf
  | inner
  | outer
  | product
deriving DecidableEq

/-- The word for a kind in plans and in the log. -/
def JoinKind.text : JoinKind → String
  | .leaf => "leaf"
  | .inner => "required-branch"
  | .outer => "optional-branch"
  | .product => "product"

/-- How a node makes rows, with what it remembers during a pass. -/
inductive NodeState (ε : Type) where
  | leaf
  | inner (child : StreamIndex)
  | outer (branch : OuterBranch ε)
  | product (product : Product ε)
deriving DecidableEq

structure JoinNode (ε : Type) where
  seat : Seat
  state : NodeState ε
deriving DecidableEq

namespace JoinNode

variable {ε : Type}

def stream (n : JoinNode ε) : StreamIndex := n.seat.stream

def kind (n : JoinNode ε) : JoinKind :=
  match n.state with
  | .leaf => .leaf
  | .inner _ => .inner
  | .outer _ => .outer
  | .product _ => .product

/-- The state of a stream's node before the first pass. -/
def stateFor (tree : JoinTree) (s : StreamIndex) : NodeState ε :=
  match tree.childrenOf s with
  | [] => .leaf
  | [child] => if tree.isOptional child then .outer (.new child) else .inner child
  | children => .product ⟨children.map fun c => ⟨c, tree.isOptional c, tree.subtree c⟩, []⟩

/-- The node of a stream of a tree. -/
def ofTree (tree : JoinTree) (s : StreamIndex) : JoinNode ε :=
  ⟨⟨s, tree.parent? s, tree.size⟩, stateFor tree s⟩

/-- The nodes of all streams of a tree. -/
def allOfTree (tree : JoinTree) : List (JoinNode ε) := (List.range tree.size).map (ofTree tree)

@[simp] theorem length_allOfTree (tree : JoinTree) :
    (allOfTree tree : List (JoinNode ε)).length = tree.size := by simp [allOfTree]

/-! ### The course of a pass -/

/-- Start a pass. -/
def start (n : JoinNode ε) (m : MatchSets ε) (options : AssemblyOptions) : JoinNode ε :=
  match n.state with
  | .leaf | .inner _ => n
  | .outer b => { n with state := .outer (b.start n.seat m options.fastPath) }
  | .product p => { n with state := .product p.start }

@[simp] theorem seat_start (n : JoinNode ε) (m : MatchSets ε) (options : AssemblyOptions) :
    (n.start m options).seat = n.seat := by
  obtain ⟨seat, _ | _ | _ | _⟩ := n <;> rfl

variable [DecidableEq ε]

/-- Emit the rows that start at this node, once its children are done. -/
def finish (n : JoinNode ε) (m : MatchSets ε) : JoinNode ε × Emission ε :=
  match n.state with
  | .leaf =>
    (n, .forEach (fun o => .ofExcept (n.seat.sendSeed o)) (m.occurrences n.stream))
  | .inner _ => (n, .none)
  | .outer b => (n, b.finish n.seat m)
  | .product p =>
    let (p, emission) := p.finish n.seat m
    ({ n with state := .product p }, emission)

/-- Pass a row of the one required child on, with the stream's event in it. -/
def forward (seat : Seat) (child : StreamIndex) (m : MatchSets ε) (h : Handoff ε) :
    Except AssemblyError (Delivery ε) := do
  if h.sender ≠ child then throw (.notAChild seat.stream h.sender)
  let (node, _) ← m.locate seat.stream h.place h.event
  let row ← h.row.set seat.stream h.event
  node.send seat.stream seat.parent h.place.index row

/-- Accept a row of a child. The answer is where a row goes on to, or nothing if the row is kept. -/
def accept (n : JoinNode ε) (m : MatchSets ε) (h : Handoff ε) :
    JoinNode ε × Except AssemblyError (Option (Delivery ε)) :=
  match n.state with
  | .leaf => (n, .error (.notAChild n.stream h.sender))
  | .inner child => (n, (forward n.seat child m h).map some)
  | .outer b =>
    let (b, answer) := b.accept n.seat m h
    ({ n with state := .outer b }, answer.map some)
  | .product p =>
    let (p, answer) := p.accept n.seat m h
    ({ n with state := .product p }, answer.map fun _ => none)

/-! ### What never changes -/

@[simp] theorem seat_accept (n : JoinNode ε) (m : MatchSets ε) (h : Handoff ε) :
    (n.accept m h).1.seat = n.seat := by
  obtain ⟨seat, _ | _ | _ | _⟩ := n <;> rfl

end JoinNode

end JoinAssembly
