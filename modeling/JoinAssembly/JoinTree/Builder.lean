import JoinAssembly.JoinTree.Walk

/-!
# Building a join tree

A builder collects where the streams of a join are to be placed, in any order. What is wrong with a
single call is kept until `TreeBuilder.build`, which checks the placements and computes the walks.
-/

namespace JoinAssembly

/-- How a stream is placed: below a parent or as a root, and whether it is optional. -/
structure Placement where
  parent : Option StreamIndex
  optional : Bool
deriving DecidableEq

/-- One call to a builder. -/
inductive BuilderCall where
  | root (stream : StreamIndex)
  | required (stream parent : StreamIndex)
  | optional (stream parent : StreamIndex)
  | place (stream : StreamIndex) (placement : Placement)
  | name (stream : StreamIndex) (name : String)
deriving DecidableEq

/-- Placements and names collected for a fixed number of streams. -/
structure TreeBuilder where
  placed : List (Option Placement)
  names : List (Option String)
  /-- What was wrong with the calls so far, in call order. -/
  mistakes : List TreeError
deriving DecidableEq

namespace TreeBuilder

def new (size : Nat) : TreeBuilder := ⟨List.replicate size none, List.replicate size none, []⟩

/-- The number of streams. -/
def size (b : TreeBuilder) : Nat := b.placed.length

def addMistake (b : TreeBuilder) (e : TreeError) : TreeBuilder :=
  { b with mistakes := b.mistakes ++ [e] }

/-- Place a stream. The first placement of a stream stands. -/
def place (b : TreeBuilder) (stream : StreamIndex) (p : Placement) : TreeBuilder :=
  match b.placed[stream]? with
  | none => b.addMistake (.outOfRange stream b.names.length)
  | some (some _) => b.addMistake (.placedTwice stream)
  | some none => { b with placed := b.placed.set stream (some p) }

/-- Name a stream. The last name of a stream stands. -/
def name (b : TreeBuilder) (stream : StreamIndex) (name : String) : TreeBuilder :=
  if stream < b.names.length then
    { b with names := b.names.set stream (some name) }
  else
    b.addMistake (.outOfRange stream b.names.length)

def apply (b : TreeBuilder) : BuilderCall → TreeBuilder
  | .root stream => b.place stream ⟨none, false⟩
  | .required stream parent => b.place stream ⟨some parent, false⟩
  | .optional stream parent => b.place stream ⟨some parent, true⟩
  | .place stream placement => b.place stream placement
  | .name stream name => b.name stream name

/-- A builder after a sequence of calls. -/
def ofCalls (size : Nat) (calls : List BuilderCall) : TreeBuilder := calls.foldl apply (new size)

theorem size_new (n : Nat) : (new n).size = n := by simp [new, size]

@[simp] theorem size_place (b : TreeBuilder) (s : StreamIndex) (p : Placement) :
    (b.place s p).size = b.size := by
  unfold place
  split <;> simp [size, addMistake]

@[simp] theorem size_name (b : TreeBuilder) (s : StreamIndex) (n : String) :
    (b.name s n).size = b.size := by
  unfold name
  split <;> simp [size, addMistake]

@[simp] theorem size_apply (b : TreeBuilder) (c : BuilderCall) : (b.apply c).size = b.size := by
  cases c <;> simp [apply]

/-! ### Checks -/

/-- All placements in stream order, starting at a given stream; the first one missing is an
error. -/
def requirePlaced (stream : StreamIndex) :
    List (Option Placement) → Except TreeError (List Placement)
  | [] => .ok []
  | none :: _ => .error (.missing stream)
  | some p :: rest => do
    let ps ← requirePlaced (stream + 1) rest
    return p :: ps

/-- Look for the stream without parent in a join of a given size, and check the parents of the
others on the way. The root found so far is carried along. -/
def findRoot (size : Nat) (stream : StreamIndex) (root : Option StreamIndex) :
    List Placement → Except TreeError (Option StreamIndex)
  | [] => .ok root
  | p :: rest =>
    match p.parent, root with
    | none, none => findRoot size (stream + 1) (some stream) rest
    | none, some first => .error (.severalRoots first stream)
    | some parent, root =>
      if size ≤ parent then .error (.parentOutOfRange stream parent)
      else if parent = stream then .error (.cycle stream)
      else findRoot size (stream + 1) root rest

/-- The one stream without parent, which must not be optional. -/
def requireRoot (placements : List Placement) : Except TreeError StreamIndex := do
  match ← findRoot placements.length 0 none placements with
  | none => throw .noRoot
  | some root =>
    if placements[root]?.any (·.optional) then throw (.optionalRoot root)
    return root

/-- The streams that name a given parent, in ascending order. -/
def childrenIn (placements : List Placement) (parent : StreamIndex) : List StreamIndex :=
  placements.zipIdx.filterMap fun (p, s) => if p.parent = some parent then some s else none

/-- The smallest stream of a join of a given size that a walk missed. -/
def firstMissed (size : Nat) (walk : List StreamIndex) : Option StreamIndex :=
  (List.range size).find? fun s => !walk.contains s

/-! ### The tree -/

/-- The nodes of a tree from its checked placements. -/
def nodesFrom (placements : List Placement) (names : List (Option String)) : List StreamNode :=
  placements.zipIdx.map fun (p, s) =>
    ⟨s, p.parent, p.optional, childrenIn placements s, names[s]?.join⟩

/-- Compute the walks of checked placements. As every stream has one parent, what the walk from the
root misses hangs off a cycle. -/
def growTree (placements : List Placement) (names : List (Option String)) (root : StreamIndex) :
    Except TreeError JoinTree :=
  let size := placements.length
  let lists := (List.range size).map (childrenIn placements)
  let children := fun s => lists[s]?.getD []
  let preorder := preorderWalk children size root
  if preorder.length < size then
    .error (.cycle ((firstMissed size preorder).getD root))
  else
    let postorder := postorderWalk children size root
    .ok {
      nodes := nodesFrom placements names
      root := root
      preorder := preorder
      postorder := postorder
      subtrees := subtreeTable children size postorder }

/-- Check the placements and compute the tree. Mistakes in single calls come first, then a missing
placement, then the parents in stream order, then the root, then cycles. -/
def build (b : TreeBuilder) : Except TreeError JoinTree := do
  if b.size = 0 then throw .empty
  match b.mistakes.head? with
  | some e => throw e
  | none =>
    let placements ← requirePlaced 0 b.placed
    let root ← requireRoot placements
    growTree placements b.names root

end TreeBuilder

end JoinAssembly
