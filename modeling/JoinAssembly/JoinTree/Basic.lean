import JoinAssembly.JoinTree.Error

/-!
# Join trees

A join tree is the shape of a join over several streams. Every stream occurs once; each one but the
root has a parent and is joined to it either as required (no match, no row) or as optional (no
match, null slots). The walks of the tree are part of it, so that evaluation never has to descend.
-/

namespace JoinAssembly

/-- The place of one stream in a join tree. -/
structure StreamNode where
  stream : StreamIndex
  /-- The stream this one is joined to; none for the root. -/
  parent : Option StreamIndex
  /-- Whether the stream is outer-joined to its parent. -/
  optional : Bool
  /-- The streams joined to this one, in ascending order. -/
  children : List StreamIndex
  name : Option String
deriving DecidableEq

def StreamNode.isRoot (n : StreamNode) : Bool := n.parent.isNone

def StreamNode.isLeaf (n : StreamNode) : Bool := n.children.isEmpty

/-- The name of a stream, or its index after a hash sign when it has none. -/
def StreamNode.label (n : StreamNode) : String :=
  match n.name with
  | some name => name
  | none => s!"#{n.stream}"

/-- A join tree together with its walks. The node of stream `s` is the `s`-th of `nodes`. -/
structure JoinTree where
  nodes : List StreamNode
  root : StreamIndex
  /-- Parents before children, siblings in ascending order. -/
  preorder : List StreamIndex
  /-- Children before parents, the root last. -/
  postorder : List StreamIndex
  /-- For every stream the streams of its subtree, itself first. -/
  subtrees : List (List StreamIndex)
deriving DecidableEq

namespace JoinTree

/-- The number of streams. -/
def size (t : JoinTree) : Nat := t.nodes.length

def node? (t : JoinTree) (s : StreamIndex) : Option StreamNode := t.nodes[s]?

/-- The parent of a stream; none for the root and for a stream outside the tree. -/
def parent? (t : JoinTree) (s : StreamIndex) : Option StreamIndex :=
  (t.node? s).bind (·.parent)

/-- The children of a stream; none for a stream outside the tree. -/
def childrenOf (t : JoinTree) (s : StreamIndex) : List StreamIndex :=
  match t.node? s with
  | some n => n.children
  | none => []

def isOptional (t : JoinTree) (s : StreamIndex) : Bool :=
  match t.node? s with
  | some n => n.optional
  | none => false

/-- The streams of the subtree below a stream, itself first. -/
def subtree (t : JoinTree) (s : StreamIndex) : List StreamIndex := t.subtrees[s]?.getD []

/-- The label of a stream; a stream outside the tree has no name. -/
def label (t : JoinTree) (s : StreamIndex) : String :=
  match t.node? s with
  | some n => n.label
  | none => s!"#{s}"

/-- The first stream that bears a name. -/
def streamOf? (t : JoinTree) (name : String) : Option StreamIndex :=
  (t.nodes.find? fun n => n.name == some name).map (·.stream)

/-- The nodes with children before parents, the root's last. -/
def bottomUp (t : JoinTree) : List StreamNode := t.postorder.filterMap t.node?

end JoinTree

end JoinAssembly
