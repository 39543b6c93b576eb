import JoinAssembly.JoinNode.Basic
import JoinAssembly.JoinTree.Outline

/-!
# Assemblers

An assembler holds the nodes of one join and runs passes over them.
-/

namespace JoinAssembly

structure Assembler (ε : Type) where
  tree : JoinTree
  options : AssemblyOptions
  /-- The node of stream `s` is the `s`-th. -/
  nodes : List (JoinNode ε)
  /-- What has been emitted and not yet routed. -/
  pending : List (Delivery ε)
  /-- The number of passes that succeeded. -/
  passes : Nat
deriving DecidableEq

namespace Assembler

variable {ε : Type}

def new (tree : JoinTree) (options : AssemblyOptions) : Assembler ε :=
  ⟨tree, options, JoinNode.allOfTree tree, [], 0⟩

def node? (a : Assembler ε) (s : StreamIndex) : Option (JoinNode ε) := a.nodes[s]?

/-- The line of a stream in the plan of an assembler. -/
def planLine (a : Assembler ε) (entry : OutlineEntry) : String :=
  let (depth, s) := entry
  let kind := ((a.node? s).map (·.kind.text)).getD ""
  let mark := if a.tree.isOptional s then " optional" else ""
  s!"{indentation depth}{kind} stream={s} ({a.tree.label s}){mark}\n"

/-- The plan of an assembler, one line per node. -/
def plan (a : Assembler ε) : String := String.join (a.tree.outline.map a.planLine)

/-- An assembler in short. -/
def summary (a : Assembler ε) : String :=
  s!"AssemblyDriver \x7b num_streams: {a.nodes.length}, root: {a.tree.root}, "
    ++ s!"options: {a.options.text}, passes: {a.passes} \x7d"

end Assembler

end JoinAssembly
