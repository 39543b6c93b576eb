import JoinAssembly.JoinTree.Basic

/-!
# Outlines

A join tree is shown with one line per stream, each stream two columns deeper than its parent.
-/

namespace JoinAssembly

/-- A stream's place in an outline: its depth and its index. -/
abbrev OutlineEntry := Nat × StreamIndex

/-- The streams below a list of siblings, in the order of an outline, down to a number of levels. -/
def outlineBelow (children : StreamIndex → List StreamIndex) :
    Nat → Nat → List StreamIndex → List OutlineEntry
  | 0, _, _ => []
  | levels + 1, depth, siblings =>
    siblings.flatMap fun s =>
      (depth, s) :: outlineBelow children levels (depth + 1) (children s)

/-- The streams of a tree with their depths. No stream is deeper than there are streams. -/
def JoinTree.outline (t : JoinTree) : List OutlineEntry :=
  outlineBelow t.childrenOf t.size 0 [t.root]

/-- Two columns for every level of depth. -/
def indentation (depth : Nat) : String := String.ofList (List.replicate (2 * depth) ' ')

/-- The part a stream plays in a join. -/
def StreamNode.role (n : StreamNode) : String :=
  match n.parent, n.optional with
  | none, _ => "root"
  | some _, false => "required"
  | some _, true => "optional"

/-- The line of a stream in the outline of a tree. -/
def JoinTree.outlineLine (t : JoinTree) (entry : OutlineEntry) : String :=
  let (depth, s) := entry
  let role := ((t.node? s).map (·.role)).getD ""
  s!"{indentation depth}{t.label s} stream={s} {role}\n"

/-- The outline of a tree, one line per stream. -/
def JoinTree.outlineText (t : JoinTree) : String :=
  String.join (t.outline.map t.outlineLine)

end JoinAssembly
