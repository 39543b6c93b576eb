import JoinAssembly.JoinTree.Error

/-!
# Options and errors of an assembly

The options may change how fast rows are assembled, never which.
-/

namespace JoinAssembly

/-! ### Options -/

structure AssemblyOptions where
  /-- Whether an outer branch with a single matched event remembers just that a row came. -/
  fastPath : Bool := true
  /-- Rows to make room for at the start of a pass. -/
  rowCapacity : Nat := 16
deriving DecidableEq

instance : Inhabited AssemblyOptions := ⟨{}⟩

/-- The options field by field. -/
def AssemblyOptions.text (o : AssemblyOptions) : String :=
  s!"AssemblyOptions \x7b single_result_fast_path: {o.fastPath}, "
    ++ s!"row_capacity: {o.rowCapacity} \x7d"

/-! ### What can go wrong while rows are assembled -/

/-- Why rows cannot be assembled. -/
inductive AssemblyError where
  /-- The match sets are for a join of another size. -/
  | widthMismatch (expected actual : Nat)
  /-- The slot of a stream is filled already. -/
  | slotTaken (stream : StreamIndex)
  /-- The row has no slot for a stream. -/
  | slotMissing (stream : StreamIndex) (width : Nat)
  /-- A stream is called back for a match node that it does not have. -/
  | noMatchNode (stream : StreamIndex) (index : Nat)
  /-- A stream is called back for a match node of another stream. -/
  | wrongStream (stream actual : StreamIndex)
  /-- A stream is called back for an event that the match node does not hold. -/
  | eventNotHeld (stream : StreamIndex) (index : Nat)
  /-- A match node of a stream other than the root links to no parent. -/
  | notLinked (stream : StreamIndex) (index : Nat)
  /-- A match node of the root links to a parent. -/
  | rootLinked (stream : StreamIndex) (index : Nat)
  /-- A match node links to a stream that is not the parent. -/
  | linkedElsewhere (stream expected actual : StreamIndex)
  /-- A stream receives a row from a stream that is not its child. -/
  | notAChild (stream sender : StreamIndex)
deriving DecidableEq

/-- The sentence shown for an error. -/
def AssemblyError.message : AssemblyError → String
  | .widthMismatch expected actual =>
    s!"Match sets cover {actual} streams but the join tree has {expected}"
  | .slotTaken stream => s!"Row slot for stream {stream} written twice"
  | .slotMissing stream width => s!"Row slot {stream} is outside a row of width {width}"
  | .noMatchNode stream index =>
    s!"Match node {index} of stream {stream} does not exist"
  | .wrongStream stream actual =>
    s!"Stream {stream} received a match reference for stream {actual}"
  | .eventNotHeld stream index =>
    s!"Result for stream {stream} names an event missing from match node {index}"
  | .notLinked stream index =>
    s!"Match node {index} of stream {stream} has no parent link"
  | .rootLinked stream index =>
    s!"Match node {index} of root stream {stream} links to a parent"
  | .linkedElsewhere stream expected actual =>
    s!"Match node of stream {stream} links to stream {actual}, "
      ++ s!"expected parent stream {expected}"
  | .notAChild stream sender =>
    s!"Stream {stream} received a result from stream {sender}, "
      ++ "which is not one of its children"

end JoinAssembly
