/-!
# What can be wrong with a join tree

Every way in which the streams of a join fail to form a rooted tree, with the sentence that tells
the user.
-/

namespace JoinAssembly

/-- Index of a stream within a join; the stream's slot in a row has the same index. -/
abbrev StreamIndex := Nat

/-- Why streams do not form a join tree. -/
inductive TreeError where
  | empty
  | outOfRange (stream : StreamIndex) (size : Nat)
  | placedTwice (stream : StreamIndex)
  | missing (stream : StreamIndex)
  | noRoot
  | severalRoots (first second : StreamIndex)
  | parentOutOfRange (stream parent : StreamIndex)
  | cycle (stream : StreamIndex)
  | optionalRoot (stream : StreamIndex)
  | unknownName (name : String)
  | nameTwice (name : String)
deriving DecidableEq

/-- The sentence shown for an error. -/
def TreeError.message : TreeError → String
  | .empty => "Join tree has no streams"
  | .outOfRange stream size =>
    s!"Stream {stream} is out of range for a join of {size} streams"
  | .placedTwice stream => s!"Stream {stream} is declared more than once"
  | .missing stream => s!"Stream {stream} is never declared"
  | .noRoot => "Join tree has no root stream"
  | .severalRoots first second =>
    s!"Join tree has more than one root: streams {first} and {second}"
  | .parentOutOfRange stream parent =>
    s!"Stream {stream} names unknown parent stream {parent}"
  | .cycle stream =>
    s!"Stream {stream} is part of a cycle and cannot be reached from the root"
  | .optionalRoot stream => s!"Root stream {stream} cannot be optional"
  | .unknownName name => s!"Unknown stream name '{name}'"
  | .nameTwice name => s!"Stream name '{name}' is declared more than once"

end JoinAssembly
