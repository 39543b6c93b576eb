import JoinAssembly.JoinTree.Builder

/-!
# Joins given by name

A join can be given as a list of streams that name their parents; the `i`-th entry is stream `i`.
A parent may stand before or after the streams that name it.
-/

namespace JoinAssembly

/-- One stream of a join, with its parent given by name. -/
structure StreamEntry where
  name : String
  parent : Option String
  optional : Bool
deriving DecidableEq

namespace StreamEntry

/-- The name of the first entry that repeats an earlier one. -/
def firstRepeated (seen : List String) : List StreamEntry → Option String
  | [] => none
  | e :: rest => if e.name ∈ seen then some e.name else firstRepeated (e.name :: seen) rest

/-- The index of the stream with a name. -/
def indexOf? (entries : List StreamEntry) (name : String) : Option StreamIndex :=
  entries.findIdx? fun e => e.name == name

/-- The index of a parent given by name, if one is given. -/
def parentIndex (entries : List StreamEntry) :
    Option String → Except TreeError (Option StreamIndex)
  | none => .ok none
  | some name =>
    match indexOf? entries name with
    | some parent => .ok (some parent)
    | none => .error (.unknownName name)

/-- Place and name the streams of a list of entries, starting at a given index. -/
def placeAll (entries : List StreamEntry) (builder : TreeBuilder) (stream : StreamIndex) :
    List StreamEntry → Except TreeError TreeBuilder
  | [] => .ok builder
  | e :: rest => do
    let parent ← parentIndex entries e.parent
    placeAll entries ((builder.place stream ⟨parent, e.optional⟩).name stream e.name)
      (stream + 1) rest

end StreamEntry

/-- The join tree of a list of named streams. A repeated name is told before an unknown parent, and
that before anything wrong with the shape. -/
def JoinTree.ofEntries (entries : List StreamEntry) : Except TreeError JoinTree := do
  match StreamEntry.firstRepeated [] entries with
  | some name => throw (.nameTwice name)
  | none =>
    let builder ← StreamEntry.placeAll entries (.new entries.length) 0 entries
    builder.build

end JoinAssembly
