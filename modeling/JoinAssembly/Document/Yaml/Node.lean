import JoinAssembly.Document.Value

/-!
# Values that are used again

A value of a YAML text may be given a name, its anchor, and be used again under it elsewhere. Names
may be given anew, so anchors are told apart by numbers. A number may be given twice; then it stands
for the later of the two values, even where it was used before.
-/

namespace JoinAssembly.Yaml

/-- A value of a text, with the places where it is anchored or used again. -/
inductive Node where
  | scalar (v : Value)
  | list (elements : List Node)
  | record (fields : List (Node × Node))
  | anchored (number : Nat) (n : Node)
  | reference (number : Nat)

/-! ### Anchors -/

mutual

/-- The anchored values of a value and their numbers, in the order of the text. -/
def Node.anchors : Node → List (Nat × Node)
  | .scalar _ | .reference _ => []
  | .list elements => anchorsOfList elements
  | .record fields => anchorsOfFields fields
  | .anchored k n => (k, n) :: n.anchors

def anchorsOfList : List Node → List (Nat × Node)
  | [] => []
  | n :: ns => n.anchors ++ anchorsOfList ns

def anchorsOfFields : List (Node × Node) → List (Nat × Node)
  | [] => []
  | (k, v) :: fields => k.anchors ++ v.anchors ++ anchorsOfFields fields

end

/-! ### Values -/

/-- The text of a key that is a scalar. -/
def keyText? : Value → Option String
  | .text s | .plain s | .tagged _ s | .taggedBlock _ s => some s
  | _ => none

/-- The record of some fields. It is not readable if some key is no scalar. -/
def recordOf (fields : List (Value × Value)) : Value :=
  match fields.mapM fun (k, v) => (keyText? k).map (·, v) with
  | some fields => .record fields
  | none => .unreadable

/-- The values that numbers stand for. -/
abbrev Meanings := List (Nat × Value)

/-- The value that a number stands for. It is not readable if nothing is known of the number. -/
def Meanings.get (m : Meanings) (number : Nat) : Value := (m.lookup number).getD .unreadable

mutual

/-- The value of a node, with values in the places where they are used again. -/
def Node.value (m : Meanings) : Node → Value
  | .scalar v => v
  | .list elements => .list (valuesOfList m elements)
  | .record fields => recordOf (valuesOfFields m fields)
  | .anchored _ n => n.value m
  | .reference k => m.get k

def valuesOfList (m : Meanings) : List Node → List Value
  | [] => []
  | n :: ns => n.value m :: valuesOfList m ns

def valuesOfFields (m : Meanings) : List (Node × Node) → List (Value × Value)
  | [] => []
  | (k, v) :: fields => (k.value m, v.value m) :: valuesOfFields m fields

end

/-- The values that the numbers of some anchors stand for. As a value may hold itself, values inside
values are followed only to a depth. -/
def meanings (anchors : List (Nat × Node)) : Nat → Meanings
  | 0 => []
  | depth + 1 =>
    let inner := meanings anchors depth
    anchors.map fun (k, n) => (k, n.value inner)

/-- The depth to which values inside values are followed. No reader takes a value apart so far. -/
def meaningDepth : Nat := 16

/-- The value of a whole text. -/
def Node.resolve (n : Node) : Value := n.value (meanings n.anchors.reverse meaningDepth)

end JoinAssembly.Yaml
