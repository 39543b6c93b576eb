import JoinAssembly.MatchSets.Basic
import JoinAssembly.Row

/-!
# Deliveries

A row that a stream emits is handed to the parent stream, along the link of the match node that
holds the stream's event. The rows of the root are complete.
-/

namespace JoinAssembly

variable {ε : Type}

/-- A partial row on its way from a stream to its parent. -/
structure Handoff (ε : Type) where
  row : Row ε
  sender : StreamIndex
  /-- The event of the parent stream that the sender's event was matched against. -/
  event : ε
  /-- The parent stream's match node that holds the event. -/
  place : MatchRef
deriving DecidableEq

/-- Where an emitted row goes. -/
inductive Delivery (ε : Type) where
  | complete (row : Row ε)
  | toParent (stream : StreamIndex) (handoff : Handoff ε)
deriving DecidableEq

/-- Send a row upward from a match node of a stream, given by its place there. -/
def MatchNode.send (node : MatchNode ε) (s : StreamIndex) (parent : Option StreamIndex)
    (index : Nat) (row : Row ε) : Except AssemblyError (Delivery ε) :=
  match parent, node.parent with
  | none, none => .ok (.complete row)
  | none, some _ => .error (.rootLinked s index)
  | some _, none => .error (.notLinked s index)
  | some p, some link =>
    if link.place.stream = p then .ok (.toParent p ⟨row, s, link.event, link.place⟩)
    else .error (.linkedElsewhere s p link.place.stream)

/-- The match node that a row is handed to, and the place of the event in it. -/
def MatchSets.locate [DecidableEq ε] (m : MatchSets ε) (s : StreamIndex) (place : MatchRef)
    (event : ε) : Except AssemblyError (MatchNode ε × Nat) :=
  if place.stream ≠ s then .error (.wrongStream s place.stream)
  else
    match m.node? place with
    | none => .error (.noMatchNode s place.index)
    | some node =>
      match node.events.indexOf? event with
      | none => .error (.eventNotHeld s place.index)
      | some position => .ok (node, position)

/-! ### Emissions -/

/-- What a node emits, up to the error that stopped it. -/
structure Emission (ε : Type) where
  deliveries : List (Delivery ε)
  error : Option AssemblyError
deriving DecidableEq

namespace Emission

def none : Emission ε := ⟨[], Option.none⟩

def ofExcept : Except AssemblyError (Delivery ε) → Emission ε
  | .ok d => ⟨[d], Option.none⟩
  | .error e => ⟨[], some e⟩

/-- One emission after another; nothing follows an error. -/
def andThen (a b : Emission ε) : Emission ε :=
  match a.error with
  | some _ => a
  | Option.none => ⟨a.deliveries ++ b.deliveries, b.error⟩

/-- The emissions of the members of a list, up to the first error. -/
def forEach {α : Type} (emit : α → Emission ε) : List α → Emission ε
  | [] => none
  | a :: rest => (emit a).andThen (forEach emit rest)

@[simp] theorem none_andThen (b : Emission ε) : none.andThen b = b := rfl

@[simp] theorem andThen_none (a : Emission ε) : a.andThen none = a := by
  obtain ⟨deliveries, _ | e⟩ := a <;> simp [andThen, none]

/-- If no member of a list runs into an error, all that they emit is emitted in order. -/
theorem forEach_of_ok {α : Type} {emit : α → Emission ε} {l : List α} {f : α → List (Delivery ε)}
    (h : ∀ a ∈ l, emit a = ⟨f a, Option.none⟩) :
    forEach emit l = ⟨l.flatMap f, Option.none⟩ := by
  induction l with
  | nil => rfl
  | cons a rest ih =>
    rw [forEach, h a List.mem_cons_self, ih fun b hb => h b (List.mem_cons_of_mem _ hb)]
    simp [andThen]

end Emission

/-! ### Seats -/

/-- What a node knows of its place in the join: its stream, the parent stream and the number of
streams. -/
structure Seat where
  stream : StreamIndex
  parent : Option StreamIndex
  width : Nat
deriving DecidableEq

/-- Emit a row for an event of a stream. -/
def Seat.send (seat : Seat) (o : Occurrence ε) (row : Row ε) :
    Except AssemblyError (Delivery ε) :=
  o.node.send seat.stream seat.parent o.cursor.node row

/-- The row that holds only an event of the stream itself. -/
def Seat.seed (seat : Seat) (event : ε) : Except AssemblyError (Row ε) :=
  Row.seed seat.width seat.stream event

/-- Emit the row that holds only an event of the stream itself. -/
def Seat.sendSeed (seat : Seat) (o : Occurrence ε) : Except AssemblyError (Delivery ε) := do
  seat.send o (← seat.seed o.event)

end JoinAssembly
