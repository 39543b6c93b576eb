import JoinAssembly.DistinctList
import JoinAssembly.Text.Quoted

/-!
# References to events

An event that is reached in two ways is one event, and two events may look alike. Events are
therefore compared by reference; what they carry is kept beside them.
-/

namespace JoinAssembly

/-- A reference to an event. Equal references mean the same event. -/
structure EventRef where
  id : Nat
deriving DecidableEq

/-! ### Events with payloads -/

/-- The payloads of the events made so far. -/
structure EventStore (α : Type) where
  payloads : List α

namespace EventStore

variable {α : Type}

def empty : EventStore α := ⟨[]⟩

/-- One event for each of some payloads. -/
def ofList (payloads : List α) : EventStore α := ⟨payloads⟩

/-- Make a new event, different from all others. -/
def create (s : EventStore α) (payload : α) : EventRef × EventStore α :=
  (⟨s.payloads.length⟩, ⟨s.payloads ++ [payload]⟩)

def payload? (s : EventStore α) (e : EventRef) : Option α := s.payloads[e.id]?

/-- The text of an event is its payload. -/
def display (s : EventStore String) (e : EventRef) : String := (s.payload? e).getD ""

/-- The debug text of an event is that of its payload. -/
def debugText (s : EventStore String) (e : EventRef) : String := Text.quoted (s.display e)

end EventStore

/-! ### Named events -/

/-- The names that have been given to events. A name means one event, and an event has one name. -/
structure Interner where
  names : DistinctList String

namespace Interner

def empty : Interner := ⟨.empty⟩

/-- The event of a name, made on first use. -/
def event (i : Interner) (name : String) : EventRef × Interner :=
  let names := i.names.insert name
  (⟨names.toList.idxOf name⟩, ⟨names⟩)

/-- The events of a list of names. -/
def events (i : Interner) : List String → List EventRef × Interner
  | [] => ([], i)
  | name :: rest =>
    let (e, i) := i.event name
    let (es, i) := i.events rest
    (e :: es, i)

/-- The name of an event. -/
def name? (i : Interner) (e : EventRef) : Option String := i.names.toList[e.id]?

/-- The text of an event is its name. -/
def display (i : Interner) (e : EventRef) : String := (i.name? e).getD ""

/-- The event of a name bears the name. -/
@[simp] theorem name?_event (i : Interner) (name : String) :
    (i.event name).2.name? (i.event name).1 = some name := by
  have h : name ∈ (i.names.insert name).toList := by simp
  simp only [event, name?]
  rw [List.getElem?_eq_getElem (List.idxOf_lt_length_iff.2 h), List.getElem_idxOf]

end Interner

end JoinAssembly
