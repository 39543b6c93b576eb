import JoinAssembly.JoinNode.Delivery

/-!
# Products

The node of a stream with several children keeps the rows of its children. When all children are
done, it combines for every event of its own the rows that came for it, one of each child.
-/

namespace JoinAssembly

/-- A child of a product. -/
structure Factor where
  stream : StreamIndex
  optional : Bool
  /-- The slots that a row of the child may fill. -/
  slots : List StreamIndex
deriving DecidableEq

/-- A row of a child that waits for the other children. -/
structure Arrival (ε : Type) where
  /-- The event of the product's stream that the row came for. -/
  cursor : Cursor
  sender : StreamIndex
  row : Row ε
deriving DecidableEq

structure Product (ε : Type) where
  factors : List Factor
  /-- The waiting rows in order of arrival. -/
  waiting : List (Arrival ε)
deriving DecidableEq

namespace Product

variable {ε : Type}

/-- Start a pass. -/
def start (p : Product ε) : Product ε := ⟨p.factors, []⟩

/-- Every row of a first list with every row of a second one, the first varying slowest. -/
def cross (slots : List StreamIndex) (bases rows : List (Row ε)) :
    Except AssemblyError (List (Row ε)) :=
  (bases.flatMap fun base => rows.map fun row => (base, row)).mapM fun (base, row) =>
    base.merge row slots

/-- Combine rows with those of each child in turn. A child without rows is passed over if it is
optional and leaves no rows if it is required. -/
def combine (rowsOf : StreamIndex → List (Row ε)) (bases : List (Row ε)) :
    List Factor → Except AssemblyError (List (Row ε))
  | [] => .ok bases
  | f :: rest =>
    match rowsOf f.stream with
    | [] => if f.optional then combine rowsOf bases rest else .ok []
    | row :: rows => do
      let bases ← cross f.slots bases (row :: rows)
      combine rowsOf bases rest

/-- The rows of one child among the waiting ones. -/
def rowsOf (waiting : List (Arrival ε)) (sender : StreamIndex) : List (Row ε) :=
  (waiting.filter fun a => a.sender == sender).map (·.row)

/-- Emit the rows of one event from the rows that wait for it. -/
def emitFor (factors : List Factor) (seat : Seat) (o : Occurrence ε)
    (waiting : List (Arrival ε)) : Emission ε :=
  let rows := do
    let seed ← seat.seed o.event
    combine (rowsOf waiting) [seed] factors
  match rows with
  | .error e => ⟨[], some e⟩
  | .ok rows => .forEach (fun row => .ofExcept (seat.send o row)) rows

/-- Emit the rows of some events, up to the first error. The rows that wait for an event are dropped
when it is reached. -/
def drain (factors : List Factor) (seat : Seat) (waiting : List (Arrival ε)) :
    List (Occurrence ε) → List (Arrival ε) × Emission ε
  | [] => (waiting, .none)
  | o :: rest =>
    let (own, others) := waiting.partition fun a => a.cursor == o.cursor
    let emission := emitFor factors seat o own
    match emission.error with
    | some _ => (others, emission)
    | none =>
      let (left, later) := drain factors seat others rest
      (left, emission.andThen later)

/-- Emit the rows of all events of the stream. -/
def finish (p : Product ε) (seat : Seat) (m : MatchSets ε) : Product ε × Emission ε :=
  let (waiting, emission) := drain p.factors seat p.waiting (m.occurrences seat.stream)
  (⟨p.factors, waiting⟩, emission)

/-- Keep a row of a child. -/
def accept [DecidableEq ε] (p : Product ε) (seat : Seat) (m : MatchSets ε) (h : Handoff ε) :
    Product ε × Except AssemblyError Unit :=
  if p.factors.any fun f => f.stream == h.sender then
    match m.locate seat.stream h.place h.event with
    | .error e => (p, .error e)
    | .ok (_, position) =>
      (⟨p.factors, p.waiting ++ [⟨⟨h.place.index, position⟩, h.sender, h.row⟩]⟩, .ok ())
  else
    (p, .error (.notAChild seat.stream h.sender))

@[simp] theorem factors_accept [DecidableEq ε] (p : Product ε) (seat : Seat) (m : MatchSets ε)
    (h : Handoff ε) : (p.accept seat m h).1.factors = p.factors := by
  unfold accept
  split
  · split <;> rfl
  · rfl

end Product

end JoinAssembly
