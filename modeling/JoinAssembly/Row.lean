import JoinAssembly.Assembly

/-!
# Rows

A row of a join has one slot per stream, null where an optional stream had no match. A slot is
written at most once.
-/

namespace JoinAssembly

/-- A row over events of a type; the slot of stream `s` is the `s`-th. -/
structure Row (ε : Type) where
  slots : List (Option ε)
deriving DecidableEq

namespace Row

variable {ε : Type}

/-- The row of a given width in which every slot is null. -/
def empty (width : Nat) : Row ε := ⟨List.replicate width none⟩

def width (r : Row ε) : Nat := r.slots.length

/-- The event at a stream's slot; none for a null slot and for a stream outside the row. -/
def get? (r : Row ε) (s : StreamIndex) : Option ε := r.slots[s]?.join

def isNull (r : Row ε) (s : StreamIndex) : Bool := (r.get? s).isNone

def countNulls (r : Row ε) : Nat := r.slots.countP Option.isNone

/-- Fill the slot of a stream. -/
def set (r : Row ε) (s : StreamIndex) (e : ε) : Except AssemblyError (Row ε) :=
  match r.slots[s]? with
  | none => .error (.slotMissing s r.width)
  | some (some _) => .error (.slotTaken s)
  | some none => .ok ⟨r.slots.set s (some e)⟩

/-- The row that holds only one event. -/
def seed (width : Nat) (s : StreamIndex) (e : ε) : Except AssemblyError (Row ε) :=
  (empty width).set s e

/-- Copy the events of another row at some streams, in order, up to the first slot that cannot be
filled. What was copied before it stays. -/
def copyFrom (r other : Row ε) : List StreamIndex → Row ε × Option AssemblyError
  | [] => (r, none)
  | s :: rest =>
    match other.get? s with
    | none => r.copyFrom other rest
    | some e =>
      match r.set s e with
      | .ok r' => r'.copyFrom other rest
      | .error err => (r, some err)

/-- Copy the events of another row at some streams, all or none. -/
def merge (r other : Row ε) (streams : List StreamIndex) : Except AssemblyError (Row ε) :=
  match r.copyFrom other streams with
  | (merged, none) => .ok merged
  | (_, some err) => .error err

/-- The slots of a row in brackets. -/
def text (display : ε → String) (r : Row ε) : String :=
  let slot : Option ε → String
    | some e => display e
    | none => "null"
  "[" ++ ", ".intercalate (r.slots.map slot) ++ "]"

/-! ### Single slots -/

@[simp] theorem width_empty (n : Nat) : (empty n : Row ε).width = n := by simp [empty, width]

@[simp] theorem get?_empty (n : Nat) (s : StreamIndex) : (empty n : Row ε).get? s = none := by
  simp only [get?, empty, List.getElem?_replicate]
  split <;> rfl

/-- Filling succeeds just when the slot is there and null. -/
theorem set_eq_ok_iff {r r' : Row ε} {s : StreamIndex} {e : ε} :
    r.set s e = .ok r' ↔ r.slots[s]? = some none ∧ r' = ⟨r.slots.set s (some e)⟩ := by
  unfold set
  split <;> rename_i h <;> rw [h] <;> simp [eq_comm]

end Row

/-! ### Collections of rows -/

/-- Complete rows in the order in which they were assembled. -/
structure RowCollection (ε : Type) where
  rows : List (Row ε)
deriving DecidableEq

namespace RowCollection

variable {ε : Type}

def empty : RowCollection ε := ⟨[]⟩

def size (c : RowCollection ε) : Nat := c.rows.length

def isEmpty (c : RowCollection ε) : Bool := c.rows.isEmpty

def get? (c : RowCollection ε) (i : Nat) : Option (Row ε) := c.rows[i]?

def push (c : RowCollection ε) (row : Row ε) : RowCollection ε := ⟨c.rows ++ [row]⟩

def append (c : RowCollection ε) (rows : List (Row ε)) : RowCollection ε := ⟨c.rows ++ rows⟩

/-- Keep at most the first rows. -/
def truncate (c : RowCollection ε) (size : Nat) : RowCollection ε := ⟨c.rows.take size⟩

end RowCollection

end JoinAssembly
