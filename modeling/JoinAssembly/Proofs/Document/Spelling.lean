import JoinAssembly.Document.Decode
import Mathlib.Data.List.Nodup
import Mathlib.Tactic.Lemma

/-!
# Spellings

A value that is written in full can be spelled in other ways: the keys of a record may stand in any
order and among unknown ones, a record may be the list of its fields, and fields that have their
default may be left out. What is not a spelling of anything is at fault somewhere.
-/

namespace JoinAssembly

/-! ### Schemas -/

mutual

/-- What is written in some place of a document. -/
inductive Schema where
  | text
  | bool
  /-- A natural number below the limit. -/
  | nat
  | optional (schema : Schema)
  | list (schema : Schema)
  | record (layout : Layout)

/-- The fields of a record in order. A field with a default is one that may be left out. -/
inductive Layout where
  | nil
  | field (name : String) (default : Option Value) (schema : Schema) (rest : Layout)

end

def Layout.names : Layout → List String
  | .nil => []
  | .field name _ _ rest => name :: rest.names

/-- Induction on the fields of a record, whatever their schemas are. -/
@[induction_eliminator]
theorem Layout.field_induction {motive : Layout → Prop} (nil : motive .nil)
    (field : ∀ name default schema rest, motive rest → motive (.field name default schema rest)) :
    ∀ layout, motive layout
  | .nil => nil
  | .field name default schema rest =>
    field name default schema rest (field_induction nil field rest)

/-- A value as it is found in a document where every scalar shows its kind. -/
inductive Value.IsData : Value → Prop where
  | null : IsData .null
  | bool (b : Bool) : IsData (.bool b)
  | int (n : Int) : IsData (.int n)
  | real (literal : String) : IsData (.real literal)
  | text (s : String) : IsData (.text s)
  | list {values : List Value} (h : ∀ v ∈ values, IsData v) : IsData (.list values)
  | record {fields : List (String × Value)} (h : ∀ f ∈ fields, IsData f.2) : IsData (.record fields)

/-! ### What spells a value -/

mutual

/-- A value spells another, which is written in full. -/
inductive Spelling : Schema → Value → Value → Prop where
  | text (s : String) : Spelling .text (.text s) (.text s)
  | bool (b : Bool) : Spelling .bool (.bool b) (.bool b)
  | nat (n : Nat) (h : n < numberLimit) : Spelling .nat (.int n) (.int n)
  | absent (schema : Schema) : Spelling (.optional schema) .null .null
  | present {schema : Schema} {v c : Value} (hv : v ≠ .null) (hc : c ≠ .null)
      (h : Spelling schema v c) : Spelling (.optional schema) v c
  | list {schema : Schema} {vs cs : List Value} (hlength : vs.length = cs.length)
      (h : ∀ x ∈ vs.zip cs, Spelling schema x.1 x.2) : Spelling (.list schema) (.list vs) (.list cs)
  /-- A record with its keys in any order, among them any unknown ones. -/
  | keyed {layout : Layout} {fields cs : List (String × Value)}
      (hone : ∀ name ∈ layout.names, (fields.map Prod.fst).count name ≤ 1)
      (h : Keyed layout fields cs) : Spelling (.record layout) (.record fields) (.record cs)
  /-- The list of the fields of a record. -/
  | positional {layout : Layout} {vs : List Value} {cs : List (String × Value)}
      (h : Positional layout vs cs) : Spelling (.record layout) (.list vs) (.record cs)

/-- The fields of a record are given by keys, or they are left out and have their defaults. -/
inductive Keyed : Layout → List (String × Value) → List (String × Value) → Prop where
  | nil (fields : List (String × Value)) : Keyed .nil fields []
  | given {name : String} {default : Option Value} {schema : Schema} {rest : Layout}
      {fields cs : List (String × Value)} {v c : Value} (hgiven : (name, v) ∈ fields)
      (h : Spelling schema v c) (hrest : Keyed rest fields cs) :
      Keyed (.field name default schema rest) fields ((name, c) :: cs)
  | leftOut {name : String} {schema : Schema} {rest : Layout} {fields cs : List (String × Value)}
      {c : Value} (hnone : name ∉ fields.map Prod.fst) (hrest : Keyed rest fields cs) :
      Keyed (.field name (some c) schema rest) fields ((name, c) :: cs)

/-- The fields of a record are given in order; the last ones may be left out if they have their
defaults. -/
inductive Positional : Layout → List Value → List (String × Value) → Prop where
  | nil : Positional .nil [] []
  | given {name : String} {default : Option Value} {schema : Schema} {rest : Layout}
      {vs : List Value} {cs : List (String × Value)} {v c : Value} (h : Spelling schema v c)
      (hrest : Positional rest vs cs) :
      Positional (.field name default schema rest) (v :: vs) ((name, c) :: cs)
  | leftOut {name : String} {schema : Schema} {rest : Layout} {cs : List (String × Value)} {c : Value}
      (hrest : Positional rest [] cs) :
      Positional (.field name (some c) schema rest) [] ((name, c) :: cs)

end

/-! ### What is at fault -/

mutual

/-- A value does not fit a schema: it is of a wrong kind, a number out of range, or a record with
fields too many, too few or at fault. -/
inductive Fault : Schema → Value → Prop where
  | text {v : Value} (h : ∀ s, v ≠ .text s) : Fault .text v
  | bool {v : Value} (h : ∀ b, v ≠ .bool b) : Fault .bool v
  | nat {v : Value} (h : ∀ n : Nat, n < numberLimit → v ≠ .int n) : Fault .nat v
  | optional {schema : Schema} {v : Value} (hv : v ≠ .null) (h : Fault schema v) :
      Fault (.optional schema) v
  | noList {schema : Schema} {v : Value} (h : ∀ vs, v ≠ .list vs) : Fault (.list schema) v
  | member {schema : Schema} {vs : List Value} {v : Value} (hv : v ∈ vs) (h : Fault schema v) :
      Fault (.list schema) (.list vs)
  | noRecord {layout : Layout} {v : Value} (hrecord : ∀ fields, v ≠ .record fields)
      (hlist : ∀ vs, v ≠ .list vs) : Fault (.record layout) v
  | repeated {layout : Layout} {fields : List (String × Value)} {name : String}
      (hname : name ∈ layout.names) (h : 1 < (fields.map Prod.fst).count name) :
      Fault (.record layout) (.record fields)
  | keyed {layout : Layout} {fields : List (String × Value)} (h : KeyedFault layout fields) :
      Fault (.record layout) (.record fields)
  | positional {layout : Layout} {vs : List Value} (h : PositionalFault layout vs) :
      Fault (.record layout) (.list vs)

/-- A field of a record is at fault or missing. -/
inductive KeyedFault : Layout → List (String × Value) → Prop where
  | given {name : String} {default : Option Value} {schema : Schema} {rest : Layout}
      {fields : List (String × Value)} {v : Value} (hgiven : (name, v) ∈ fields)
      (h : Fault schema v) : KeyedFault (.field name default schema rest) fields
  | missing {name : String} {schema : Schema} {rest : Layout} {fields : List (String × Value)}
      (hnone : name ∉ fields.map Prod.fst) : KeyedFault (.field name none schema rest) fields
  | later {name : String} {default : Option Value} {schema : Schema} {rest : Layout}
      {fields : List (String × Value)} (h : KeyedFault rest fields) :
      KeyedFault (.field name default schema rest) fields

/-- In a list of the fields of a record, a field is at fault, missing or one too many. -/
inductive PositionalFault : Layout → List Value → Prop where
  | tooMany (v : Value) (vs : List Value) : PositionalFault .nil (v :: vs)
  | given {name : String} {default : Option Value} {schema : Schema} {rest : Layout}
      {vs : List Value} {v : Value} (h : Fault schema v) :
      PositionalFault (.field name default schema rest) (v :: vs)
  | missing (name : String) (schema : Schema) (rest : Layout) :
      PositionalFault (.field name none schema rest) []
  | later {name : String} {default : Option Value} {schema : Schema} {rest : Layout}
      {vs : List Value} {v : Value} (h : PositionalFault rest vs) :
      PositionalFault (.field name default schema rest) (v :: vs)
  | laterLeftOut {name : String} {default : Option Value} {schema : Schema} {rest : Layout}
      (h : PositionalFault rest []) : PositionalFault (.field name default schema rest) []

end

end JoinAssembly
