import JoinAssembly.Document.Value

/-!
# Tables of TOML

A text fills a tree of tables piece by piece, by headers and by dotted keys. What may still be added
to a table depends on how it came about.
-/

namespace JoinAssembly.Toml

/-- How a table came about. -/
inductive Origin where
  /-- On the way to a table named by a header. -/
  | path
  /-- On the way of a dotted key. -/
  | dotted
  /-- Named by a header. -/
  | header
deriving DecidableEq

/-- What stands under a key. -/
inductive Item where
  | value (v : Value)
  | table (origin : Origin) (entries : List (String × Item))
  /-- The tables of a header in double brackets, the last one first. -/
  | tables (elements : List (List (String × Item)))

abbrev Entries := List (String × Item)

/-- Put an item under a key, in the place of the one that was there. -/
def Entries.put (entries : Entries) (key : String) (item : Item) : Entries :=
  if entries.any (·.1 == key) then entries.map fun e => if e.1 == key then (key, item) else e
  else entries ++ [(key, item)]

/-- Change the table at the end of a path. Tables that are missing on the way are made; of several
tables under a key the last is meant. A dotted key does not lead into a table named by a header. -/
def changeAt (isDotted : Bool) (change : Origin → Entries → Except SyntaxError Entries) :
    List String → Origin → Entries → Except SyntaxError Entries
  | [], origin, entries => change origin entries
  | key :: path, _, entries =>
    match entries.lookup key with
    | none => do
      let origin := if isDotted then .dotted else .path
      let inner ← changeAt isDotted change path origin []
      return entries.put key (.table origin inner)
    | some (.table origin inner) => do
      if isDotted && origin == .header then throw (.repeatedKey key)
      let inner ← changeAt isDotted change path origin inner
      return entries.put key (.table origin inner)
    | some (.tables (last :: earlier)) => do
      let last ← changeAt isDotted change path .header last
      return entries.put key (.tables (last :: earlier))
    | some _ => .error (.repeatedKey key)

/-- Add a value under a dotted key to a table. The table that holds it must have come about by
dotted keys, unless the key has no dots. -/
def addValue (path : List String) (key : String) (v : Value) (entries : Entries) :
    Except SyntaxError Entries :=
  let add (origin : Origin) (entries : Entries) : Except SyntaxError Entries :=
    if (origin == .dotted) == path.isEmpty || entries.any (·.1 == key) then
      .error (.repeatedKey key)
    else .ok (entries ++ [(key, .value v)])
  changeAt true add path .header entries

/-- Begin the table that a header names. Only a table that was merely on the way to another may
already be there. -/
def beginTable (path : List String) (key : String) (entries : Entries) :
    Except SyntaxError Entries :=
  let add (_ : Origin) (entries : Entries) : Except SyntaxError Entries :=
    match entries.lookup key with
    | none => .ok (entries ++ [(key, .table .header [])])
    | some (.table .path inner) => .ok (entries.put key (.table .header inner))
    | some _ => .error (.repeatedKey key)
  changeAt false add path .header entries

/-- Begin a further table under the key that a header in double brackets names. -/
def beginElement (path : List String) (key : String) (entries : Entries) :
    Except SyntaxError Entries :=
  let add (_ : Origin) (entries : Entries) : Except SyntaxError Entries :=
    match entries.lookup key with
    | none => .ok (entries ++ [(key, .tables [[]])])
    | some (.tables elements) => .ok (entries.put key (.tables ([] :: elements)))
    | some _ => .error (.repeatedKey key)
  changeAt false add path .header entries

/-- Change the table that the last header named. -/
def changeCurrent (path : List String) (change : Entries → Except SyntaxError Entries)
    (entries : Entries) : Except SyntaxError Entries :=
  changeAt false (fun _ inner => change inner) path .header entries

/-! ### Values -/

mutual

/-- The value of an item. -/
def Item.toValue : Item → Value
  | .value v => v
  | .table _ entries => .record (recordOf entries)
  | .tables elements => .list (recordsOf elements).reverse

/-- The fields of a table. -/
def recordOf : List (String × Item) → List (String × Value)
  | [] => []
  | (key, item) :: rest => (key, item.toValue) :: recordOf rest

/-- The records of several tables. -/
def recordsOf : List (List (String × Item)) → List Value
  | [] => []
  | entries :: rest => .record (recordOf entries) :: recordsOf rest

end

end JoinAssembly.Toml
