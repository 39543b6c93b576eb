import JoinAssembly.Proofs.Document.Spelling

/-!
# Fields of records

A reader looks the fields of a record up by name, after a list of the fields has been given their
names. What it finds in a record spells the record written in full, or something is at fault, just
as the rules for keys and for places tell.
-/

namespace JoinAssembly

/-! ### Looking fields up -/

/-- The value that is looked up for a field spells the one written in full, or the field is left out
and has its default. -/
def Filled (name : String) (default : Option Value) (schema : Schema)
    (fields : List (String × Value)) (c : Value) : Prop :=
  match fields.lookup name with
  | some v => Spelling schema v c
  | none => default = some c

/-- The value that is looked up for a field is at fault, or the field is missing. -/
def Unfilled (name : String) (default : Option Value) (schema : Schema)
    (fields : List (String × Value)) : Prop :=
  match fields.lookup name with
  | some v => Fault schema v
  | none => default = none

namespace Layout

/-- Looking the fields up one after another gives those that are written in full. -/
def Gives : Layout → List (String × Value) → List (String × Value) → Prop
  | .nil, _, cs => cs = []
  | .field name default schema rest, fields, cs =>
    ∃ c cs', cs = (name, c) :: cs' ∧ Filled name default schema fields c ∧ rest.Gives fields cs'

/-- Looking the fields up one after another comes to one that is not there or at fault. -/
def Fails : Layout → List (String × Value) → Prop
  | .nil, _ => False
  | .field name default schema rest, fields =>
    Unfilled name default schema fields ∨ rest.Fails fields

/-- All fields are written in order, and each spells itself. -/
def Full : Layout → List (String × Value) → Prop
  | .nil, cs => cs = []
  | .field name _ schema rest, cs =>
    ∃ c cs', cs = (name, c) :: cs' ∧ Spelling schema c c ∧ rest.Full cs'

variable {layout : Layout} {fields fields' cs : List (String × Value)}

/-- What is looked up under other names makes no difference. -/
lemma gives_congr (h : ∀ name ∈ layout.names, fields.lookup name = fields'.lookup name) :
    layout.Gives fields cs ↔ layout.Gives fields' cs := by
  induction layout generalizing cs with
  | nil => exact Iff.rfl
  | field name default schema rest ih =>
    simp only [Gives, Filled, h name List.mem_cons_self,
      ih fun x hx => h x (List.mem_cons_of_mem name hx)]

lemma fails_congr (h : ∀ name ∈ layout.names, fields.lookup name = fields'.lookup name) :
    layout.Fails fields ↔ layout.Fails fields' := by
  induction layout with
  | nil => exact Iff.rfl
  | field name default schema rest ih =>
    simp only [Fails, Unfilled, h name List.mem_cons_self,
      ih fun x hx => h x (List.mem_cons_of_mem name hx)]

end Layout

/-! ### Records with keys -/

section Keyed

variable {layout : Layout} {names : List String} {fields cs : List (String × Value)}
  {name : String} {v : Value}

lemma lookup_cons_of_ne {x : String} (h : name ≠ x) (w : Value)
    (fields : List (String × Value)) : ((x, w) :: fields).lookup name = fields.lookup name := by
  rw [List.lookup_cons, beq_false_of_ne h]

lemma lookup_eq_none : fields.lookup name = none ↔ name ∉ fields.map Prod.fst := by
  induction fields with
  | nil => simp
  | cons f rest ih =>
    obtain ⟨x, w⟩ := f
    by_cases hx : name = x
    · simp [hx]
    · simp [lookup_cons_of_ne hx, hx, ih]

/-- A key that does not occur twice has one value. -/
lemma lookup_eq_some (hone : (fields.map Prod.fst).count name ≤ 1) :
    fields.lookup name = some v ↔ (name, v) ∈ fields := by
  induction fields with
  | nil => simp
  | cons f rest ih =>
    obtain ⟨x, w⟩ := f
    rw [List.map_cons, List.count_cons] at hone
    by_cases hx : name = x
    · subst hx
      have hnone : name ∉ rest.map Prod.fst := by
        rw [← List.count_eq_zero]
        simp only [BEq.rfl, if_true] at hone
        omega
      have hv : (name, v) ∉ rest := fun hmem => hnone (List.mem_map_of_mem hmem)
      simp [hv, eq_comm]
    · simp [lookup_cons_of_ne hx, hx, ih (by omega)]

/-- Leaving unknown keys out changes nothing for the known ones. -/
lemma lookup_filter (hname : name ∈ names) :
    (fields.filter fun f => names.contains f.1).lookup name = fields.lookup name := by
  induction fields with
  | nil => rfl
  | cons f rest ih =>
    obtain ⟨x, w⟩ := f
    by_cases hx : name = x
    · subst hx
      simp [hname]
    · rw [List.filter_cons, lookup_cons_of_ne hx]
      split
      · rw [lookup_cons_of_ne hx, ih]
      · exact ih

lemma keyed_iff_gives (hone : ∀ name ∈ layout.names, (fields.map Prod.fst).count name ≤ 1) :
    Keyed layout fields cs ↔ layout.Gives fields cs := by
  induction layout generalizing cs with
  | nil =>
    constructor
    · rintro ⟨⟩
      rfl
    · rintro rfl
      exact .nil fields
  | field name default schema rest ih =>
    have hfirst := hone name List.mem_cons_self
    have hrest := fun x hx => hone x (List.mem_cons_of_mem name hx)
    constructor
    · intro h
      cases h with
      | given hgiven h hkeyed =>
        refine ⟨_, _, rfl, ?_, (ih hrest).mp hkeyed⟩
        rwa [Filled, (lookup_eq_some hfirst).mpr hgiven]
      | leftOut hnone hkeyed =>
        refine ⟨_, _, rfl, ?_, (ih hrest).mp hkeyed⟩
        rw [Filled, lookup_eq_none.mpr hnone]
    · rintro ⟨c, cs, rfl, hc, hgives⟩
      have hkeyed := (ih hrest).mpr hgives
      rw [Filled] at hc
      cases hlookup : fields.lookup name with
      | some v =>
        rw [hlookup] at hc
        exact .given ((lookup_eq_some hfirst).mp hlookup) hc hkeyed
      | none =>
        rw [hlookup] at hc
        cases hc
        exact .leftOut (lookup_eq_none.mp hlookup) hkeyed

lemma keyedFault_iff_fails (hone : ∀ name ∈ layout.names, (fields.map Prod.fst).count name ≤ 1) :
    KeyedFault layout fields ↔ layout.Fails fields := by
  induction layout with
  | nil =>
    constructor
    · rintro ⟨⟩
    · exact False.elim
  | field name default schema rest ih =>
    have hfirst := hone name List.mem_cons_self
    have hrest := fun x hx => hone x (List.mem_cons_of_mem name hx)
    constructor
    · intro h
      cases h with
      | given hgiven h =>
        left
        rwa [Unfilled, (lookup_eq_some hfirst).mpr hgiven]
      | missing hnone =>
        left
        rw [Unfilled, lookup_eq_none.mpr hnone]
      | later h => exact .inr ((ih hrest).mp h)
    · rintro (hc | hfails)
      · rw [Unfilled] at hc
        cases hlookup : fields.lookup name with
        | some v =>
          rw [hlookup] at hc
          exact .given ((lookup_eq_some hfirst).mp hlookup) hc
        | none =>
          rw [hlookup] at hc
          cases hc
          exact .missing (lookup_eq_none.mp hlookup)
      · exact .later ((ih hrest).mpr hfails)

end Keyed

/-! ### Lists of fields -/

section Positional

variable {layout : Layout} {vs : List Value} {cs : List (String × Value)}

/-- The fields after the first are looked up among the values after the first. -/
lemma lookup_zip_cons {name x : String} {names : List String} {v : Value} (hx : x ∈ names)
    (hname : name ∉ names) (vs : List Value) :
    ((name :: names).zip (v :: vs)).lookup x = (names.zip vs).lookup x := by
  rw [List.zip_cons_cons, lookup_cons_of_ne]
  rintro rfl
  exact hname hx

lemma positional_iff_gives (hnames : layout.names.Nodup) : Positional layout vs cs ↔
    vs.length ≤ layout.names.length ∧ layout.Gives (layout.names.zip vs) cs := by
  induction layout generalizing vs cs with
  | nil =>
    constructor
    · rintro ⟨⟩
      exact ⟨Nat.le_refl _, rfl⟩
    · rintro ⟨hlength, rfl⟩
      cases List.length_eq_zero_iff.mp (Nat.le_zero.mp hlength)
      exact .nil
  | field name default schema rest ih =>
    obtain ⟨hname, hrest⟩ := List.nodup_cons.mp hnames
    cases vs with
    | nil =>
      constructor
      · intro h
        cases h with
        | leftOut hleft =>
          refine ⟨Nat.zero_le _, _, _, rfl, rfl, ?_⟩
          simpa using ((ih hrest).mp hleft).2
      · rintro ⟨-, c, cs, rfl, hc, hgives⟩
        cases hc
        exact .leftOut ((ih hrest).mpr ⟨Nat.zero_le _, by simpa using hgives⟩)
    | cons v vs =>
      have hlater (cs : List (String × Value)) :
          rest.Gives ((name :: rest.names).zip (v :: vs)) cs ↔ rest.Gives (rest.names.zip vs) cs :=
        Layout.gives_congr fun x hx => lookup_zip_cons hx hname vs
      have hfirst : ((name :: rest.names).zip (v :: vs)).lookup name = some v := List.lookup_cons_self
      constructor
      · intro h
        cases h with
        | given h hpositional =>
          obtain ⟨hlength, hgives⟩ := (ih hrest).mp hpositional
          refine ⟨Nat.succ_le_succ hlength, _, _, rfl, ?_, (hlater _).mpr hgives⟩
          rwa [Filled, Layout.names, hfirst]
      · rintro ⟨hlength, c, cs, rfl, hc, hgives⟩
        rw [Filled, Layout.names, hfirst] at hc
        exact .given hc
          ((ih hrest).mpr ⟨Nat.le_of_succ_le_succ hlength, (hlater _).mp hgives⟩)

lemma positionalFault_iff_fails (hnames : layout.names.Nodup) : PositionalFault layout vs ↔
    layout.names.length < vs.length ∨ layout.Fails (layout.names.zip vs) := by
  induction layout generalizing vs with
  | nil =>
    cases vs with
    | nil =>
      constructor
      · rintro ⟨⟩
      · rintro (hlength | hfails)
        · exact absurd hlength (Nat.lt_irrefl _)
        · exact hfails.elim
    | cons v vs => exact ⟨fun _ => .inl (Nat.succ_pos _), fun _ => .tooMany v vs⟩
  | field name default schema rest ih =>
    obtain ⟨hname, hrest⟩ := List.nodup_cons.mp hnames
    cases vs with
    | nil =>
      have hlater : rest.Fails [] ↔ PositionalFault rest [] := by simp [ih hrest]
      constructor
      · intro h
        cases h with
        | missing => exact .inr (.inl rfl)
        | laterLeftOut h => exact .inr (.inr (hlater.mpr h))
      · rintro (hlength | hnone | hfails)
        · cases hlength
        · cases hnone
          exact .missing name schema rest
        · exact .laterLeftOut (hlater.mp hfails)
    | cons v vs =>
      have hlater : rest.Fails ((name :: rest.names).zip (v :: vs)) ↔
          rest.Fails (rest.names.zip vs) :=
        Layout.fails_congr fun x hx => lookup_zip_cons hx hname vs
      have hfirst : ((name :: rest.names).zip (v :: vs)).lookup name = some v := List.lookup_cons_self
      rw [Layout.Fails, Unfilled, Layout.names, hfirst, hlater]
      constructor
      · intro h
        cases h with
        | given h => exact .inr (.inl h)
        | later h =>
          exact ((ih hrest).mp h).imp Nat.succ_lt_succ .inr
      · rintro (hlength | h | hfails)
        · exact .later ((ih hrest).mpr (.inl (Nat.lt_of_succ_lt_succ hlength)))
        · exact .given h
        · exact .later ((ih hrest).mpr (.inr hfails))

end Positional

/-! ### Taking records apart -/

section Records

variable {layout : Layout} {names : List String} {v : Value} {fields cs : List (String × Value)}

lemma repeatedField?_eq_none : Value.repeatedField? names fields = none ↔
    ∀ name ∈ names, (fields.map Prod.fst).count name ≤ 1 := by
  simp [Value.repeatedField?, List.count_eq_countP, List.countP_map, Function.comp_def]

/-- The fields are taken from a record in which no known key occurs twice, or from a list that is
not too long. -/
lemma asFields_eq_ok (hv : v.IsData) : v.asFields .json names = .ok fields ↔
    (∃ given, v = .record given ∧ (∀ name ∈ names, (given.map Prod.fst).count name ≤ 1) ∧
      fields = given.filter fun f => names.contains f.1) ∨
    ∃ vs, v = .list vs ∧ vs.length ≤ names.length ∧ fields = names.zip vs := by
  cases hv with
  | @record given =>
    rw [Value.asFields]
    cases hrepeated : Value.repeatedField? names given with
    | none =>
      constructor
      · intro h
        cases h
        exact .inl ⟨given, rfl, repeatedField?_eq_none.mp hrepeated, rfl⟩
      · rintro (⟨_, heq, -, rfl⟩ | ⟨_, heq, -⟩) <;> cases heq
        rfl
    | some name =>
      constructor
      · intro h
        cases h
      · rintro (⟨_, heq, hone, -⟩ | ⟨_, heq, -⟩) <;> cases heq
        cases hrepeated.symm.trans (repeatedField?_eq_none.mpr hone)
  | @list vs =>
    by_cases hlength : vs.length ≤ names.length
    · simp [Value.asFields, Dialect.json, hlength, eq_comm]
    · simp [Value.asFields, Dialect.json, hlength]
  | null | bool | int | real | text => simp [Value.asFields]

/-- The fields of a record that was read are values of the document. -/
lemma isData_of_asFields (hv : v.IsData) (h : v.asFields .json names = .ok fields) :
    ∀ f ∈ fields, f.2.IsData := by
  rcases (asFields_eq_ok hv).mp h with ⟨given, rfl, -, rfl⟩ | ⟨vs, rfl, -, rfl⟩
  · cases hv with
    | record hgiven => exact fun f hf => hgiven f (List.mem_filter.mp hf).1
  · cases hv with
    | list hvs => exact fun f hf => hvs f.2 (List.of_mem_zip hf).2

/-- A record is spelled by what its fields are taken from. -/
lemma spelling_record_iff (hnames : layout.names.Nodup) (hv : v.IsData) :
    Spelling (.record layout) v (.record cs) ↔
      ∃ fields, v.asFields .json layout.names = .ok fields ∧ layout.Gives fields cs := by
  have hfilter (given : List (String × Value)) :
      layout.Gives (given.filter fun f => layout.names.contains f.1) cs ↔ layout.Gives given cs :=
    Layout.gives_congr fun _ hname => lookup_filter hname
  constructor
  · intro h
    cases h with
    | keyed hone h =>
      exact ⟨_, (asFields_eq_ok hv).mpr (.inl ⟨_, rfl, hone, rfl⟩),
        (hfilter _).mpr ((keyed_iff_gives hone).mp h)⟩
    | positional h =>
      obtain ⟨hlength, hgives⟩ := (positional_iff_gives hnames).mp h
      exact ⟨_, (asFields_eq_ok hv).mpr (.inr ⟨_, rfl, hlength, rfl⟩), hgives⟩
  · rintro ⟨fields, hfields, hgives⟩
    rcases (asFields_eq_ok hv).mp hfields with ⟨given, rfl, hone, rfl⟩ | ⟨vs, rfl, hlength, rfl⟩
    · exact .keyed hone ((keyed_iff_gives hone).mpr ((hfilter given).mp hgives))
    · exact .positional ((positional_iff_gives hnames).mpr ⟨hlength, hgives⟩)

lemma Layout.Full.names_eq (h : layout.Full cs) : cs.map Prod.fst = layout.names := by
  induction layout generalizing cs with
  | nil =>
    cases h
    rfl
  | field name default schema rest ih =>
    obtain ⟨c, cs, rfl, -, hrest⟩ := h
    rw [List.map_cons, ih hrest, Layout.names]

lemma Layout.Full.keyed (h : layout.Full cs) (hcs : cs ⊆ fields) : Keyed layout fields cs := by
  induction layout generalizing cs with
  | nil =>
    cases h
    exact .nil fields
  | field name default schema rest ih =>
    obtain ⟨c, cs, rfl, hc, hrest⟩ := h
    obtain ⟨hfirst, hlater⟩ := List.cons_subset.mp hcs
    exact .given hfirst hc (ih hrest hlater)

/-- A record that is written in full spells itself. -/
lemma spelling_record_self (hnames : layout.names.Nodup) (h : layout.Full cs) :
    Spelling (.record layout) (.record cs) (.record cs) := by
  refine .keyed (fun name _ => ?_) (h.keyed (List.Subset.refl cs))
  rw [h.names_eq]
  exact List.nodup_iff_count_le_one.mp hnames name

/-- A record is at fault if no fields can be taken from it, or not all that have to be there. -/
lemma fault_record_iff (hnames : layout.names.Nodup) (hv : v.IsData) :
    Fault (.record layout) v ↔
      ∀ fields, v.asFields .json layout.names = .ok fields → layout.Fails fields := by
  have hfilter (given : List (String × Value)) :
      layout.Fails (given.filter fun f => layout.names.contains f.1) ↔ layout.Fails given :=
    Layout.fails_congr fun _ hname => lookup_filter hname
  constructor
  · intro h fields hfields
    rcases (asFields_eq_ok hv).mp hfields with ⟨given, rfl, hone, rfl⟩ | ⟨vs, rfl, hlength, rfl⟩
    · cases h with
      | noRecord hrecord => exact absurd rfl (hrecord given)
      | repeated hname h => exact absurd (hone _ hname) (Nat.not_le.mpr h)
      | keyed h => exact (hfilter given).mpr ((keyedFault_iff_fails hone).mp h)
    · cases h with
      | noRecord _ hlist => exact absurd rfl (hlist vs)
      | positional h =>
        exact ((positionalFault_iff_fails hnames).mp h).resolve_left (Nat.not_lt.mpr hlength)
  · intro h
    cases hv with
    | @record given hgiven =>
      by_cases hone : ∀ name ∈ layout.names, (given.map Prod.fst).count name ≤ 1
      · have hfails := h _ ((asFields_eq_ok (.record hgiven)).mpr (.inl ⟨_, rfl, hone, rfl⟩))
        exact .keyed ((keyedFault_iff_fails hone).mpr ((hfilter given).mp hfails))
      · obtain ⟨name, hname, htwice⟩ := not_forall₂.mp hone
        exact .repeated hname (Nat.lt_of_not_le htwice)
    | @list vs hvs =>
      refine .positional ((positionalFault_iff_fails hnames).mpr ?_)
      by_cases hlength : vs.length ≤ layout.names.length
      · exact .inr (h _ ((asFields_eq_ok (.list hvs)).mpr (.inr ⟨_, rfl, hlength, rfl⟩)))
      · exact .inl (Nat.lt_of_not_le hlength)
    | null | bool | int | real | text => exact .noRecord (by simp) (by simp)

end Records

end JoinAssembly
