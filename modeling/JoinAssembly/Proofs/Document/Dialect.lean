import JoinAssembly.Proofs.Document.Codec
import Mathlib.Data.List.Find

/-!
# Documents of every dialect

In a document an unquoted scalar may serve as any kind that its spelling allows, and whether a
record may be the list of its fields depends on the dialect. So each value stands for data, where
every scalar shows its kind, and a reader takes from a document just what it takes from the data
that the document stands for.
-/

namespace JoinAssembly

/-! ### Data that a value stands for -/

namespace Value

/-- What stands for nothing that fits. -/
def misfit : Value := .real ""

def textData : Value → Value
  | .text s | .plain s | .tagged _ s | .taggedBlock _ s => .text s
  | _ => misfit

def boolData : Value → Value
  | .bool b => .bool b
  | .plain s | .tagged _ s | .taggedBlock .bool s => (spelledBool? s).elim misfit .bool
  | _ => misfit

def natData : Value → Value
  | .int n => .int n
  | .plain s | .tagged _ s | .taggedBlock .int s => (spelledNat? s).elim misfit ofNat
  | _ => misfit

/-- A value may be absent by its spelling. One that is tagged as absent has to be spelled so. -/
def optionData (data : Value → Value) : Value → Value
  | .null => .null
  | .plain s => if spellsNull s then .null else data (.plain s)
  | .tagged .null s => if s.isEmpty || !spellsNull s then misfit else .null
  | v => data v

/-- An empty unquoted scalar stands for the empty list. -/
def listData (data : Value → Value) : Value → Value
  | .list vs => .list (vs.map data)
  | .plain "" | .tagged _ "" => .list []
  | _ => misfit

/-- An empty unquoted scalar stands for a record without fields, as a date does. -/
def recordData (d : Dialect) (fieldsData : List (String × Value) → List (String × Value))
    (valuesData : List Value → List Value) : Value → Value
  | .record fields => .record (fieldsData fields)
  | .list vs => if d.listsAsRecords then .list (valuesData vs) else misfit
  | .plain "" | .tagged _ "" | .moment _ => .record []
  | _ => misfit

end Value

mutual

/-- The data that a value stands for in some place of a document. -/
def Schema.data (d : Dialect) : Schema → Value → Value
  | .text => Value.textData
  | .bool => Value.boolData
  | .nat => Value.natData
  | .optional schema => Value.optionData (schema.data d)
  | .list schema => Value.listData (schema.data d)
  | .record layout =>
    Value.recordData d
      (List.filterMap fun f => (layout.fieldData d f.1 f.2).map fun w => (f.1, w))
      (layout.valuesData d)

/-- The data that the value of a field stands for, if the field is known. -/
def Layout.fieldData (d : Dialect) : Layout → String → Value → Option Value
  | .nil, _, _ => none
  | .field name _ schema rest, key, v =>
    if key = name then some (schema.data d v) else rest.fieldData d key v

/-- The data that values stand for which are given for the fields of a record in order. -/
def Layout.valuesData (d : Dialect) : Layout → List Value → List Value
  | .nil, vs => if d.surplusAllowed then [] else vs.map fun _ => .misfit
  | .field _ _ _ _, [] => []
  | .field _ _ schema rest, v :: vs => schema.data d v :: rest.valuesData d vs

end

/-- The known fields of a record, each with the data that its value stands for. -/
def Layout.fieldsData (d : Dialect) (layout : Layout) (fields : List (String × Value)) :
    List (String × Value) :=
  fields.filterMap fun f => (layout.fieldData d f.1 f.2).map fun w => (f.1, w)

variable {d : Dialect}

lemma Schema.data_record (layout : Layout) : (Schema.record layout).data d
    = Value.recordData d (layout.fieldsData d) (layout.valuesData d) :=
  rfl

/-! ### What stands for something is data -/

namespace Value

lemma isData_misfit : misfit.IsData := .real ""

lemma isData_textData (v : Value) : v.textData.IsData := by
  cases v <;> first | exact .text _ | exact isData_misfit

lemma isData_elim {α : Type} {write : α → Value} (h : ∀ a, (write a).IsData) (o : Option α) :
    (o.elim misfit write).IsData := by
  cases o with
  | none => exact isData_misfit
  | some a => exact h a

lemma isData_boolData (v : Value) : v.boolData.IsData := by
  unfold boolData
  split
  · exact .bool _
  · exact isData_elim .bool _
  · exact isData_elim .bool _
  · exact isData_elim .bool _
  · exact isData_misfit

lemma isData_natData (v : Value) : v.natData.IsData := by
  have hnat (n : Nat) : (ofNat n).IsData := .int n
  unfold natData
  split
  · exact .int _
  · exact isData_elim hnat _
  · exact isData_elim hnat _
  · exact isData_elim hnat _
  · exact isData_misfit

lemma isData_optionData {data : Value → Value} (h : ∀ v, (data v).IsData) (v : Value) :
    (optionData data v).IsData := by
  unfold optionData
  split
  · exact .null
  · split
    · exact .null
    · exact h _
  · split
    · exact isData_misfit
    · exact .null
  · exact h v

lemma isData_listData {data : Value → Value} (h : ∀ v, (data v).IsData) (v : Value) :
    (listData data v).IsData := by
  unfold listData
  split
  · exact .list (List.forall_mem_map.mpr fun w _ => h w)
  · exact .list (by simp)
  · exact .list (by simp)
  · exact isData_misfit

lemma isData_recordData {fieldsData : List (String × Value) → List (String × Value)}
    {valuesData : List Value → List Value} (hfields : ∀ fields, ∀ f ∈ fieldsData fields, f.2.IsData)
    (hvalues : ∀ vs, ∀ v ∈ valuesData vs, v.IsData) (v : Value) :
    (recordData d fieldsData valuesData v).IsData := by
  unfold recordData
  split
  · exact .record (hfields _)
  · split
    · exact .list (hvalues _)
    · exact isData_misfit
  · exact .record (by simp)
  · exact .record (by simp)
  · exact .record (by simp)
  · exact isData_misfit

end Value

mutual

theorem Schema.isData_data (schema : Schema) (v : Value) : (schema.data d v).IsData := by
  cases schema with
  | text => exact v.isData_textData
  | bool => exact v.isData_boolData
  | nat => exact v.isData_natData
  | optional schema => exact Value.isData_optionData (fun v => schema.isData_data v) v
  | list schema => exact Value.isData_listData (fun v => schema.isData_data v) v
  | record layout =>
    rw [Schema.data_record]
    refine Value.isData_recordData (fun fields f hf => ?_) (fun vs => layout.isData_valuesData vs) v
    obtain ⟨g, -, hg⟩ := List.mem_filterMap.mp hf
    obtain ⟨w, hw, rfl⟩ := Option.map_eq_some_iff.mp hg
    exact layout.isData_fieldData g.1 g.2 w hw

theorem Layout.isData_fieldData (layout : Layout) (key : String) (v w : Value)
    (h : layout.fieldData d key v = some w) : w.IsData := by
  cases layout with
  | nil => cases h
  | field name default schema rest =>
    rw [Layout.fieldData] at h
    split at h
    · cases h
      exact schema.isData_data v
    · exact rest.isData_fieldData key v w h

theorem Layout.isData_valuesData (layout : Layout) (vs : List Value) :
    ∀ w ∈ layout.valuesData d vs, w.IsData := by
  cases layout with
  | nil =>
    rw [Layout.valuesData]
    split
    · simp
    · exact List.forall_mem_map.mpr fun _ _ => Value.isData_misfit
  | field name default schema rest =>
    cases vs with
    | nil => simp [Layout.valuesData]
    | cons v vs =>
      exact List.forall_mem_cons.mpr ⟨schema.isData_data v, rest.isData_valuesData vs⟩

end

/-! ### Scalars -/

lemma toOption_asBool (v : Value) : v.asBool.toOption = v.boolData.asBool.toOption := by
  have hspelled (s : String) : (Value.plain s).asBool.toOption =
      ((spelledBool? s).elim .misfit Value.bool).asBool.toOption := by
    rw [Value.asBool]
    cases spelledBool? s <;> rfl
  cases v with
  | plain s | tagged _ s => exact hspelled s
  | taggedBlock tag s =>
    cases tag with
    | bool => exact hspelled s
    | null | int | other => rfl
  | _ => rfl

lemma toOption_asNat (v : Value) : v.asNat.toOption = v.natData.asNat.toOption := by
  have hspelled (s : String) : (Value.plain s).asNat.toOption =
      ((spelledNat? s).elim .misfit Value.ofNat).asNat.toOption := by
    rw [Value.asNat]
    cases spelledNat? s with
    | none => rfl
    | some n =>
      have hrange : (0 ≤ (n : Int) ∧ (n : Int) < numberLimit) ↔ n < numberLimit := by omega
      simp only [Option.elim_some, Value.ofNat, Value.asNat, hrange, Int.toNat_natCast]
  cases v with
  | plain s | tagged _ s => exact hspelled s
  | taggedBlock tag s =>
    cases tag with
    | int => exact hspelled s
    | null | bool | other => rfl
  | _ => rfl

namespace Value

lemma textData_ne_null (v : Value) : v.textData ≠ .null := by
  cases v <;> simp [textData, misfit]

lemma natData_ne_null (v : Value) : v.natData ≠ .null := by
  have hspelled (o : Option Nat) : o.elim misfit ofNat ≠ .null := by
    cases o <;> simp [misfit]
  unfold natData
  split
  · simp
  · exact hspelled _
  · exact hspelled _
  · exact hspelled _
  · simp [misfit]

end Value

lemma optionData_of_isData {data : Value → Value} {v : Value} (hv : v.IsData) (h : data v = v) :
    Value.optionData data v = v := by
  cases hv with
  | null => rfl
  | bool | int | real | text | list | record => exact h

/-! ### Fields of records -/

namespace Layout

variable {layout rest : Layout} {name key : String} {default : Option Value} {schema : Schema}
  {v w : Value} {fields fields' : List (String × Value)}

lemma fieldData_eq_none : layout.fieldData d key v = none ↔ key ∉ layout.names := by
  induction layout with
  | nil => simp [fieldData, names]
  | field name default schema rest ih =>
    by_cases hkey : key = name <;> simp [fieldData, names, hkey, ih]

lemma mem_names_of_fieldData (h : layout.fieldData d key v = some w) : key ∈ layout.names := by
  by_contra hunknown
  cases h.symm.trans (fieldData_eq_none.mpr hunknown)

/-- Fields other than the first are found among the rest. -/
lemma fieldData_of_mem (hname : name ∉ rest.names) (hkey : key ∈ rest.names) :
    (field name default schema rest).fieldData d key = rest.fieldData d key := by
  funext v
  rw [fieldData, if_neg]
  rintro rfl
  exact hname hkey

lemma fieldsData_cons_known (h : layout.fieldData d key v = some w)
    (fields : List (String × Value)) :
    layout.fieldsData d ((key, v) :: fields) = (key, w) :: layout.fieldsData d fields := by
  simp [fieldsData, h]

lemma fieldsData_cons_unknown (h : layout.fieldData d key v = none)
    (fields : List (String × Value)) :
    layout.fieldsData d ((key, v) :: fields) = layout.fieldsData d fields := by
  simp [fieldsData, h]

lemma map_fst_fieldsData (layout : Layout) (fields : List (String × Value)) :
    (layout.fieldsData d fields).map Prod.fst
      = (fields.map Prod.fst).filter fun key => layout.names.contains key := by
  induction fields with
  | nil => rfl
  | cons f fields ih =>
    obtain ⟨key, v⟩ := f
    cases h : layout.fieldData d key v with
    | none =>
      have hunknown := fieldData_eq_none.mp h
      simpa [fieldsData_cons_unknown h, hunknown] using ih
    | some w =>
      have hknown := mem_names_of_fieldData h
      simpa [fieldsData_cons_known h, hknown] using ih

lemma lookup_fieldsData (hname : name ∈ layout.names) (fields : List (String × Value)) :
    (layout.fieldsData d fields).lookup name
      = (fields.lookup name).bind (layout.fieldData d name) := by
  induction fields with
  | nil => rfl
  | cons f fields ih =>
    obtain ⟨key, v⟩ := f
    by_cases hkey : name = key
    · subst hkey
      cases h : layout.fieldData d name v with
      | none => exact absurd hname (fieldData_eq_none.mp h)
      | some w => simp [fieldsData_cons_known h, h]
    · rw [lookup_cons_of_ne hkey, ← ih]
      cases h : layout.fieldData d key v with
      | none => rw [fieldsData_cons_unknown h]
      | some w => rw [fieldsData_cons_known h, lookup_cons_of_ne hkey]

/-- Each field is looked up as the data that its value stands for. -/
def Stands (d : Dialect) : Layout → List (String × Value) → List (String × Value) → Prop
  | .nil, _, _ => True
  | .field name _ schema rest, fields, fields' =>
    fields'.lookup name = (fields.lookup name).map (schema.data d) ∧ rest.Stands d fields fields'

lemma stands_of_lookup (hnames : layout.names.Nodup) (h : ∀ name ∈ layout.names,
    fields'.lookup name = (fields.lookup name).bind (layout.fieldData d name)) :
    layout.Stands d fields fields' := by
  induction layout with
  | nil => trivial
  | field name default schema rest ih =>
    obtain ⟨hname, hrest⟩ := List.nodup_cons.mp hnames
    constructor
    · rw [h name List.mem_cons_self]
      cases fields.lookup name <;> simp [fieldData]
    · refine ih hrest fun key hkey => ?_
      rw [h key (List.mem_cons_of_mem name hkey), fieldData_of_mem hname hkey]

lemma zip_valuesData (hnames : layout.names.Nodup) (vs : List Value) :
    layout.names.zip (layout.valuesData d vs) = layout.fieldsData d (layout.names.zip vs) := by
  induction layout generalizing vs with
  | nil => rfl
  | field name default schema rest ih =>
    obtain ⟨hname, hrest⟩ := List.nodup_cons.mp hnames
    cases vs with
    | nil => rfl
    | cons v vs =>
      have hfirst : (field name default schema rest).fieldData d name v
          = some (schema.data d v) := by
        rw [fieldData, if_pos rfl]
      rw [names, valuesData, List.zip_cons_cons, List.zip_cons_cons, fieldsData_cons_known hfirst,
        ih hrest, fieldsData, fieldsData]
      congr 1
      refine List.filterMap_congr fun f hf => ?_
      rw [fieldData_of_mem hname (List.of_mem_zip hf).1]

lemma length_valuesData_le (layout : Layout) (vs : List Value) :
    (layout.valuesData d vs).length ≤ layout.names.length ↔
      vs.length ≤ layout.names.length ∨ d.surplusAllowed := by
  induction layout generalizing vs with
  | nil => cases h : d.surplusAllowed <;> simp [valuesData, names, h]
  | field name default schema rest ih =>
    cases vs with
    | nil => simp [valuesData]
    | cons v vs => simp [valuesData, names, ih]

lemma repeatedField?_fieldsData (layout : Layout) (fields : List (String × Value)) :
    Value.repeatedField? layout.names (layout.fieldsData d fields)
      = Value.repeatedField? layout.names fields := by
  have hcount (fields : List (String × Value)) (name : String) :
      fields.countP (fun f => f.1 == name) = (fields.map Prod.fst).count name := by
    rw [List.count_eq_countP, List.countP_map]
    rfl
  rw [Value.repeatedField?, Value.repeatedField?]
  refine List.find?_congr fun name hname => ?_
  rw [hcount, hcount, map_fst_fieldsData, List.count_filter (by simpa using hname)]

lemma filter_fieldsData (layout : Layout) (fields : List (String × Value)) :
    (layout.fieldsData d fields).filter (fun f => layout.names.contains f.1)
      = layout.fieldsData d (fields.filter fun f => layout.names.contains f.1) := by
  induction fields with
  | nil => rfl
  | cons f fields ih =>
    obtain ⟨key, v⟩ := f
    cases h : layout.fieldData d key v with
    | none =>
      have hunknown := fieldData_eq_none.mp h
      simpa [fieldsData_cons_unknown h, hunknown] using ih
    | some w =>
      have hknown := mem_names_of_fieldData h
      simpa [fieldsData_cons_known h, hknown] using ih

end Layout

lemma asFields_record_nil (names : List String) :
    Value.asFields .json names (.record []) = .ok [] := by
  rw [Value.asFields, repeatedField?_eq_none.mpr (by simp)]
  rfl

lemma toOption_asFields_list (d : Dialect) (names : List String) (vs : List Value) :
    ((Value.list vs).asFields d names).toOption =
      if d.listsAsRecords = true ∧ (vs.length ≤ names.length ∨ d.surplusAllowed = true) then
        some (names.zip vs)
      else none := by
  rw [Value.asFields]
  cases d.listsAsRecords with
  | false => rfl
  | true =>
    by_cases hfits : vs.length ≤ names.length ∨ d.surplusAllowed = true
    · rw [if_neg (by simp), if_pos hfits, if_pos ⟨rfl, hfits⟩]
      rfl
    · rw [if_neg (by simp), if_neg hfits, if_neg fun h => hfits h.2]
      rfl

/-- The fields that are taken from a value are taken from the data it stands for. -/
lemma toOption_asFields {layout : Layout} (hnames : layout.names.Nodup) (v : Value) :
    (((Schema.record layout).data d v).asFields .json layout.names).toOption
      = (v.asFields d layout.names).toOption.map (layout.fieldsData d) := by
  have hempty : (Value.asFields .json layout.names (.record [])).toOption
      = some (layout.fieldsData d []) := by rw [asFields_record_nil]; rfl
  cases v with
  | record fields =>
    rw [Schema.data_record, Value.recordData, Value.asFields, Value.asFields,
      layout.repeatedField?_fieldsData]
    cases Value.repeatedField? layout.names fields with
    | some name => rfl
    | none => exact congrArg some (layout.filter_fieldsData fields)
  | list vs =>
    rw [Schema.data_record, Value.recordData, toOption_asFields_list]
    by_cases hlists : d.listsAsRecords = true
    · rw [if_pos hlists, toOption_asFields_list, Layout.zip_valuesData hnames]
      simp [Dialect.json, hlists, layout.length_valuesData_le, apply_ite (Option.map _)]
    · rw [if_neg hlists, if_neg fun h => hlists h.1]
      rfl
  | plain s | tagged _ s =>
    by_cases hs : s = ""
    · subst hs
      exact hempty
    · simp [Schema.data_record, Value.recordData, Value.asFields, hs, Value.misfit, Except.toOption]
  | moment => exact hempty
  | _ => rfl

/-! ### Reading data in place of a document -/

variable {α β : Type}

/-- A reader takes from each value what another one takes from the data that the value stands for.
What is written stands for itself. -/
structure ReadsAs (d : Dialect) (schema : Schema) (write : α → Value)
    (read readData : Value.Reader α) : Prop where
  data_write : ∀ a, schema.data d (write a) = write a
  toOption_eq : ∀ v, (read v).toOption = (readData (schema.data d v)).toOption

/-- The same for a reader of one field of a record. -/
structure FieldReadsAs (d : Dialect) (name : String) (schema : Schema) (write : β → Value)
    (take takeData : List (String × Value) → Except DecodeError β) : Prop where
  data_write : ∀ b, schema.data d (write b) = write b
  toOption_eq : ∀ {fields fields'},
    fields'.lookup name = (fields.lookup name).map (schema.data d) →
      (take fields).toOption = (takeData fields').toOption

/-- The same for a reader of the remaining fields of a record. -/
structure LayoutReadsAs (d : Dialect) (layout : Layout) (write : α → List (String × Value))
    (build buildData : List (String × Value) → Except DecodeError α) : Prop where
  data_write : layout.names.Nodup → ∀ a, ∀ f ∈ write a, layout.fieldData d f.1 f.2 = some f.2
  toOption_eq : ∀ {fields fields'}, layout.Stands d fields fields' →
    (build fields).toOption = (buildData fields').toOption

namespace ReadsAs

lemma text : ReadsAs d .text .text Value.asText Value.asText where
  data_write _ := rfl
  toOption_eq v := by cases v <;> rfl

lemma bool : ReadsAs d .bool .bool Value.asBool Value.asBool where
  data_write _ := rfl
  toOption_eq := toOption_asBool

lemma nat : ReadsAs d .nat .ofNat Value.asNat Value.asNat where
  data_write _ := rfl
  toOption_eq := toOption_asNat

variable {schema : Schema} {write : α → Value} {read readData : Value.Reader α}

/-- A value that may be absent. -/
lemma optional (h : ReadsAs d schema write read readData)
    (hnull : ∀ v, schema.data d v ≠ .null) (hmisfit : (readData .misfit).toOption = none) :
    ReadsAs d (.optional schema) (.ofOption write) (Value.asOption read)
      (Value.asOption readData) where
  data_write
    | none => rfl
    | some a => by
      have hdata := schema.isData_data (d := d) (write a)
      rw [h.data_write] at hdata
      exact optionData_of_isData hdata (h.data_write a)
  toOption_eq v := by
    have hpresent (v : Value) : (some <$> read v).toOption
        = (Value.asOption readData (schema.data d v)).toOption := by
      rw [Codec.asOption_of_ne_null (schema.isData_data v) (hnull v), toOption_map, toOption_map,
        h.toOption_eq]
    rw [Schema.data]
    cases v with
    | null => rfl
    | plain s =>
      rw [Value.asOption, Value.optionData]
      split
      · rfl
      · exact hpresent (.plain s)
    | tagged tag s =>
      cases tag with
      | null =>
        rw [Value.asOption, Value.optionData]
        split
        · rw [Codec.asOption_of_ne_null Value.isData_misfit (by simp [Value.misfit]), toOption_map,
            hmisfit]
          rfl
        · rfl
      | bool | int | other => exact hpresent _
    | _ => exact hpresent _

lemma textOption : ReadsAs d (.optional .text) (.ofOption .text) (Value.asOption Value.asText)
    (Value.asOption Value.asText) :=
  text.optional Value.textData_ne_null rfl

lemma natOption : ReadsAs d (.optional .nat) (.ofOption .ofNat) (Value.asOption Value.asNat)
    (Value.asOption Value.asNat) :=
  nat.optional Value.natData_ne_null rfl

lemma toOption_mapM (h : ReadsAs d schema write read readData) (vs : List Value) :
    (vs.mapM read).toOption = ((vs.map (schema.data d)).mapM readData).toOption := by
  induction vs with
  | nil => rfl
  | cons v vs ih =>
    rw [List.map_cons, List.mapM_cons, List.mapM_cons, toOption_bind, toOption_bind, h.toOption_eq]
    simp only [toOption_bind, ih]

/-- A list of values of one kind. -/
lemma list (h : ReadsAs d schema write read readData) :
    ReadsAs d (.list schema) (fun as => .list (as.map write)) (Value.asList read)
      (Value.asList readData) where
  data_write as := by simp [Schema.data, Value.listData, h.data_write]
  toOption_eq v := by
    rw [Schema.data]
    cases v with
    | list vs => exact h.toOption_mapM vs
    | plain s | tagged _ s =>
      by_cases hs : s = ""
      · subst hs
        rfl
      · simp [Value.asList, Value.listData, hs, Value.misfit]
    | _ => rfl

/-- A field that has to be given. -/
lemma required (h : ReadsAs d schema write read readData) (name : String) :
    FieldReadsAs d name schema write (fun fields => requiredField fields name read)
      fun fields => requiredField fields name readData where
  data_write := h.data_write
  toOption_eq {fields fields'} hlookup := by
    rw [requiredField, requiredField, hlookup]
    cases fields.lookup name with
    | none => rfl
    | some v => exact h.toOption_eq v

/-- A field that may be left out. -/
lemma withDefault (h : ReadsAs d schema write read readData) (name : String) (default : α) :
    FieldReadsAs d name schema write (fun fields => fieldOr fields name default read)
      fun fields => fieldOr fields name default readData where
  data_write := h.data_write
  toOption_eq {fields fields'} hlookup := by
    rw [fieldOr, fieldOr, hlookup]
    cases fields.lookup name with
    | none => rfl
    | some v => exact h.toOption_eq v

end ReadsAs

namespace LayoutReadsAs

/-- All fields have been read. -/
lemma nil (a : α) : LayoutReadsAs d .nil (fun _ => []) (fun _ => pure a) fun _ => pure a where
  data_write _ _ := by simp
  toOption_eq _ := rfl

/-- A field is read, and then the others. -/
lemma field {name : String} {default : Option Value} {schema : Schema} {rest : Layout}
    {writeField : β → Value} {take takeData : List (String × Value) → Except DecodeError β}
    (get : α → β) (h : FieldReadsAs d name schema writeField take takeData)
    {write : α → List (String × Value)}
    {build buildData : β → List (String × Value) → Except DecodeError α}
    (hrest : ∀ b, LayoutReadsAs d rest write (build b) (buildData b)) :
    LayoutReadsAs d (.field name default schema rest)
      (fun a => (name, writeField (get a)) :: write a)
      (fun fields => take fields >>= fun b => build b fields)
      fun fields => takeData fields >>= fun b => buildData b fields where
  data_write hnames a := by
    obtain ⟨hname, hnames⟩ := List.nodup_cons.mp hnames
    refine List.forall_mem_cons.mpr ⟨?_, fun f hf => ?_⟩
    · rw [Layout.fieldData, if_pos rfl, h.data_write]
    · have hlater := (hrest (get a)).data_write hnames a f hf
      rwa [Layout.fieldData_of_mem hname (Layout.mem_names_of_fieldData hlater)]
  toOption_eq {fields fields'} hstands := by
    obtain ⟨hlookup, hlater⟩ := hstands
    rw [toOption_bind, toOption_bind, h.toOption_eq hlookup]
    simp only [(hrest _).toOption_eq hlater]

end LayoutReadsAs

/-- A record, from a reader of its fields. -/
lemma ReadsAs.record {layout : Layout} {write : α → List (String × Value)}
    {build buildData : List (String × Value) → Except DecodeError α} (hnames : layout.names.Nodup)
    (h : LayoutReadsAs d layout write build buildData) :
    ReadsAs d (.record layout) (fun a => .record (write a))
      (fun v => v.asFields d layout.names >>= build)
      fun v => v.asFields .json layout.names >>= buildData where
  data_write a := by
    have hwrite : layout.fieldsData d (write a) = write a := by
      rw [Layout.fieldsData, List.filterMap_congr (g := some), List.filterMap_some]
      intro f hf
      rw [h.data_write hnames a f hf]
      rfl
    rw [Schema.data_record, Value.recordData, hwrite]
  toOption_eq v := by
    rw [toOption_bind, toOption_bind, toOption_asFields hnames, Option.bind_map]
    refine Option.bind_congr fun fields _ => h.toOption_eq ?_
    exact Layout.stands_of_lookup hnames fun name hname => Layout.lookup_fieldsData hname fields

/-! ### Codecs of a dialect -/

/-- A reader of a dialect reads back what is written, if it fits. It accepts just the values that
stand for a spelling of it, and rejects just those that stand for something at fault. -/
structure DialectCodec (d : Dialect) (schema : Schema) (Fits : α → Prop) (write : α → Value)
    (read : Value.Reader α) : Prop where
  read_write : ∀ a, Fits a → read (write a) = .ok a
  ok_iff : ∀ v a, read v = .ok a ↔ Spelling schema (schema.data d v) (write a)
  error_iff : ∀ v, (∃ e, read v = .error e) ↔ Fault schema (schema.data d v)

/-- A codec for data gives one for documents. -/
lemma Codec.inDialect {schema : Schema} {Fits : α → Prop} {write : α → Value}
    {read readData : Value.Reader α} (h : Codec schema Fits write readData)
    (hread : ReadsAs d schema write read readData) :
    DialectCodec d schema Fits write read where
  read_write a ha := by
    rw [← toOption_eq_some, hread.toOption_eq, hread.data_write, h.read_write a ha]
    rfl
  ok_iff v a := by
    rw [← toOption_eq_some, hread.toOption_eq, toOption_eq_some, h.ok_iff (schema.isData_data v)]
  error_iff v := by
    rw [← toOption_eq_none, hread.toOption_eq, toOption_eq_none,
      h.error_iff (schema.isData_data v)]

end JoinAssembly
