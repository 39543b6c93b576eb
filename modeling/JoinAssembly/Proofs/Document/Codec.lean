import JoinAssembly.Proofs.Document.Fields
import JoinAssembly.Proofs.Results
import JoinAssembly.Scenario.Codec

/-!
# Readers and writers

A reader goes with a writer if it reads back what is written, accepts every spelling of it, and
rejects what is at fault. Readers of scalars do, and readers that are made of such readers for
options, lists and records do as well.
-/

namespace JoinAssembly

variable {α β : Type}

/-- A reader reads back what is written, if it fits. It accepts just the spellings of it, and
rejects just what is at fault. -/
structure Codec (schema : Schema) (Fits : α → Prop) (write : α → Value) (read : Value.Reader α) :
    Prop where
  isData : ∀ a, (write a).IsData
  read_write : ∀ a, Fits a → read (write a) = .ok a
  ok_iff : ∀ {v}, v.IsData → ∀ a, read v = .ok a ↔ Spelling schema v (write a)
  error_iff : ∀ {v}, v.IsData → ((∃ e, read v = .error e) ↔ Fault schema v)

namespace Codec

variable {schema : Schema} {Fits Fits' : α → Prop} {write : α → Value} {read : Value.Reader α}

/-- What is written spells itself. -/
lemma spelling_self (h : Codec schema Fits write read) {a : α} (ha : Fits a) :
    Spelling schema (write a) (write a) :=
  (h.ok_iff (h.isData a) a).mp (h.read_write a ha)

lemma of_fits (h : Codec schema Fits write read) (hfits : ∀ a, Fits' a → Fits a) :
    Codec schema Fits' write read :=
  { h with read_write := fun a ha => h.read_write a (hfits a ha) }

/-- A codec for values that are spelled in one way only. -/
lemma scalar (hdata : ∀ a, (write a).IsData)
    (hread : ∀ {v : Value}, v.IsData → ∀ a, read v = .ok a ↔ Fits a ∧ v = write a)
    (hspelling : ∀ v a, Spelling schema v (write a) ↔ Fits a ∧ v = write a)
    (hfault : ∀ v, Fault schema v ↔ ∀ a, Fits a → v ≠ write a) :
    Codec schema Fits write read where
  isData := hdata
  read_write a ha := (hread (hdata a) a).mpr ⟨ha, rfl⟩
  ok_iff hv a := (hread hv a).trans (hspelling _ a).symm
  error_iff {v} hv := by
    rw [hfault]
    constructor
    · rintro ⟨e, he⟩ a ha heq
      cases he.symm.trans ((hread hv a).mpr ⟨ha, heq⟩)
    · intro h
      cases hok : read v with
      | error e => exact ⟨e, rfl⟩
      | ok a =>
        obtain ⟨ha, heq⟩ := (hread hv a).mp hok
        exact absurd heq (h a ha)

lemma text : Codec .text (fun _ => True) .text Value.asText := by
  refine scalar .text (fun hv s => ?_) (fun v s => ?_) fun v => ?_
  · cases hv <;> simp [Value.asText]
  · constructor
    · rintro ⟨⟩
      exact ⟨trivial, rfl⟩
    · rintro ⟨-, rfl⟩
      exact .text s
  · constructor
    · intro hfault s _
      cases hfault with
      | text h => exact h s
    · exact fun h => .text fun s => h s trivial

lemma bool : Codec .bool (fun _ => True) .bool Value.asBool := by
  refine scalar .bool (fun hv b => ?_) (fun v b => ?_) fun v => ?_
  · cases hv <;> simp [Value.asBool]
  · constructor
    · rintro ⟨⟩
      exact ⟨trivial, rfl⟩
    · rintro ⟨-, rfl⟩
      exact .bool b
  · constructor
    · intro hfault b _
      cases hfault with
      | bool h => exact h b
    · exact fun h => .bool fun b => h b trivial

lemma nat : Codec .nat (· < numberLimit) .ofNat Value.asNat := by
  refine scalar (fun n => .int n) (fun hv n => ?_) (fun v n => ?_) fun v => ?_
  · cases hv with
    | int k =>
      have hrange : (0 ≤ k ∧ k < numberLimit) ∧ k.toNat = n ↔ n < numberLimit ∧ k = n := by omega
      rw [Value.asNat, Value.ofNat, Value.int.injEq, ← hrange]
      split
      · rename_i hk
        simp [hk]
      · rename_i hk
        simp [hk]
    | null | text | bool | real | list | record => simp [Value.asNat, Value.ofNat]
  · constructor
    · intro hspelling
      cases hspelling with
      | nat _ hn => exact ⟨hn, rfl⟩
    · rintro ⟨hn, rfl⟩
      exact .nat n hn
  · constructor
    · intro hfault n hn
      cases hfault with
      | nat h => exact h n hn
    · exact fun h => .nat fun n hn => h n hn

@[simp] lemma ofNat_inj {m n : Nat} : Value.ofNat m = Value.ofNat n ↔ m = n := by
  rw [Value.ofNat, Value.ofNat, Value.int.injEq, Int.ofNat_inj]

@[simp] lemma ofNat_ne_null (n : Nat) : Value.ofNat n ≠ .null := by
  simp [Value.ofNat]

lemma asOption_of_ne_null {v : Value} (hv : v.IsData) (hne : v ≠ .null) :
    Value.asOption read v = some <$> read v := by
  cases hv with
  | null => exact absurd rfl hne
  | bool | int | real | text | list | record => rfl

/-- A codec for values that may be absent. -/
lemma optional (h : Codec schema Fits write read) (hwrite : ∀ a, write a ≠ .null) :
    Codec (.optional schema) (fun o => ∀ a ∈ o, Fits a) (.ofOption write)
      (Value.asOption read) where
  isData
    | none => .null
    | some a => h.isData a
  read_write
    | none, _ => rfl
    | some a, ha => by
      rw [Value.ofOption, asOption_of_ne_null (h.isData a) (hwrite a), h.read_write a (ha a rfl)]
      rfl
  ok_iff {v} hv o := by
    by_cases hnull : v = .null
    · subst hnull
      constructor
      · intro hread
        cases hread
        exact .absent schema
      · intro hspelling
        cases o with
        | none => rfl
        | some a =>
          rw [Value.ofOption] at hspelling
          generalize hc : write a = c at hspelling
          cases hspelling with
          | absent => exact absurd hc (hwrite a)
          | present hne => exact absurd rfl hne
    · rw [asOption_of_ne_null hv hnull, map_eq_ok_iff]
      constructor
      · rintro ⟨a, hread, rfl⟩
        exact .present hnull (hwrite a) ((h.ok_iff hv a).mp hread)
      · intro hspelling
        generalize hc : Value.ofOption write o = c at hspelling
        cases hspelling with
        | absent => exact absurd rfl hnull
        | present _ hne hspelling =>
          subst hc
          cases o with
          | none => exact absurd rfl hne
          | some a => exact ⟨a, (h.ok_iff hv a).mpr hspelling, rfl⟩
  error_iff {v} hv := by
    by_cases hnull : v = .null
    · subst hnull
      constructor
      · rintro ⟨e, hread⟩
        cases hread
      · intro hfault
        cases hfault with
        | optional hne => exact absurd rfl hne
    · simp only [asOption_of_ne_null hv hnull, map_eq_error_iff, h.error_iff hv]
      constructor
      · exact .optional hnull
      · intro hfault
        cases hfault with
        | optional _ hfault => exact hfault

/-! ### Lists -/

lemma mapM_eq_ok_iff (h : Codec schema Fits write read) {vs : List Value} (hvs : ∀ v ∈ vs, v.IsData)
    (as : List α) : vs.mapM read = .ok as ↔
      vs.length = (as.map write).length ∧ ∀ x ∈ vs.zip (as.map write), Spelling schema x.1 x.2 := by
  induction vs generalizing as with
  | nil => cases as <;> simp [pure, Except.pure]
  | cons v rest ih =>
    obtain ⟨hv, hrest⟩ := List.forall_mem_cons.mp hvs
    rw [List.mapM_cons, bind_eq_ok_iff]
    cases as with
    | nil => simp [bind_eq_ok_iff, pure, Except.pure]
    | cons a as =>
      simp [bind_eq_ok_iff, pure, Except.pure, h.ok_iff hv, ih hrest]
      tauto

lemma mapM_eq_error_iff (h : Codec schema Fits write read) {vs : List Value}
    (hvs : ∀ v ∈ vs, v.IsData) :
    (∃ e, vs.mapM read = .error e) ↔ ∃ v ∈ vs, Fault schema v := by
  induction vs with
  | nil => simp [pure, Except.pure]
  | cons v rest ih =>
    obtain ⟨hv, hrest⟩ := List.forall_mem_cons.mp hvs
    rw [List.mapM_cons, exists_bind_eq_error_iff (P := ∃ u ∈ rest, Fault schema u), h.error_iff hv,
      List.exists_mem_cons_iff]
    intro a _
    rw [← ih hrest, exists_bind_eq_error_iff (P := False), or_false]
    intro as _
    simp [pure, Except.pure]

/-- A codec for lists. -/
lemma list (h : Codec schema Fits write read) :
    Codec (.list schema) (fun as => ∀ a ∈ as, Fits a) (fun as => .list (as.map write))
      (Value.asList read) where
  isData as := .list (List.forall_mem_map.mpr fun a _ => h.isData a)
  read_write as has := by
    have hdata : ∀ v ∈ as.map write, v.IsData := List.forall_mem_map.mpr fun a _ => h.isData a
    rw [Value.asList, h.mapM_eq_ok_iff hdata]
    refine ⟨rfl, fun x hx => ?_⟩
    obtain ⟨a, ha, rfl⟩ : ∃ a ∈ as, (write a, write a) = x := by
      simpa [List.zip_map', List.zip_eq_zipWith] using hx
    exact h.spelling_self (has a ha)
  ok_iff {v} hv as := by
    cases hv with
    | @list vs hvs =>
      rw [Value.asList, h.mapM_eq_ok_iff hvs]
      constructor
      · rintro ⟨hlength, hspelling⟩
        exact .list hlength hspelling
      · intro hspelling
        cases hspelling with
        | list hlength hspelling => exact ⟨hlength, hspelling⟩
    | null | text | bool | int | real | record =>
      constructor <;> intro h <;> cases h
  error_iff {v} hv := by
    cases hv with
    | @list vs hvs =>
      rw [Value.asList, h.mapM_eq_error_iff hvs]
      constructor
      · rintro ⟨v, hv, hfault⟩
        exact .member hv hfault
      · intro hfault
        cases hfault with
        | noList hne => exact absurd rfl (hne vs)
        | member hv hfault => exact ⟨_, hv, hfault⟩
    | null | text | bool | int | real | record =>
      exact ⟨fun _ => .noList (by simp), fun _ => ⟨_, rfl⟩⟩

end Codec

/-! ### Records -/

/-- A reader of one field accepts what is looked up for it just if it is filled, and rejects it just
if it is not. -/
structure FieldCodec (name : String) (default : Option Value) (schema : Schema) (Fits : β → Prop)
    (write : β → Value) (take : List (String × Value) → Except DecodeError β) : Prop where
  isData : ∀ b, (write b).IsData
  spelling_self : ∀ {b}, Fits b → Spelling schema (write b) (write b)
  ok_iff : ∀ {fields}, (∀ f ∈ fields, f.2.IsData) →
    ∀ b, take fields = .ok b ↔ Filled name default schema fields (write b)
  error_iff : ∀ {fields}, (∀ f ∈ fields, f.2.IsData) →
    ((∃ e, take fields = .error e) ↔ Unfilled name default schema fields)

section FieldCodecs

variable {schema : Schema} {Fits : β → Prop} {write : β → Value} {read : Value.Reader β}

lemma isData_of_lookup {fields : List (String × Value)} (h : ∀ f ∈ fields, f.2.IsData)
    {name : String} {v : Value} (hv : fields.lookup name = some v) : v.IsData := by
  obtain ⟨before, after, rfl, -⟩ := List.lookup_eq_some_iff.mp hv
  exact h (name, v) (by simp)

/-- A field that has to be given. -/
lemma Codec.required (h : Codec schema Fits write read) (name : String) :
    FieldCodec name none schema Fits write fun fields => requiredField fields name read where
  isData := h.isData
  spelling_self := h.spelling_self
  ok_iff {fields} hfields b := by
    rw [requiredField, Filled]
    cases hv : fields.lookup name with
    | some v => exact h.ok_iff (isData_of_lookup hfields hv) b
    | none => simp
  error_iff {fields} hfields := by
    rw [requiredField, Unfilled]
    cases hv : fields.lookup name with
    | some v => exact h.error_iff (isData_of_lookup hfields hv)
    | none => simp

/-- A field that may be left out. -/
lemma Codec.withDefault (h : Codec schema Fits write read) (name : String) (default : β)
    (hdefault : ∀ b, write b = write default → b = default) :
    FieldCodec name (some (write default)) schema Fits write
      fun fields => fieldOr fields name default read where
  isData := h.isData
  spelling_self := h.spelling_self
  ok_iff {fields} hfields b := by
    rw [fieldOr, Filled]
    cases hv : fields.lookup name with
    | some v => exact h.ok_iff (isData_of_lookup hfields hv) b
    | none =>
      constructor
      · intro heq
        cases heq
        rfl
      · intro heq
        rw [hdefault b (Option.some.inj heq).symm]
  error_iff {fields} hfields := by
    rw [fieldOr, Unfilled]
    cases hv : fields.lookup name with
    | some v => exact h.error_iff (isData_of_lookup hfields hv)
    | none => simp

/-- A field that is absent if it is left out. -/
lemma Codec.orAbsent (h : Codec schema Fits write read) (hwrite : ∀ b, write b ≠ .null)
    (name : String) :
    FieldCodec name (some .null) (.optional schema) (fun o => ∀ b ∈ o, Fits b) (.ofOption write)
      fun fields => fieldOr fields name none (Value.asOption read) := by
  refine (h.optional hwrite).withDefault name none fun o ho => ?_
  cases o with
  | none => rfl
  | some b => exact absurd ho (hwrite b)

/-- A field that is empty if it is left out. -/
lemma Codec.orEmpty (h : Codec schema Fits write read) (name : String) :
    FieldCodec name (some (.list [])) (.list schema) (fun bs => ∀ b ∈ bs, Fits b)
      (fun bs => .list (bs.map write)) fun fields => fieldOr fields name [] (Value.asList read) :=
  h.list.withDefault name [] fun bs hbs => by simpa using hbs

end FieldCodecs

/-- A reader of the remaining fields of a record, after others have been read: it succeeds with a
record that agrees with those just if the remaining fields give what is written for that record. -/
structure LayoutCodec (layout : Layout) (Fits : α → Prop) (write : α → List (String × Value))
    (Agrees : α → Prop) (build : List (String × Value) → Except DecodeError α) : Prop where
  isData : ∀ a, ∀ f ∈ write a, f.2.IsData
  full : ∀ {a}, Fits a → layout.Full (write a)
  ok_iff : ∀ {fields}, (∀ f ∈ fields, f.2.IsData) →
    ∀ a, build fields = .ok a ↔ Agrees a ∧ layout.Gives fields (write a)
  error_iff : ∀ {fields}, (∀ f ∈ fields, f.2.IsData) →
    ((∃ e, build fields = .error e) ↔ layout.Fails fields)

namespace LayoutCodec

variable {Fits : α → Prop} {write : α → List (String × Value)} {Agrees : α → Prop}

/-- All fields have been read. -/
lemma nil {a : α} (ha : ∀ b, Agrees b ↔ b = a) :
    LayoutCodec .nil (fun _ => True) (fun _ => []) Agrees fun _ => pure a where
  isData _ := by simp
  full _ := rfl
  ok_iff _ b := by
    rw [ha b]
    simp [Layout.Gives, pure, Except.pure, eq_comm]
  error_iff _ := by simp [Layout.Fails, pure, Except.pure]

/-- A field is read, and then the others. -/
lemma field {name : String} {default : Option Value} {schema : Schema} {rest : Layout}
    {FitsField : β → Prop} {writeField : β → Value}
    {take : List (String × Value) → Except DecodeError β} (get : α → β)
    (h : FieldCodec name default schema FitsField writeField take)
    {build : β → List (String × Value) → Except DecodeError α}
    (hrest : ∀ b, LayoutCodec rest Fits write (fun a => Agrees a ∧ get a = b) (build b)) :
    LayoutCodec (.field name default schema rest) (fun a => FitsField (get a) ∧ Fits a)
      (fun a => (name, writeField (get a)) :: write a) Agrees
      fun fields => take fields >>= fun b => build b fields where
  isData a := List.forall_mem_cons.mpr ⟨h.isData (get a), (hrest (get a)).isData a⟩
  full {a} ha := ⟨_, _, rfl, h.spelling_self ha.1, (hrest (get a)).full ha.2⟩
  ok_iff {fields} hfields a := by
    rw [bind_eq_ok_iff]
    simp only [(hrest _).ok_iff hfields, h.ok_iff hfields, Layout.Gives]
    constructor
    · rintro ⟨b, hb, ⟨ha, rfl⟩, hgives⟩
      exact ⟨ha, _, _, rfl, hb, hgives⟩
    · rintro ⟨ha, c, cs, heq, hc, hgives⟩
      obtain ⟨hname, rfl⟩ := List.cons.inj heq
      obtain ⟨-, rfl⟩ := Prod.mk.inj hname
      exact ⟨get a, hc, ⟨ha, rfl⟩, hgives⟩
  error_iff {fields} hfields := by
    rw [exists_bind_eq_error_iff fun b _ => (hrest b).error_iff hfields, h.error_iff hfields]
    rfl

end LayoutCodec

/-- A codec for records, from one for the fields. -/
lemma Codec.record {layout : Layout} {Fits : α → Prop} {write : α → List (String × Value)}
    {build : List (String × Value) → Except DecodeError α} (hnames : layout.names.Nodup)
    (h : LayoutCodec layout Fits write (fun _ => True) build) :
    Codec (.record layout) Fits (fun a => .record (write a))
      fun v => v.asFields .json layout.names >>= build := by
  have hread {v : Value} (hv : v.IsData) (a : α) : (v.asFields .json layout.names >>= build) = .ok a ↔
      Spelling (.record layout) v (.record (write a)) := by
    rw [bind_eq_ok_iff, spelling_record_iff hnames hv]
    refine exists_congr fun fields => and_congr_right fun hfields => ?_
    rw [h.ok_iff (isData_of_asFields hv hfields), true_and]
  exact {
    isData := fun a => .record (h.isData a)
    read_write := fun a ha =>
      (hread (.record (h.isData a)) a).mpr (spelling_record_self hnames (h.full ha))
    ok_iff := hread
    error_iff := fun {v} hv => by
      rw [fault_record_iff hnames hv]
      cases hfields : v.asFields .json layout.names with
      | error e => simp [bind, Except.bind]
      | ok fields =>
        have herror := h.error_iff (isData_of_asFields hv hfields)
        simpa [bind, Except.bind] using herror }

end JoinAssembly
