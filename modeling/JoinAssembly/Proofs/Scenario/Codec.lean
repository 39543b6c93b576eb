import JoinAssembly.Proofs.Document.Dialect
import JoinAssembly.Scenario.File

/-!
# Spellings of scenarios

Scenarios and their parts are read back as they are written, whichever way they are spelled. The
fields of each kind of record are laid out here with their defaults as they are written in full. In
a document of any dialect the same holds of the data that its values stand for.
-/

namespace JoinAssembly

/-! ### Layouts -/

def StreamEntry.layout : Layout :=
  .field "name" none .text <|
  .field "parent" (some .null) (.optional .text) <|
  .field "optional" (some (.bool false)) .bool .nil

def AssemblyOptions.layout : Layout :=
  .field "single_result_fast_path" (some (.bool true)) .bool <|
  .field "row_capacity" (some (.int 16)) .nat .nil

def LogSettings.layout : Layout :=
  .field "level" (some (.text "info")) .text .nil

def MatchEntry.layout : Layout :=
  .field "stream" none .text <|
  .field "parent" none .text <|
  .field "parent_match" (some .null) (.optional .nat) <|
  .field "events" none (.list .text) .nil

def PassEntry.layout : Layout :=
  .field "partition" (some .null) (.optional .text) <|
  .field "root" (some (.list [])) (.list .text) <|
  .field "matches" (some (.list [])) (.list (.record MatchEntry.layout)) .nil

/-- Options and log settings that are left out are those of which every field is left out. -/
def Scenario.layout : Layout :=
  .field "streams" (some (.list [])) (.list (.record StreamEntry.layout)) <|
  .field "assembly"
    (some (.record [("single_result_fast_path", .bool true), ("row_capacity", .int 16)]))
    (.record AssemblyOptions.layout) <|
  .field "logging" (some (.record [("level", .text "info")])) (.record LogSettings.layout) <|
  .field "passes" (some (.list [])) (.list (.record PassEntry.layout)) .nil

/-! ### Numbers in range -/

def AssemblyOptions.InRange (o : AssemblyOptions) : Prop := o.rowCapacity < numberLimit

def MatchEntry.InRange (e : MatchEntry) : Prop := ∀ n ∈ e.parentChoice, n < numberLimit

def PassEntry.InRange (p : PassEntry) : Prop := ∀ e ∈ p.matched, e.InRange

def Scenario.InRange (s : Scenario) : Prop := s.options.InRange ∧ ∀ p ∈ s.passes, p.InRange

/-! ### Codecs -/

lemma StreamEntry.codec :
    Codec (.record layout) (fun _ => True) toValue (StreamEntry.ofValue .json) :=
  have fields := Codec.record (by decide)
    (.field name (Codec.text.required "name") fun _ =>
      .field parent (Codec.text.orAbsent (by simp) "parent") fun _ =>
      .field optional (Codec.bool.withDefault "optional" false (by simp)) fun _ =>
      .nil (by rintro ⟨⟩; simp [and_assoc]))
  fields.of_fits (by simp)

lemma AssemblyOptions.codec :
    Codec (.record layout) InRange toValue (AssemblyOptions.ofValue .json) :=
  have fields := Codec.record (by decide)
    (.field fastPath (Codec.bool.withDefault "single_result_fast_path" true (by simp)) fun _ =>
      .field rowCapacity (Codec.nat.withDefault "row_capacity" 16 (by simp)) fun _ =>
      .nil (by rintro ⟨⟩; simp))
  fields.of_fits (by simp [InRange])

lemma LogSettings.codec :
    Codec (.record layout) (fun _ => True) toValue (LogSettings.ofValue .json) :=
  have fields := Codec.record (by decide)
    (.field level (Codec.text.withDefault "level" "info" (by simp)) fun _ =>
      .nil (by rintro ⟨⟩; simp))
  fields.of_fits (by simp)

lemma MatchEntry.codec :
    Codec (.record layout) InRange toValue (MatchEntry.ofValue .json) :=
  have fields := Codec.record (by decide)
    (.field stream (Codec.text.required "stream") fun _ =>
      .field parent (Codec.text.required "parent") fun _ =>
      .field parentChoice (Codec.nat.orAbsent Codec.ofNat_ne_null "parent_match") fun _ =>
      .field events (Codec.text.list.required "events") fun _ =>
      .nil (by rintro ⟨⟩; simp [and_assoc]))
  fields.of_fits (by simp [InRange])

lemma PassEntry.codec :
    Codec (.record layout) InRange toValue (PassEntry.ofValue .json) :=
  have fields := Codec.record (by decide)
    (.field partition (Codec.text.orAbsent (by simp) "partition") fun _ =>
      .field root (Codec.text.orEmpty "root") fun _ =>
      .field matched (MatchEntry.codec.orEmpty "matches") fun _ =>
      .nil (by rintro ⟨⟩; simp [and_assoc]))
  fields.of_fits (by simp [InRange])

lemma Scenario.codec :
    Codec (.record layout) InRange toValue (Scenario.ofValue .json) :=
  have fields := Codec.record (by decide)
    (.field streams (StreamEntry.codec.orEmpty "streams") fun _ =>
      .field options (AssemblyOptions.codec.withDefault "assembly" {} (by
        rintro ⟨⟩; simp [AssemblyOptions.toValue])) fun _ =>
      .field logging (LogSettings.codec.withDefault "logging" {} (by
        rintro ⟨⟩; simp [LogSettings.toValue])) fun _ =>
      .field passes (PassEntry.codec.orEmpty "passes") fun _ =>
      .nil (by rintro ⟨⟩; simp [and_assoc]))
  fields.of_fits (by simp [InRange])

/-- Scenarios and all their parts are read back as they are written if their numbers are in range.
They are read from every spelling of what is written and from nothing else, and what is rejected is
just what is at fault. -/
theorem codec_scenario_and_parts :
    Codec (.record StreamEntry.layout) (fun _ => True)
      StreamEntry.toValue (StreamEntry.ofValue .json) ∧
    Codec (.record AssemblyOptions.layout) AssemblyOptions.InRange
      AssemblyOptions.toValue (AssemblyOptions.ofValue .json) ∧
    Codec (.record LogSettings.layout) (fun _ => True)
      LogSettings.toValue (LogSettings.ofValue .json) ∧
    Codec (.record MatchEntry.layout) MatchEntry.InRange
      MatchEntry.toValue (MatchEntry.ofValue .json) ∧
    Codec (.record PassEntry.layout) PassEntry.InRange
      PassEntry.toValue (PassEntry.ofValue .json) ∧
    Codec (.record Scenario.layout) Scenario.InRange
      Scenario.toValue (Scenario.ofValue .json) :=
  ⟨StreamEntry.codec, AssemblyOptions.codec, LogSettings.codec, MatchEntry.codec, PassEntry.codec,
    Scenario.codec⟩

/-- The list of the first field only: two entries, one of them a list as well, the other one with its
keys in another order and an unknown one among them. -/
def mixedSpelling : Value :=
  .list [.list [.list [.text "R"],
    .record [("parent", .text "R"), ("note", .null), ("name", .text "A")]]]

theorem codec_mixed_spelling :
    mixedSpelling.IsData ∧
      Spelling (.record Scenario.layout) mixedSpelling
        (Scenario.toValue { streams := [⟨"R", none, false⟩, ⟨"A", some "R", false⟩] }) ∧
      Scenario.ofValue .json mixedSpelling
        = .ok { streams := [⟨"R", none, false⟩, ⟨"A", some "R", false⟩] } := by
  have hdata : mixedSpelling.IsData := by
    refine .list (List.forall_mem_singleton.mpr (.list (List.forall_mem_cons.mpr ⟨?_, ?_⟩)))
    · exact .list (List.forall_mem_singleton.mpr (.text "R"))
    · refine List.forall_mem_singleton.mpr (.record ?_)
      simp only [List.forall_mem_cons]
      exact ⟨.text "R", .null, .text "A", by simp⟩
  have hspelling : Spelling (.record Scenario.layout) mixedSpelling
      (Scenario.toValue { streams := [⟨"R", none, false⟩, ⟨"A", some "R", false⟩] }) := by
    refine .positional (.given (.list rfl ?_) (.leftOut (.leftOut (.leftOut .nil))))
    simp only [List.map_cons, List.map_nil, List.zip_cons_cons, List.zip_nil_left,
      List.forall_mem_cons]
    refine ⟨?_, ?_, by simp⟩
    · exact .positional (.given (.text "R") (.leftOut (.leftOut .nil)))
    · exact .keyed (by decide) (.given (by simp) (.text "A") (.given (by simp)
        (.present (by simp) (by simp [Value.ofOption]) (.text "R")) (.leftOut (by decide) (.nil _))))
  obtain ⟨-, -, -, -, -, hscenario⟩ := codec_scenario_and_parts
  exact ⟨hdata, hspelling, (hscenario.ok_iff hdata _).mpr hspelling⟩

/-! ### Dialects -/

section Dialects

variable (d : Dialect)

lemma StreamEntry.readsAs :
    ReadsAs d (.record layout) toValue (StreamEntry.ofValue d) (StreamEntry.ofValue .json) :=
  .record (by decide)
    (.field name (ReadsAs.text.required "name") fun _ =>
      .field parent (ReadsAs.textOption.withDefault "parent" none) fun _ =>
      .field optional (ReadsAs.bool.withDefault "optional" false) fun _ =>
      .nil _)

lemma AssemblyOptions.readsAs :
    ReadsAs d (.record layout) toValue (AssemblyOptions.ofValue d) (AssemblyOptions.ofValue .json) :=
  .record (by decide)
    (.field fastPath (ReadsAs.bool.withDefault "single_result_fast_path" true) fun _ =>
      .field rowCapacity (ReadsAs.nat.withDefault "row_capacity" 16) fun _ =>
      .nil _)

lemma LogSettings.readsAs :
    ReadsAs d (.record layout) toValue (LogSettings.ofValue d) (LogSettings.ofValue .json) :=
  .record (by decide)
    (.field level (ReadsAs.text.withDefault "level" "info") fun _ =>
      .nil _)

lemma MatchEntry.readsAs :
    ReadsAs d (.record layout) toValue (MatchEntry.ofValue d) (MatchEntry.ofValue .json) :=
  .record (by decide)
    (.field stream (ReadsAs.text.required "stream") fun _ =>
      .field parent (ReadsAs.text.required "parent") fun _ =>
      .field parentChoice (ReadsAs.natOption.withDefault "parent_match" none) fun _ =>
      .field events (ReadsAs.text.list.required "events") fun _ =>
      .nil _)

lemma PassEntry.readsAs :
    ReadsAs d (.record layout) toValue (PassEntry.ofValue d) (PassEntry.ofValue .json) :=
  .record (by decide)
    (.field partition (ReadsAs.textOption.withDefault "partition" none) fun _ =>
      .field root (ReadsAs.text.list.withDefault "root" []) fun _ =>
      .field matched ((MatchEntry.readsAs d).list.withDefault "matches" []) fun _ =>
      .nil _)

lemma Scenario.readsAs :
    ReadsAs d (.record layout) toValue (Scenario.ofValue d) (Scenario.ofValue .json) :=
  .record (by decide)
    (.field streams ((StreamEntry.readsAs d).list.withDefault "streams" []) fun _ =>
      .field options ((AssemblyOptions.readsAs d).withDefault "assembly" {}) fun _ =>
      .field logging ((LogSettings.readsAs d).withDefault "logging" {}) fun _ =>
      .field passes ((PassEntry.readsAs d).list.withDefault "passes" []) fun _ =>
      .nil _)

/-- In documents of every dialect scenarios and all their parts are read back as they are written if
their numbers are in range. They are read from just the values that stand for a spelling of what is
written, and what is rejected is just what stands for something at fault. -/
theorem dialectCodec_scenario_and_parts :
    DialectCodec d (.record StreamEntry.layout) (fun _ => True)
      StreamEntry.toValue (StreamEntry.ofValue d) ∧
    DialectCodec d (.record AssemblyOptions.layout) AssemblyOptions.InRange
      AssemblyOptions.toValue (AssemblyOptions.ofValue d) ∧
    DialectCodec d (.record LogSettings.layout) (fun _ => True)
      LogSettings.toValue (LogSettings.ofValue d) ∧
    DialectCodec d (.record MatchEntry.layout) MatchEntry.InRange
      MatchEntry.toValue (MatchEntry.ofValue d) ∧
    DialectCodec d (.record PassEntry.layout) PassEntry.InRange
      PassEntry.toValue (PassEntry.ofValue d) ∧
    DialectCodec d (.record Scenario.layout) Scenario.InRange
      Scenario.toValue (Scenario.ofValue d) :=
  ⟨StreamEntry.codec.inDialect (StreamEntry.readsAs d),
    AssemblyOptions.codec.inDialect (AssemblyOptions.readsAs d),
    LogSettings.codec.inDialect (LogSettings.readsAs d),
    MatchEntry.codec.inDialect (MatchEntry.readsAs d),
    PassEntry.codec.inDialect (PassEntry.readsAs d),
    Scenario.codec.inDialect (Scenario.readsAs d)⟩

end Dialects

/-- Unquoted scalars of a YAML document: a name that looks like a number, a parent that is absent by
its spelling, and a truth value. -/
example : (Schema.record StreamEntry.layout).data .yaml
    (.record [("name", .plain "1"), ("parent", .plain "~"), ("optional", .plain "True")])
      = StreamEntry.toValue ⟨"1", none, true⟩ :=
  rfl

/-- The list of the fields of a record fits in a TOML document, with one too many, and in a YAML
document it does not. -/
example :
    let given := Value.list [.text "A", .text "R", .bool true, .int 1]
    (Schema.record StreamEntry.layout).data .toml given
      = .list [.text "A", .text "R", .bool true] ∧
    (Schema.record StreamEntry.layout).data .yaml given = .misfit :=
  ⟨rfl, rfl⟩

/-! ### Texts of documents -/

/-- What is read from a text is what the value of its document stands for, if it has one. -/
lemma DialectCodec.readDocument {α : Type} {d : Dialect} {schema : Schema} {Fits : α → Prop}
    {write : α → Value} {read : Value.Reader α} (h : DialectCodec d schema Fits write read)
    (parse : String → Except SyntaxError Value) (text : String) :
    (∀ a, JoinAssembly.readDocument parse read text = .ok a ↔
        ∃ v, parse text = .ok v ∧ Spelling schema (schema.data d v) (write a)) ∧
      ((∃ e, JoinAssembly.readDocument parse read text = .error (.mismatch e)) ↔
        ∃ v, parse text = .ok v ∧ Fault schema (schema.data d v)) := by
  simp only [← h.ok_iff, ← h.error_iff]
  rw [JoinAssembly.readDocument]
  cases parse text with
  | error e => simp
  | ok v =>
    simp only [Except.ok.injEq, exists_eq_left']
    cases read v <;> simp

/-- A scenario is read from a YAML or a TOML text just if the text is a document of the format whose
value stands for a spelling of the scenario. A document is rejected just if its value stands for
something at fault. -/
theorem Scenario.readDocument_spelling (text : String) :
    (∀ s, ofYaml text = .ok s ↔ ∃ v, Yaml.read text = .ok v ∧
        Spelling (.record layout) ((Schema.record layout).data .yaml v) s.toValue) ∧
      ((∃ e, ofYaml text = .error (.mismatch e)) ↔ ∃ v, Yaml.read text = .ok v ∧
        Fault (.record layout) ((Schema.record layout).data .yaml v)) ∧
      (∀ s, ofToml text = .ok s ↔ ∃ v, Toml.read text = .ok v ∧
        Spelling (.record layout) ((Schema.record layout).data .toml v) s.toValue) ∧
      ((∃ e, ofToml text = .error (.mismatch e)) ↔ ∃ v, Toml.read text = .ok v ∧
        Fault (.record layout) ((Schema.record layout).data .toml v)) := by
  have hcodec (d : Dialect) :
      DialectCodec d (.record layout) InRange toValue (Scenario.ofValue d) :=
    Scenario.codec.inDialect (Scenario.readsAs d)
  obtain ⟨hyaml, hyamlFault⟩ := (hcodec .yaml).readDocument Yaml.read text
  obtain ⟨htoml, htomlFault⟩ := (hcodec .toml).readDocument Toml.read text
  exact ⟨hyaml, hyamlFault, htoml, htomlFault⟩

end JoinAssembly
