import JoinAssembly.Proofs.MatchSets.Renamed
import JoinAssembly.Proofs.Scenario.Resolved
import Mathlib.Data.List.Infix

/-!
# Events by their names

The reference that an event gets depends on the names met before, the name that it bears does not.
Up to the names of events, a pass is resolved in the same way whatever was resolved before it.
-/

namespace JoinAssembly

/-! ### Names given to events -/

namespace Interner

variable {i j k : Interner}

/-- Names were added to those of another interner, whose events keep their names. -/
def Extends (j i : Interner) : Prop := i.names.toList <+: j.names.toList

lemma Extends.refl (i : Interner) : i.Extends i := List.prefix_rfl

lemma Extends.trans (hjk : k.Extends j) (hij : j.Extends i) : k.Extends i :=
  List.IsPrefix.trans hij hjk

lemma extends_event (i : Interner) (name : String) : (i.event name).2.Extends i := by
  change i.names.toList <+: (i.names.insert name).toList
  by_cases hname : name ∈ i.names.toList
  · rw [DistinctList.insert_of_mem hname]
  · rw [DistinctList.toList_insert_of_not_mem hname]
    exact List.prefix_append _ _

lemma extends_events (names : List String) : ∀ i : Interner, (i.events names).2.Extends i := by
  induction names with
  | nil => intro i; exact .refl i
  | cons name rest ih => intro i; exact (ih _).trans (i.extends_event name)

/-- Different events have different names. -/
lemma eq_of_name? {e e' : EventRef} {name : String} (h : i.name? e = some name)
    (h' : i.name? e' = some name) : e = e' := by
  obtain ⟨hlt, hget⟩ := List.getElem?_eq_some_iff.mp h
  obtain ⟨hlt', hget'⟩ := List.getElem?_eq_some_iff.mp h'
  exact congrArg EventRef.mk
    ((List.Nodup.getElem_inj_iff i.names.nodup).mp (hget.trans hget'.symm))

/-- Events as their names. An event without a name stands for itself. -/
def naming (i : Interner) : EventRef ↪ String ⊕ Nat where
  toFun e := (i.name? e).elim (.inr e.id) .inl
  inj' := by
    intro e e' heq
    cases hname : i.name? e with
    | none =>
      cases hname' : i.name? e' with
      | none =>
        simp only [hname, hname', Option.elim_none, Sum.inr.injEq] at heq
        exact congrArg EventRef.mk heq
      | some name' => simp [hname, hname'] at heq
    | some name =>
      cases hname' : i.name? e' with
      | none => simp [hname, hname'] at heq
      | some name' =>
        simp only [hname, hname', Option.elim_some, Sum.inl.injEq] at heq
        exact eq_of_name? hname (heq ▸ hname')

lemma naming_apply (i : Interner) (e : EventRef) :
    i.naming e = (i.name? e).elim (.inr e.id) .inl := rfl

/-- An event bears its name for ever. -/
lemma naming_event {name : String} (h : j.Extends (i.event name).2) :
    j.naming (i.event name).1 = .inl name := by
  have hname := i.name?_event name
  obtain ⟨later, hlater⟩ := h
  rw [name?] at hname
  rw [naming_apply, name?, ← hlater, List.getElem?_append_left
    (List.getElem?_eq_some_iff.mp hname).1, hname]
  rfl

lemma map_naming_events (names : List String) :
    ∀ {i : Interner}, j.Extends (i.events names).2 →
      (i.events names).1.map j.naming = names.map .inl := by
  induction names with
  | nil => intro i _; rfl
  | cons name rest ih =>
    intro i h
    have hname : j.Extends (i.event name).2 := h.trans (extends_events rest _)
    have hrest : j.Extends ((i.event name).2.events rest).2 := h
    rw [events]
    simp only [List.map_cons, naming_event hname, ih hrest]

/-- What is shown for an event is its name. -/
lemma display_eq (i : Interner) : i.display = Sum.elim id (fun _ => "") ∘ i.naming := by
  funext e
  rw [Function.comp_apply, naming_apply, display]
  cases i.name? e <;> rfl

end Interner

/-! ### Resolving by names -/

namespace JoinTree

/-- Resolve an entry of a pass with the names themselves as events. -/
def resolveEntry (t : JoinTree) (number : Nat) (m : MatchSets String) (entry : MatchEntry) :
    Except ScenarioError (MatchSets String) :=
  match t.streamOf? entry.stream with
  | none => .error (.unknownStream number entry.stream)
  | some s =>
    match t.parent? s with
    | none => .error (.rootEntry number entry.stream)
    | some parent =>
      match (m.holding parent entry.parent)[entry.parentChoice.getD 0]? with
      | none => .error (.parentNotHeld number entry.stream entry.parent)
      | some place => .ok (m.pushMatch s place entry.parent entry.events).2

/-- Resolve a pass with the names themselves as events. -/
def resolvePass (t : JoinTree) (number : Nat) (pass : PassEntry) :
    Except ScenarioError (MatchSets String) :=
  pass.matched.foldlM (t.resolveEntry number) (.ofRoot t.size t.root pass.root)

end JoinTree

namespace Resolution

variable {t : JoinTree} {r : Resolution} {m : MatchSets String}

/-- Match sets in the making are some match sets of names, however many names come later. -/
def Names (r : Resolution) (m : MatchSets String) : Prop :=
  ∀ j : Interner, j.Extends r.names → r.sets.rename j.naming = m.rename .inl

/-- An event is held by the match nodes that hold its name. -/
lemma Names.holding_eq (hr : r.Names m) (s : StreamIndex) (name : String) :
    r.sets.holding s (r.names.event name).1 = m.holding s name := by
  have hsets := hr (r.names.event name).2 (r.names.extends_event name)
  rw [← MatchSets.holding_rename (r.names.event name).2.naming, hsets,
    Interner.naming_event (.refl _)]
  exact MatchSets.holding_rename .inl m s name

/-- An entry is resolved as it would be by names, with the same result or the same error. -/
lemma Names.addEntry (hr : r.Names m) (number : Nat) (entry : MatchEntry) :
    (∃ e, (r.addEntry t number entry).2 = some e ∧ t.resolveEntry number m entry = .error e) ∨
      ∃ m', (r.addEntry t number entry).2 = none ∧ t.resolveEntry number m entry = .ok m' ∧
        (r.addEntry t number entry).1.Names m' := by
  rcases addEntry_cases t number r entry with ⟨hs, heq⟩ | ⟨s, hs, hp, heq⟩ |
    ⟨s, p, hs, hp, hplace, heq⟩ | ⟨s, p, place, hs, hp, hplace, heq⟩
  · exact .inl ⟨_, by rw [heq], by simp only [JoinTree.resolveEntry, hs]⟩
  · exact .inl ⟨_, by rw [heq], by simp only [JoinTree.resolveEntry, hs, hp]⟩
  · rw [hr.holding_eq] at hplace
    exact .inl ⟨_, by rw [heq], by simp only [JoinTree.resolveEntry, hs, hp, hplace]⟩
  · rw [hr.holding_eq] at hplace
    refine .inr ⟨(m.pushMatch s place entry.parent entry.events).2, by rw [heq],
      by simp only [JoinTree.resolveEntry, hs, hp, hplace], ?_⟩
    rw [heq]
    intro j hj
    have hevent : j.Extends (r.names.event entry.parent).2 :=
      hj.trans (Interner.extends_events _ _)
    rw [MatchSets.rename_pushMatch, MatchSets.rename_pushMatch,
      hr j (hevent.trans (r.names.extends_event _)), Interner.naming_event hevent,
      Interner.map_naming_events _ hj]
    rfl

lemma Names.addEntries (number : Nat) (entries : List MatchEntry) :
    ∀ {r : Resolution} {m : MatchSets String}, r.Names m →
      (∃ e, (r.addEntries t number entries).2 = some e ∧
        entries.foldlM (t.resolveEntry number) m = .error e) ∨
      ∃ m', (r.addEntries t number entries).2 = none ∧
        entries.foldlM (t.resolveEntry number) m = .ok m' ∧
        (r.addEntries t number entries).1.Names m' := by
  induction entries with
  | nil => intro r m hr; exact .inr ⟨m, rfl, rfl, hr⟩
  | cons entry rest ih =>
    intro r m hr
    rw [addEntries_cons, List.foldlM_cons]
    rcases hr.addEntry number entry with ⟨e, herror, he⟩ | ⟨m', hok, hm', hr'⟩
    · rw [herror, he]
      exact .inl ⟨e, rfl, rfl⟩
    · rw [hok, hm']
      exact ih hr'

/-- A pass is resolved as it would be by names, whatever names are known before. -/
lemma names_ofPass (t : JoinTree) (names : Interner) (number : Nat) (pass : PassEntry) :
    (∃ e, (ofPass t names number pass).2 = some e ∧ t.resolvePass number pass = .error e) ∨
      ∃ m, (ofPass t names number pass).2 = none ∧ t.resolvePass number pass = .ok m ∧
        (ofPass t names number pass).1.Names m := by
  refine Names.addEntries number pass.matched ?_
  intro j hj
  rw [MatchSets.rename_ofRoot, MatchSets.rename_ofRoot, Interner.map_naming_events _ hj]
  rfl

/-! ### Names stay -/

lemma extends_addEntry (t : JoinTree) (number : Nat) (r : Resolution) (entry : MatchEntry) :
    (r.addEntry t number entry).1.names.Extends r.names := by
  rcases addEntry_cases t number r entry with ⟨-, heq⟩ | ⟨_, -, -, heq⟩ | ⟨_, _, -, -, -, heq⟩ |
    ⟨_, _, _, -, -, -, heq⟩
  · rw [heq]
    exact .refl _
  · rw [heq]
    exact .refl _
  · rw [heq]
    exact r.names.extends_event _
  · rw [heq]
    exact (Interner.extends_events _ _).trans (r.names.extends_event _)

lemma extends_addEntries (t : JoinTree) (number : Nat) (entries : List MatchEntry) :
    ∀ r : Resolution, (r.addEntries t number entries).1.names.Extends r.names := by
  induction entries with
  | nil => intro r; exact .refl _
  | cons entry rest ih =>
    intro r
    have hentry := extends_addEntry t number r entry
    rw [addEntries_cons]
    split
    · exact hentry
    · exact (ih _).trans hentry

lemma extends_ofPass (t : JoinTree) (names : Interner) (number : Nat) (pass : PassEntry) :
    (ofPass t names number pass).1.names.Extends names :=
  (extends_addEntries t number pass.matched _).trans (Interner.extends_events pass.root names)

end Resolution

end JoinAssembly
