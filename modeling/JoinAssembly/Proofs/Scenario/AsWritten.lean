import JoinAssembly.Proofs.MatchSets.Asked
import JoinAssembly.Proofs.Scenario.Lines

/-!
# Passes as they are written

What a pass says can be read off it entry by entry. An entry is attached to a match node that an
earlier entry wrote, or the root list, and the pass is resolved just when every entry can be
attached. The match sets are then what is written, stream by stream.
-/

namespace JoinAssembly

/-! ### Reading a pass -/

/-- Of the lists that have a name in them, counted from zero, the one at an index is the `n`-th. -/
def Selects (lists : List (List String)) (name : String) (n index : Nat) : Prop :=
  (∃ names, lists[index]? = some names ∧ name ∈ names) ∧
    (lists.take index).countP (fun names => decide (name ∈ names)) = n

namespace JoinTree

/-- The entries of a stream that list events, each with its place among all entries. -/
def entriesFor (t : JoinTree) (entries : List MatchEntry) (s : StreamIndex) :
    List (MatchEntry × Nat) :=
  entries.zipIdx.filter fun (entry, _) => t.streamOf? entry.stream = some s ∧ entry.events ≠ []

/-- The names that are written down for a stream, match node after match node: the root list, or the
lists of the stream's entries. An empty list makes no match node. -/
def written (t : JoinTree) (root : List String) (entries : List MatchEntry) (s : StreamIndex) :
    List (List String) :=
  if s = t.root then [root].filter (· ≠ [])
  else (t.entriesFor entries s).map fun (entry, _) => entry.events

/-- An entry of a stream, after others, is attached to the match node at an index of the parent
stream. -/
structure Attached (t : JoinTree) (root : List String) (before : List MatchEntry)
    (entry : MatchEntry) (s p : StreamIndex) (index : Nat) : Prop where
  stream_eq : t.streamOf? entry.stream = some s
  parent_eq : t.parent? s = some p
  selects : Selects (t.written root before p) entry.parent (entry.parentChoice.getD 0) index

/-- What is wrong with an entry after others that it cannot be attached. -/
inductive MatchFault (t : JoinTree) (number : Nat) (root : List String) (before : List MatchEntry)
    (entry : MatchEntry) : ScenarioError → Prop where
  | unknownStream (hs : t.streamOf? entry.stream = none) :
      MatchFault t number root before entry (.unknownStream number entry.stream)
  | rootEntry (hs : t.streamOf? entry.stream = some t.root) :
      MatchFault t number root before entry (.rootEntry number entry.stream)
  | parentNotHeld {s p : StreamIndex} (hs : t.streamOf? entry.stream = some s)
      (hp : t.parent? s = some p)
      (hnone : ∀ index, ¬ Selects (t.written root before p) entry.parent
        (entry.parentChoice.getD 0) index) :
      MatchFault t number root before entry (.parentNotHeld number entry.stream entry.parent)

variable {t : JoinTree} {number : Nat} {root : List String} {before entries : List MatchEntry}
  {entry : MatchEntry} {e e' : ScenarioError} {s p : StreamIndex} {index : Nat}

lemma entriesFor_concat (entries : List MatchEntry) (entry : MatchEntry) (s : StreamIndex) :
    t.entriesFor (entries ++ [entry]) s = t.entriesFor entries s
      ++ if t.streamOf? entry.stream = some s ∧ entry.events ≠ [] then [(entry, entries.length)]
        else [] := by
  rw [entriesFor, List.zipIdx_append, List.filter_append]
  simp [entriesFor, List.filter_cons]

lemma Attached.not_matchFault (h : t.Sound) (ha : t.Attached root before entry s p index) :
    ¬ t.MatchFault number root before entry e := by
  obtain ⟨hs, hp, hselects⟩ := ha
  intro hfault
  cases hfault with
  | unknownStream hs' => cases hs.symm.trans hs'
  | rootEntry hs' =>
    cases hs.symm.trans hs'
    exact h.ne_root_of_parent hp rfl
  | parentNotHeld hs' hp' hnone =>
    cases hs.symm.trans hs'
    cases hp.symm.trans hp'
    exact hnone index hselects

/-- An entry has one fault at most. -/
lemma MatchFault.unique (h : t.Sound) (he : t.MatchFault number root before entry e)
    (he' : t.MatchFault number root before entry e') : e = e' := by
  cases he with
  | unknownStream hs =>
    cases he' with
    | unknownStream => rfl
    | rootEntry hs' => cases hs.symm.trans hs'
    | parentNotHeld hs' => cases hs.symm.trans hs'
  | rootEntry hs =>
    cases he' with
    | unknownStream hs' => cases hs.symm.trans hs'
    | rootEntry => rfl
    | parentNotHeld hs' hp =>
      cases hs.symm.trans hs'
      exact absurd rfl (h.ne_root_of_parent hp)
  | parentNotHeld hs hp =>
    cases he' with
    | unknownStream hs' => cases hs.symm.trans hs'
    | rootEntry hs' =>
      cases hs.symm.trans hs'
      exact absurd rfl (h.ne_root_of_parent hp)
    | parentNotHeld => rfl

/-- An entry can be attached, or it has a fault. -/
lemma attached_or_matchFault {b : TreeBuilder} (hb : b.build = .ok t) (number : Nat)
    (root : List String) (before : List MatchEntry) (entry : MatchEntry) :
    (∃ s p index, t.Attached root before entry s p index) ∨
      ∃ e, t.MatchFault number root before entry e := by
  cases hs : t.streamOf? entry.stream with
  | none => exact .inr ⟨_, .unknownStream hs⟩
  | some s =>
    cases hp : t.parent? s with
    | none =>
      have hroot := (TreeBuilder.sound_of_build hb).eq_root s (TreeBuilder.lt_of_streamOf? hb hs) hp
      exact .inr ⟨_, .rootEntry (hroot ▸ hs)⟩
    | some p =>
      by_cases hselects : ∃ index, Selects (t.written root before p) entry.parent
          (entry.parentChoice.getD 0) index
      · obtain ⟨index, hindex⟩ := hselects
        exact .inl ⟨s, p, index, hs, hp, hindex⟩
      · exact .inr ⟨_, .parentNotHeld hs hp fun index hindex => hselects ⟨index, hindex⟩⟩

/-- Entries have no faults just when all can be attached. -/
lemma faultless_matchFault_iff {b : TreeBuilder} (hb : b.build = .ok t) (number : Nat) :
    Faultless (t.MatchFault number root) entries ↔ ∀ before entry after,
      entries = before ++ entry :: after →
        ∃ s p index, t.Attached root before entry s p index := by
  constructor
  · intro hnone before entry after hentries
    rcases attached_or_matchFault hb number root before entry with ha | ⟨e, he⟩
    · exact ha
    · exact absurd he (hnone before entry after hentries e)
  · intro hall before entry after hentries e
    obtain ⟨s, p, index, ha⟩ := hall before entry after hentries
    exact ha.not_matchFault (TreeBuilder.sound_of_build hb)

end JoinTree

/-! ### Selecting a match node -/

/-- The `n`-th place of a list where something holds. -/
lemma getElem?_findIdxs_iff {α : Type} {q : α → Bool} (l : List α) :
    ∀ {k n i : Nat}, (l.findIdxs q k)[n]? = some (i + k) ↔
      (∃ a, l[i]? = some a ∧ q a) ∧ (l.take i).countP q = n := by
  induction l with
  | nil => simp
  | cons a rest ih =>
    intro k n i
    rw [List.findIdxs_cons]
    cases i with
    | zero => grind
    | succ i =>
      have hrest := @ih (k + 1) n i
      have hpast := @ih (k + 1) (n - 1) i
      grind

lemma selects_iff {lists : List (List String)} {name : String} {n index : Nat} :
    Selects lists name n index ↔
      (lists.findIdxs fun names => decide (name ∈ names))[n]? = some index := by
  rw [Selects, ← Nat.add_zero index, getElem?_findIdxs_iff, Nat.add_zero]
  simp only [decide_eq_true_eq]

namespace MatchSets

variable {ε : Type} [DecidableEq ε]

lemma holding_eq (m : MatchSets ε) (s : StreamIndex) (event : ε) :
    m.holding s event
      = ((m.nodesOf s).findIdxs fun node => node.events.contains event).map fun index =>
          ⟨s, index⟩ := by
  rw [holding, List.findIdxs_eq_filterMap_zipIdx, List.map_filterMap]
  congr 1
  funext x
  cases hheld : x.1.events.contains event <;> simp [hheld]

/-- The match nodes that hold a name are those whose lists have the name in them. -/
lemma getElem?_holding_iff {m : MatchSets String} {s : StreamIndex} {name : String}
    {lists : List (List String)}
    (hlists : (m.nodesOf s).map (fun node => node.events.contains name)
      = lists.map fun names => decide (name ∈ names)) {n : Nat} {place : MatchRef} :
    (m.holding s name)[n]? = some place ↔
      place.stream = s ∧ Selects lists name n place.index := by
  have hplaces : (m.nodesOf s).findIdxs (fun node => node.events.contains name)
      = lists.findIdxs fun names => decide (name ∈ names) := by
    have hsame := congrArg (List.findIdxs id) hlists
    rwa [List.findIdxs_map, List.findIdxs_map] at hsame
  rw [holding_eq, List.getElem?_map, Option.map_eq_some_iff, hplaces, selects_iff]
  constructor
  · rintro ⟨index, hindex, rfl⟩
    exact ⟨rfl, hindex⟩
  · rintro ⟨rfl, hindex⟩
    exact ⟨place.index, hindex, rfl⟩

end MatchSets

/-! ### Resolving by names -/

namespace JoinTree

variable {t : JoinTree} {number : Nat} {root : List String} {all done rest : List MatchEntry}
  {entry : MatchEntry} {m : MatchSets String} {s p : StreamIndex} {index : Nat}

/-- A match node of a stream is written by an entry at its place in a pass. -/
def WrittenBy (t : JoinTree) (root : List String) (all : List MatchEntry) (s : StreamIndex)
    (x : MatchEntry × Nat) (node : MatchNode String) : Prop :=
  ∃ p index, t.Attached root (all.take x.2) x.1 s p index ∧
    node = ⟨s, some ⟨⟨p, index⟩, x.1.parent⟩, .ofList x.1.events⟩

/-- Match sets of names are what the root list and the first entries of a pass say. -/
structure Follows (t : JoinTree) (root : List String) (all done : List MatchEntry)
    (m : MatchSets String) : Prop where
  width_eq : m.width = t.size
  root_eq : m.nodesOf t.root = recorded t.root none root
  written_by : ∀ s, s ≠ t.root →
    List.Forall₂ (t.WrittenBy root all s) (t.entriesFor done s) (m.nodesOf s)

lemma Follows.contains_eq (hm : t.Follows root all done m) (s : StreamIndex) (name : String) :
    (m.nodesOf s).map (fun node => node.events.contains name)
      = (t.written root done s).map fun names => decide (name ∈ names) := by
  rw [written]
  split
  · rename_i hroot
    rw [hroot, hm.root_eq]
    cases root with
    | nil => rfl
    | cons first more => simp [recorded, DistinctList.contains]
  · rename_i hroot
    rw [List.map_map, ← List.forall₂_eq_eq_eq, List.forall₂_map_left_iff,
      List.forall₂_map_right_iff]
    refine (hm.written_by s hroot).flip.imp fun node x hx => ?_
    obtain ⟨p, index, -, rfl⟩ := hx
    simp [DistinctList.contains]

lemma follows_ofRoot (h : t.Sound) (root : List String) (all : List MatchEntry) :
    t.Follows root all [] (.ofRoot t.size t.root root) where
  width_eq := by rw [MatchSets.ofRoot, MatchSets.pushRoot, MatchSets.width_push,
    MatchSets.width_empty]
  root_eq := by rw [MatchSets.nodesOf_ofRoot h.root_lt, if_pos rfl]
  written_by s hs := by
    rw [MatchSets.nodesOf_ofRoot h.root_lt, if_neg hs]
    exact .nil

/-- An entry that is attached writes one match node, or none if it lists no events. -/
lemma Follows.push (h : t.Sound) (hm : t.Follows root (done ++ entry :: rest) done m)
    (ha : t.Attached root done entry s p index) :
    t.Follows root (done ++ entry :: rest) (done ++ [entry])
      (m.pushMatch s ⟨p, index⟩ entry.parent entry.events).2 := by
  have hs : s < m.width := hm.width_eq ▸ lt_size_of_parent ha.parent_eq
  have hnodes := m.nodesOf_push hs (some ⟨⟨p, index⟩, entry.parent⟩) entry.events
  refine ⟨(MatchSets.width_push _ _ _ _).trans hm.width_eq, ?_, fun x hx => ?_⟩
  · rw [MatchSets.pushMatch, hnodes, if_neg (h.ne_root_of_parent ha.parent_eq).symm]
    exact hm.root_eq
  · rw [MatchSets.pushMatch, hnodes, entriesFor_concat, ha.stream_eq]
    by_cases hxs : x = s
    · subst hxs
      rw [if_pos rfl]
      refine List.rel_append (hm.written_by x hx) ?_
      have htake : (done ++ entry :: rest).take done.length = done := by simp
      cases hevents : entry.events with
      | nil => simp [recorded]
      | cons first more =>
        simp only [ne_eq, reduceCtorEq, not_false_eq_true, and_self, if_true, recorded,
          List.forall₂_cons, List.forall₂_nil_left_iff, and_true]
        exact ⟨p, index, htake.symm ▸ ha, by rw [hevents]⟩
    · rw [if_neg hxs, if_neg fun hsome => hxs (Option.some.inj hsome.1).symm, List.append_nil]
      exact hm.written_by x hx

lemma Follows.resolveEntry_attached (hm : t.Follows root all done m) (number : Nat)
    (ha : t.Attached root done entry s p index) : t.resolveEntry number m entry
      = .ok (m.pushMatch s ⟨p, index⟩ entry.parent entry.events).2 := by
  have hplace := (MatchSets.getElem?_holding_iff (hm.contains_eq p entry.parent)).mpr
    (⟨rfl, ha.selects⟩ : (⟨p, index⟩ : MatchRef).stream = p ∧ _)
  simp only [resolveEntry, ha.stream_eq, ha.parent_eq, hplace]

lemma Follows.resolveEntry_fault (h : t.Sound) (hm : t.Follows root all done m)
    {e : ScenarioError} (he : t.MatchFault number root done entry e) :
    t.resolveEntry number m entry = .error e := by
  cases he with
  | unknownStream hs => simp only [resolveEntry, hs]
  | rootEntry hs => simp only [resolveEntry, hs, h.parent_root]
  | @parentNotHeld s p hs hp hnone =>
    cases hplace : (m.holding p entry.parent)[entry.parentChoice.getD 0]? with
    | none => simp only [resolveEntry, hs, hp, hplace]
    | some place =>
      obtain ⟨-, hindex⟩ :=
        (MatchSets.getElem?_holding_iff (hm.contains_eq p entry.parent)).mp hplace
      exact absurd hindex (hnone place.index)

/-- Entries are resolved into what they say up to the first with a fault. -/
lemma Follows.foldlM {b : TreeBuilder} (hb : b.build = .ok t) (number : Nat)
    (rest : List MatchEntry) :
    ∀ (done : List MatchEntry) {m : MatchSets String}, t.Follows root (done ++ rest) done m →
      Faultless (t.MatchFault number root) done →
      (∃ m', rest.foldlM (t.resolveEntry number) m = .ok m' ∧
        t.Follows root (done ++ rest) (done ++ rest) m' ∧
        Faultless (t.MatchFault number root) (done ++ rest)) ∨
      ∃ e, rest.foldlM (t.resolveEntry number) m = .error e ∧
        FirstFault (t.MatchFault number root) (done ++ rest) e := by
  have h := TreeBuilder.sound_of_build hb
  induction rest with
  | nil =>
    intro done m hm hdone
    rw [List.append_nil] at hm ⊢
    exact .inl ⟨m, rfl, hm, hdone⟩
  | cons entry rest ih =>
    intro done m hm hdone
    rw [List.foldlM_cons]
    rcases attached_or_matchFault hb number root done entry with ⟨s, p, index, ha⟩ | ⟨e, he⟩
    · rw [hm.resolveEntry_attached number ha]
      have hnext := hm.push h ha
      rw [← List.singleton_append, ← List.append_assoc] at hnext ⊢
      exact ih _ hnext (faultless_concat.mpr ⟨hdone, fun e => ha.not_matchFault h⟩)
    · rw [hm.resolveEntry_fault h he]
      exact .inr ⟨e, rfl, done, entry, rest, rfl, hdone, he⟩

/-- A pass is resolved into what it says, unless an entry has a fault. -/
lemma resolvePass_cases {b : TreeBuilder} (hb : b.build = .ok t) (number : Nat)
    (pass : PassEntry) :
    (∃ m, t.resolvePass number pass = .ok m ∧ t.Follows pass.root pass.matched pass.matched m ∧
        Faultless (t.MatchFault number pass.root) pass.matched) ∨
      ∃ e, t.resolvePass number pass = .error e ∧
        FirstFault (t.MatchFault number pass.root) pass.matched e :=
  Follows.foldlM hb number pass.matched []
    (follows_ofRoot (TreeBuilder.sound_of_build hb) pass.root pass.matched) faultless_nil

end JoinTree

/-! ### By the names of events -/

/-- A match node holds the events of a list of names, each at its first place in the list. -/
structure MatchNode.Lists (node : MatchNode EventRef) (names : Interner) (s : StreamIndex)
    (list : List String) : Prop where
  stream_eq : node.stream = s
  names_eq : node.events.toList.map names.name? = list.eraseDups.map some

/-- A match node links to the event of a name in a match node. -/
def MatchNode.Joins (node : MatchNode EventRef) (names : Interner) (p : StreamIndex)
    (index : Nat) (name : String) : Prop :=
  ∃ event, node.parent = some ⟨⟨p, index⟩, event⟩ ∧ names.name? event = some name

namespace Interner

variable {names : Interner}

lemma name?_eq_naming (names : Interner) :
    names.name? = Sum.elim some (fun _ => none) ∘ names.naming := by
  funext e
  rw [Function.comp_apply, naming_apply]
  cases names.name? e <;> rfl

lemma map_name?_of_naming {events : List EventRef} {list : List String}
    (h : events.map names.naming = list.map .inl) : events.map names.name? = list.map some := by
  rw [name?_eq_naming, ← List.map_map, h, List.map_map]
  rfl

/-- What a match node is whose events, by their names, are those of another one. -/
lemma lists_of_rename {node : MatchNode EventRef} {s : StreamIndex}
    {parent : Option (ParentLink String)} {list : List String}
    (h : node.rename names.naming = MatchNode.rename .inl ⟨s, parent, .ofList list⟩) :
    node.Lists names s list ∧
      node.parent.map (·.rename names.naming) = parent.map (·.rename .inl) := by
  obtain ⟨s', parent', events⟩ := node
  obtain ⟨hstream, hparent, hevents⟩ := MatchNode.mk.inj h
  refine ⟨⟨hstream, ?_⟩, hparent⟩
  rw [← DistinctList.toList_ofList]
  exact map_name?_of_naming (congrArg DistinctList.toList hevents)

lemma joins_of_rename {node : MatchNode EventRef} {p : StreamIndex} {index : Nat} {name : String}
    (h : node.parent.map (·.rename names.naming)
      = some (ParentLink.rename .inl ⟨⟨p, index⟩, name⟩)) : node.Joins names p index name := by
  obtain ⟨⟨place, event⟩, hparent, hlink⟩ := Option.map_eq_some_iff.mp h
  obtain ⟨rfl, hevent⟩ := ParentLink.mk.inj hlink
  refine ⟨event, hparent, ?_⟩
  rw [name?_eq_naming, Function.comp_apply, hevent]
  rfl

end Interner

/-- Match sets are what is written in a pass, by the names of their events: the root list, and for
every other stream its entries that list events, one match node after another, each linked to the
event of its parent in the match node that it is attached to. -/
structure MatchSets.Spells (sets : MatchSets EventRef) (names : Interner) (t : JoinTree)
    (pass : PassEntry) : Prop where
  width_eq : sets.width = t.size
  root_empty : pass.root = [] → sets.nodesOf t.root = []
  root_lists : pass.root ≠ [] → ∃ node, sets.nodesOf t.root = [node] ∧ node.parent = none ∧
    node.Lists names t.root pass.root
  entries : ∀ s, s ≠ t.root → List.Forall₂ (fun x node => node.Lists names s x.1.events ∧
      ∃ p index, t.Attached pass.root (pass.matched.take x.2) x.1 s p index ∧
        node.Joins names p index x.1.parent)
    (t.entriesFor pass.matched s) (sets.nodesOf s)

/-- Match sets whose names are what is written are what is written. -/
lemma JoinTree.Follows.spells {t : JoinTree} {pass : PassEntry} {m : MatchSets String}
    {sets : MatchSets EventRef} {names : Interner}
    (hm : t.Follows pass.root pass.matched pass.matched m)
    (hnames : sets.rename names.naming = m.rename .inl) : sets.Spells names t pass := by
  have hnodes : ∀ s, (sets.nodesOf s).map (·.rename names.naming)
      = (m.nodesOf s).map (·.rename .inl) := by
    intro s
    rw [← MatchSets.nodesOf_rename, hnames, MatchSets.nodesOf_rename]
  refine ⟨?_, fun hroot => ?_, fun hroot => ?_, fun s hs => ?_⟩
  · rw [← MatchSets.width_rename names.naming, hnames, MatchSets.width_rename]
    exact hm.width_eq
  · have hempty := hnodes t.root
    rwa [hm.root_eq, hroot, recorded, List.map_nil, List.map_eq_nil_iff] at hempty
  · have hone := hnodes t.root
    obtain ⟨first, more, hlist⟩ := List.exists_cons_of_ne_nil hroot
    rw [hm.root_eq, hlist, recorded, List.map_singleton, List.map_eq_singleton_iff] at hone
    obtain ⟨node, hnode, hrename⟩ := hone
    obtain ⟨hlists, hparent⟩ := Interner.lists_of_rename hrename
    exact ⟨node, hnode, Option.map_eq_none_iff.mp hparent, hlist ▸ hlists⟩
  · have hrenamed : List.Forall₂
        (fun x node => ∃ node', t.WrittenBy pass.root pass.matched s x node' ∧
          node = node'.rename .inl)
        (t.entriesFor pass.matched s)
        ((m.nodesOf s).map (·.rename (.inl : String ↪ String ⊕ Nat))) :=
      List.forall₂_map_right_iff.mpr ((hm.written_by s hs).imp fun x node hx => ⟨node, hx, rfl⟩)
    rw [← hnodes s, List.forall₂_map_right_iff] at hrenamed
    refine hrenamed.imp fun x node hx => ?_
    obtain ⟨_, ⟨p, index, ha, rfl⟩, hrename⟩ := hx
    obtain ⟨hlists, hparent⟩ := Interner.lists_of_rename hrename
    exact ⟨hlists, p, index, ha, Interner.joins_of_rename hparent⟩

namespace Runner

variable {b : TreeBuilder} {r : Runner}

lemma resolve_cases (hb : b.build = .ok r.tree) (number : Nat) (pass : PassEntry) :
    (∃ sets m, (r.resolve number pass).result = .ok sets ∧
        Faultless (r.tree.MatchFault number pass.root) pass.matched ∧
        r.tree.Follows pass.root pass.matched pass.matched m ∧
        sets.rename (r.resolve number pass).runner.names.naming = m.rename .inl) ∨
      ∃ e, (r.resolve number pass).result = .error e ∧
        FirstFault (r.tree.MatchFault number pass.root) pass.matched e := by
  rw [resolve_eq]
  rcases JoinTree.resolvePass_cases hb number pass with ⟨m, hm, hfollows, hnone⟩ | ⟨e, he, hfirst⟩
  · rcases Resolution.names_ofPass r.tree r.names number pass with
      ⟨e, -, he⟩ | ⟨m', hok, hm', hnames⟩
    · cases hm.symm.trans he
    · cases hm.symm.trans hm'
      exact .inl ⟨_, m, by rw [hok], hnone, hfollows, hnames _ (.refl _)⟩
  · rcases Resolution.names_ofPass r.tree r.names number pass with
      ⟨e', herror, he'⟩ | ⟨m, -, hm, -⟩
    · cases he.symm.trans he'
      exact .inr ⟨e, by rw [herror], hfirst⟩
    · cases he.symm.trans hm

/-- A pass is resolved just when every entry can be attached to what is written before it. The match
sets are then what is written, and otherwise the error is what is wrong with the first entry that
cannot be attached. -/
theorem resolve_as_written (hb : b.build = .ok r.tree) (number : Nat) (pass : PassEntry) :
    ((∃ sets, (r.resolve number pass).result = .ok sets) ↔ ∀ before entry after,
        pass.matched = before ++ entry :: after →
          ∃ s p index, r.tree.Attached pass.root before entry s p index) ∧
      (∀ sets, (r.resolve number pass).result = .ok sets →
        sets.Spells (r.resolve number pass).runner.names r.tree pass) ∧
      ∀ e, (r.resolve number pass).result = .error e ↔
        FirstFault (r.tree.MatchFault number pass.root) pass.matched e := by
  rw [← JoinTree.faultless_matchFault_iff hb number]
  rcases resolve_cases hb number pass with ⟨sets, m, hok, hnone, hm, hnames⟩ | ⟨e, herror, hfirst⟩
  · rw [hok]
    refine ⟨⟨fun _ => hnone, fun _ => ⟨sets, rfl⟩⟩, fun sets' hsets => ?_, fun e =>
      ⟨fun he => ?_, fun he => ?_⟩⟩
    · cases hsets
      exact hm.spells hnames
    · cases he
    · exact absurd hnone he.not_faultless
  · rw [herror]
    refine ⟨⟨fun hok => ?_, fun hnone => ?_⟩, fun sets hsets => ?_, fun e' =>
      ⟨fun he => ?_, fun he => ?_⟩⟩
    · obtain ⟨sets, hsets⟩ := hok
      cases hsets
    · exact absurd hnone hfirst.not_faultless
    · cases hsets
    · cases he
      exact hfirst
    · rw [FirstFault.unique (fun _ _ _ _ h h' => h.unique (TreeBuilder.sound_of_build hb) h')
        hfirst he]

/-- The last entry of the second pass is attached to the second match node that holds its parent. -/
theorem chain_as_written : ∃ b : TreeBuilder,
    b.build = .ok (chainRunner [chain.passes[0]]).tree ∧ ∃ sets,
      ((chainRunner [chain.passes[0]]).resolve 2 chain.passes[1]).result = .ok sets ∧
      sets.Spells ((chainRunner [chain.passes[0]]).resolve 2 chain.passes[1]).runner.names chainTree
        chain.passes[1] ∧
      (sets.nodesOf 2).map (·.parent) = [some ⟨⟨1, 1⟩, ⟨1⟩⟩] := by
  obtain ⟨b, hb⟩ := chain.build_of_tree (rfl : chain.tree = .ok chainTree)
  obtain ⟨-, hspells, -⟩ := resolve_as_written (r := chainRunner [chain.passes[0]]) hb 2
    chain.passes[1]
  exact ⟨b, hb, _, rfl, hspells _ rfl, rfl⟩

end Runner

end JoinAssembly
