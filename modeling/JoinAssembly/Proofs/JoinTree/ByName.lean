import JoinAssembly.JoinTree.StreamEntry
import JoinAssembly.Proofs.JoinTree.Rooted

/-!
# Trees given by name

Entries that name their parents are calls that place and name one stream after another. If the names
differ and every parent is one of them, no call is a mistake and no parent is out of range, so what
can be wrong with the tree is its shape only.
-/

namespace JoinAssembly

open TreeBuilder BuilderCall

namespace StreamEntry

variable {entries : List StreamEntry}

/-! ### Names -/

/-- An entry repeats the name of an earlier one. -/
inductive RepeatFault (before : List StreamEntry) (e : StreamEntry) : String → Prop where
  | repeated (h : e.name ∈ before.map (·.name)) : RepeatFault before e e.name

/-- An entry names a parent that no entry of the list bears. -/
inductive ParentFault (entries before : List StreamEntry) (e : StreamEntry) : String → Prop where
  | unknown {name : String} (hparent : e.parent = some name)
      (h : name ∉ entries.map (·.name)) : ParentFault entries before e name

lemma faultless_repeat_iff :
    Faultless RepeatFault entries ↔ (entries.map (·.name)).Nodup := by
  induction entries using List.reverseRecOn with
  | nil => simp [faultless_nil]
  | append_singleton l e ih =>
    rw [faultless_concat, ih, List.map_append, List.map_singleton, List.nodup_append]
    constructor
    · rintro ⟨hl, he⟩
      refine ⟨hl, List.pairwise_singleton _ _, ?_⟩
      rintro name hname _ hmem rfl
      rw [List.mem_singleton] at hmem
      exact he _ (.repeated (hmem ▸ hname))
    · rintro ⟨hl, -, hne⟩
      refine ⟨hl, ?_⟩
      rintro _ ⟨hmem⟩
      exact hne _ hmem _ List.mem_cons_self rfl

lemma faultless_parent_iff {known : List StreamEntry} :
    Faultless (ParentFault known) entries ↔
      ∀ e ∈ entries, ∀ name, e.parent = some name → name ∈ known.map (·.name) := by
  constructor
  · intro h e he name hparent
    obtain ⟨before, after, rfl⟩ := List.append_of_mem he
    by_contra hunknown
    exact h _ _ _ rfl _ (.unknown hparent hunknown)
  · rintro h before e after rfl name ⟨hparent, hunknown⟩
    exact hunknown (h e (List.mem_append_right _ List.mem_cons_self) name hparent)

/-- Looking for a repeated name goes on after entries that differ from those seen. -/
lemma firstRepeated_append (l l' : List StreamEntry) :
    ∀ seen : List String, (l.map (·.name)).Nodup → (∀ e ∈ l, e.name ∉ seen) →
      firstRepeated seen (l ++ l') = firstRepeated ((l.map (·.name)).reverse ++ seen) l' := by
  induction l with
  | nil => intro seen _ _; rfl
  | cons e rest ih =>
    intro seen hnodup hseen
    obtain ⟨he, hrest⟩ := List.nodup_cons.mp hnodup
    rw [List.cons_append, firstRepeated, if_neg (hseen e List.mem_cons_self), ih _ hrest]
    · simp
    · intro x hx hmem
      rcases List.mem_cons.mp hmem with heq | hmem
      · exact he (List.mem_map.mpr ⟨x, hx, heq⟩)
      · exact hseen x (List.mem_cons_of_mem _ hx) hmem

lemma firstRepeated_of_faultless (h : Faultless RepeatFault entries) :
    firstRepeated [] entries = none := by
  have hall := firstRepeated_append entries [] [] (faultless_repeat_iff.mp h) (by simp)
  rwa [List.append_nil] at hall

lemma firstRepeated_of_fault {name : String} (h : FirstFault RepeatFault entries name) :
    firstRepeated [] entries = some name := by
  obtain ⟨before, e, after, rfl, hbefore, ⟨hmem⟩⟩ := h
  rw [firstRepeated_append before _ [] (faultless_repeat_iff.mp hbefore) (by simp), firstRepeated,
    if_pos (by simpa using hmem)]

/-- If names differ, a name tells where its entry stands. -/
lemma index_eq_of_name (h : (entries.map (·.name)).Nodup) {i j : StreamIndex}
    {e e' : StreamEntry} (hi : entries[i]? = some e) (hj : entries[j]? = some e')
    (hname : e.name = e'.name) : i = j := by
  have hlt := (List.getElem?_eq_some_iff.mp hi).1
  refine (List.getElem?_inj (by simpa using hlt) h).mp ?_
  rw [List.getElem?_map, List.getElem?_map, hi, hj, Option.map_some, Option.map_some, hname]

/-- If names differ, each is found where it stands. -/
lemma indexOf?_eq_some_iff (h : (entries.map (·.name)).Nodup) {name : String} {i : StreamIndex} :
    indexOf? entries name = some i ↔ ∃ e, entries[i]? = some e ∧ e.name = name := by
  rw [indexOf?, List.findIdx?_eq_some_iff_getElem]
  constructor
  · rintro ⟨hi, hname, -⟩
    exact ⟨_, List.getElem?_eq_getElem hi, by simpa using hname⟩
  · rintro ⟨e, he, rfl⟩
    obtain ⟨hi, rfl⟩ := List.getElem?_eq_some_iff.mp he
    refine ⟨hi, by simp, fun j hj hsame => ?_⟩
    have heq := index_eq_of_name h (List.getElem?_eq_getElem (Nat.lt_trans hj hi)) he
      (by simpa using hsame)
    exact absurd heq (Nat.ne_of_lt hj)

lemma indexOf?_eq_none_iff {name : String} :
    indexOf? entries name = none ↔ name ∉ entries.map (·.name) := by
  simp [indexOf?]

/-! ### Calls -/

/-- How an entry is placed. -/
def placement (entries : List StreamEntry) (e : StreamEntry) : Placement :=
  ⟨e.parent.bind (indexOf? entries), e.optional⟩

/-- The calls for a list of entries, starting at a given index. -/
def callsFrom (entries : List StreamEntry) (stream : StreamIndex) :
    List StreamEntry → List BuilderCall
  | [] => []
  | e :: rest =>
    .place stream (placement entries e) :: .name stream e.name ::
      callsFrom entries (stream + 1) rest

section Given

variable {α : Type} {what : BuilderCall → Option α} {value : StreamEntry → α}

lemma given_callsFrom_cons {stream : StreamIndex} {e : StreamEntry}
    (hwhat : (what (.place stream (placement entries e))).toList
      ++ (what (.name stream e.name)).toList = [value e])
    (rest : List StreamEntry) (s : StreamIndex) :
    given what (callsFrom entries stream (e :: rest)) s
      = (if stream = s then [value e] else [])
        ++ given what (callsFrom entries (stream + 1) rest) s := by
  rw [callsFrom, given_cons, given_cons, ← hwhat, ← List.append_assoc]
  congr 1
  by_cases hs : stream = s
  · simp [BuilderCall.stream, hs]
  · simp [BuilderCall.stream, hs]

/-- Calls give nothing to streams before the first. -/
lemma given_callsFrom_of_lt
    (hwhat : ∀ (s : StreamIndex) (e : StreamEntry),
      (what (.place s (placement entries e))).toList ++ (what (.name s e.name)).toList = [value e])
    (rest : List StreamEntry) :
    ∀ stream s : Nat, s < stream → given what (callsFrom entries stream rest) s = [] := by
  induction rest with
  | nil => intro stream s _; rfl
  | cons e rest ih =>
    intro stream s hs
    rw [given_callsFrom_cons (hwhat stream e), ih _ _ (Nat.lt_succ_of_lt hs),
      if_neg (Nat.ne_of_gt hs), List.append_nil]

/-- Calls give a stream what its entry gives. -/
lemma given_callsFrom
    (hwhat : ∀ (s : StreamIndex) (e : StreamEntry),
      (what (.place s (placement entries e))).toList ++ (what (.name s e.name)).toList = [value e])
    (rest : List StreamEntry) : ∀ stream i : Nat,
      given what (callsFrom entries stream rest) (stream + i) = (rest[i]?.map value).toList := by
  induction rest with
  | nil => intro stream i; rfl
  | cons e rest ih =>
    intro stream i
    rw [given_callsFrom_cons (hwhat stream e)]
    cases i with
    | zero =>
      rw [Nat.add_zero, given_callsFrom_of_lt hwhat rest _ _ (Nat.lt_add_one stream)]
      simp
    | succ i =>
      have hne : ¬ stream = stream + 1 + i := by omega
      rw [Nat.add_comm i 1, ← Nat.add_assoc, if_neg hne, ih, Nat.add_comm 1 i]
      simp

end Given

lemma placementsOf_callsFrom (i : StreamIndex) :
    placementsOf (callsFrom entries 0 entries) i
      = (entries[i]?.map (placement entries)).toList := by
  have h := @given_callsFrom entries _ placement? (placement entries) (fun _ _ => rfl) entries 0 i
  rwa [Nat.zero_add] at h

lemma namesOf_callsFrom (i : StreamIndex) :
    namesOf (callsFrom entries 0 entries) i = (entries[i]?.map (·.name)).toList := by
  have h := @given_callsFrom entries _ name? StreamEntry.name (fun _ _ => rfl) entries 0 i
  rwa [Nat.zero_add] at h

lemma stream_lt_of_mem_callsFrom (rest : List StreamEntry) :
    ∀ (stream : Nat), ∀ c ∈ callsFrom entries stream rest, c.stream < stream + rest.length := by
  induction rest with
  | nil => intro stream c hc; cases hc
  | cons e rest ih =>
    intro stream c hc
    rw [callsFrom, List.mem_cons, List.mem_cons] at hc
    rcases hc with rfl | rfl | hc
    · simp [BuilderCall.stream]
    · simp [BuilderCall.stream]
    · refine (ih (stream + 1) c hc).trans_eq ?_
      rw [List.length_cons, Nat.add_assoc, Nat.add_comm 1]

/-- The calls for entries place every stream once. -/
lemma declares_callsFrom (entries : List StreamEntry) :
    Declares entries.length (callsFrom entries 0 entries) (entries.map (placement entries)) where
  length_eq := List.length_map _
  stream_lt c hc := by
    have hlt := stream_lt_of_mem_callsFrom entries 0 c hc
    rwa [Nat.zero_add] at hlt
  placementsOf_eq := by
    intro s p hp
    rw [List.getElem?_map] at hp
    rw [placementsOf_callsFrom, hp]
    rfl

/-- Entries with known parents are placed and named by their calls. -/
lemma placeAll_append (before after : List StreamEntry)
    (h : ∀ e ∈ before, ∀ name, e.parent = some name → name ∈ entries.map (·.name)) :
    ∀ (builder : TreeBuilder) (stream : StreamIndex),
      placeAll entries builder stream (before ++ after)
        = placeAll entries ((callsFrom entries stream before).foldl apply builder)
            (stream + before.length) after := by
  induction before with
  | nil => intro builder stream; rfl
  | cons e rest ih =>
    intro builder stream
    have hparent : parentIndex entries e.parent = .ok (e.parent.bind (indexOf? entries)) := by
      cases hp : e.parent with
      | none => rfl
      | some name =>
        have hknown := h e List.mem_cons_self name hp
        cases hi : indexOf? entries name with
        | none => exact absurd hknown (indexOf?_eq_none_iff.mp hi)
        | some i => simp [parentIndex, hi]
    rw [List.cons_append, placeAll, hparent]
    refine (ih (fun x hx => h x (List.mem_cons_of_mem _ hx)) _ _).trans ?_
    rw [List.length_cons, Nat.add_assoc, Nat.add_comm 1]
    rfl

/-! ### Shape -/

/-- The entry with the first name gives the second as its parent. -/
def NamesParent (entries : List StreamEntry) (name parent : String) : Prop :=
  ∃ e ∈ entries, e.name = name ∧ e.parent = some parent

/-- Entries that form a tree: names differ, one entry has no parent and is not optional, every
parent is a name, and following the parents leads from every name to that entry. -/
structure FormTree (entries : List StreamEntry) (root : StreamEntry) : Prop where
  nodup_names : (entries.map (·.name)).Nodup
  root_mem : root ∈ entries
  parent_root : root.parent = none
  optional_root : root.optional = false
  eq_root : ∀ e ∈ entries, e.parent = none → e = root
  parent_mem : ∀ e ∈ entries, ∀ name, e.parent = some name → name ∈ entries.map (·.name)
  leads : ∀ e ∈ entries, Relation.ReflTransGen (NamesParent entries) e.name root.name

section Shape

variable (hnames : (entries.map (·.name)).Nodup)
  (hparents : ∀ e ∈ entries, ∀ name, e.parent = some name → name ∈ entries.map (·.name))

include hnames in
/-- A parent given by name is the stream of the entry with that name. -/
lemma parentIn_placements {i j : StreamIndex} {e : StreamEntry} (hi : entries[i]? = some e) :
    parentIn (entries.map (placement entries)) i = some j ↔
      ∃ p, entries[j]? = some p ∧ e.parent = some p.name := by
  rw [parentIn, List.getElem?_map, hi, Option.map_some, Option.bind_some, placement,
    Option.bind_eq_some_iff]
  constructor
  · rintro ⟨name, hname, hindex⟩
    obtain ⟨p, hp, rfl⟩ := (indexOf?_eq_some_iff hnames).mp hindex
    exact ⟨p, hp, hname⟩
  · rintro ⟨p, hp, hname⟩
    exact ⟨p.name, hname, (indexOf?_eq_some_iff hnames).mpr ⟨p, hp, rfl⟩⟩

include hparents in
lemma parent_placement_eq_none {e : StreamEntry} (he : e ∈ entries) :
    (placement entries e).parent = none ↔ e.parent = none := by
  rw [placement, Option.bind_eq_none_iff]
  constructor
  · intro h
    cases hp : e.parent with
    | none => rfl
    | some name =>
      exact absurd (hparents e he name hp) (indexOf?_eq_none_iff.mp (h name hp))
  · intro h name hname
    rw [h] at hname
    cases hname

include hnames hparents in
/-- Following parents leads to the same streams whether they are given by name or by index. -/
lemma leads_iff {i j : StreamIndex} {e r : StreamEntry} (hi : entries[i]? = some e)
    (hj : entries[j]? = some r) : Leads (entries.map (placement entries)) i j ↔
      Relation.ReflTransGen (NamesParent entries) e.name r.name := by
  constructor
  · intro h
    induction h using Relation.ReflTransGen.head_induction_on generalizing e with
    | refl =>
      cases hi.symm.trans hj
      exact .refl
    | head hstep _ ih =>
      obtain ⟨p, hp, hparent⟩ := (parentIn_placements hnames hi).mp hstep
      exact .head ⟨e, List.mem_of_getElem? hi, rfl, hparent⟩ (ih hp)
  · intro h
    generalize hname : e.name = name at h
    induction h using Relation.ReflTransGen.head_induction_on generalizing i e with
    | refl =>
      cases index_eq_of_name hnames hi hj hname
      exact .refl
    | head hstep _ ih =>
      obtain ⟨e', he', hsame, hparent⟩ := hstep
      obtain ⟨k, hk⟩ := List.getElem?_of_mem he'
      cases index_eq_of_name hnames hk hi (hsame.trans hname.symm)
      cases hk.symm.trans hi
      obtain ⟨p, hp, rfl⟩ := List.mem_map.mp (hparents e he' _ hparent)
      obtain ⟨x, hx⟩ := List.getElem?_of_mem hp
      exact .head ((parentIn_placements hnames hi).mpr ⟨p, hx, hparent⟩) (ih hx rfl)

include hnames hparents in
lemma formTree_of_rooted {root : StreamIndex}
    (h : Rooted (entries.map (placement entries)) root) :
    ∃ r, FormTree entries r := by
  have hget := h.getElem?_root
  rw [List.getElem?_map] at hget
  obtain ⟨r, hr, hplacement⟩ := Option.map_eq_some_iff.mp hget
  have hmem : r ∈ entries := List.mem_of_getElem? hr
  refine ⟨r, hnames, hmem, ?_, congrArg Placement.optional hplacement, ?_, hparents, ?_⟩
  · exact (parent_placement_eq_none hparents hmem).mp (congrArg Placement.parent hplacement)
  · intro e he hnone
    obtain ⟨i, hi⟩ := List.getElem?_of_mem he
    have hlt := (List.getElem?_eq_some_iff.mp hi).1
    have hroot : i = root := h.eq_root i (by simpa using hlt)
      (parentIn_eq_none (by rw [List.getElem?_map, hi]; rfl)
        ((parent_placement_eq_none hparents he).mpr hnone))
    rw [hroot] at hi
    exact Option.some.inj (hi.symm.trans hr)
  · intro e he
    obtain ⟨i, hi⟩ := List.getElem?_of_mem he
    have hlt := (List.getElem?_eq_some_iff.mp hi).1
    exact (leads_iff hnames hparents hi hr).mp (h.leads i (by simpa using hlt))

end Shape

/-- Entries that form a tree are placed as one. -/
lemma FormTree.rooted {r : StreamEntry} (h : FormTree entries r) {root : StreamIndex}
    (hr : entries[root]? = some r) : Rooted (entries.map (placement entries)) root := by
  have hentry : ∀ {i : StreamIndex}, i < (entries.map (placement entries)).length →
      ∃ e, e ∈ entries ∧ entries[i]? = some e := by
    intro i hi
    rw [List.length_map] at hi
    exact ⟨_, List.getElem_mem hi, List.getElem?_eq_getElem hi⟩
  refine ⟨?_, ?_, ?_, ?_⟩
  · rw [List.getElem?_map, hr, Option.map_some, placement, h.parent_root, h.optional_root]
    rfl
  · intro i hi hnone
    obtain ⟨e, he, hget⟩ := hentry hi
    rw [parentIn, List.getElem?_map, hget, Option.map_some, Option.bind_some,
      parent_placement_eq_none h.parent_mem he] at hnone
    have hsame := h.eq_root e he hnone
    exact index_eq_of_name h.nodup_names hget hr (congrArg StreamEntry.name hsame)
  · intro i j hij
    obtain ⟨q, hq, -⟩ := Option.bind_eq_some_iff.mp hij
    obtain ⟨e, -, hget⟩ := hentry (List.getElem?_eq_some_iff.mp hq).1
    obtain ⟨p, hp, -⟩ := (parentIn_placements h.nodup_names hget).mp hij
    simpa using (List.getElem?_eq_some_iff.mp hp).1
  · intro i hi
    obtain ⟨e, he, hget⟩ := hentry hi
    exact (leads_iff h.nodup_names h.parent_mem hget hr).mpr (h.leads e he)

end StreamEntry

/-! ### Trees -/

/-- What can be wrong with streams that are placed once each below streams of the join. -/
inductive TreeError.OfShape : TreeError → Prop where
  | empty : OfShape .empty
  | noRoot : OfShape .noRoot
  | severalRoots (first second : StreamIndex) : OfShape (.severalRoots first second)
  | cycle (stream : StreamIndex) : OfShape (.cycle stream)
  | optionalRoot (stream : StreamIndex) : OfShape (.optionalRoot stream)

namespace JoinTree

open StreamEntry

variable {entries : List StreamEntry}

/-- If names differ and parents are known, the tree is that of the calls. -/
lemma ofEntries_eq_build (hnames : Faultless RepeatFault entries)
    (hparents : Faultless (ParentFault entries) entries) :
    ofEntries entries = (ofCalls entries.length (callsFrom entries 0 entries)).build := by
  have hplace := placeAll_append entries [] (faultless_parent_iff.mp hparents)
    (.new entries.length) 0
  rw [List.append_nil] at hplace
  rw [ofEntries, firstRepeated_of_faultless hnames, hplace]
  rfl

lemma ofEntries_of_repeat {name : String} (h : FirstFault RepeatFault entries name) :
    ofEntries entries = .error (.nameTwice name) := by
  rw [ofEntries, firstRepeated_of_fault h]
  rfl

lemma ofEntries_of_parent (hnames : Faultless RepeatFault entries) {name : String}
    (h : FirstFault (ParentFault entries) entries name) :
    ofEntries entries = .error (.unknownName name) := by
  obtain ⟨before, e, after, hsplit, hbefore, ⟨hparent, hunknown⟩⟩ := h
  have hplace := placeAll_append before (e :: after) (faultless_parent_iff.mp hbefore)
    (.new entries.length) 0
  have hindex : parentIndex entries e.parent = .error (.unknownName name) := by
    rw [hparent, parentIndex, indexOf?_eq_none_iff.mpr hunknown]
  rw [← hsplit, placeAll, hindex] at hplace
  rw [ofEntries, firstRepeated_of_faultless hnames, hplace]
  rfl

/-- No call for an entry is a mistake, and no parent is out of range. -/
lemma ofShape_of_fault (hnames : (entries.map (·.name)).Nodup) {e : TreeError}
    (h : BuildFault entries.length (callsFrom entries 0 entries) e) : e.OfShape := by
  have hentries := declares_callsFrom entries
  cases h with
  | empty => exact .empty
  | call _ hcall =>
    obtain ⟨before, c, after, hsplit, -, hfault⟩ := hcall
    exact absurd hfault (hentries.faultless before c after hsplit e)
  | @missing s _ hs hnone =>
    rw [placementsOf_callsFrom, List.getElem?_eq_getElem hs] at hnone
    cases hnone
  | placement _ hdecl hfault =>
    obtain rfl := hentries.unique hdecl
    obtain ⟨before, p, after, hsplit, -, hfault⟩ := hfault
    cases hfault with
    | severalRoots => exact .severalRoots _ _
    | ownParent => exact .cycle _
    | @parentOutOfRange parent hp hsize =>
      have hmem : p ∈ entries.map (placement entries) :=
        hsplit ▸ List.mem_append_right _ List.mem_cons_self
      obtain ⟨x, -, rfl⟩ := List.mem_map.mp hmem
      obtain ⟨name, -, hindex⟩ := Option.bind_eq_some_iff.mp hp
      obtain ⟨y, hy, -⟩ := (indexOf?_eq_some_iff hnames).mp hindex
      exact absurd (List.getElem?_eq_some_iff.mp hy).1 (Nat.not_lt.mpr hsize)
  | noRoot => exact .noRoot
  | optionalRoot => exact .optionalRoot _
  | cycle => exact .cycle _

/-- What is told of entries that form no tree: a repeated name first, then an unknown parent, then
what is wrong with the shape. -/
inductive EntryFault (entries : List StreamEntry) : TreeError → Prop where
  | nameTwice {name : String} (h : FirstFault RepeatFault entries name) :
      EntryFault entries (.nameTwice name)
  | unknownName {name : String} (hnames : Faultless RepeatFault entries)
      (h : FirstFault (ParentFault entries) entries name) : EntryFault entries (.unknownName name)
  | shape {e : TreeError} (h : e.OfShape) : EntryFault entries e

/-- Entries form a tree, or what is wrong with them is told. -/
lemma ofEntries_cases (entries : List StreamEntry) :
    (∃ e, EntryFault entries e ∧ ofEntries entries = .error e) ∨
      ∃ root r, FormTree entries r ∧ ofEntries entries
        = .ok (grown (entries.map (placement entries))
          (ofCalls entries.length (callsFrom entries 0 entries)).names root) := by
  rcases faultless_or_firstFault RepeatFault entries with hnames | ⟨name, hrepeat⟩
  · rcases faultless_or_firstFault (ParentFault entries) entries with hparents | ⟨name, hparent⟩
    · have heq := ofEntries_eq_build hnames hparents
      have hnodup := faultless_repeat_iff.mp hnames
      rcases fault_or_rooted entries.length (callsFrom entries 0 entries) with
        ⟨e, hfault⟩ | ⟨-, placements, root, hdecl, hrooted⟩
      · exact .inl ⟨e, .shape (ofShape_of_fault hnodup hfault), heq.trans (build_of_fault hfault)⟩
      · obtain rfl := (declares_callsFrom entries).unique hdecl
        obtain ⟨r, hform⟩ := formTree_of_rooted hnodup (faultless_parent_iff.mp hparents) hrooted
        exact .inr ⟨root, r, hform, heq.trans (build_of_rooted hdecl hrooted)⟩
    · exact .inl ⟨_, .unknownName hnames hparent, ofEntries_of_parent hnames hparent⟩
  · exact .inl ⟨_, .nameTwice hrepeat, ofEntries_of_repeat hrepeat⟩

/-- Only entries that form a tree are accepted. -/
lemma formTree_of_ofEntries {t : JoinTree} (h : ofEntries entries = .ok t) :
    ∃ root r, FormTree entries r ∧ t = grown (entries.map (placement entries))
      (ofCalls entries.length (callsFrom entries 0 entries)).names root := by
  rcases ofEntries_cases entries with ⟨e, -, herror⟩ | ⟨root, r, hform, hok⟩
  · cases h.symm.trans herror
  · exact ⟨root, r, hform, Except.ok.inj (h.symm.trans hok)⟩

lemma entryFault_of_ofEntries {e : TreeError} (h : ofEntries entries = .error e) :
    EntryFault entries e := by
  rcases ofEntries_cases entries with ⟨e, hfault, herror⟩ | ⟨root, r, -, hok⟩
  · cases h.symm.trans herror
    exact hfault
  · cases h.symm.trans hok

/-- Entries that form a tree are accepted. -/
lemma ofEntries_of_formTree {r : StreamEntry} (h : FormTree entries r) :
    ∃ t, ofEntries entries = .ok t := by
  obtain ⟨root, hr⟩ := List.getElem?_of_mem h.root_mem
  rw [ofEntries_eq_build (faultless_repeat_iff.mpr h.nodup_names)
    (faultless_parent_iff.mpr h.parent_mem)]
  exact ⟨_, build_of_rooted (declares_callsFrom entries) (h.rooted hr)⟩

/-- The node of an entry. -/
lemma node?_of_entry {r : StreamEntry} (h : FormTree entries r) (root : StreamIndex)
    {i : StreamIndex} {e : StreamEntry} (hi : entries[i]? = some e) : ∃ node,
      (grown (entries.map (placement entries))
        (ofCalls entries.length (callsFrom entries 0 entries)).names root).node? i
          = some node ∧
      node.stream = i ∧ node.name = some e.name ∧ node.optional = e.optional ∧
      (e.parent = none → node.parent = none) ∧
      ∀ name, e.parent = some name → ∃ j p, entries[j]? = some p ∧ p.name = name ∧
        node.parent = some j := by
  have hplacement : (entries.map (placement entries))[i]? = some (placement entries e) := by
    rw [List.getElem?_map, hi]
    rfl
  refine ⟨_, node?_grown (declares_callsFrom entries) hplacement, rfl, ?_, rfl, ?_, ?_⟩
  · simp only [namesOf_callsFrom, hi]
    rfl
  · intro hnone
    simp only [placement, hnone]
    rfl
  · intro name hname
    have hknown := h.parent_mem e (List.mem_of_getElem? hi) name hname
    cases hindex : indexOf? entries name with
    | none => exact absurd hknown (indexOf?_eq_none_iff.mp hindex)
    | some j =>
      obtain ⟨p, hp, hsame⟩ := (indexOf?_eq_some_iff h.nodup_names).mp hindex
      refine ⟨j, p, hp, hsame, ?_⟩
      simp only [placement, hname, Option.bind_some, hindex]

/-- A stream is found by the name of its entry. -/
lemma streamOf?_of_entries {t : JoinTree} (hnames : (entries.map (·.name)).Nodup)
    (hsize : t.size = entries.length)
    (hnode : ∀ i e, entries[i]? = some e →
      ∃ node, t.node? i = some node ∧ node.stream = i ∧ node.name = some e.name)
    {name : String} {i : StreamIndex} :
    t.streamOf? name = some i ↔ ∃ e, entries[i]? = some e ∧ e.name = name := by
  have hfound : ∀ node, t.nodes.find? (fun n => n.name == some name) = some node →
      ∃ e, entries[node.stream]? = some e ∧ e.name = name := by
    intro node hfind
    obtain ⟨j, hj⟩ := List.getElem?_of_mem (List.mem_of_find?_eq_some hfind)
    have hlt : j < entries.length := hsize ▸ (List.getElem?_eq_some_iff.mp hj).1
    obtain ⟨node', hnode', hstream, hname⟩ := hnode j _ (List.getElem?_eq_getElem hlt)
    cases hj.symm.trans hnode'
    refine ⟨_, by rw [hstream]; exact List.getElem?_eq_getElem hlt, ?_⟩
    have hbears := List.find?_some hfind
    rw [hname, beq_iff_eq] at hbears
    exact Option.some.inj hbears
  rw [streamOf?, Option.map_eq_some_iff]
  constructor
  · rintro ⟨node, hfind, rfl⟩
    exact hfound node hfind
  · rintro ⟨e, hi, rfl⟩
    obtain ⟨node, hget, -, hname⟩ := hnode i e hi
    cases hfind : t.nodes.find? (fun n => n.name == some e.name) with
    | none =>
      have hmiss := List.find?_eq_none.mp hfind node (List.mem_of_getElem? hget)
      exact absurd (beq_iff_eq.mpr hname) hmiss
    | some node' =>
      obtain ⟨e', he', hsame⟩ := hfound node' hfind
      exact ⟨node', rfl, index_eq_of_name hnames he' hi hsame⟩

/-- Entries are accepted just when they form a tree. Every stream then has the name and the flag of
its entry, its parent is the stream with the parent's name, and a name leads to its stream. An error
tells the first repeated name, or else the first unknown parent, or else what is wrong with the
shape. -/
theorem ofEntries_resolves (entries : List StreamEntry) :
    ((∃ t, ofEntries entries = .ok t) ↔ entries ≠ [] ∧ ∃ root, FormTree entries root) ∧
      (∀ t, ofEntries entries = .ok t → t.size = entries.length ∧
        (∀ i e, entries[i]? = some e → t.streamOf? e.name = some i ∧
          ∃ node, t.node? i = some node ∧ node.stream = i ∧ node.name = some e.name ∧
            node.optional = e.optional ∧ (e.parent = none → node.parent = none) ∧
            ∀ name, e.parent = some name → ∃ j p, entries[j]? = some p ∧ p.name = name ∧
              node.parent = some j) ∧
        ∀ name, name ∉ entries.map (·.name) → t.streamOf? name = none) ∧
      (∀ name, ofEntries entries = .error (.nameTwice name) ↔
        FirstFault RepeatFault entries name) ∧
      (∀ name, ofEntries entries = .error (.unknownName name) ↔
        (entries.map (·.name)).Nodup ∧ FirstFault (ParentFault entries) entries name) ∧
      ∀ e, ofEntries entries = .error e →
        (∀ s n, e ≠ .outOfRange s n) ∧ (∀ s, e ≠ .placedTwice s) ∧ (∀ s, e ≠ .missing s) ∧
          ∀ s p, e ≠ .parentOutOfRange s p := by
  refine ⟨⟨?_, ?_⟩, ?_, fun name => ⟨fun h => ?_, ofEntries_of_repeat⟩,
    fun name => ⟨fun h => ?_, ?_⟩, fun e h => ?_⟩
  · rintro ⟨t, ht⟩
    obtain ⟨-, r, hform, -⟩ := formTree_of_ofEntries ht
    exact ⟨List.ne_nil_of_mem hform.root_mem, r, hform⟩
  · rintro ⟨-, r, hform⟩
    exact ofEntries_of_formTree hform
  · intro t ht
    obtain ⟨root, r, hform, heq⟩ := formTree_of_ofEntries ht
    have hsize : t.size = entries.length := by rw [heq, size_grown, List.length_map]
    have hnode := fun i e => node?_of_entry hform root (i := i) (e := e)
    rw [← heq] at hnode
    have hstream : ∀ {name : String} {i : StreamIndex},
        t.streamOf? name = some i ↔ ∃ e, entries[i]? = some e ∧ e.name = name := by
      refine streamOf?_of_entries hform.nodup_names hsize fun i e hi => ?_
      obtain ⟨node, hget, hplace, hname, -⟩ := hnode i e hi
      exact ⟨node, hget, hplace, hname⟩
    refine ⟨hsize, fun i e hi => ⟨hstream.mpr ⟨e, hi, rfl⟩, hnode i e hi⟩, ?_⟩
    intro name hname
    rw [Option.eq_none_iff_forall_not_mem]
    intro i hi
    obtain ⟨e, he, rfl⟩ := hstream.mp hi
    exact hname (List.mem_map_of_mem (List.mem_of_getElem? he))
  · cases entryFault_of_ofEntries h with
    | nameTwice hrepeat => exact hrepeat
    | shape hshape => cases hshape
  · cases entryFault_of_ofEntries h with
    | unknownName hnames hparent => exact ⟨faultless_repeat_iff.mp hnames, hparent⟩
    | shape hshape => cases hshape
  · rintro ⟨hnames, hparent⟩
    exact ofEntries_of_parent (faultless_repeat_iff.mpr hnames) hparent
  · cases entryFault_of_ofEntries h with
    | nameTwice => simp
    | unknownName => simp
    | shape hshape => cases hshape <;> simp

theorem ofEntries_resolves_forward :
    (∃ t, ofEntries [⟨"leaf", some "top", true⟩, ⟨"top", none, false⟩] = .ok t ∧
      t.streamOf? "leaf" = some 0 ∧ t.streamOf? "other" = none) ∧
    FirstFault RepeatFault [⟨"a", some "b", false⟩, ⟨"a", none, false⟩] "a" := by
  obtain ⟨-, hok, hrepeat, -⟩ :=
    ofEntries_resolves [⟨"leaf", some "top", true⟩, ⟨"top", none, false⟩]
  have hbuild : ofEntries [⟨"leaf", some "top", true⟩, ⟨"top", none, false⟩]
      = .ok ⟨[⟨0, some 1, true, [], some "leaf"⟩, ⟨1, none, false, [0], some "top"⟩], 1, [1, 0],
          [0, 1], [[0], [1, 0]]⟩ := by decide
  obtain ⟨-, hstreams, hother⟩ := hok _ hbuild
  refine ⟨⟨_, hbuild, (hstreams 0 _ rfl).1, hother "other" (by decide)⟩, ?_⟩
  exact ((ofEntries_resolves _).2.2.1 "a").mp (by decide)

end JoinTree

end JoinAssembly
