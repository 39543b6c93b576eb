import JoinAssembly.Proofs.MatchSets.Occurrences
import JoinAssembly.Scenario.Resolve
import Mathlib.Logic.Embedding.Basic

/-!
# Renaming of events

An injective map `f` renames every event of match sets, in match nodes and in links. Match nodes
keep their places, and every operation on match sets commutes with the renaming.
-/

namespace JoinAssembly

variable {ε δ : Type}

/-! ### Lists without repetitions -/

namespace DistinctList

lemma eq_of_toList {l k : DistinctList ε} (h : l.toList = k.toList) : l = k := by
  cases l
  cases k
  cases h
  rfl

/-- Rename the members of a list. -/
def rename (f : ε ↪ δ) (l : DistinctList ε) : DistinctList δ :=
  ⟨l.toList.map f, l.nodup.map f.injective⟩

@[simp] lemma toList_rename (f : ε ↪ δ) (l : DistinctList ε) :
    (l.rename f).toList = l.toList.map f := rfl

variable [DecidableEq ε] [DecidableEq δ]

@[simp] lemma contains_rename (f : ε ↪ δ) (l : DistinctList ε) (a : ε) :
    (l.rename f).contains (f a) = l.contains a := by
  simp [contains]

@[simp] lemma indexOf?_rename (f : ε ↪ δ) (l : DistinctList ε) (a : ε) :
    (l.rename f).indexOf? (f a) = l.indexOf? a := by
  have hsame : (fun x => f x == f a) = fun x => x == a := by
    funext x
    rw [Bool.eq_iff_iff]
    simp
  simp [indexOf?, List.idxOf?, List.findIdx?_map, Function.comp_def, hsame]

lemma rename_insert (f : ε ↪ δ) (l : DistinctList ε) (a : ε) :
    (l.insert a).rename f = (l.rename f).insert (f a) := by
  have hmem : f a ∈ (l.rename f).toList ↔ a ∈ l.toList := by simp
  by_cases ha : a ∈ l.toList
  · rw [insert_of_mem ha, insert_of_mem (hmem.mpr ha)]
  · apply eq_of_toList
    rw [toList_rename, toList_insert_of_not_mem ha, toList_insert_of_not_mem (mt hmem.mp ha),
      List.map_append, List.map_singleton, toList_rename]

lemma rename_ofList (f : ε ↪ δ) (l : List ε) : (ofList l).rename f = ofList (l.map f) := by
  have hfold : ∀ d : DistinctList ε,
      (l.foldl insert d).rename f = (l.map f).foldl insert (d.rename f) := by
    induction l with
    | nil => intro d; rfl
    | cons a rest ih =>
      intro d
      rw [List.foldl_cons, ih, rename_insert, List.map_cons, List.foldl_cons]
  exact hfold empty

end DistinctList

/-! ### Match nodes -/

def ParentLink.rename (f : ε ↪ δ) (link : ParentLink ε) : ParentLink δ := ⟨link.place, f link.event⟩

namespace MatchNode

/-- Rename the events of a match node, and the one that it links to. -/
def rename (f : ε ↪ δ) (x : MatchNode ε) : MatchNode δ :=
  ⟨x.stream, x.parent.map (·.rename f), x.events.rename f⟩

@[simp] lemma events_rename (f : ε ↪ δ) (x : MatchNode ε) :
    (x.rename f).events = x.events.rename f := rfl

@[simp] lemma linksTo_rename [DecidableEq ε] [DecidableEq δ] (f : ε ↪ δ) (x : MatchNode ε)
    (s : StreamIndex) (index : Nat) (e : ε) :
    (x.rename f).linksTo s index (f e) = x.linksTo s index e := by
  rw [linksTo, linksTo, decide_eq_decide]
  obtain ⟨_, _ | ⟨place, event⟩, _⟩ := x
  · simp [rename]
  · simp [rename, ParentLink.rename]

end MatchNode

/-- Rename the event of an occurrence and those of its match node. -/
def Occurrence.rename (f : ε ↪ δ) (o : Occurrence ε) : Occurrence δ :=
  ⟨o.cursor, o.node.rename f, f o.event⟩

/-! ### Match sets -/

namespace MatchSets

/-- Rename the events of match sets. -/
def rename (f : ε ↪ δ) (m : MatchSets ε) : MatchSets δ :=
  ⟨m.streams.map fun nodes => nodes.map (·.rename f)⟩

@[simp] lemma nodesOf_rename (f : ε ↪ δ) (m : MatchSets ε) (s : StreamIndex) :
    (m.rename f).nodesOf s = (m.nodesOf s).map (·.rename f) := by
  rw [nodesOf, nodesOf, rename, List.getElem?_map]
  cases m.streams[s]? <;> rfl

@[simp] lemma width_rename (f : ε ↪ δ) (m : MatchSets ε) : (m.rename f).width = m.width := by
  simp [rename, width]

@[simp] lemma node?_rename (f : ε ↪ δ) (m : MatchSets ε) (p : MatchRef) :
    (m.rename f).node? p = (m.node? p).map (·.rename f) := by
  rw [node?, node?, nodesOf_rename, List.getElem?_map]

lemma occurrences_rename (f : ε ↪ δ) (m : MatchSets ε) (s : StreamIndex) :
    (m.rename f).occurrences s = (m.occurrences s).map (·.rename f) := by
  rw [occurrences, occurrences, nodesOf_rename, List.zipIdx_map, List.flatMap_map, List.map_flatMap]
  congr 1
  funext x
  simp only [Prod.map, MatchNode.events_rename, DistinctList.toList_rename, List.zipIdx_map,
    List.map_map]
  rfl

variable [DecidableEq ε] [DecidableEq δ]

lemma linked?_rename (f : ε ↪ δ) (m : MatchSets ε) (s : StreamIndex) (x : MatchNode ε) :
    (m.rename f).linked? s (x.rename f) = (m.linked? s x).map (·.rename f) := by
  rw [linked?, linked?, occurrences_rename, List.find?_map]
  congr 2
  funext o
  exact x.linksTo_rename f s o.cursor.node o.event

/-- An event is held where its new name is held. -/
lemma holding_rename (f : ε ↪ δ) (m : MatchSets ε) (s : StreamIndex) (event : ε) :
    (m.rename f).holding s (f event) = m.holding s event := by
  rw [holding, holding, nodesOf_rename, List.zipIdx_map, List.filterMap_map]
  congr 1
  funext x
  simp only [Function.comp_apply, Prod.map, MatchNode.events_rename, DistinctList.contains_rename]
  rfl

lemma rename_push (f : ε ↪ δ) (m : MatchSets ε) (s : StreamIndex)
    (parent : Option (ParentLink ε)) (events : List ε) :
    (m.push s parent events).2.rename f
      = ((m.rename f).push s (parent.map (·.rename f)) (events.map f)).2 := by
  have hstream : (m.rename f).streams[s]? = m.streams[s]?.map fun nodes =>
      nodes.map (·.rename f) := List.getElem?_map
  rw [push, push, hstream]
  cases m.streams[s]? with
  | none => rfl
  | some nodes =>
    simp only [Option.map_some, DistinctList.isEmpty_ofList, List.isEmpty_map]
    split
    · rfl
    · simp [rename, MatchNode.rename, DistinctList.rename_ofList]

lemma rename_pushMatch (f : ε ↪ δ) (m : MatchSets ε) (s : StreamIndex) (place : MatchRef)
    (event : ε) (events : List ε) :
    (m.pushMatch s place event events).2.rename f
      = ((m.rename f).pushMatch s place (f event) (events.map f)).2 :=
  rename_push f m s (some ⟨place, event⟩) events

lemma rename_ofRoot (f : ε ↪ δ) (width : Nat) (root : StreamIndex) (events : List ε) :
    (ofRoot width root events).rename f = ofRoot width root (events.map f) := by
  have hempty : (empty width : MatchSets ε).rename f = empty width := by
    simp [empty, rename]
  rw [ofRoot, pushRoot, rename_push, hempty]
  rfl

end MatchSets

end JoinAssembly
