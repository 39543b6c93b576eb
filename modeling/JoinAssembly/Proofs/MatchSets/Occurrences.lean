import JoinAssembly.JoinNode.Delivery
import Mathlib.Data.List.Nodup
import Mathlib.Tactic.Lemma

/-!
# Occurrences of events

An occurrence is told apart by its cursor, and just as well by its match node and its event. A match
node links to at most one occurrence of the parent stream, which is the one a stream is called back
for.
-/

namespace JoinAssembly

variable {ε : Type}

/-! ### Places in a list without repetitions -/

namespace DistinctList

variable {α : Type} [DecidableEq α] {l : DistinctList α} {a : α}

lemma indexOf?_eq_some_iff {i : Nat} : l.indexOf? a = some i ↔ l.toList[i]? = some a := by
  rw [indexOf?, List.idxOf?_eq_some_iff, List.getElem?_eq_some_iff]
  constructor
  · rintro ⟨hi, hget, -⟩
    exact ⟨hi, hget⟩
  · rintro ⟨hi, hget⟩
    refine ⟨hi, hget, fun j hj hget' => ?_⟩
    have hij := (List.Nodup.getElem_inj_iff l.nodup).mp (hget'.trans hget.symm)
    omega

lemma indexOf?_eq_none_iff : l.indexOf? a = none ↔ a ∉ l.toList := List.idxOf?_eq_none_iff

end DistinctList

/-! ### Occurrences -/

lemma Cursor.eq_of_fields {a b : Cursor} (hnode : a.node = b.node)
    (hposition : a.position = b.position) : a = b := by
  cases a
  cases hnode
  cases hposition
  rfl

namespace MatchSets

variable {m : MatchSets ε} {s : StreamIndex}

lemma mem_occurrences {o : Occurrence ε} : o ∈ m.occurrences s ↔
    m.node? ⟨s, o.cursor.node⟩ = some o.node ∧
      o.node.events.toList[o.cursor.position]? = some o.event := by
  obtain ⟨⟨index, position⟩, node, event⟩ := o
  simp only [occurrences, List.mem_flatMap, List.mem_map, Prod.exists,
    List.mk_mem_zipIdx_iff_getElem?, node?]
  constructor
  · rintro ⟨node', index', hnode, event', position', hevent, heq⟩
    cases heq
    exact ⟨hnode, hevent⟩
  · rintro ⟨hnode, hevent⟩
    exact ⟨node, index, hnode, event, position, hevent, rfl⟩

/-- Occurrences stand in the order of their match nodes, and in a match node in that of their
places. -/
lemma pairwise_occurrences (m : MatchSets ε) (s : StreamIndex) :
    (m.occurrences s).Pairwise fun o o' => o.cursor.node < o'.cursor.node ∨
      o.cursor.node = o'.cursor.node ∧ o.cursor.position < o'.cursor.position := by
  have hindices {α : Type} (l : List α) : l.zipIdx.Pairwise fun a b => a.2 < b.2 := by
    rw [← List.pairwise_map (R := (· < ·)), List.zipIdx_map_snd]
    exact List.pairwise_lt_range'
  rw [occurrences, List.pairwise_flatMap]
  constructor
  · intro entry _
    rw [List.pairwise_map]
    exact (hindices _).imp fun hlt => .inr ⟨rfl, hlt⟩
  · refine (hindices _).imp fun {x y} hlt o ho o' ho' => .inl ?_
    obtain ⟨_, -, rfl⟩ := List.mem_map.mp ho
    obtain ⟨_, -, rfl⟩ := List.mem_map.mp ho'
    exact hlt

/-- No two occurrences have one cursor. -/
lemma nodup_cursors (m : MatchSets ε) (s : StreamIndex) :
    ((m.occurrences s).map (·.cursor)).Nodup := by
  rw [List.Nodup, List.pairwise_map]
  refine (m.pairwise_occurrences s).imp fun {o o'} hlt heq => ?_
  rcases hlt with hlt | ⟨-, hlt⟩
  · exact Nat.ne_of_lt hlt (congrArg Cursor.node heq)
  · exact Nat.ne_of_lt hlt (congrArg Cursor.position heq)

lemma nodup_occurrences (m : MatchSets ε) (s : StreamIndex) : (m.occurrences s).Nodup :=
  (m.nodup_cursors s).of_map _

/-- An occurrence is found by its cursor. -/
lemma eq_of_cursor_eq {o o' : Occurrence ε} (ho : o ∈ m.occurrences s)
    (ho' : o' ∈ m.occurrences s) (h : o.cursor = o'.cursor) : o = o' :=
  List.inj_on_of_nodup_map (m.nodup_cursors s) ho ho' h

/-- An occurrence is found by its match node and its event. -/
lemma eq_of_event_eq {o o' : Occurrence ε} (ho : o ∈ m.occurrences s)
    (ho' : o' ∈ m.occurrences s) (hnode : o.cursor.node = o'.cursor.node)
    (hevent : o.event = o'.event) : o = o' := by
  apply eq_of_cursor_eq ho ho'
  obtain ⟨hn, he⟩ := mem_occurrences.mp ho
  obtain ⟨hn', he'⟩ := mem_occurrences.mp ho'
  rw [hnode, hn'] at hn
  rw [← Option.some.inj hn, hevent] at he
  obtain ⟨hlt, hget⟩ := List.getElem?_eq_some_iff.mp he
  obtain ⟨hlt', hget'⟩ := List.getElem?_eq_some_iff.mp he'
  have hposition : o.cursor.position = o'.cursor.position :=
    (List.Nodup.getElem_inj_iff o'.node.events.nodup).mp (hget.trans hget'.symm)
  exact Cursor.eq_of_fields hnode hposition

/-- No event of a match node is listed twice among the events with their match nodes. -/
lemma nodup_links (m : MatchSets ε) (s : StreamIndex) :
    ((m.cursors s).map fun x => (⟨x.1, x.2⟩ : ParentLink ε)).Nodup := by
  rw [cursors, List.map_map]
  apply (m.nodup_occurrences s).map_on
  intro o ho o' ho' heq
  simp only [Function.comp_apply, ParentLink.mk.injEq, MatchRef.mk.injEq, true_and] at heq
  exact eq_of_event_eq ho ho' heq.1 heq.2

/-- Every event of a match node occurs. -/
lemma exists_occurrence {index : Nat} {node : MatchNode ε} (hnode : m.node? ⟨s, index⟩ = some node)
    {e : ε} (he : e ∈ node.events.toList) :
    ∃ position, ⟨⟨index, position⟩, node, e⟩ ∈ m.occurrences s := by
  obtain ⟨position, hlt, hget⟩ := List.getElem_of_mem he
  refine ⟨position, mem_occurrences.mpr ⟨hnode, ?_⟩⟩
  exact List.getElem?_eq_some_iff.mpr ⟨hlt, hget⟩

/-- What occurs in a stream are the events of its match nodes. -/
lemma exists_occurrence_iff {node : MatchNode ε} {e : ε} :
    (∃ o ∈ m.occurrences s, o.node = node ∧ o.event = e) ↔
      node ∈ m.nodesOf s ∧ e ∈ node.events.toList := by
  constructor
  · rintro ⟨o, ho, rfl, rfl⟩
    obtain ⟨hnode, hevent⟩ := mem_occurrences.mp ho
    exact ⟨List.mem_of_getElem? hnode, List.mem_of_getElem? hevent⟩
  · rintro ⟨hnode, he⟩
    obtain ⟨index, hindex⟩ := List.getElem?_of_mem hnode
    have hplace : m.node? ⟨s, index⟩ = some node := hindex
    obtain ⟨position, ho⟩ := exists_occurrence hplace he
    exact ⟨_, ho, rfl, rfl⟩

/-- If match nodes that are related share no event, then occurrences in related match nodes are of
different events, as those in one match node are. -/
lemma pairwise_event_ne {Q : MatchNode ε → MatchNode ε → Prop}
    (h : (m.nodesOf s).Pairwise fun x y => Q x y → ∀ e ∈ x.events.toList, e ∉ y.events.toList) :
    (m.occurrences s).Pairwise fun o o' => Q o.node o'.node → o.event ≠ o'.event := by
  rw [occurrences, List.pairwise_flatMap]
  constructor
  · rintro ⟨node, index⟩ _
    have hevents : node.events.toList.zipIdx.Pairwise fun a b => a.1 ≠ b.1 := by
      rw [← List.pairwise_map (R := (· ≠ ·)), List.zipIdx_map_fst]
      exact node.events.nodup
    rw [List.pairwise_map]
    refine hevents.imp ?_
    rintro ⟨e, position⟩ ⟨e', position'⟩ hne _
    exact hne
  · have hnodes : (m.nodesOf s).zipIdx.Pairwise fun a b =>
        Q a.1 b.1 → ∀ e ∈ a.1.events.toList, e ∉ b.1.events.toList := by
      rw [← List.pairwise_map (f := Prod.fst)
        (R := fun x y => Q x y → ∀ e ∈ x.events.toList, e ∉ y.events.toList), List.zipIdx_map_fst]
      exact h
    refine hnodes.imp fun {a b} hab o ho o' ho' hQ heq => ?_
    obtain ⟨⟨e, position⟩, he, rfl⟩ := List.mem_map.mp ho
    obtain ⟨⟨e', position'⟩, he', rfl⟩ := List.mem_map.mp ho'
    have hmem := List.mem_of_getElem? (List.mk_mem_zipIdx_iff_getElem?.mp he)
    have hmem' := List.mem_of_getElem? (List.mk_mem_zipIdx_iff_getElem?.mp he')
    have hsame : e = e' := heq
    exact hab hQ e hmem (hsame ▸ hmem')

/-! ### Calling a stream back -/

variable [DecidableEq ε]

/-- A stream is called back for an occurrence, for a match node that it does not have, or for an
event that the match node does not hold. -/
lemma locate_cases (m : MatchSets ε) {s : StreamIndex} {place : MatchRef} (hs : place.stream = s)
    (e : ε) :
    (∃ o ∈ m.occurrences s, o.cursor.node = place.index ∧ o.event = e ∧
        m.locate s place e = .ok (o.node, o.cursor.position)) ∨
      (m.node? place = none ∧ m.locate s place e = .error (.noMatchNode s place.index)) ∨
      (∃ node, m.node? place = some node ∧ e ∉ node.events.toList ∧
        m.locate s place e = .error (.eventNotHeld s place.index)) := by
  obtain ⟨stream, index⟩ := place
  cases hs
  rw [locate]
  rw [if_neg (not_not_intro rfl)]
  cases hnode : m.node? ⟨stream, index⟩ with
  | none => exact .inr (.inl ⟨rfl, rfl⟩)
  | some node =>
    cases hposition : node.events.indexOf? e with
    | none =>
      refine .inr (.inr ⟨node, rfl, DistinctList.indexOf?_eq_none_iff.mp hposition, ?_⟩)
      simp only [hposition]
    | some position =>
      have hevent := DistinctList.indexOf?_eq_some_iff.mp hposition
      refine .inl ⟨⟨⟨index, position⟩, node, e⟩, mem_occurrences.mpr ⟨hnode, hevent⟩, rfl, rfl, ?_⟩
      simp only [hposition]

end MatchSets

/-! ### Links -/

/-- The events of a match node were matched against an event of a match node of another stream. -/
def MatchNode.linksTo [DecidableEq ε] (x : MatchNode ε) (s : StreamIndex) (index : Nat) (e : ε) :
    Bool :=
  decide (x.parent = some ⟨⟨s, index⟩, e⟩)

namespace MatchSets

variable [DecidableEq ε]

/-- The occurrence of a stream that a match node links to. -/
def linked? (m : MatchSets ε) (s : StreamIndex) (x : MatchNode ε) : Option (Occurrence ε) :=
  (m.occurrences s).find? fun o => x.linksTo s o.cursor.node o.event

variable {m : MatchSets ε} {s : StreamIndex} {x : MatchNode ε}

/-- Of the occurrences of a stream, a match node links to one at most. -/
lemma linked?_eq_some_iff {o : Occurrence ε} : m.linked? s x = some o ↔
    o ∈ m.occurrences s ∧ x.linksTo s o.cursor.node o.event := by
  constructor
  · intro h
    rw [linked?] at h
    have hlink := List.find?_some h
    exact ⟨List.mem_of_find?_eq_some h, hlink⟩
  · rintro ⟨ho, hlink⟩
    cases hfound : m.linked? s x with
    | none =>
      have hno := List.find?_eq_none.mp hfound o ho
      exact absurd hlink hno
    | some o' =>
      rw [linked?] at hfound
      have hlink' := List.find?_some hfound
      have ho' : o' ∈ m.occurrences s := List.mem_of_find?_eq_some hfound
      have hparent := (of_decide_eq_true hlink').symm.trans (of_decide_eq_true hlink)
      simp only [Option.some.injEq, ParentLink.mk.injEq, MatchRef.mk.injEq, true_and] at hparent
      rw [eq_of_event_eq ho' ho hparent.1 hparent.2]

end MatchSets

end JoinAssembly
