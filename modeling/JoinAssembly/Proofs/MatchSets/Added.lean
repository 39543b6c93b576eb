import JoinAssembly.Proofs.MatchSets.Asked

/-!
# Additions to match sets

The events of a stream are listed in order of insertion, each with the match node that holds it. An
addition without events, or to a stream outside the match sets, changes nothing. Any other one adds
a match node behind those of the stream, answers its address, and leaves all others where they are.
-/

namespace JoinAssembly

variable {ε : Type}

namespace MatchSets

/-! ### Events in order -/

/-- One event of a stream stands before another: in an earlier match node, or at an earlier place of
the same. -/
def Precedes (m : MatchSets ε) (x y : MatchRef × ε) : Prop :=
  x.1.index < y.1.index ∨ x.1 = y.1 ∧ ∃ node ∈ m.node? x.1, ∃ i j : Nat, i < j ∧
    node.events.toList[i]? = some x.2 ∧ node.events.toList[j]? = some y.2

variable {m : MatchSets ε} {s : StreamIndex}

lemma cursors_eq (m : MatchSets ε) (s : StreamIndex) :
    m.cursors s = (m.nodesOf s).zipIdx.flatMap fun x =>
      x.1.events.toList.map fun e => (⟨s, x.2⟩, e) := by
  rw [cursors, occurrences, List.map_flatMap]
  congr 1
  funext x
  obtain ⟨node, index⟩ := x
  have hevents := congrArg (List.map fun e => ((⟨s, index⟩ : MatchRef), e))
    (List.zipIdx_map_fst 0 node.events.toList)
  rwa [List.map_map] at hevents ⊢

lemma mem_cursors {r : MatchRef} {e : ε} : (r, e) ∈ m.cursors s ↔
    r.stream = s ∧ ∃ node ∈ m.node? r, e ∈ node.events.toList := by
  simp only [cursors_eq, List.mem_flatMap, List.mem_map, Prod.exists,
    List.mk_mem_zipIdx_iff_getElem?, Prod.mk.injEq, node?, Option.mem_def]
  constructor
  · rintro ⟨node, index, hnode, e, he, rfl, rfl⟩
    exact ⟨rfl, node, hnode, he⟩
  · rintro ⟨rfl, node, hnode, he⟩
    exact ⟨node, r.index, hnode, e, he, rfl, rfl⟩

lemma pairwise_cursors (m : MatchSets ε) (s : StreamIndex) :
    (m.cursors s).Pairwise m.Precedes := by
  rw [cursors, List.pairwise_map]
  refine (m.pairwise_occurrences s).imp_of_mem fun {o o'} ho ho' hlt => ?_
  obtain ⟨hnode, hevent⟩ := mem_occurrences.mp ho
  obtain ⟨hnode', hevent'⟩ := mem_occurrences.mp ho'
  rcases hlt with hlt | ⟨heq, hlt⟩
  · exact .inl hlt
  · rw [← heq, hnode] at hnode'
    rw [← Option.some.inj hnode'] at hevent'
    exact .inr ⟨congrArg (MatchRef.mk s) heq, o.node, hnode, _, _, hlt, hevent, hevent'⟩

lemma nodup_listed (m : MatchSets ε) (s : StreamIndex) : (m.cursors s).Nodup :=
  (m.nodup_links s).of_map _

/-- Counting the events of a stream is counting what is listed. -/
lemma countEvents_eq (m : MatchSets ε) (s : StreamIndex) :
    m.countEvents s = (m.cursors s).length := by
  have hsum : ∀ (nodes : List (MatchNode ε)) (count start : Nat),
      nodes.foldl (fun count node => count + node.events.size) count
        = count + ((nodes.zipIdx start).flatMap fun x =>
            x.1.events.toList.map fun e => ((⟨s, x.2⟩, e) : MatchRef × ε)).length := by
    intro nodes
    induction nodes with
    | nil => intro count start; rfl
    | cons node rest ih =>
      intro count start
      rw [List.foldl_cons, ih _ (start + 1), List.zipIdx_cons, List.flatMap_cons,
        List.length_append, List.length_map, DistinctList.size, Nat.add_assoc]
  rw [countEvents, cursors_eq, hsum _ 0 0, Nat.zero_add]

/-- Every match node stands under its own stream and holds events. -/
structure Tidy (m : MatchSets ε) : Prop where
  stream_eq : ∀ {s node}, node ∈ m.nodesOf s → node.stream = s
  events_ne_nil : ∀ {s node}, node ∈ m.nodesOf s → node.events.toList ≠ []

variable [DecidableEq ε]

/-- An event that is listed is found at its place in the match node that it is listed with. -/
lemma locate_of_mem_cursors {r : MatchRef} {e : ε} (h : (r, e) ∈ m.cursors s) :
    ∃ node position, m.node? r = some node ∧ node.events.toList[position]? = some e ∧
      m.locate s r e = .ok (node, position) := by
  obtain ⟨o, ho, heq⟩ := List.mem_map.mp h
  obtain ⟨rfl, rfl⟩ := Prod.mk.inj heq
  obtain ⟨hnode, hevent⟩ := mem_occurrences.mp ho
  refine ⟨o.node, o.cursor.position, hnode, hevent, ?_⟩
  rw [locate, if_neg (not_not_intro rfl), hnode]
  simp only [DistinctList.indexOf?_eq_some_iff.mpr hevent]

/-! ### One addition -/

/-- Events to be added to a stream, with what they were matched against; events of the root stream
were matched against nothing. -/
structure Addition (ε : Type) where
  stream : StreamIndex
  link : Option (ParentLink ε)
  events : List ε

/-- Add events of the root stream, or events that matched one of the parent stream. -/
def add (m : MatchSets ε) (a : Addition ε) : Option MatchRef × MatchSets ε :=
  match a.link with
  | none => m.pushRoot a.stream a.events
  | some link => m.pushMatch a.stream link.place link.event a.events

/-- The match node that is recorded for an addition. -/
def Addition.node (a : Addition ε) : MatchNode ε := ⟨a.stream, a.link, .ofList a.events⟩

/-- Nothing is added without events, or to a stream outside the match sets. -/
def Addition.Refused (a : Addition ε) (m : MatchSets ε) : Prop :=
  a.events = [] ∨ m.width ≤ a.stream

lemma add_eq_push (m : MatchSets ε) (a : Addition ε) :
    m.add a = m.push a.stream a.link a.events := by
  obtain ⟨s, link, events⟩ := a
  cases link <;> rfl

lemma add_of_refused {a : Addition ε} (h : a.Refused m) : m.add a = (none, m) := by
  rw [add_eq_push, push]
  cases hstream : m.streams[a.stream]? with
  | none => rfl
  | some nodes =>
    rcases h with hevents | hwidth
    · rw [hevents]
      rfl
    · rw [List.getElem?_eq_none hwidth] at hstream
      cases hstream

/-- The match node is added behind those that the stream has, and its address is answered. -/
lemma add_of_not_refused {a : Addition ε} (h : ¬ a.Refused m) :
    (m.add a).1 = some ⟨a.stream, (m.nodesOf a.stream).length⟩ ∧
      ∀ s, (m.add a).2.nodesOf s
        = if s = a.stream then m.nodesOf s ++ [a.node] else m.nodesOf s := by
  obtain ⟨hevents, hwidth⟩ := not_or.mp h
  rw [Nat.not_le] at hwidth
  obtain ⟨e, rest, hcons⟩ := List.exists_cons_of_ne_nil hevents
  rw [add_eq_push]
  constructor
  · rw [width] at hwidth
    simp [push, nodesOf, hwidth, hevents]
  · intro s
    rw [nodesOf_push m hwidth, hcons, recorded, Addition.node, hcons]
    split
    · rename_i hs
      rw [hs]
    · rfl

lemma node?_add {a : Addition ε} {r : MatchRef} (h : (m.add a).1 = some r) :
    r.stream = a.stream ∧ m.node? r = none ∧ (m.add a).2.node? r = some a.node := by
  by_cases hrefused : a.Refused m
  · rw [add_of_refused hrefused] at h
    cases h
  · obtain ⟨hanswer, hnodes⟩ := add_of_not_refused hrefused
    cases hanswer.symm.trans h
    refine ⟨rfl, List.getElem?_eq_none (Nat.le_refl _), ?_⟩
    rw [node?, hnodes, if_pos rfl]
    exact List.getElem?_concat_length

/-- What is added is listed last among the events of its stream. -/
lemma cursors_add {a : Addition ε} {r : MatchRef} (h : (m.add a).1 = some r) (s : StreamIndex) :
    (m.add a).2.cursors s
      = m.cursors s ++ if s = a.stream then a.events.eraseDups.map (r, ·) else [] := by
  by_cases hrefused : a.Refused m
  · rw [add_of_refused hrefused] at h
    cases h
  · obtain ⟨hanswer, hnodes⟩ := add_of_not_refused hrefused
    cases hanswer.symm.trans h
    by_cases hs : s = a.stream
    · rw [cursors_eq, cursors_eq, hnodes, if_pos hs, if_pos hs, List.zipIdx_append,
        List.flatMap_append, hs]
      simp [Addition.node, DistinctList.toList_ofList]
    · rw [cursors_congr ((hnodes s).trans (if_neg hs)), if_neg hs, List.append_nil]

/-- An addition leaves every match node where it is. -/
lemma node?_add_of_some {r : MatchRef} {node : MatchNode ε} (h : m.node? r = some node)
    (a : Addition ε) : (m.add a).2.node? r = some node := by
  by_cases hrefused : a.Refused m
  · rw [add_of_refused hrefused]
    exact h
  · have hwidth : a.stream < m.width := Nat.lt_of_not_le (not_or.mp hrefused).2
    rw [add_eq_push]
    exact node?_push hwidth h _ _

/-! ### Tidy match sets -/

namespace Tidy

omit [DecidableEq ε] in
lemma empty (width : Nat) : (MatchSets.empty width : MatchSets ε).Tidy where
  stream_eq h := by simp at h
  events_ne_nil h := by simp at h

lemma add (h : m.Tidy) (a : Addition ε) : (m.add a).2.Tidy := by
  by_cases hrefused : a.Refused m
  · rw [add_of_refused hrefused]
    exact h
  · obtain ⟨-, hnodes⟩ := add_of_not_refused hrefused
    have hcases : ∀ {s node}, node ∈ (m.add a).2.nodesOf s →
        node ∈ m.nodesOf s ∨ s = a.stream ∧ node = a.node := by
      intro s node hnode
      rw [hnodes] at hnode
      split at hnode
      · rename_i hs
        exact (List.mem_append.mp hnode).imp_right fun hnew => ⟨hs, List.mem_singleton.mp hnew⟩
      · exact .inl hnode
    constructor
    · intro s node hnode
      rcases hcases hnode with hold | ⟨rfl, rfl⟩
      · exact h.stream_eq hold
      · rfl
    · intro s node hnode
      rcases hcases hnode with hold | ⟨-, rfl⟩
      · exact h.events_ne_nil hold
      · obtain ⟨e, he⟩ := List.exists_mem_of_ne_nil _ (not_or.mp hrefused).1
        exact List.ne_nil_of_mem (DistinctList.mem_ofList.mpr he)

lemma pushRoot (h : m.Tidy) (s : StreamIndex) (events : List ε) : (m.pushRoot s events).2.Tidy :=
  h.add ⟨s, none, events⟩

lemma ofRoot (width : Nat) (root : StreamIndex) (events : List ε) :
    (MatchSets.ofRoot width root events).Tidy :=
  (empty width).pushRoot root events

lemma pushMatch (h : m.Tidy) (s : StreamIndex) (place : MatchRef) (event : ε) (events : List ε) :
    (m.pushMatch s place event events).2.Tidy :=
  h.add ⟨s, some ⟨place, event⟩, events⟩

variable {σ : Type}

lemma fillFrom (lookup : Lookup ε σ) (s p : StreamIndex) (events : List (MatchRef × ε)) :
    ∀ {m : MatchSets ε} (state : σ), m.Tidy →
      (MatchSets.fillFrom lookup s p m state events).1.Tidy := by
  induction events with
  | nil => intro m state h; exact h
  | cons x rest ih => intro m state h; exact ih _ (h.pushMatch s x.1 x.2 _)

lemma foldl_fillStream (t : JoinTree) (lookup : Lookup ε σ) (streams : List StreamIndex) :
    ∀ {filled : MatchSets ε × σ}, filled.1.Tidy →
      (streams.foldl (fillStream t lookup) filled).1.Tidy := by
  induction streams with
  | nil => intro filled h; exact h
  | cons s rest ih =>
    intro filled h
    apply ih
    rw [fillStream]
    split
    · exact h
    · exact fillFrom lookup s _ _ _ h

/-- Filled match sets are tidy whatever the tree and the lookup are. -/
lemma fillWith (m : MatchSets ε) (t : JoinTree) (rootEvents : List ε) (lookup : Lookup ε σ)
    (state : σ) : (m.fillWith t rootEvents lookup state).1.Tidy := by
  rw [MatchSets.fillWith, resize_clear]
  exact foldl_fillStream t lookup _ ((empty t.size).pushRoot _ _)

end Tidy

end MatchSets

end JoinAssembly
