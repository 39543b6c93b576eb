import JoinAssembly.Proofs.Join.Nested

/-!
# Rows without repetition

An event may be found in many match nodes, under many parents. As long as no event is found twice
for one and the same parent event, no two rows of the outer join are the same: rows of different
events differ at the slot of the event, and rows of one event differ in what was combined with it.
-/

namespace JoinAssembly

variable {ε : Type}

/-- No event is in two match nodes of the root, nor in two match nodes of another stream that link
to the same event. -/
structure JoinTree.Apart (t : JoinTree) (m : MatchSets ε) : Prop where
  root : (m.nodesOf t.root).Pairwise fun x y => ∀ e ∈ x.events.toList, e ∉ y.events.toList
  linked : ∀ s < t.size, s ≠ t.root → (m.nodesOf s).Pairwise fun x y =>
    (∃ link ∈ x.parent, link ∈ y.parent) → ∀ e ∈ x.events.toList, e ∉ y.events.toList

variable [DecidableEq ε] {t : JoinTree} {m : MatchSets ε}

/-- The occurrences of a stream that were found for an event of another stream. -/
def MatchSets.foundAt (m : MatchSets ε) (c s : StreamIndex) (index : Nat) (e : ε) :
    List (Occurrence ε) :=
  (m.occurrences c).filter fun o => o.node.linksTo s index e

lemma MatchSets.mem_foundAt {c s : StreamIndex} {index : Nat} {e : ε} {o : Occurrence ε} :
    o ∈ m.foundAt c s index e ↔ o ∈ m.occurrences c ∧ o.node.parent = some ⟨⟨s, index⟩, e⟩ := by
  simp [foundAt, MatchNode.linksTo]

namespace JoinTree.Apart

omit [DecidableEq ε] in
lemma nodup_rootEvents (h : t.Apart m) : ((m.occurrences t.root).map (·.event)).Nodup := by
  have hevents := MatchSets.pairwise_event_ne (m := m) (Q := fun _ _ => True)
    (h.root.imp fun hxy _ => hxy)
  rw [List.Nodup, List.pairwise_map]
  exact hevents.imp fun hne => hne trivial

/-- No event is found twice for one parent event. -/
lemma nodup_foundEvents (h : t.Apart m) {c : StreamIndex} (hc : c < t.size) (hroot : c ≠ t.root)
    (s : StreamIndex) (index : Nat) (e : ε) :
    ((m.foundAt c s index e).map (·.event)).Nodup := by
  have hevents := MatchSets.pairwise_event_ne (m := m)
    (Q := fun x y => ∃ link ∈ x.parent, link ∈ y.parent) (h.linked c hc hroot)
  rw [List.Nodup, List.pairwise_map]
  refine (hevents.filter _).imp_of_mem fun {o o'} ho ho' hne => hne ?_
  exact ⟨_, (MatchSets.mem_foundAt.mp ho).2, (MatchSets.mem_foundAt.mp ho').2⟩

end JoinTree.Apart

namespace JoinTree.Sound

/-! ### The slots of joined rows -/

/-- The rows of an event hold events of the streams below its stream only. -/
lemma over_joinRows (h : t.Sound) (s : StreamIndex) :
    s < t.size → ∀ (index : Nat) (e : ε), ∀ row ∈ t.joinRows m s index e,
      row.Over t.size (t.below s) := by
  induction s using h.child_induction with
  | step s ih =>
    intro hs index e
    rw [h.joinRows_eq, h.below_eq]
    apply Row.over_combineAll (S := [s])
    · intro c hc row hrow
      obtain ⟨o, -, hrow⟩ := List.mem_flatMap.mp hrow
      exact ih c hc (h.lt_of_mem_childrenOf hc) _ _ row hrow
    · intro row hrow
      exact List.mem_singleton.mp hrow ▸ Row.Over.single hs e

/-- The rows found at a child hold events of the streams below it only. -/
lemma over_foundFor (h : t.Sound) {c s : StreamIndex} (hc : c ∈ t.childrenOf s) {index : Nat}
    {e : ε} : ∀ row ∈ t.foundFor m c s index e, row.Over t.size (t.below c) := by
  intro row hrow
  obtain ⟨o, -, hrow⟩ := List.mem_flatMap.mp hrow
  exact h.over_joinRows c (h.lt_of_mem_childrenOf hc) _ _ row hrow

/-- The rows of an event hold it. -/
lemma get?_joinRows (h : t.Sound) {s : StreamIndex} (hs : s < t.size) (index : Nat) (e : ε) :
    ∀ row ∈ t.joinRows m s index e, row.get? s = some e := by
  have hboth : ∀ row ∈ t.joinRows m s index e, row.width = t.size ∧ row.get? s = some e := by
    rw [h.joinRows_eq]
    apply Row.forall_combineAll
    · intro row hrow
      rw [List.mem_singleton.mp hrow, Row.get?_single hs]
      simp
    · rintro c hc found hfound row ⟨hwidth, hget⟩
      have hover := h.over_foundFor hc found hfound
      have heq : row.width = found.width := hwidth.trans hover.width_eq.symm
      rw [Row.width_overlay heq, Row.get?_overlay heq, hget]
      exact ⟨hwidth, rfl⟩
  exact fun row hrow => (hboth row hrow).2

/-- An entry of a stream holds the event that it is for. -/
lemma get?_of_mem_entries (h : t.Sound) {s : StreamIndex} (hs : s < t.size) {y : Entry ε}
    (hy : y ∈ t.entries m s) : y.row.get? s = some y.source.event := by
  have hmem : y.row ∈ Entry.rowsFor (t.entries m s) y.source :=
    List.mem_map.mpr ⟨y, List.mem_filter.mpr ⟨hy, by simp⟩, rfl⟩
  have hperm := h.rowsFor_perm_joinRows s hs _ (h.source_mem hy)
  exact h.get?_joinRows hs _ _ y.row (hperm.mem_iff.mp hmem)

/-! ### Different events, different rows -/

/-- Occurrences of different events have different rows. -/
lemma nodup_flatMap_joinRows (h : t.Sound) {s : StreamIndex} (hs : s < t.size)
    {os : List (Occurrence ε)} (hos : (os.map (·.event)).Nodup)
    (hrows : ∀ o ∈ os, (t.joinRows m s o.cursor.node o.event).Nodup) :
    (os.flatMap fun o => t.joinRows m s o.cursor.node o.event).Nodup := by
  rw [List.Nodup, List.pairwise_map] at hos
  refine List.nodup_flatMap.mpr ⟨hrows, hos.imp fun {o o'} hne row hrow hrow' => hne ?_⟩
  have hget := h.get?_joinRows hs _ _ row hrow
  have hget' := h.get?_joinRows hs _ _ row hrow'
  exact Option.some.inj (hget.symm.trans hget')

/-- No two rows of an event are the same. -/
lemma nodup_joinRows (h : t.Sound) (hapart : t.Apart m) (s : StreamIndex) :
    s < t.size → ∀ (index : Nat) (e : ε), (t.joinRows m s index e).Nodup := by
  induction s using h.child_induction with
  | step s ih =>
    intro hs index e
    have hstreams := h.nodup_below s
    rw [h.below_eq] at hstreams
    rw [h.joinRows_eq]
    apply Row.nodup_combineAll (S := [s]) (T := t.below) (w := t.size) (t.childrenOf s) hstreams
    · exact List.nodup_singleton _
    · intro row hrow
      exact List.mem_singleton.mp hrow ▸ Row.Over.single hs e
    · intro c hc
      have hlt := h.lt_of_mem_childrenOf hc
      have hroot := h.ne_root_of_parent (h.parent_of_mem_childrenOf hc)
      exact h.nodup_flatMap_joinRows hlt (hapart.nodup_foundEvents hlt hroot s index e)
        fun o _ => ih c hc hlt _ _
    · exact fun c hc => h.over_foundFor hc

/-- No two rows of the outer join are the same. -/
lemma nodup_outerJoin (h : t.Sound) (hapart : t.Apart m) : (t.outerJoin m).Nodup :=
  h.nodup_flatMap_joinRows h.root_lt hapart.nodup_rootEvents
    fun _ _ => h.nodup_joinRows hapart t.root h.root_lt _ _

end JoinTree.Sound

end JoinAssembly
