import JoinAssembly.Proofs.Join.Distinct
import JoinAssembly.Proofs.JoinNode.Reordered
import JoinAssembly.Proofs.JoinTree.Renumbered

/-!
# Joins under other numbers

Streams and match nodes are told apart by numbers, and the events of a match node stand in some
order. A join looks at neither: if all are renumbered, with parents and links following, its rows
are the same up to order, with their slots in other places.
-/

namespace JoinAssembly

variable {ε : Type}

/-- New numbers for the streams of a join and for the match nodes of each stream. -/
structure Renumbering where
  stream : Equiv.Perm StreamIndex
  /-- The new number of a match node, given the old number of its stream. -/
  node : StreamIndex → Equiv.Perm Nat

namespace Renumbering

/-- The new address of a match node. -/
def place (r : Renumbering) (p : MatchRef) : MatchRef := ⟨r.stream p.stream, r.node p.stream p.index⟩

/-- A link to an event under the new address of its match node. -/
def link (r : Renumbering) (l : ParentLink ε) : ParentLink ε := ⟨r.place l.place, l.event⟩

lemma place_injective (r : Renumbering) : Function.Injective r.place := by
  rintro ⟨s, i⟩ ⟨s', i'⟩ h
  simp only [place, MatchRef.mk.injEq] at h
  obtain ⟨hs, hi⟩ := h
  obtain rfl := r.stream.injective hs
  rw [(r.node s).injective hi]

lemma link_injective (r : Renumbering) : Function.Injective (r.link (ε := ε)) := by
  rintro ⟨p, e⟩ ⟨p', e'⟩ h
  simp only [link, ParentLink.mk.injEq] at h
  rw [r.place_injective h.1, h.2]

end Renumbering

/-! ### Rows -/

namespace Row

variable {σ : Equiv.Perm StreamIndex} {r other : Row ε}

/-- The slots of a row in the places of their streams' new numbers. -/
def renumber (σ : Equiv.Perm StreamIndex) (r : Row ε) : Row ε :=
  ⟨(List.range r.width).map fun s => r.get? (σ.symm s)⟩

@[simp] lemma width_renumber : (r.renumber σ).width = r.width := by
  simp [renumber, width]

lemma get?_renumber (s : StreamIndex) :
    (r.renumber σ).get? s = if s < r.width then r.get? (σ.symm s) else none := by
  by_cases hs : s < r.width
  · simp [get?, renumber, hs]
  · simp [get?, renumber, hs]

lemma renumber_overlay (h : r.width = other.width) :
    (r.overlay other).renumber σ = (r.renumber σ).overlay (other.renumber σ) := by
  have h' : (r.renumber σ).width = (other.renumber σ).width := by simpa using h
  apply ext_get?
  · rw [width_renumber, width_overlay h, width_overlay h', width_renumber]
  · intro s
    simp only [get?_overlay h', get?_renumber, width_overlay h, get?_overlay h, ← h]
    split <;> rfl

lemma renumber_single {w : Nat} {s : StreamIndex} (hs : s < w) (hσ : σ s < w) (e : ε) :
    (single w s e).renumber σ = single w (σ s) e := by
  apply ext_get? (by simp)
  intro x
  rw [get?_renumber, get?_single hs, get?_single hσ, width_single]
  by_cases hx : x = σ s
  · simp [hx, hσ]
  · have hx' : ¬ σ.symm x = s := fun h => hx (σ.symm_apply_eq.mp h)
    simp [hx, hx']

lemma map_renumber_combineAll {α : Type} {optional : α → Bool} {f : α → List (Row ε)} {w : Nat}
    (l : List α) {rows : List (Row ε)} (hrows : ∀ row ∈ rows, row.width = w)
    (hf : ∀ a ∈ l, ∀ row ∈ f a, row.width = w) :
    (combineAll (l.map fun a => (optional a, f a)) rows).map (·.renumber σ)
      = combineAll (l.map fun a => (optional a, (f a).map (·.renumber σ)))
        (rows.map (·.renumber σ)) := by
  rw [map_combineAll (P := fun row => row.width = w) _ hrows, List.map_map]
  · rfl
  · intro child hchild x hx row hrow
    obtain ⟨a, ha, rfl⟩ := List.mem_map.mp hchild
    have heq : row.width = x.width := hrow.trans (hf a ha x hx).symm
    exact ⟨(width_overlay heq).trans hrow, renumber_overlay heq⟩

end Row

/-! ### Match sets -/

/-- A match node under new numbers: its link follows, and its events are in any order. -/
structure MatchNode.Renumbered (r : Renumbering) (x x' : MatchNode ε) : Prop where
  stream_eq : x'.stream = r.stream x.stream
  parent_eq : x'.parent = x.parent.map r.link
  events_perm : x'.events.toList.Perm x.events.toList

/-- Match sets with new numbers for streams and match nodes. -/
structure MatchSets.Renumbered (r : Renumbering) (m m' : MatchSets ε) : Prop where
  width_eq : m'.width = m.width
  stream_lt : ∀ s < m.width, r.stream s < m.width
  length_eq : ∀ s < m.width, (m'.nodesOf (r.stream s)).length = (m.nodesOf s).length
  exists_node : ∀ {p x}, m.node? p = some x → ∃ x', m'.node? (r.place p) = some x' ∧
    x.Renumbered r x'

namespace MatchSets.Renumbered

variable {r : Renumbering} {m m' : MatchSets ε} {s : StreamIndex}

/-- Every match node is one of the old ones under its new number. -/
lemma exists_old (hm : m.Renumbered r m') (hs : s < m.width) {j : Nat} {x' : MatchNode ε}
    (hx' : m'.node? ⟨r.stream s, j⟩ = some x') :
    ∃ i x, r.node s i = j ∧ m.node? ⟨s, i⟩ = some x ∧ x.Renumbered r x' := by
  have hnode : ∀ i < (m.nodesOf s).length, ∃ x x', m.node? ⟨s, i⟩ = some x ∧
      m'.node? ⟨r.stream s, r.node s i⟩ = some x' ∧ x.Renumbered r x' := by
    intro i hi
    have hx : m.node? ⟨s, i⟩ = some (m.nodesOf s)[i] := List.getElem?_eq_getElem hi
    obtain ⟨x', hx', hren⟩ := hm.exists_node hx
    exact ⟨_, x', hx, hx', hren⟩
  have hlt : ∀ i < (m.nodesOf s).length, r.node s i < (m.nodesOf s).length := by
    intro i hi
    obtain ⟨_, x', -, hx', -⟩ := hnode i hi
    exact hm.length_eq s hs ▸ (List.getElem?_eq_some_iff.mp hx').1
  have hj : j < (m.nodesOf s).length :=
    hm.length_eq s hs ▸ (List.getElem?_eq_some_iff.mp hx').1
  obtain ⟨i, hi, rfl⟩ := exists_lt_of_injective (r.node s).injective hlt hj
  obtain ⟨x, y, hx, hy, hren⟩ := hnode i hi
  cases hx'.symm.trans hy
  exact ⟨i, x, rfl, hx, hren⟩

/-- What a join looks at in the occurrences of a stream is there under new numbers. -/
lemma flatMap_occurrences_perm {β : Type} (hm : m.Renumbered r m') (hs : s < m.width)
    (f : Nat → Option (ParentLink ε) → ε → List β) :
    ((m'.occurrences (r.stream s)).flatMap fun o => f o.cursor.node o.node.parent o.event).Perm
      ((m.occurrences s).flatMap fun o =>
        f (r.node s o.cursor.node) (o.node.parent.map r.link) o.event) := by
  have hkeys : ((m'.occurrences (r.stream s)).map fun o =>
        (o.cursor.node, o.node.parent, o.event)).Perm
      ((m.occurrences s).map fun o =>
        (r.node s o.cursor.node, o.node.parent.map r.link, o.event)) := by
    refine (List.perm_ext_iff_of_nodup ?_ ?_).mpr ?_
    · refine (m'.nodup_occurrences _).map_on fun o ho o' ho' h => ?_
      simp only [Prod.mk.injEq] at h
      exact eq_of_event_eq ho ho' h.1 h.2.2
    · refine (m.nodup_occurrences s).map_on fun o ho o' ho' h => ?_
      simp only [Prod.mk.injEq] at h
      exact eq_of_event_eq ho ho' ((r.node s).injective h.1) h.2.2
    · intro key
      simp only [List.mem_map]
      constructor
      · rintro ⟨o, ho, rfl⟩
        obtain ⟨hnode, hevent⟩ := mem_occurrences.mp ho
        obtain ⟨i, x, hi, hx, hren⟩ := hm.exists_old hs hnode
        have he := hren.events_perm.mem_iff.mp (List.mem_of_getElem? hevent)
        obtain ⟨position, hoccurs⟩ := exists_occurrence hx he
        exact ⟨_, hoccurs, by rw [← hi, hren.parent_eq]⟩
      · rintro ⟨o, ho, rfl⟩
        obtain ⟨hnode, hevent⟩ := mem_occurrences.mp ho
        obtain ⟨x', hx', hren⟩ := hm.exists_node hnode
        have he := hren.events_perm.mem_iff.mpr (List.mem_of_getElem? hevent)
        obtain ⟨position, hoccurs⟩ := exists_occurrence hx' he
        exact ⟨_, hoccurs, by rw [hren.parent_eq]⟩
  have hflat := hkeys.flatMap_right fun key => f key.1 key.2.1 key.2.2
  rwa [List.flatMap_map, List.flatMap_map] at hflat

end MatchSets.Renumbered

/-! ### Joins -/

namespace JoinTree.Renumbered

variable [DecidableEq ε] {r : Renumbering} {t t' : JoinTree} {m m' : MatchSets ε}

/-- The rows found for an event at a child, if the events of the child have their rows. -/
lemma foundFor_perm (hm : m.Renumbered r m') {c s : StreamIndex} (hc : c < m.width) {index : Nat}
    {e : ε} (hrows : ∀ o ∈ m.occurrences c,
      (t'.joinRows m' (r.stream c) (r.node c o.cursor.node) o.event).Perm
        ((t.joinRows m c o.cursor.node o.event).map (·.renumber r.stream))) :
    (t'.foundFor m' (r.stream c) (r.stream s) (r.node s index) e).Perm
      ((t.foundFor m c s index e).map (·.renumber r.stream)) := by
  have hperm := hm.flatMap_occurrences_perm hc fun node parent event =>
    if decide (parent = some (r.link ⟨⟨s, index⟩, e⟩))
    then t'.joinRows m' (r.stream c) node event else []
  rw [foundFor, foundFor, ← flatMap_ite_nil, ← flatMap_ite_nil, List.map_flatMap]
  refine hperm.trans (List.Perm.flatMap_left _ fun o ho => ?_)
  have hlink : o.node.parent.map r.link = some (r.link ⟨⟨s, index⟩, e⟩)
      ↔ o.node.parent = some ⟨⟨s, index⟩, e⟩ :=
    (Option.map_injective r.link_injective).eq_iff (b := some ⟨⟨s, index⟩, e⟩)
  by_cases hp : o.node.parent = some ⟨⟨s, index⟩, e⟩
  · simpa [MatchNode.linksTo, hlink, hp] using hrows o ho
  · simp [MatchNode.linksTo, hlink, hp]

/-- The rows of an event, with its match node and its stream under new numbers. -/
lemma joinRows_perm (ht : t.Renumbered r.stream t') (h : t.Sound) (h' : t'.Sound)
    (hm : m.Renumbered r m') (hwidth : m.width = t.size) (s : StreamIndex) :
    s < t.size → ∀ (index : Nat) (e : ε),
      (t'.joinRows m' (r.stream s) (r.node s index) e).Perm
        ((t.joinRows m s index e).map (·.renumber r.stream)) := by
  induction s using h.child_induction with
  | step s ih =>
    intro hs index e
    have hsingle : ∀ (x : StreamIndex), ∀ row ∈ [Row.single t.size x e], row.width = t.size := by
      simp
    rw [h'.joinRows_eq, h.joinRows_eq, ht.size_eq,
      Row.map_renumber_combineAll _ (hsingle s) fun c hc row hrow =>
        (h.over_foundFor hc row hrow).width_eq,
      List.map_singleton, Row.renumber_single hs (ht.stream_lt s hs)]
    -- First the children in the order of their old numbers, then child by child.
    refine (Row.combineAll_reorder (T := t'.below) (ht.childrenOf_perm h h') (hsingle _)
      (fun c hc => ht.size_eq ▸ h'.over_foundFor hc) ?_).trans ?_
    · exact h'.disjoint_below (r.stream s)
    · have hchildren : (t.childrenOf s).map ((fun c => (t'.isOptional c,
            t'.foundFor m' c (r.stream s) (r.node s index) e)) ∘ r.stream)
          = (t.childrenOf s).map fun c => (t.isOptional c,
            t'.foundFor m' (r.stream c) (r.stream s) (r.node s index) e) := by
        refine List.map_congr_left fun c hc => ?_
        rw [Function.comp_apply, ht.optional_eq c (h.lt_of_mem_childrenOf hc)]
      rw [List.map_map, hchildren]
      refine Row.combineAll_perm (t.childrenOf s) (fun c hc => ?_) (.refl _)
      have hlt := h.lt_of_mem_childrenOf hc
      exact foundFor_perm hm (hwidth ▸ hlt) fun o _ => ih c hc hlt _ _

/-- The outer join under new numbers. -/
lemma outerJoin_perm (ht : t.Renumbered r.stream t') (h : t.Sound) (h' : t'.Sound)
    (hm : m.Renumbered r m') (hwidth : m.width = t.size) :
    (t'.outerJoin m').Perm ((t.outerJoin m).map (·.renumber r.stream)) := by
  have hperm := hm.flatMap_occurrences_perm (hwidth ▸ h.root_lt) fun node _ event =>
    t'.joinRows m' (r.stream t.root) node event
  rw [outerJoin, outerJoin, ht.root_eq h h', List.map_flatMap]
  refine hperm.trans (List.Perm.flatMap_left _ fun o _ => ?_)
  exact ht.joinRows_perm h h' hm hwidth t.root h.root_lt _ _

end JoinTree.Renumbered

end JoinAssembly
