import JoinAssembly.Proofs.Join.Distinct
import JoinAssembly.Proofs.MatchSets.Filled
import Mathlib.Data.List.Dedup

/-!
# The outer join by lookups

Where a lookup always answers alike, the rows of an outer join follow from it without match sets: an
event is combined with what is looked up for it, each event found counted once. In match sets filled
by the lookup an event may stand many times, but once at most for each parent event, and so the join
over them has the same rows.
-/

namespace JoinAssembly

variable {ε : Type} [DecidableEq ε]

namespace JoinShape

mutual
/-- The rows of an event of the top stream of a shape, by a lookup. -/
def lookupRows (lookup : StreamIndex → StreamIndex → ε → List ε) (w : Nat) :
    JoinShape → ε → List (Row ε)
  | .node s _ children, e => Row.combineAll (lookupBelow lookup w s e children) [.single w s e]

/-- For each branch, the rows of the different events that are looked up for an event. -/
def lookupBelow (lookup : StreamIndex → StreamIndex → ε → List ε) (w : Nat) (s : StreamIndex)
    (e : ε) : List JoinShape → List (Bool × List (Row ε))
  | [] => []
  | c :: rest =>
    (c.optional, (lookup c.stream s e).dedup.flatMap fun x => lookupRows lookup w c x)
      :: lookupBelow lookup w s e rest
end

lemma lookupBelow_eq (lookup : StreamIndex → StreamIndex → ε → List ε) (w : Nat)
    (s : StreamIndex) (e : ε) (shapes : List JoinShape) :
    lookupBelow lookup w s e shapes = shapes.map fun c =>
      (c.optional, (lookup c.stream s e).dedup.flatMap fun x => lookupRows lookup w c x) := by
  induction shapes with
  | nil => rfl
  | cons c rest ih => rw [lookupBelow, ih, List.map_cons]

end JoinShape

namespace JoinTree

variable {t : JoinTree} (lookup : StreamIndex → StreamIndex → ε → List ε)

/-- The rows of an event of a stream: the event alone, combined for each child of the stream with
the rows of the different events that are looked up for it. -/
def lookupRows (t : JoinTree) (s : StreamIndex) (e : ε) : List (Row ε) :=
  (t.shapeOf s).lookupRows lookup t.size e

/-- The rows of the different events of the root. -/
def lookupJoin (t : JoinTree) (rootEvents : List ε) : List (Row ε) :=
  rootEvents.dedup.flatMap (t.lookupRows lookup t.root)

lemma Sound.lookupRows_eq (h : t.Sound) (s : StreamIndex) (e : ε) :
    t.lookupRows lookup s e = Row.combineAll
      ((t.childrenOf s).map fun c =>
        (t.isOptional c, (lookup c s e).dedup.flatMap (t.lookupRows lookup c)))
      [.single t.size s e] := by
  rw [lookupRows, h.shapeOf_eq, JoinShape.lookupRows, JoinShape.lookupBelow_eq, List.map_map]
  congr 1
  apply List.map_congr_left
  intro c _
  simp only [Function.comp_def, h.optional_shapeOf, h.stream_shapeOf]
  rfl

end JoinTree

/-! ### What a filling leaves -/

namespace JoinTree.Sound

variable {t : JoinTree}

/-- However the lookup answers, a filling finds no event twice for one parent event. -/
lemma apart_fillWith {σ : Type} (h : t.Sound) (m : MatchSets ε) (rootEvents : List ε)
    (lookup : Lookup ε σ) (state : σ) : t.Apart (m.fillWith t rootEvents lookup state).1 where
  root := by
    rw [(MatchSets.filled_fillWith h m rootEvents lookup state).1]
    exact pairwise_recorded _ _ _
  linked s hs hroot := by
    obtain ⟨p, hp⟩ := h.exists_parent hs hroot
    obtain ⟨before, hnodes⟩ := MatchSets.nodesOf_fillWith h m rootEvents lookup state hp
    have hlinks := MatchSets.nodup_links (m.fillWith t rootEvents lookup state).1 p
    rw [← map_link_findings lookup s p _ before, List.Nodup, List.pairwise_map] at hlinks
    rw [hnodes, recordedAll, List.pairwise_flatMap]
    refine ⟨fun x _ => pairwise_recorded _ _ _, hlinks.imp fun {x y} hne a ha b hb hab => ?_⟩
    -- Match nodes for different findings have different links.
    obtain ⟨-, rfl⟩ := mem_recorded.mp ha
    obtain ⟨-, rfl⟩ := mem_recorded.mp hb
    obtain ⟨link, hx, hy⟩ := hab
    exact absurd ((Option.some.inj hx).trans (Option.some.inj hy).symm) hne

variable (m : MatchSets ε) (rootEvents : List ε)
  (lookup : StreamIndex → StreamIndex → ε → List ε)

lemma apart_fill (h : t.Sound) : t.Apart (m.fill t rootEvents lookup) :=
  h.apart_fillWith m rootEvents (.steady lookup) ()

/-- The match nodes of a stream are those for the events of the parent stream for which something
is looked up. -/
lemma mem_nodesOf_fill (h : t.Sound) {s p : StreamIndex} (hp : t.parent? s = some p)
    {node : MatchNode ε} :
    node ∈ (m.fill t rootEvents lookup).nodesOf s ↔
      ∃ o ∈ (m.fill t rootEvents lookup).occurrences p, lookup s p o.event ≠ [] ∧
        node = ⟨s, some ⟨⟨p, o.cursor.node⟩, o.event⟩, .ofList (lookup s p o.event)⟩ := by
  obtain ⟨before, hnodes⟩ := MatchSets.nodesOf_fillWith h m rootEvents (.steady lookup) () hp
  rw [MatchSets.fill_eq, hnodes, mem_recordedAll, findings_steady, MatchSets.cursors]
  simp

/-- What is found for an event are the events that are looked up for it. -/
lemma foundEvents_fill (h : t.Sound) {c s : StreamIndex} (hp : t.parent? c = some s)
    {o : Occurrence ε} (ho : o ∈ (m.fill t rootEvents lookup).occurrences s) :
    (((m.fill t rootEvents lookup).foundAt c s o.cursor.node o.event).map (·.event)).Perm
      (lookup c s o.event).dedup := by
  have hnodup := (h.apart_fill m rootEvents lookup).nodup_foundEvents (lt_size_of_parent hp)
    (h.ne_root_of_parent hp) s o.cursor.node o.event
  apply (List.perm_ext_iff_of_nodup hnodup (List.nodup_dedup _)).mpr
  intro x
  rw [List.mem_dedup, List.mem_map]
  constructor
  · rintro ⟨o', ho', rfl⟩
    obtain ⟨ho', hlink⟩ := MatchSets.mem_foundAt.mp ho'
    obtain ⟨hnode, hevent⟩ := MatchSets.exists_occurrence_iff.mp ⟨o', ho', rfl, rfl⟩
    obtain ⟨o'', -, -, heq⟩ := (h.mem_nodesOf_fill m rootEvents lookup hp).mp hnode
    rw [heq] at hlink hevent
    simp only [Option.some.injEq, ParentLink.mk.injEq] at hlink
    rw [hlink.2] at hevent
    exact DistinctList.mem_ofList.mp hevent
  · intro hx
    have hnode := (h.mem_nodesOf_fill m rootEvents lookup hp).mpr
      ⟨o, ho, List.ne_nil_of_mem hx, rfl⟩
    obtain ⟨o', ho', heq, hevent⟩ :=
      MatchSets.exists_occurrence_iff.mpr ⟨hnode, DistinctList.mem_ofList.mpr hx⟩
    exact ⟨o', MatchSets.mem_foundAt.mpr ⟨ho', by rw [heq]⟩, hevent⟩

/-- What the root holds are the root events. -/
lemma rootEvents_fill (h : t.Sound) :
    (((m.fill t rootEvents lookup).occurrences t.root).map (·.event)).Perm rootEvents.dedup := by
  have hnodup := (h.apart_fill m rootEvents lookup).nodup_rootEvents
  apply (List.perm_ext_iff_of_nodup hnodup (List.nodup_dedup _)).mpr
  intro x
  have hroot : (m.fill t rootEvents lookup).nodesOf t.root = recorded t.root none rootEvents :=
    (MatchSets.filled_fillWith h m rootEvents (.steady lookup) ()).1
  rw [List.mem_dedup, List.mem_map]
  constructor
  · rintro ⟨o, ho, rfl⟩
    obtain ⟨hnode, hevent⟩ := MatchSets.exists_occurrence_iff.mp ⟨o, ho, rfl, rfl⟩
    rw [hroot] at hnode
    obtain ⟨-, heq⟩ := mem_recorded.mp hnode
    rw [heq] at hevent
    exact DistinctList.mem_ofList.mp hevent
  · intro hx
    have hnode : ⟨t.root, none, .ofList rootEvents⟩ ∈ (m.fill t rootEvents lookup).nodesOf t.root := by
      rw [hroot]
      exact mem_recorded.mpr ⟨List.ne_nil_of_mem hx, rfl⟩
    obtain ⟨o, ho, -, hevent⟩ :=
      MatchSets.exists_occurrence_iff.mpr ⟨hnode, DistinctList.mem_ofList.mpr hx⟩
    exact ⟨o, ho, hevent⟩

/-! ### Both joins have the same rows -/

omit [DecidableEq ε] in
/-- Rows by occurrences are rows by events, if the occurrences are of these events. -/
lemma flatMap_perm_of_events {os : List (Occurrence ε)} {es : List ε}
    {f : Occurrence ε → List (Row ε)} {g : ε → List (Row ε)}
    (hevents : (os.map (·.event)).Perm es) (hfg : ∀ o ∈ os, (f o).Perm (g o.event)) :
    (os.flatMap f).Perm (es.flatMap g) := by
  have hrows := hevents.flatMap_right g
  rw [List.flatMap_map] at hrows
  exact (List.Perm.flatMap_left os hfg).trans hrows

/-- Over match sets filled by a lookup, an event has the rows that the lookup gives it, in whatever
match node it occurs. -/
lemma joinRows_fill_perm (h : t.Sound) (s : StreamIndex) :
    ∀ o ∈ (m.fill t rootEvents lookup).occurrences s,
      (t.joinRows (m.fill t rootEvents lookup) s o.cursor.node o.event).Perm
        (t.lookupRows lookup s o.event) := by
  induction s using h.child_induction with
  | step s ih =>
    intro o ho
    rw [h.joinRows_eq, h.lookupRows_eq]
    apply Row.combineAll_perm (t.childrenOf s) _ (.refl _)
    intro c hc
    apply flatMap_perm_of_events
      (h.foundEvents_fill m rootEvents lookup (h.parent_of_mem_childrenOf hc) ho)
    intro x hx
    exact ih c hc x (List.mem_filter.mp hx).1

/-- The outer join over match sets filled by a lookup is the outer join by the lookup. -/
lemma outerJoin_fill_perm (h : t.Sound) :
    (t.outerJoin (m.fill t rootEvents lookup)).Perm (t.lookupJoin lookup rootEvents) :=
  flatMap_perm_of_events (h.rootEvents_fill m rootEvents lookup)
    (h.joinRows_fill_perm m rootEvents lookup t.root)

end JoinTree.Sound

end JoinAssembly
