import JoinAssembly.Proofs.JoinNode.Combine
import JoinAssembly.Proofs.JoinTree.Orders

/-!
# The shape of a row

A row that belongs to a stream holds an event of the stream, and events of other streams only below
it and together with an event of their parent. A required stream is null only with its parent. Rows
keep this shape when an event is written at the parent stream, and when the rows of several children
are combined.
-/

namespace JoinAssembly

variable {ε : Type}

namespace Row

/-- A row has the shape of a stream, as far as the given streams are concerned. -/
structure ShapedOver (t : JoinTree) (s : StreamIndex) (S : List StreamIndex) (row : Row ε) :
    Prop where
  within : row.Over t.size S
  own : row.get? s ≠ none
  linked : ∀ x, x ≠ s → row.get? x ≠ none → ∃ p, t.parent? x = some p ∧ row.get? p ≠ none
  required : ∀ x ∈ S, x ≠ s → t.isOptional x = false → row.get? x = none →
    ∀ p, t.parent? x = some p → row.get? p = none

/-- A row has the shape of a stream: it holds an event of the stream, holds events of other streams
of the subtree only together with one of their parent, and is null at a required stream only if it
is at the parent. -/
def Shaped (t : JoinTree) (s : StreamIndex) (row : Row ε) : Prop :=
  row.ShapedOver t s (t.subtree s)

variable {t : JoinTree} {s c : StreamIndex} {row found : Row ε}

lemma shaped_iff_below (h : t.Sound) (hs : s < t.size) :
    row.Shaped t s ↔ row.ShapedOver t s (t.below s) := by
  rw [Shaped, h.subtree_eq_below hs]

/-! ### One child after another -/

/-- The streams of which a row for a stream may hold events when some children are combined. -/
def reach (t : JoinTree) (s : StreamIndex) (cs : List StreamIndex) : List StreamIndex :=
  s :: cs.flatMap t.below

lemma shapedOver_single (hs : s < t.size) (e : ε) :
    (single t.size s e).ShapedOver t s (reach t s []) where
  within := .single hs e
  own := by simp [get?_single hs]
  linked x hx hget := by simp [get?_single hs, hx] at hget
  required x hx hne := absurd (List.mem_singleton.mp hx) hne

section

variable {cs : List StreamIndex}

lemma mem_reach_append {x : StreamIndex} :
    x ∈ reach t s (cs ++ [c]) ↔ x ∈ reach t s cs ∨ x ∈ t.below c := by
  simp [reach, or_assoc]

/-- What is below another child is out of reach. -/
lemma not_mem_reach (h : t.Sound) (hcs : ∀ d ∈ cs, d ∈ t.childrenOf s) (hc : c ∈ t.childrenOf s)
    (hnew : c ∉ cs) {x : StreamIndex} (hx : x ∈ t.below c) : x ∉ reach t s cs := by
  intro hreach
  rcases List.mem_cons.mp hreach with rfl | hreach
  · exact h.not_mem_below_child hc hx
  · obtain ⟨d, hd, hxd⟩ := List.mem_flatMap.mp hreach
    have hne : c ≠ d := fun heq => hnew (heq ▸ hd)
    exact h.not_mem_below_sibling hc (hcs d hd) hne hx hxd

/-- Within reach, parents are within reach. -/
lemma parent_mem_reach (h : t.Sound) (hcs : ∀ d ∈ cs, d ∈ t.childrenOf s) {x p : StreamIndex}
    (hx : x ∈ reach t s cs) (hne : x ≠ s) (hp : t.parent? x = some p) : p ∈ reach t s cs := by
  obtain ⟨d, hd, hxd⟩ := List.mem_flatMap.mp ((List.mem_cons.mp hx).resolve_left hne)
  by_cases hdx : x = d
  · have hparent := h.parent_of_mem_childrenOf (hcs d hd)
    rw [← hdx, hp] at hparent
    cases hparent
    exact List.mem_cons_self
  · exact List.mem_cons_of_mem _
      (List.mem_flatMap.mpr ⟨d, hd, h.parent_mem_below hxd hdx hp⟩)

/-- An optional child may be left null with all below it. -/
lemma ShapedOver.skip (h : t.Sound) (hrow : row.ShapedOver t s (reach t s cs))
    (hcs : ∀ d ∈ cs, d ∈ t.childrenOf s) (hc : c ∈ t.childrenOf s) (hnew : c ∉ cs)
    (hoptional : t.isOptional c = true) : row.ShapedOver t s (reach t s (cs ++ [c])) where
  within := hrow.within.mono fun x hx => mem_reach_append.mpr (.inl hx)
  own := hrow.own
  linked := hrow.linked
  required x hx hne hrequired hnull p hp := by
    rcases mem_reach_append.mp hx with hx | hx
    · exact hrow.required x hx hne hrequired hnull p hp
    · have hxc : x ≠ c := by
        rintro rfl
        cases hoptional.symm.trans hrequired
      exact hrow.within.get?_eq_none (not_mem_reach h hcs hc hnew (h.parent_mem_below hx hxc hp))

/-- A row of a child may be laid under. -/
lemma ShapedOver.overlay (h : t.Sound) (hrow : row.ShapedOver t s (reach t s cs))
    (hcs : ∀ d ∈ cs, d ∈ t.childrenOf s) (hc : c ∈ t.childrenOf s) (hnew : c ∉ cs)
    (hfound : found.Shaped t c) :
    (row.overlay found).ShapedOver t s (reach t s (cs ++ [c])) := by
  have hfound := (shaped_iff_below h (h.lt_of_mem_childrenOf hc)).mp hfound
  have hget := get?_overlay (hrow.within.width_eq.trans hfound.within.width_eq.symm)
  refine ⟨(hrow.within.overlay hfound.within).mono fun x hx => ?_, ?_, fun x hx hheld => ?_,
    fun x hx hne hrequired hnull p hp => ?_⟩
  · exact mem_reach_append.mpr (List.mem_append.mp hx)
  · rw [hget]
    exact fun hnull => hrow.own (Option.or_eq_none_iff.mp hnull).1
  · simp only [hget, ne_eq, Option.or_eq_none_iff, not_and_or] at hheld ⊢
    rcases hheld with hheld | hheld
    · obtain ⟨p, hp, hparent⟩ := hrow.linked x hx hheld
      exact ⟨p, hp, .inl hparent⟩
    · by_cases hxc : x = c
      · exact ⟨s, hxc ▸ h.parent_of_mem_childrenOf hc, .inl hrow.own⟩
      · obtain ⟨p, hp, hparent⟩ := hfound.linked x hxc hheld
        exact ⟨p, hp, .inr hparent⟩
  · rw [hget, Option.or_eq_none_iff] at hnull ⊢
    -- The rows share no stream, so a stream and its parent are in the same one of them.
    rcases mem_reach_append.mp hx with hx | hx
    · have hparent := parent_mem_reach h hcs hx hne hp
      refine ⟨hrow.required x hx hne hrequired hnull.1 p hp, hfound.within.get?_eq_none ?_⟩
      exact fun hpc => not_mem_reach h hcs hc hnew hpc hparent
    · have hxc : x ≠ c := by
        rintro rfl
        exact hfound.own hnull.2
      have hparent := h.parent_mem_below hx hxc hp
      exact ⟨hrow.within.get?_eq_none (not_mem_reach h hcs hc hnew hparent),
        hfound.required x hx hxc hrequired hnull.2 p hp⟩

/-- Combining rows of children keeps the shape. -/
lemma shapedOver_combineAll (h : t.Sound) {f : StreamIndex → List (Row ε)}
    (hf : ∀ c, ∀ y ∈ f c, y.Shaped t c) (rest : List StreamIndex) :
    ∀ {cs : List StreamIndex} {rows : List (Row ε)}, cs ++ rest = t.childrenOf s →
      (∀ row ∈ rows, row.ShapedOver t s (reach t s cs)) →
      ∀ row ∈ combineAll (rest.map fun c => (t.isOptional c, f c)) rows,
        row.ShapedOver t s (t.below s) := by
  induction rest with
  | nil =>
    intro cs rows hchildren hrows
    rw [List.append_nil] at hchildren
    rw [h.below_eq, ← hchildren]
    exact hrows
  | cons c rest ih =>
    intro cs rows hchildren hrows
    have hnodup : (cs ++ c :: rest).Nodup := hchildren ▸ h.nodup_childrenOf s
    have hcs : ∀ d ∈ cs, d ∈ t.childrenOf s := fun d hd => hchildren ▸ List.mem_append_left _ hd
    have hc : c ∈ t.childrenOf s := hchildren ▸ List.mem_append_right _ List.mem_cons_self
    have hnew : c ∉ cs := fun hmem =>
      (List.nodup_append'.mp hnodup).2.2 hmem List.mem_cons_self
    have hnext : cs ++ [c] ++ rest = t.childrenOf s := by
      rw [List.append_assoc, List.singleton_append, hchildren]
    rw [List.map_cons]
    by_cases hnone : f c = []
    · rw [hnone, combineAll]
      split
      · rename_i hoptional
        exact ih hnext fun row hrow => (hrows row hrow).skip h hcs hc hnew hoptional
      · simp
    · rw [combineAll_found hnone]
      apply ih hnext
      intro both hboth
      obtain ⟨row, hrow, hboth⟩ := List.mem_flatMap.mp hboth
      obtain ⟨y, hy, rfl⟩ := List.mem_map.mp hboth
      exact (hrows row hrow).overlay h hcs hc hnew (hf c y hy)

end

/-! ### Rows of a stream -/

/-- An event combined with rows of all children has the shape of its stream. -/
lemma shaped_combineAll (h : t.Sound) (hs : s < t.size) {f : StreamIndex → List (Row ε)}
    (hf : ∀ c, ∀ y ∈ f c, y.Shaped t c) (e : ε) :
    ∀ row ∈ combineAll ((t.childrenOf s).map fun c => (t.isOptional c, f c)) [single t.size s e],
      row.Shaped t s := by
  intro row hrow
  rw [shaped_iff_below h hs]
  refine shapedOver_combineAll h hf _ (List.nil_append _) (fun row hrow => ?_) row hrow
  rw [List.mem_singleton.mp hrow]
  exact shapedOver_single hs e

/-- An event alone has the shape of its stream if no child has to match. -/
lemma shaped_single (h : t.Sound) (hs : s < t.size)
    (hchildren : t.childrenOf s = [] ∨ ∃ c, t.childrenOf s = [c] ∧ t.isOptional c = true) (e : ε) :
    (single t.size s e).Shaped t s := by
  apply shaped_combineAll h hs (f := fun _ => []) (fun c y hy => absurd hy List.not_mem_nil) e
  rcases hchildren with hnone | ⟨c, hone, hoptional⟩
  · simp [hnone, combineAll]
  · simp [hone, hoptional, combineAll]

/-- A row of the only child with an event written into it has the shape of the event's stream. -/
lemma shaped_put (h : t.Sound) (hs : s < t.size) (honly : t.childrenOf s = [c])
    (hrow : row.Shaped t c) (e : ε) : (row.put s e).Shaped t s := by
  have hwidth : row.width = t.size := hrow.within.width_eq
  rw [← single_overlay (hwidth.symm ▸ hs), hwidth]
  apply shaped_combineAll h hs (f := fun d => if d = c then [row] else []) (fun d y hy => ?_) e
  · simp [honly, combineAll]
  · split at hy
    · rename_i hd
      rw [List.mem_singleton.mp hy, hd]
      exact hrow
    · exact absurd hy List.not_mem_nil

end Row

end JoinAssembly
