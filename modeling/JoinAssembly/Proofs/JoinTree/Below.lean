import JoinAssembly.Proofs.JoinTree.Sound
import Mathlib.Data.List.Nodup
import Mathlib.Data.List.Pairwise

/-!
# The streams below a stream

In a sound tree the streams below different children of a stream are apart from one another and
from the stream itself, and a parent is never below its children.
-/

namespace JoinAssembly.JoinTree

/-- The streams of the shape below a stream, itself first. -/
def below (t : JoinTree) (s : StreamIndex) : List StreamIndex := (t.shapeOf s).streams

/-- Following the parents from a stream leads to another one. -/
def Leads (t : JoinTree) : StreamIndex → StreamIndex → Prop :=
  Relation.ReflTransGen fun c p => t.parent? c = some p

lemma lt_size_of_parent {t : JoinTree} {c s : StreamIndex} (h : t.parent? c = some s) :
    c < t.size := by
  obtain ⟨n, hn, -⟩ := Option.bind_eq_some_iff.mp h
  exact (List.getElem?_eq_some_iff.mp hn).1

/-- A stream has no child, one required child, one optional child, or several children. -/
lemma children_cases (t : JoinTree) (s : StreamIndex) :
    t.childrenOf s = [] ∨
    (∃ c, t.childrenOf s = [c] ∧ t.isOptional c = false) ∨
    (∃ c, t.childrenOf s = [c] ∧ t.isOptional c = true) ∨
    ∃ c d rest, t.childrenOf s = c :: d :: rest := by
  rcases t.childrenOf s with _ | ⟨c, _ | ⟨d, rest⟩⟩
  · simp
  · cases hoptional : t.isOptional c with
    | false => simp [hoptional]
    | true => simp [hoptional]
  · simp

namespace Sound

variable {t : JoinTree}

lemma unfolding (h : t.Sound) : Unfolding t.childrenOf t.isOptional t.shapeOf := by
  obtain ⟨rank, hrank⟩ := h.ranked
  exact hrank.unfolding_grow t.isOptional

lemma shapeOf_eq (h : t.Sound) (s : StreamIndex) :
    t.shapeOf s = .node s (t.isOptional s) ((t.childrenOf s).map t.shapeOf) :=
  h.unfolding.unfold s

@[simp] lemma stream_shapeOf (h : t.Sound) (s : StreamIndex) : (t.shapeOf s).stream = s := by
  rw [h.shapeOf_eq]
  rfl

@[simp] lemma optional_shapeOf (h : t.Sound) (s : StreamIndex) :
    (t.shapeOf s).optional = t.isOptional s := by
  rw [h.shapeOf_eq]
  rfl

/-- What holds of a stream as soon as it holds of its children holds of all streams. -/
lemma child_induction (h : t.Sound) {P : StreamIndex → Prop}
    (step : ∀ s, (∀ c ∈ t.childrenOf s, P c) → P s) (s : StreamIndex) : P s :=
  h.unfolding.child_induction step s

lemma parent_of_mem_childrenOf (h : t.Sound) {s c : StreamIndex} (hc : c ∈ t.childrenOf s) :
    t.parent? c = some s := h.mem_childrenOf.mp hc

lemma ne_root_of_parent (h : t.Sound) {s p : StreamIndex} (hp : t.parent? s = some p) :
    s ≠ t.root := by
  rintro rfl
  cases h.parent_root.symm.trans hp

lemma exists_parent (h : t.Sound) {s : StreamIndex} (hs : s < t.size) (hroot : s ≠ t.root) :
    ∃ p, t.parent? s = some p := by
  cases hp : t.parent? s with
  | none => exact absurd (h.eq_root s hs hp) hroot
  | some p => exact ⟨p, rfl⟩

lemma lt_of_mem_childrenOf (h : t.Sound) {s c : StreamIndex} (hc : c ∈ t.childrenOf s) :
    c < t.size := lt_size_of_parent (h.parent_of_mem_childrenOf hc)

lemma below_eq (h : t.Sound) (s : StreamIndex) :
    t.below s = s :: (t.childrenOf s).flatMap t.below := h.unfolding.streams_eq s

lemma mem_below_self (h : t.Sound) (s : StreamIndex) : s ∈ t.below s :=
  h.unfolding.mem_streams_self s

lemma mem_below_root (h : t.Sound) {s : StreamIndex} : s ∈ t.below t.root ↔ s < t.size := by
  rw [below, h.streams_perm.mem_iff, List.mem_range]

lemma mem_below_of_child (h : t.Sound) {s c x : StreamIndex} (hc : c ∈ t.childrenOf s)
    (hx : x ∈ t.below c) : x ∈ t.below s := by
  rw [h.below_eq]
  exact List.mem_cons_of_mem _ (List.mem_flatMap.mpr ⟨c, hc, hx⟩)

/-- No stream stands twice below another. -/
lemma nodup_below (h : t.Sound) (s : StreamIndex) : (t.below s).Nodup := by
  by_cases hs : s < t.size
  · have hsub := h.unfolding.streams_sublist t.root s (h.mem_below_root.mpr hs)
    exact hsub.nodup (h.streams_perm.nodup_iff.mpr List.nodup_range)
  · have hnone : t.childrenOf s = [] := by
      apply List.eq_nil_iff_forall_not_mem.mpr
      intro c hc
      exact hs (h.parent_lt (h.parent_of_mem_childrenOf hc))
    rw [h.below_eq, hnone]
    simp

/-! ### Apartness -/

lemma not_mem_below_child (h : t.Sound) {s c : StreamIndex} (hc : c ∈ t.childrenOf s) :
    s ∉ t.below c := by
  have hnodup := h.nodup_below s
  rw [h.below_eq] at hnodup
  exact fun hs => (List.nodup_cons.mp hnodup).1 (List.mem_flatMap.mpr ⟨c, hc, hs⟩)

lemma parent_not_mem_below (h : t.Sound) {s p : StreamIndex} (hp : t.parent? s = some p) :
    p ∉ t.below s := h.not_mem_below_child (h.mem_childrenOf.mpr hp)

lemma disjoint_below (h : t.Sound) (s : StreamIndex) :
    (t.childrenOf s).Pairwise fun c d => (t.below c).Disjoint (t.below d) := by
  have hnodup := h.nodup_below s
  rw [h.below_eq] at hnodup
  exact (List.nodup_flatMap.mp (List.nodup_cons.mp hnodup).2).2

/-- The streams below different children are different. -/
lemma not_mem_below_sibling (h : t.Sound) {s c d x : StreamIndex} (hc : c ∈ t.childrenOf s)
    (hd : d ∈ t.childrenOf s) (hne : c ≠ d) (hx : x ∈ t.below c) : x ∉ t.below d := by
  have hsymm : Std.Symm fun c d => (t.below c).Disjoint (t.below d) :=
    ⟨fun _ _ hab _ ha hb => hab hb ha⟩
  have hdisjoint := (h.disjoint_below s).forall hc hd hne
  exact fun hx' => hdisjoint hx hx'

/-- The children of what is below a stream are below it. -/
lemma mem_below_of_parent (h : t.Sound) {x p : StreamIndex} (hp : t.parent? x = some p)
    (s : StreamIndex) (hmem : p ∈ t.below s) : x ∈ t.below s := by
  induction s using h.child_induction with
  | step s ih =>
    rw [h.below_eq] at hmem
    rcases List.mem_cons.mp hmem with rfl | hmem
    · exact h.mem_below_of_child (h.mem_childrenOf.mpr hp) (h.mem_below_self x)
    · obtain ⟨c, hc, hpc⟩ := List.mem_flatMap.mp hmem
      exact h.mem_below_of_child hc (ih c hc hpc)

/-- The streams below a stream are those from which the parents lead to it. -/
lemma mem_below_iff_leads (h : t.Sound) {x s : StreamIndex} : x ∈ t.below s ↔ t.Leads x s := by
  constructor
  · induction s using h.child_induction with
    | step s ih =>
      intro hx
      rw [h.below_eq] at hx
      rcases List.mem_cons.mp hx with rfl | hx
      · exact .refl
      · obtain ⟨c, hc, hx⟩ := List.mem_flatMap.mp hx
        exact (ih c hc hx).tail (h.parent_of_mem_childrenOf hc)
  · intro hx
    induction hx using Relation.ReflTransGen.head_induction_on with
    | refl => exact h.mem_below_self s
    | head hp _ ih => exact h.mem_below_of_parent hp s ih

/-- The parent of a stream below another one is below it too. -/
lemma parent_mem_below (h : t.Sound) {x p s : StreamIndex} (hx : x ∈ t.below s) (hne : x ≠ s)
    (hp : t.parent? x = some p) : p ∈ t.below s := by
  rcases Relation.ReflTransGen.cases_head (h.mem_below_iff_leads.mp hx) with rfl | ⟨q, hq, hqs⟩
  · exact absurd rfl hne
  · cases hp.symm.trans hq
    exact h.mem_below_iff_leads.mpr hqs

lemma lt_of_mem_below (h : t.Sound) {x s : StreamIndex} (hs : s < t.size) (hx : x ∈ t.below s) :
    x < t.size := by
  rcases Relation.ReflTransGen.cases_head (h.mem_below_iff_leads.mp hx) with rfl | ⟨p, hp, -⟩
  · exact hs
  · exact lt_size_of_parent hp

lemma subtree_eq_below (h : t.Sound) {s : StreamIndex} (hs : s < t.size) :
    t.subtree s = t.below s := h.subtree_eq s hs

/-! ### Parents first -/

/-- Of the streams below a stream, none is listed before its parent. -/
lemma pairwise_below (h : t.Sound) (s : StreamIndex) :
    (t.below s).Pairwise fun x y => t.parent? x ≠ some y := by
  induction s using h.child_induction with
  | step s ih =>
    rw [h.below_eq, List.pairwise_cons, List.pairwise_flatMap]
    refine ⟨fun y hy hp => ?_, ih, ?_⟩
    · obtain ⟨c, hc, hyc⟩ := List.mem_flatMap.mp hy
      exact h.parent_not_mem_below hp (h.mem_below_of_child hc hyc)
    · apply (h.nodup_childrenOf s).imp_of_mem
      intro c d hc hd hne x hx y hy hp
      exact h.not_mem_below_sibling hc hd hne hx (h.mem_below_of_parent hp d hy)

/-- The streams after the root are those with a parent. -/
lemma mem_drop_preorder (h : t.Sound) {s : StreamIndex} :
    s ∈ t.preorder.drop 1 ↔ ∃ p, t.parent? s = some p := by
  have htail : t.preorder.drop 1 = (t.childrenOf t.root).flatMap t.below := by
    rw [h.preorder_eq]
    exact congrArg (List.drop 1) (h.below_eq t.root)
  have hbelow : ∀ {s}, s < t.size ↔ s = t.root ∨ s ∈ (t.childrenOf t.root).flatMap t.below := by
    intro s
    rw [← h.mem_below_root, h.below_eq, List.mem_cons]
  have hroot := (List.nodup_cons.mp (h.below_eq t.root ▸ h.nodup_below t.root)).1
  rw [htail]
  constructor
  · intro hs
    exact h.exists_parent (hbelow.mpr (.inr hs)) fun heq => hroot (heq ▸ hs)
  · rintro ⟨p, hp⟩
    exact (hbelow.mp (lt_size_of_parent hp)).resolve_left (h.ne_root_of_parent hp)

/-! ### Children first -/

lemma ascending_eq (h : t.Sound) (s : StreamIndex) :
    (t.shapeOf s).ascending
      = ((t.childrenOf s).flatMap fun c => (t.shapeOf c).ascending) ++ [s] :=
  h.unfolding.ascending_eq s

end Sound

end JoinAssembly.JoinTree
