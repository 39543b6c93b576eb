import JoinAssembly.Proofs.JoinTree.Below

/-!
# The orders of a join tree

The stored walks and subtrees are what a recursion over the children, in ascending order, lists. In
the one walk every stream stands before all streams that lead to it, in the other after them.
-/

namespace JoinAssembly

/-- What must come first does, in a list in which nothing stands after what must come later. -/
lemma idxOf_lt_idxOf {α : Type} [DecidableEq α] {R : α → α → Prop} {l : List α}
    (h : l.Pairwise fun a b => ¬ R b a) {x y : α} (hx : x ∈ l) (hy : y ∈ l) (hne : x ≠ y)
    (hxy : R x y) : l.idxOf x < l.idxOf y := by
  by_contra hle
  have hne' : l.idxOf y ≠ l.idxOf x := fun heq => hne ((List.idxOf_inj hy).mp heq).symm
  have hlt : l.idxOf y < l.idxOf x := Nat.lt_of_le_of_ne (Nat.le_of_not_lt hle) hne'
  have hpair := List.pairwise_iff_getElem.mp h _ _ (List.idxOf_lt_length_of_mem hy)
    (List.idxOf_lt_length_of_mem hx) hlt
  rw [List.getElem_idxOf, List.getElem_idxOf] at hpair
  exact hpair hxy

namespace JoinTree

/-- The streams below a stream, each after those below it. -/
def ascending (t : JoinTree) (s : StreamIndex) : List StreamIndex := (t.shapeOf s).ascending

/-- All streams in an order in which each comes after its children. -/
structure ChildrenFirst (t : JoinTree) (order : List StreamIndex) : Prop where
  perm : order.Perm (List.range t.size)
  pairwise : order.Pairwise fun x y => t.parent? y ≠ some x

/-- The children of a stream of a tree that is built stand in ascending order. -/
lemma childrenOf_eq_filter {b : TreeBuilder} {t : JoinTree} (hb : b.build = .ok t)
    (s : StreamIndex) :
    t.childrenOf s = (List.range t.size).filter fun c => t.parent? c = some s := by
  obtain ⟨placements, root, -, hroot, hgrow⟩ := TreeBuilder.build_eq_ok hb
  obtain ⟨-, rfl⟩ := TreeBuilder.growTree_eq_ok_iff.mp hgrow
  simp only [TreeBuilder.childrenOf_grown, TreeBuilder.size_grown, TreeBuilder.parent?_grown]
  by_cases hs : s < placements.length
  · rw [TreeBuilder.childTable_of_lt hs, TreeBuilder.childrenIn_eq_filter]
  · have hforest := (TreeBuilder.checked_of_requireRoot hroot).forest
    have hnone : TreeBuilder.childTable placements s = [] := by simp [TreeBuilder.childTable, hs]
    rw [hnone, eq_comm, List.filter_eq_nil_iff]
    intro c _ hc
    have hmem := hforest.mem_children.mpr (of_decide_eq_true hc)
    rw [hnone] at hmem
    exact List.not_mem_nil hmem

namespace Sound

variable {t : JoinTree}

lemma mem_ascending (h : t.Sound) {x s : StreamIndex} : x ∈ t.ascending s ↔ x ∈ t.below s :=
  (h.unfolding.ascending_perm_streams s).mem_iff

/-- Of the streams below a stream, none is finished before a child of its own. -/
lemma pairwise_ascending (h : t.Sound) (s : StreamIndex) :
    (t.ascending s).Pairwise fun x y => t.parent? y ≠ some x := by
  induction s using h.child_induction with
  | step s ih =>
    rw [ascending, h.ascending_eq, List.pairwise_append, List.pairwise_flatMap]
    refine ⟨⟨ih, ?_⟩, List.pairwise_singleton _ _, ?_⟩
    · apply (h.nodup_childrenOf s).imp_of_mem
      intro c d hc hd hne x hx y hy hp
      have hyc := h.mem_below_of_parent hp c (h.mem_ascending.mp hx)
      exact h.not_mem_below_sibling hc hd hne hyc (h.mem_ascending.mp hy)
    · intro x hx y hy hp
      obtain ⟨c, hc, hxc⟩ := List.mem_flatMap.mp hx
      rw [List.mem_singleton.mp hy] at hp
      have hsc := h.mem_below_of_parent hp c (h.mem_ascending.mp hxc)
      exact h.not_mem_below_child hc hsc

lemma preorder_perm (h : t.Sound) : t.preorder.Perm (List.range t.size) :=
  h.preorder_eq ▸ h.streams_perm

/-- The walk that ends at the root is in order. -/
lemma childrenFirst_postorder (h : t.Sound) : t.ChildrenFirst t.postorder where
  perm := h.postorder_eq ▸ (h.unfolding.ascending_perm_streams t.root).trans h.streams_perm
  pairwise := h.postorder_eq ▸ h.pairwise_ascending t.root

lemma ne_of_parent (h : t.Sound) {c p : StreamIndex} (hp : t.parent? c = some p) : p ≠ c :=
  fun heq => h.parent_not_mem_below hp (heq ▸ h.mem_below_self c)

/-- In an order with children first, a stream comes once, when its children are done. -/
lemma done_of_childrenFirst (h : t.Sound) {done rest : List StreamIndex} {s : StreamIndex}
    (horder : t.ChildrenFirst (done ++ s :: rest)) :
    s < t.size ∧ s ∉ done ∧ ∀ c ∈ t.childrenOf s, c ∈ done := by
  have hmem : ∀ {x}, x ∈ done ++ s :: rest ↔ x < t.size := fun {x} => by
    rw [horder.perm.mem_iff, List.mem_range]
  have hnodup : (done ++ s :: rest).Nodup := horder.perm.nodup_iff.mpr List.nodup_range
  obtain ⟨-, hlater, -⟩ := List.pairwise_append.mp horder.pairwise
  refine ⟨hmem.mp (by simp), fun hs => ?_, fun c hc => ?_⟩
  · exact (List.nodup_append'.mp hnodup).2.2 hs List.mem_cons_self
  · have hp := h.parent_of_mem_childrenOf hc
    rcases List.mem_append.mp (hmem.mpr (h.lt_of_mem_childrenOf hc)) with hdone | hrest
    · exact hdone
    · rcases List.mem_cons.mp hrest with rfl | hrest
      · exact absurd rfl (h.ne_of_parent hp)
      · exact absurd hp ((List.pairwise_cons.mp hlater).1 c hrest)

/-- In an order with children first every stream comes after all streams that lead to it. -/
lemma idxOf_lt_of_childrenFirst (h : t.Sound) {order : List StreamIndex}
    (horder : t.ChildrenFirst order) {x s : StreamIndex}
    (hxs : Relation.TransGen (fun c p => t.parent? c = some p) x s) :
    order.idxOf x < order.idxOf s := by
  have hmem : ∀ {y}, y < t.size → y ∈ order := fun hy =>
    horder.perm.mem_iff.mpr (List.mem_range.mpr hy)
  have hstep : ∀ {c p}, t.parent? c = some p → order.idxOf c < order.idxOf p := fun hp =>
    idxOf_lt_idxOf (R := fun c p => t.parent? c = some p) horder.pairwise
      (hmem (lt_size_of_parent hp)) (hmem (h.parent_lt hp)) (h.ne_of_parent hp).symm hp
  induction hxs with
  | single hp => exact hstep hp
  | tail _ hp ih => exact Nat.lt_trans ih (hstep hp)

/-- In the walk from the root every stream comes before all streams that lead to it. -/
lemma idxOf_preorder_lt (h : t.Sound) {x s : StreamIndex}
    (hxs : Relation.TransGen (fun c p => t.parent? c = some p) x s) :
    t.preorder.idxOf s < t.preorder.idxOf x := by
  have hmem : ∀ {y}, y < t.size → y ∈ t.preorder := fun hy =>
    h.preorder_perm.mem_iff.mpr (List.mem_range.mpr hy)
  have hstep : ∀ {c p}, t.parent? c = some p → t.preorder.idxOf p < t.preorder.idxOf c := fun hp =>
    idxOf_lt_idxOf (R := fun p c => t.parent? c = some p)
      (h.preorder_eq ▸ h.pairwise_below t.root) (hmem (h.parent_lt hp))
      (hmem (lt_size_of_parent hp)) (h.ne_of_parent hp) hp
  induction hxs with
  | single hp => exact hstep hp
  | tail _ hp ih => exact Nat.lt_trans (hstep hp) ih

lemma subtree_eq_flatMap (h : t.Sound) {s : StreamIndex} (hs : s < t.size) :
    t.subtree s = s :: (t.childrenOf s).flatMap t.subtree := by
  have hbelow : (t.childrenOf s).flatMap t.subtree = (t.childrenOf s).flatMap t.below :=
    List.flatMap_congr fun c hc => h.subtree_eq_below (h.lt_of_mem_childrenOf hc)
  rw [hbelow, h.subtree_eq_below hs]
  exact h.below_eq s

/-- Following the recursion for the streams below a stream. -/
lemma ascending_eq_flatMap (h : t.Sound) (s : StreamIndex) :
    t.ascending s = (t.childrenOf s).flatMap t.ascending ++ [s] := h.ascending_eq s

end Sound

/-- In a tree that is built, the stored subtrees and walks are those of the recursion over the
children in ascending order. A subtree holds the streams that lead to its top, each once, and the
subtrees of siblings are apart. Both walks meet every stream once, the one a stream before all that
lead to it and the other after them. -/
theorem orders_of_build {b : TreeBuilder} {t : JoinTree} (hb : b.build = .ok t) :
    (∀ s, t.childrenOf s = (List.range t.size).filter fun c => t.parent? c = some s) ∧
      (∀ s < t.size, t.subtree s = s :: (t.childrenOf s).flatMap t.subtree ∧
        (t.subtree s).Nodup ∧ (∀ x, x ∈ t.subtree s ↔ t.Leads x s) ∧
        (∀ c ∈ t.childrenOf s, s ∉ t.subtree c) ∧
        ∀ c ∈ t.childrenOf s, ∀ d ∈ t.childrenOf s, c ≠ d →
          (t.subtree c).Disjoint (t.subtree d)) ∧
      t.preorder = t.subtree t.root ∧
      (∀ s, t.ascending s = (t.childrenOf s).flatMap t.ascending ++ [s]) ∧
      t.postorder = t.ascending t.root ∧
      t.preorder.Perm (List.range t.size) ∧ t.postorder.Perm (List.range t.size) ∧
      ∀ x s, Relation.TransGen (fun c p => t.parent? c = some p) x s →
        t.preorder.idxOf s < t.preorder.idxOf x ∧ t.postorder.idxOf x < t.postorder.idxOf s := by
  have h := TreeBuilder.sound_of_build hb
  have hpost := h.childrenFirst_postorder
  have hchild : ∀ {s c}, c ∈ t.childrenOf s → t.subtree c = t.below c := fun hc =>
    h.subtree_eq_below (h.lt_of_mem_childrenOf hc)
  refine ⟨childrenOf_eq_filter hb, fun s hs => ?_, ?_, h.ascending_eq_flatMap, h.postorder_eq,
    h.preorder_perm, hpost.perm, fun x s hxs => ?_⟩
  · have hsub := h.subtree_eq_below hs
    refine ⟨h.subtree_eq_flatMap hs, hsub ▸ h.nodup_below s, fun x => ?_, fun c hc => ?_, ?_⟩
    · rw [hsub, h.mem_below_iff_leads]
    · rw [hchild hc]
      exact h.not_mem_below_child hc
    · intro c hc d hd hne x hxc hxd
      rw [hchild hc] at hxc
      rw [hchild hd] at hxd
      exact h.not_mem_below_sibling hc hd hne hxc hxd
  · rw [h.preorder_eq, h.subtree_eq t.root h.root_lt]
  · exact ⟨h.idxOf_preorder_lt hxs, h.idxOf_lt_of_childrenFirst hpost hxs⟩

theorem orders_fork : ∃ t,
    (TreeBuilder.ofCalls 4 [.optional 0 2, .required 1 2, .root 2, .required 3 0]).build = .ok t ∧
      t.preorder = [2, 0, 3, 1] ∧ t.postorder = [3, 0, 1, 2] ∧ t.subtree 0 = [0, 3] ∧
      t.preorder = t.subtree t.root ∧ t.postorder = t.ascending t.root := by
  have hb : (TreeBuilder.ofCalls 4
      [.optional 0 2, .required 1 2, .root 2, .required 3 0]).build = .ok {
        nodes := [⟨0, some 2, true, [3], none⟩, ⟨1, some 2, false, [], none⟩,
          ⟨2, none, false, [0, 1], none⟩, ⟨3, some 0, false, [], none⟩]
        root := 2
        preorder := [2, 0, 3, 1]
        postorder := [3, 0, 1, 2]
        subtrees := [[0, 3], [1], [2, 0, 3, 1], [3]] } := by decide
  obtain ⟨-, -, hpre, -, hpost, -⟩ := orders_of_build hb
  exact ⟨_, hb, rfl, rfl, rfl, hpre, hpost⟩

end JoinTree

end JoinAssembly
