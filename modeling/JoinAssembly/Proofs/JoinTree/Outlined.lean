import JoinAssembly.JoinTree.Outline
import JoinAssembly.Proofs.JoinTree.Ancestors

/-!
# Outlines of built trees

The outline descends over the children. In a sound tree it lists all streams, in the order of the
stored walk, each as deep as it has ancestors.
-/

namespace JoinAssembly

/-- Siblings are outlined one after the other. -/
lemma outlineBelow_eq_flatMap (children : StreamIndex → List StreamIndex) (levels depth : Nat)
    (siblings : List StreamIndex) :
    outlineBelow children levels depth siblings
      = siblings.flatMap fun s => outlineBelow children levels depth [s] := by
  cases levels with
  | zero => exact (List.flatMap_eq_nil_iff.mpr fun _ _ => rfl).symm
  | succ levels => simp [outlineBelow]

/-- An indentation is two blanks for every level. -/
lemma indentation_length {α : Type} (levels : List α) :
    indentation levels.length = String.join (levels.map fun _ => "  ") := by
  rw [indentation, ← String.toList_inj, String.toList_join, String.toList_ofList]
  induction levels with
  | nil => rfl
  | cons _ rest ih =>
    rw [List.length_cons, Nat.mul_succ]
    simp [ih, List.replicate_succ]

/-- The part that a stream of a built tree plays in the join. -/
def JoinTree.roleOf (t : JoinTree) (s : StreamIndex) : String :=
  if s = t.root then "root" else if t.isOptional s then "optional" else "required"

namespace JoinTree.Sound

variable {t : JoinTree}

lemma depth_root (h : t.Sound) : t.depth t.root = 0 := by
  rw [depth, ancestors_of_parent_none h.parent_root]
  rfl

/-- With a level for each of the streams below a stream, all of them are listed. -/
lemma outlineBelow_eq (h : t.Sound) (s : StreamIndex) :
    ∀ levels, (t.below s).length ≤ levels →
      outlineBelow t.childrenOf levels (t.depth s) [s]
        = (t.below s).map fun x => (t.depth x, x) := by
  induction s using h.child_induction with
  | step s ih =>
    intro levels hlevels
    rw [h.below_eq, List.length_cons] at hlevels
    obtain ⟨levels, rfl⟩ := Nat.exists_eq_succ_of_ne_zero (Nat.ne_zero_of_lt hlevels)
    have hchild : ∀ c ∈ t.childrenOf s, outlineBelow t.childrenOf levels (t.depth s + 1) [c]
        = (t.below c).map fun x => (t.depth x, x) := by
      intro c hc
      rw [← h.depth_of_parent (h.parent_of_mem_childrenOf hc)]
      refine ih c hc levels (Nat.le_trans ?_ (Nat.le_of_succ_le_succ hlevels))
      have hsub : (t.below c).Sublist ((t.childrenOf s).flatMap t.below) := by
        simpa using (List.singleton_sublist.mpr hc).flatMap t.below
      exact hsub.length_le
    rw [h.below_eq, List.map_cons, List.map_flatMap, ← List.flatMap_congr hchild,
      ← outlineBelow_eq_flatMap]
    simp [outlineBelow]

/-- The outline is the walk from the root, each stream with the number of its ancestors. -/
lemma outline_eq (h : t.Sound) : t.outline = t.preorder.map fun s => (t.depth s, s) := by
  have hlen : (t.below t.root).length = t.size := by
    rw [below, h.streams_perm.length_eq, List.length_range]
  rw [outline, ← h.depth_root, h.outlineBelow_eq t.root t.size (Nat.le_of_eq hlen), h.preorder_eq]
  rfl

lemma role_eq (h : t.Sound) {s : StreamIndex} (hs : s < t.size) :
    ((t.node? s).map (·.role)).getD "" = t.roleOf s := by
  obtain ⟨n, hn⟩ : ∃ n, t.node? s = some n := ⟨_, List.getElem?_eq_getElem hs⟩
  have hparent : t.parent? s = n.parent := by rw [parent?, hn]; rfl
  have hoptional : t.isOptional s = n.optional := by rw [isOptional, hn]
  rw [hn, roleOf, Option.map_some, Option.getD_some, StreamNode.role, ← hparent, ← hoptional]
  by_cases hroot : s = t.root
  · rw [if_pos hroot, hroot, h.parent_root]
  · obtain ⟨p, hp⟩ := h.exists_parent hs hroot
    rw [if_neg hroot, hp]
    cases t.isOptional s <;> rfl

end JoinTree.Sound

end JoinAssembly
