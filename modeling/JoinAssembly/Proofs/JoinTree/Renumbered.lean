import JoinAssembly.Proofs.JoinTree.Below
import JoinAssembly.Proofs.JoinTree.Rooted
import Mathlib.Data.Finset.Card
import Mathlib.Logic.Equiv.Defs

/-!
# Trees under other numbers

The streams of a join tree can be given other numbers, with their parents and flags carried along.
The streams so placed form a tree again, whose child lists are in the order of the new numbers.
-/

namespace JoinAssembly

/-- Distinct numbers for all numbers below a bound, themselves below it, leave none out. -/
lemma exists_lt_of_injective {f : Nat → Nat} (hf : Function.Injective f) {n : Nat}
    (hlt : ∀ i < n, f i < n) {j : Nat} (hj : j < n) : ∃ i < n, f i = j := by
  have hmaps : Set.MapsTo f (Finset.range n) (Finset.range n) := by
    intro i hi
    simpa using hlt i (by simpa using hi)
  have hsurj := Finset.surjOn_of_injOn_of_card_le f hmaps hf.injOn (Nat.le_refl _)
  obtain ⟨i, hi, rfl⟩ := hsurj (by simpa using hj : j ∈ (Finset.range n : Set Nat))
  exact ⟨i, by simpa using hi, rfl⟩

/-- A join tree with new numbers for its streams; parents and flags are carried along. -/
structure JoinTree.Renumbered (σ : Equiv.Perm StreamIndex) (t t' : JoinTree) : Prop where
  size_eq : t'.size = t.size
  stream_lt : ∀ s < t.size, σ s < t.size
  parent_eq : ∀ s < t.size, t'.parent? (σ s) = (t.parent? s).map σ
  optional_eq : ∀ s < t.size, t'.isOptional (σ s) = t.isOptional s

namespace JoinTree.Renumbered

variable {σ : Equiv.Perm StreamIndex} {t t' : JoinTree}

lemma exists_stream (ht : t.Renumbered σ t') {x : StreamIndex} (hx : x < t.size) :
    ∃ s < t.size, σ s = x :=
  exists_lt_of_injective σ.injective ht.stream_lt hx

lemma root_eq (ht : t.Renumbered σ t') (h : t.Sound) (h' : t'.Sound) : t'.root = σ t.root := by
  have hlt := ht.stream_lt t.root h.root_lt
  refine (h'.eq_root _ (ht.size_eq ▸ hlt) ?_).symm
  rw [ht.parent_eq t.root h.root_lt, h.parent_root]
  rfl

/-- The children of a stream are renumbered, and then stand in the order of their new numbers. -/
lemma childrenOf_perm (ht : t.Renumbered σ t') (h : t.Sound) (h' : t'.Sound) {s : StreamIndex} :
    (t'.childrenOf (σ s)).Perm ((t.childrenOf s).map σ) := by
  refine (List.perm_ext_iff_of_nodup (h'.nodup_childrenOf _)
    ((h.nodup_childrenOf s).map σ.injective)).mpr fun x => ?_
  rw [h'.mem_childrenOf, List.mem_map]
  constructor
  · intro hx
    obtain ⟨c, hc, rfl⟩ := ht.exists_stream (ht.size_eq ▸ lt_size_of_parent hx)
    rw [ht.parent_eq c hc, Option.map_eq_some_iff] at hx
    obtain ⟨p, hp, hps⟩ := hx
    exact ⟨c, h.mem_childrenOf.mpr (hp.trans (congrArg some (σ.injective hps))), rfl⟩
  · rintro ⟨c, hc, rfl⟩
    rw [ht.parent_eq c (h.lt_of_mem_childrenOf hc), h.parent_of_mem_childrenOf hc]
    rfl

end JoinTree.Renumbered

/-! ### Placing streams under new numbers -/

/-- In a sound tree the parents lead from every stream to the root. -/
lemma JoinTree.Sound.leads {t : JoinTree} (h : t.Sound) {s : StreamIndex} (hs : s < t.size) :
    t.Leads s t.root :=
  h.mem_below_iff_leads.mp (h.mem_below_root.mpr hs)

namespace TreeBuilder

lemma isOptional_grown (placements : List Placement) (names : List (Option String))
    (root s : StreamIndex) :
    (grown placements names root).isOptional s = placements[s]?.any (·.optional) := by
  simp only [JoinTree.isOptional, JoinTree.node?, grown, getElem?_nodesFrom]
  cases placements[s]? <;> rfl

/-- The root of a tree that is built is not optional. -/
lemma isOptional_root {b : TreeBuilder} {t : JoinTree} (hb : b.build = .ok t) :
    t.isOptional t.root = false := by
  obtain ⟨placements, root, -, hroot, hgrow⟩ := build_eq_ok hb
  obtain ⟨-, rfl⟩ := growTree_eq_ok_iff.mp hgrow
  rw [isOptional_grown, root_grown]
  simp only [requireRoot, bind, Except.bind] at hroot
  split at hroot
  · cases hroot
  · split at hroot
    · cases hroot
    · split at hroot
      · cases hroot
      · rename_i hoptional
        cases hroot
        simpa using hoptional

end TreeBuilder

namespace JoinTree

variable {t : JoinTree} {σ : Equiv.Perm StreamIndex}

/-- How a stream is placed under new numbers. -/
def renumberedPlacement (t : JoinTree) (σ : Equiv.Perm StreamIndex) (s : StreamIndex) : Placement :=
  ⟨(t.parent? s).map σ, t.isOptional s⟩

/-- The calls that place the streams of a tree under new numbers, in the order of the old ones. -/
def renumberedCalls (t : JoinTree) (σ : Equiv.Perm StreamIndex) : List BuilderCall :=
  (List.range t.size).map fun s => .place (σ s) (t.renumberedPlacement σ s)

/-- The placements in the order of the new numbers. -/
def renumberedPlacements (t : JoinTree) (σ : Equiv.Perm StreamIndex) : List Placement :=
  (List.range t.size).map fun x => t.renumberedPlacement σ (σ.symm x)

@[simp] lemma length_renumberedPlacements : (t.renumberedPlacements σ).length = t.size := by
  simp [renumberedPlacements]

section

variable (hσ : ∀ s < t.size, σ s < t.size)

include hσ

lemma getElem?_renumberedPlacements {s : StreamIndex} (hs : s < t.size) :
    (t.renumberedPlacements σ)[σ s]? = some (t.renumberedPlacement σ s) := by
  rw [renumberedPlacements, List.getElem?_map, List.getElem?_range (hσ s hs), Option.map_some,
    Equiv.symm_apply_apply]

lemma parentIn_renumberedPlacements {s : StreamIndex} (hs : s < t.size) :
    TreeBuilder.parentIn (t.renumberedPlacements σ) (σ s) = (t.parent? s).map σ := by
  rw [TreeBuilder.parentIn, getElem?_renumberedPlacements hσ hs]
  rfl

/-- Every stream is placed once. -/
lemma declares_renumberedCalls :
    TreeBuilder.Declares t.size (t.renumberedCalls σ) (t.renumberedPlacements σ) where
  length_eq := length_renumberedPlacements
  stream_lt c hc := by
    obtain ⟨s, hs, rfl⟩ := List.mem_map.mp hc
    exact hσ s (List.mem_range.mp hs)
  placementsOf_eq := by
    intro x p hp
    have hx : x < t.size := by simpa using (List.getElem?_eq_some_iff.mp hp).1
    obtain ⟨s, hs, rfl⟩ := exists_lt_of_injective σ.injective hσ hx
    cases hp.symm.trans (getElem?_renumberedPlacements hσ hs)
    obtain ⟨before, after, hsplit⟩ := List.append_of_mem (List.mem_range.mpr hs)
    have hnodup := List.nodup_range (n := t.size)
    rw [hsplit] at hnodup
    have hbefore : ∀ y ∈ before, ¬ σ y = σ s := by
      intro y hy heq
      exact (List.nodup_append.mp hnodup).2.2 y hy s List.mem_cons_self (σ.injective heq)
    have hafter : ∀ y ∈ after, ¬ σ y = σ s := by
      intro y hy heq
      have hcons := (List.nodup_append.mp hnodup).2.1
      exact (List.nodup_cons.mp hcons).1 (σ.injective heq ▸ hy)
    rw [BuilderCall.placementsOf, BuilderCall.given, renumberedCalls, hsplit, List.filterMap_map,
      List.filterMap_append, List.filterMap_cons_some (b := t.renumberedPlacement σ s)
        (by simp [BuilderCall.stream, BuilderCall.placement?])]
    rw [List.filterMap_eq_nil_iff.mpr, List.filterMap_eq_nil_iff.mpr, List.nil_append]
    · intro y hy
      simp [BuilderCall.stream, hafter y hy]
    · intro y hy
      simp [BuilderCall.stream, hbefore y hy]

/-- The placements form a tree again. -/
lemma rooted_renumberedPlacements (h : t.Sound) (hroot : t.isOptional t.root = false) :
    TreeBuilder.Rooted (t.renumberedPlacements σ) (σ t.root) := by
  have hexists : ∀ {x}, x < (t.renumberedPlacements σ).length → ∃ s < t.size, σ s = x := by
    intro x hx
    exact exists_lt_of_injective σ.injective hσ (by simpa using hx)
  refine ⟨?_, ?_, ?_, ?_⟩
  · rw [getElem?_renumberedPlacements hσ h.root_lt, renumberedPlacement, h.parent_root, hroot]
    rfl
  · intro x hx hnone
    obtain ⟨s, hs, rfl⟩ := hexists hx
    rw [parentIn_renumberedPlacements hσ hs, Option.map_eq_none_iff] at hnone
    rw [h.eq_root s hs hnone]
  · intro c p hp
    obtain ⟨q, hq, -⟩ := Option.bind_eq_some_iff.mp hp
    obtain ⟨s, hs, rfl⟩ := hexists (List.getElem?_eq_some_iff.mp hq).1
    rw [parentIn_renumberedPlacements hσ hs, Option.map_eq_some_iff] at hp
    obtain ⟨y, hy, rfl⟩ := hp
    simpa using hσ y (h.parent_lt hy)
  · intro x hx
    obtain ⟨s, hs, rfl⟩ := hexists hx
    refine Relation.ReflTransGen.lift σ (fun c p hp => ?_) _ _ (h.leads hs)
    refine (parentIn_renumberedPlacements hσ (lt_size_of_parent hp)).trans ?_
    rw [hp]
    rfl

end

/-- The streams of a tree under new numbers form a tree. -/
lemma exists_renumbered {b : TreeBuilder} (hb : b.build = .ok t) (hσ : ∀ s < t.size, σ s < t.size) :
    ∃ t', (TreeBuilder.ofCalls t.size (t.renumberedCalls σ)).build = .ok t' ∧
      t.Renumbered σ t' := by
  have hrooted := rooted_renumberedPlacements hσ (TreeBuilder.sound_of_build hb)
    (TreeBuilder.isOptional_root hb)
  refine ⟨_, TreeBuilder.build_of_rooted (declares_renumberedCalls hσ) hrooted, ?_, hσ, ?_, ?_⟩
  · simp
  · intro s hs
    rw [TreeBuilder.parent?_grown, parentIn_renumberedPlacements hσ hs]
  · intro s hs
    rw [TreeBuilder.isOptional_grown, getElem?_renumberedPlacements hσ hs]
    rfl

end JoinTree

end JoinAssembly
