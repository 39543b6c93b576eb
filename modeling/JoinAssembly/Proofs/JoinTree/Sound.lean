import JoinAssembly.Proofs.JoinTree.Placements
import JoinAssembly.Proofs.JoinTree.Reached

/-!
# Sound join trees

What is true of every tree that a builder accepts: parents and child lists agree, the streams below
the root unfold to a finite shape that holds every stream once, and the stored walks and subtrees
are those of the shape.
-/

namespace JoinAssembly

/-- The tables of a join tree describe one tree with all its streams. -/
structure JoinTree.Sound (t : JoinTree) : Prop where
  root_lt : t.root < t.size
  parent_root : t.parent? t.root = none
  eq_root : ∀ s < t.size, t.parent? s = none → s = t.root
  parent_lt : ∀ {c s}, t.parent? c = some s → s < t.size
  mem_childrenOf : ∀ {s c}, c ∈ t.childrenOf s ↔ t.parent? c = some s
  nodup_childrenOf : ∀ s, (t.childrenOf s).Nodup
  /-- Streams can be ranked with parents first. -/
  ranked : ∃ rank, Ranked t.childrenOf t.size rank
  streams_perm : (t.shapeOf t.root).streams.Perm (List.range t.size)
  preorder_eq : t.preorder = (t.shapeOf t.root).streams
  postorder_eq : t.postorder = (t.shapeOf t.root).ascending
  subtree_eq : ∀ s < t.size, t.subtree s = (t.shapeOf s).streams

namespace TreeBuilder

/-! ### Child lists -/

/-- The streams that name a parent in a list of placements whose streams are counted from `k` on. -/
lemma filterMap_zipIdx_parent (s : StreamIndex) (placements : List Placement) (k : Nat) :
    (placements.zipIdx k).filterMap (fun x => if x.1.parent = some s then some x.2 else none)
      = (List.range' k placements.length).filter fun c =>
          parentIn placements (c - k) = some s := by
  induction placements generalizing k with
  | nil => rfl
  | cons p rest ih =>
    have htail : (List.range' (k + 1) rest.length).filter
          (fun c => parentIn (p :: rest) (c - k) = some s)
        = (List.range' (k + 1) rest.length).filter
          fun c => parentIn rest (c - (k + 1)) = some s := by
      apply List.filter_congr
      intro c hc
      have hck : c - k = (c - (k + 1)) + 1 :=
        (Nat.succ_sub_succ_eq_sub c k).symm.trans (Nat.succ_sub (List.mem_range'_1.mp hc).1)
      rw [hck]
      rfl
    rw [List.zipIdx_cons, List.length_cons, List.range'_succ, List.filter_cons, htail, ← ih]
    by_cases hp : p.parent = some s
    · simp [parentIn, hp]
    · simp [parentIn, hp]

/-- The children of a stream are the streams that name it, in ascending order. -/
lemma childrenIn_eq_filter (placements : List Placement) (s : StreamIndex) :
    childrenIn placements s
      = (List.range placements.length).filter fun c => parentIn placements c = some s := by
  rw [childrenIn, List.range_eq_range']
  exact filterMap_zipIdx_parent s placements 0

lemma mem_childrenIn {placements : List Placement} {s c : StreamIndex} :
    c ∈ childrenIn placements s ↔ parentIn placements c = some s := by
  rw [childrenIn_eq_filter, List.mem_filter, List.mem_range, decide_eq_true_eq]
  constructor
  · rintro ⟨-, h⟩
    exact h
  · intro h
    obtain ⟨p, hp, -⟩ := Option.bind_eq_some_iff.mp h
    exact ⟨(List.getElem?_eq_some_iff.mp hp).1, h⟩

lemma nodup_childrenIn (placements : List Placement) (s : StreamIndex) :
    (childrenIn placements s).Nodup := by
  rw [childrenIn_eq_filter]
  exact List.nodup_range.filter _

/-! ### Built trees -/

lemma getElem?_nodesFrom (placements : List Placement) (names : List (Option String))
    (s : StreamIndex) :
    (nodesFrom placements names)[s]? = placements[s]?.map fun p =>
      ⟨s, p.parent, p.optional, childrenIn placements s, names[s]?.join⟩ := by
  simp only [nodesFrom, List.getElem?_map, List.getElem?_zipIdx, Option.map_map]
  congr 1
  funext p
  simp

/-- The child lists that the walks of a tree follow. -/
def childTable (placements : List Placement) (s : StreamIndex) : List StreamIndex :=
  ((List.range placements.length).map (childrenIn placements))[s]?.getD []

lemma childTable_of_lt {placements : List Placement} {s : StreamIndex}
    (hs : s < placements.length) : childTable placements s = childrenIn placements s := by
  simp [childTable, hs]

/-- Checked placements give every stream one parent. -/
lemma Checked.forest {placements : List Placement} {root : StreamIndex}
    (h : Checked placements root) :
    Forest (childTable placements) (parentIn placements) placements.length root where
  mem_children := by
    intro s c
    by_cases hs : s < placements.length
    · rw [childTable_of_lt hs, mem_childrenIn]
    · have hnone : childTable placements s = [] := by simp [childTable, hs]
      rw [hnone]
      exact ⟨fun hc => absurd hc List.not_mem_nil, fun hc => absurd (h.parent_lt hc) hs⟩
  nodup_children := by
    intro s
    by_cases hs : s < placements.length
    · rw [childTable_of_lt hs]
      exact nodup_childrenIn placements s
    · simp [childTable, hs]
  lt_of_parent := by
    intro c s hc
    obtain ⟨p, hp, -⟩ := Option.bind_eq_some_iff.mp hc
    exact (List.getElem?_eq_some_iff.mp hp).1
  root_lt := h.root_lt
  parent_root := h.parent_root

/-- The tree of checked placements, whether or not its walks are complete. -/
def grown (placements : List Placement) (names : List (Option String)) (root : StreamIndex) :
    JoinTree where
  nodes := nodesFrom placements names
  root := root
  preorder := preorderWalk (childTable placements) placements.length root
  postorder := postorderWalk (childTable placements) placements.length root
  subtrees := subtreeTable (childTable placements) placements.length
    (postorderWalk (childTable placements) placements.length root)

section Grown

variable (placements : List Placement) (names : List (Option String)) (root : StreamIndex)

@[simp] lemma size_grown : (grown placements names root).size = placements.length := by
  simp [JoinTree.size, grown, nodesFrom]

@[simp] lemma root_grown : (grown placements names root).root = root := rfl

@[simp] lemma parent?_grown (s : StreamIndex) :
    (grown placements names root).parent? s = parentIn placements s := by
  simp only [JoinTree.parent?, JoinTree.node?, grown, getElem?_nodesFrom, parentIn]
  cases placements[s]? <;> rfl

@[simp] lemma childrenOf_grown :
    (grown placements names root).childrenOf = childTable placements := by
  funext s
  simp only [JoinTree.childrenOf, JoinTree.node?, grown, getElem?_nodesFrom]
  by_cases hs : s < placements.length
  · rw [List.getElem?_eq_getElem hs, childTable_of_lt hs]
    rfl
  · rw [List.getElem?_eq_none (Nat.le_of_not_lt hs)]
    simp [childTable, hs]

end Grown

lemma growTree_eq (placements : List Placement) (names : List (Option String))
    (root : StreamIndex) : growTree placements names root
      = if (preorderWalk (childTable placements) placements.length root).length
          < placements.length
        then .error (.cycle ((firstMissed placements.length
          (preorderWalk (childTable placements) placements.length root)).getD root))
        else .ok (grown placements names root) := rfl

/-- Growing a tree succeeds just when the walk from the root meets every stream. -/
lemma growTree_eq_ok_iff {placements : List Placement} {names : List (Option String)}
    {root : StreamIndex} {t : JoinTree} :
    growTree placements names root = .ok t ↔
      placements.length ≤ (preorderWalk (childTable placements) placements.length root).length ∧
        t = grown placements names root := by
  rw [growTree_eq]
  split
  · rename_i hlen
    constructor
    · intro h
      cases h
    · rintro ⟨hle, -⟩
      exact absurd hle (Nat.not_le_of_lt hlen)
  · rename_i hlen
    constructor
    · intro h
      exact ⟨Nat.le_of_not_lt hlen, (Except.ok.inj h).symm⟩
    · rintro ⟨-, rfl⟩
      rfl

/-- A tree that is grown by a complete walk is sound. -/
lemma sound_grown {placements : List Placement} {root : StreamIndex}
    (h : Checked placements root) (names : List (Option String))
    (hlen : placements.length ≤
      (preorderWalk (childTable placements) placements.length root).length) :
    (grown placements names root).Sound := by
  have hforest := h.forest
  have hranked := hforest.ranked hlen
  have hunfold : Unfolding (childTable placements) (grown placements names root).isOptional
      (grown placements names root).shapeOf := by
    have hgrow := hranked.unfolding_grow (grown placements names root).isOptional
    rw [← childrenOf_grown placements names root, ← size_grown placements names root] at hgrow
    rw [← childrenOf_grown placements names root]
    exact hgrow
  have hpre := hunfold.preorderWalk_eq root (hforest.length_streams_le hunfold)
  have hpost := hunfold.postorderWalk_eq root (hforest.length_streams_le hunfold)
  have hperm := hforest.preorderWalk_perm hlen
  rw [hpre] at hperm
  have hmem : ∀ s, s ∈ ((grown placements names root).shapeOf root).streams
      ↔ s < placements.length := by
    intro s
    rw [hperm.mem_iff, List.mem_range]
  refine {
    root_lt := by simpa using h.root_lt
    parent_root := by simpa using h.parent_root
    eq_root := by simpa using h.eq_root
    parent_lt := fun {c s} => by simpa using h.parent_lt (c := c) (s := s)
    mem_childrenOf := fun {s c} => by simpa using hforest.mem_children (s := s) (c := c)
    nodup_childrenOf := by simpa using hforest.nodup_children
    ranked := ⟨_, by simpa using hranked⟩
    streams_perm := by simpa using hperm
    preorder_eq := hpre
    postorder_eq := hpost
    subtree_eq := ?_ }
  intro s hs
  rw [size_grown] at hs
  have htable := hunfold.getElem?_subtreeTable root (fun s hs => (hmem s).mp hs) ((hmem s).mpr hs)
  rw [← hpost] at htable
  rw [JoinTree.subtree]
  exact congrArg (Option.getD · []) htable

lemma build_eq_ok {b : TreeBuilder} {t : JoinTree} (h : b.build = .ok t) :
    ∃ placements root, requirePlaced 0 b.placed = .ok placements ∧
      requireRoot placements = .ok root ∧ growTree placements b.names root = .ok t := by
  simp only [build, bind, Except.bind] at h
  split at h
  · cases h
  · split at h
    · cases h
    · split at h
      · cases h
      · rename_i placements hplaced
        split at h
        · cases h
        · rename_i root hroot
          exact ⟨placements, root, hplaced, hroot, h⟩

/-- Every tree that a builder accepts is sound. -/
theorem sound_of_build {b : TreeBuilder} {t : JoinTree} (h : b.build = .ok t) : t.Sound := by
  obtain ⟨placements, root, -, hroot, hgrow⟩ := build_eq_ok h
  obtain ⟨hlen, rfl⟩ := growTree_eq_ok_iff.mp hgrow
  exact sound_grown (checked_of_requireRoot hroot) b.names hlen

/-- A name leads to a stream of the tree. -/
lemma lt_of_streamOf? {b : TreeBuilder} {t : JoinTree} (h : b.build = .ok t) {name : String}
    {s : StreamIndex} (hs : t.streamOf? name = some s) : s < t.size := by
  obtain ⟨placements, root, -, -, hgrow⟩ := build_eq_ok h
  obtain ⟨-, rfl⟩ := growTree_eq_ok_iff.mp hgrow
  obtain ⟨node, hfind, rfl⟩ := Option.map_eq_some_iff.mp hs
  obtain ⟨i, hi⟩ := List.getElem?_of_mem (List.mem_of_find?_eq_some hfind)
  have hlt : i < (grown placements b.names root).size := (List.getElem?_eq_some_iff.mp hi).1
  rw [grown, getElem?_nodesFrom] at hi
  obtain ⟨p, -, rfl⟩ := Option.map_eq_some_iff.mp hi
  exact hlt

end TreeBuilder

end JoinAssembly
