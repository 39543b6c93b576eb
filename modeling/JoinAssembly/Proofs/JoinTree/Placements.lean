import JoinAssembly.JoinTree.Builder
import JoinAssembly.Proofs.FirstFault

/-!
# Checks of placements

A builder checks that every stream is placed, and then the placements one after another. What it
tells is what is wrong with the first placement at fault; placements without fault have at most one
root, and no parent outside the join.
-/

namespace JoinAssembly.TreeBuilder

variable {placements : List Placement} {root : StreamIndex}

/-! ### Parents -/

/-- The parent in the placement of a stream. -/
def parentIn (placements : List Placement) (s : StreamIndex) : Option StreamIndex :=
  placements[s]?.bind (·.parent)

/-- Placements that passed the checks: one root, and no parent outside the join. -/
structure Checked (placements : List Placement) (root : StreamIndex) : Prop where
  root_lt : root < placements.length
  parent_root : parentIn placements root = none
  eq_root : ∀ s < placements.length, parentIn placements s = none → s = root
  parent_lt : ∀ {c s}, parentIn placements c = some s → s < placements.length

lemma parentIn_eq_none {s : StreamIndex} {p : Placement} (hs : placements[s]? = some p)
    (hp : p.parent = none) : parentIn placements s = none := by
  rw [parentIn, hs, Option.bind_some, hp]

/-! ### Missing placements -/

lemma requirePlaced_map_some (placements : List Placement) :
    ∀ stream : StreamIndex, requirePlaced stream (placements.map some) = .ok placements := by
  induction placements with
  | nil => intro stream; rfl
  | cons p rest ih =>
    intro stream
    rw [List.map_cons, requirePlaced, ih]
    rfl

lemma requirePlaced_of_missing (before : List Placement) (after : List (Option Placement)) :
    ∀ stream : StreamIndex, requirePlaced stream (before.map some ++ none :: after)
      = .error (.missing (stream + before.length)) := by
  induction before with
  | nil => intro stream; rfl
  | cons p rest ih =>
    intro stream
    rw [List.map_cons, List.cons_append, requirePlaced, ih, List.length_cons]
    simp only [bind, Except.bind]
    rw [Nat.add_assoc, Nat.add_comm 1]

/-! ### Placements one after another -/

/-- The first stream of a list of placements that has no parent. -/
def firstRoot? (placements : List Placement) : Option StreamIndex :=
  placements.findIdx? fun p => p.parent.isNone

/-- A placement in a join of a given size is at fault after those of the streams before it. -/
inductive PlacementFault (size : Nat) (before : List Placement) (p : Placement) :
    TreeError → Prop where
  | severalRoots {first : StreamIndex} (hp : p.parent = none)
      (hfirst : firstRoot? before = some first) :
      PlacementFault size before p (.severalRoots first before.length)
  | parentOutOfRange {parent : StreamIndex} (hp : p.parent = some parent) (hsize : size ≤ parent) :
      PlacementFault size before p (.parentOutOfRange before.length parent)
  | ownParent (hp : p.parent = some before.length) (hsize : before.length < size) :
      PlacementFault size before p (.cycle before.length)

lemma firstRoot?_concat (l : List Placement) (p : Placement) :
    firstRoot? (l ++ [p])
      = (firstRoot? l).or (if p.parent.isNone then some l.length else none) := by
  rw [firstRoot?, List.findIdx?_append, List.findIdx?_singleton]
  congr 1
  split <;> simp

lemma findRoot_append (size : Nat) (l l' : List Placement) :
    ∀ (stream : StreamIndex) (root : Option StreamIndex), findRoot size stream root (l ++ l')
      = (findRoot size stream root l).bind fun root =>
          findRoot size (stream + l.length) root l' := by
  induction l with
  | nil => intro stream root; rfl
  | cons p rest ih =>
    intro stream root
    have hnext : stream + (p :: rest).length = stream + 1 + rest.length := by
      rw [List.length_cons, Nat.add_assoc, Nat.add_comm 1]
    simp only [List.cons_append, findRoot, hnext]
    cases p.parent with
    | none =>
      cases root with
      | none => exact ih _ _
      | some first => rfl
    | some parent =>
      simp only []
      split
      · rfl
      · split
        · rfl
        · exact ih _ _

/-- Placements without fault give the first stream without parent, if there is one. -/
lemma findRoot_of_faultless {size : Nat} (h : Faultless (PlacementFault size) placements) :
    findRoot size 0 none placements = .ok (firstRoot? placements) := by
  induction placements using List.reverseRecOn with
  | nil => rfl
  | append_singleton l p ih =>
    obtain ⟨hl, hp⟩ := faultless_concat.mp h
    rw [findRoot_append, ih hl, firstRoot?_concat]
    simp only [Except.bind, Nat.zero_add, findRoot]
    cases hparent : p.parent with
    | none =>
      cases hfirst : firstRoot? l with
      | some first => exact absurd (.severalRoots hparent hfirst) (hp _)
      | none => rfl
    | some parent =>
      have hsize : ¬ size ≤ parent := fun hsize => hp _ (.parentOutOfRange hparent hsize)
      have hown : ¬ parent = l.length := by
        rintro rfl
        exact hp _ (.ownParent hparent (Nat.lt_of_not_le hsize))
      simp [if_neg hsize, if_neg hown]

/-- The first placement at fault is told. -/
lemma findRoot_of_fault {size : Nat} {e : TreeError}
    (h : FirstFault (PlacementFault size) placements e) :
    findRoot size 0 none placements = .error e := by
  obtain ⟨before, p, after, rfl, hbefore, hp⟩ := h
  rw [findRoot_append, findRoot_of_faultless hbefore]
  simp only [Except.bind, Nat.zero_add, findRoot]
  cases hp with
  | severalRoots hparent hfirst => simp only [hparent, hfirst]
  | parentOutOfRange hparent hsize => simp only [hparent, if_pos hsize]
  | ownParent hparent hsize => simp only [hparent, if_neg (Nat.not_le.mpr hsize), if_pos]

/-- The first stream without parent is the only one, if there are no faults. -/
lemma firstRoot?_of_faultless {size : Nat} (h : Faultless (PlacementFault size) placements)
    {p : Placement} (hroot : placements[root]? = some p) (hp : p.parent = none) :
    firstRoot? placements = some root := by
  have hbefore : firstRoot? (placements.take root) = none := by
    cases hfirst : firstRoot? (placements.take root) with
    | none => rfl
    | some first => exact absurd (.severalRoots hp hfirst) (h.not_fault_take hroot _)
  obtain ⟨hlt, hget⟩ := List.getElem?_eq_some_iff.mp hroot
  rw [firstRoot?, List.findIdx?_eq_some_iff_getElem]
  refine ⟨hlt, by rw [hget, hp]; rfl, fun j hj => ?_⟩
  have hmem : placements[j] ∈ placements.take root :=
    List.mem_take_iff_getElem.mpr ⟨j, Nat.lt_min.mpr ⟨hj, Nat.lt_trans hj hlt⟩, rfl⟩
  rw [List.findIdx?_eq_none_iff.mp hbefore _ hmem]
  exact Bool.false_ne_true

lemma checked_of_faultless (h : Faultless (PlacementFault placements.length) placements)
    {p : Placement} (hroot : placements[root]? = some p) (hp : p.parent = none) :
    Checked placements root where
  root_lt := (List.getElem?_eq_some_iff.mp hroot).1
  parent_root := parentIn_eq_none hroot hp
  eq_root s hs hnone := by
    have hget := List.getElem?_eq_getElem hs
    rw [parentIn, hget, Option.bind_some] at hnone
    exact Option.some.inj
      ((firstRoot?_of_faultless h hget hnone).symm.trans (firstRoot?_of_faultless h hroot hp))
  parent_lt {c s} hc := by
    obtain ⟨q, hq, hparent⟩ := Option.bind_eq_some_iff.mp hc
    exact Nat.lt_of_not_le fun hsize => h.not_fault_take hq _ (.parentOutOfRange hparent hsize)

/-! ### The root -/

lemma requireRoot_of_fault {e : TreeError}
    (h : FirstFault (PlacementFault placements.length) placements e) :
    requireRoot placements = .error e := by
  rw [requireRoot, findRoot_of_fault h]
  rfl

lemma requireRoot_of_noRoot (h : Faultless (PlacementFault placements.length) placements)
    (hroot : firstRoot? placements = none) : requireRoot placements = .error .noRoot := by
  rw [requireRoot, findRoot_of_faultless h, hroot]
  rfl

lemma requireRoot_of_root (h : Faultless (PlacementFault placements.length) placements)
    {root : StreamIndex} (hroot : firstRoot? placements = some root) :
    requireRoot placements
      = if placements[root]?.any (·.optional) then .error (.optionalRoot root) else .ok root := by
  rw [requireRoot, findRoot_of_faultless h, hroot]
  simp only [bind, Except.bind]
  split <;> rfl

lemma checked_of_requireRoot (h : requireRoot placements = .ok root) :
    Checked placements root := by
  rcases faultless_or_firstFault (PlacementFault placements.length) placements with
    hfree | ⟨e, hfault⟩
  · cases hfirst : firstRoot? placements with
    | none =>
      rw [requireRoot_of_noRoot hfree hfirst] at h
      cases h
    | some first =>
      rw [requireRoot_of_root hfree hfirst] at h
      split at h
      · cases h
      · cases h
        obtain ⟨hlt, hnone, -⟩ := List.findIdx?_eq_some_iff_getElem.mp hfirst
        exact checked_of_faultless hfree (List.getElem?_eq_getElem hlt)
          (Option.isNone_iff_eq_none.mp hnone)
  · rw [requireRoot_of_fault hfault] at h
    cases h

end JoinAssembly.TreeBuilder
