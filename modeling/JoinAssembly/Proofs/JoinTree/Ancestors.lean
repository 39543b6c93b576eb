import JoinAssembly.Proofs.JoinTree.Below

/-!
# Ancestors

Following the parents from a stream of a sound tree leads through its proper ancestors to the root.
None of them comes twice, so there are fewer of them than there are streams.
-/

namespace JoinAssembly.JoinTree

/-- The streams that following the parents leads to in at most a number of steps. -/
def climb (t : JoinTree) : Nat → StreamIndex → List StreamIndex
  | 0, _ => []
  | steps + 1, s =>
    match t.parent? s with
    | none => []
    | some p => p :: t.climb steps p

/-- The proper ancestors of a stream, its parent first and the root last. -/
def ancestors (t : JoinTree) (s : StreamIndex) : List StreamIndex := t.climb t.size s

/-- The number of proper ancestors of a stream. -/
def depth (t : JoinTree) (s : StreamIndex) : Nat := (t.ancestors s).length

variable {t : JoinTree} {s p x : StreamIndex}

lemma length_climb_le (t : JoinTree) : ∀ (steps : Nat) (s : StreamIndex),
    (t.climb steps s).length ≤ steps
  | 0, _ => Nat.le_refl 0
  | steps + 1, s => by
    rw [climb]
    cases t.parent? s with
    | none => exact Nat.zero_le _
    | some p => exact Nat.succ_le_succ (t.length_climb_le steps p)

lemma depth_le_size (t : JoinTree) (s : StreamIndex) : t.depth s ≤ t.size :=
  t.length_climb_le t.size s

lemma ancestors_of_parent_none (hp : t.parent? s = none) : t.ancestors s = [] := by
  rw [ancestors]
  cases t.size with
  | zero => rfl
  | succ n => rw [climb, hp]

namespace Sound

/-- What holds of a stream as soon as it holds of its parent holds of all streams. -/
lemma parent_induction (h : t.Sound) {P : StreamIndex → Prop}
    (step : ∀ s, (∀ p, t.parent? s = some p → P p) → P s) (s : StreamIndex) : P s := by
  obtain ⟨rank, hrank⟩ := h.ranked
  induction hn : rank s using Nat.strongRecOn generalizing s with
  | ind n ih =>
    refine step s fun p hp => ih (rank p) ?_ p rfl
    exact hn ▸ hrank.rank_lt p s (h.mem_childrenOf.mpr hp)

/-- Once the steps are enough to get to the root, one more makes no difference. -/
lemma climb_succ (h : t.Sound) {rank : StreamIndex → Nat}
    (hrank : Ranked t.childrenOf t.size rank) :
    ∀ (steps : Nat) (s : StreamIndex), rank s ≤ steps → t.climb (steps + 1) s = t.climb steps s := by
  intro steps
  induction steps with
  | zero =>
    intro s hs
    cases hp : t.parent? s with
    | none => rw [climb, climb, hp]
    | some p =>
      have hlt := hrank.rank_lt p s (h.mem_childrenOf.mpr hp)
      exact absurd (Nat.lt_of_lt_of_le hlt hs) (Nat.not_lt_zero _)
  | succ steps ih =>
    intro s hs
    rw [climb, climb]
    cases hp : t.parent? s with
    | none => rfl
    | some p =>
      have hlt := hrank.rank_lt p s (h.mem_childrenOf.mpr hp)
      simp only [ih p (Nat.le_of_lt_succ (Nat.lt_of_lt_of_le hlt hs))]

/-- The ancestors of a stream are its parent and the ancestors of that. -/
lemma ancestors_of_parent (h : t.Sound) (hp : t.parent? s = some p) :
    t.ancestors s = p :: t.ancestors p := by
  obtain ⟨rank, hrank⟩ := h.ranked
  have hchild := h.mem_childrenOf.mpr hp
  have hlt := hrank.rank_lt p s hchild
  have hbound := hrank.rank_bound p s hchild
  obtain ⟨n, hn⟩ : ∃ n, t.size = n + 1 := Nat.exists_eq_succ_of_ne_zero (by omega)
  rw [ancestors, ancestors, hn, climb, hp, h.climb_succ hrank n p (by omega)]

lemma depth_of_parent (h : t.Sound) (hp : t.parent? s = some p) :
    t.depth s = t.depth p + 1 := by
  rw [depth, h.ancestors_of_parent hp]
  rfl

/-- The ancestors are the streams that following the parents leads to in one step or more. -/
lemma mem_ancestors (h : t.Sound) :
    x ∈ t.ancestors s ↔ Relation.TransGen (fun c p => t.parent? c = some p) s x := by
  induction s using h.parent_induction with
  | step s ih =>
    rw [Relation.TransGen.head'_iff]
    cases hp : t.parent? s with
    | none => simp [ancestors_of_parent_none hp]
    | some p =>
      simp only [h.ancestors_of_parent hp, List.mem_cons, ih p hp, Option.some.injEq,
        exists_eq_left', Relation.reflTransGen_iff_eq_or_transGen]

/-- No ancestor comes twice. -/
lemma nodup_ancestors (h : t.Sound) (s : StreamIndex) : (t.ancestors s).Nodup := by
  induction s using h.parent_induction with
  | step s ih =>
    cases hp : t.parent? s with
    | none => simp [ancestors_of_parent_none hp]
    | some p =>
      rw [h.ancestors_of_parent hp]
      refine List.nodup_cons.mpr ⟨fun hmem => ?_, ih p hp⟩
      -- The parent would lead back to itself, and so be below one of its children.
      obtain ⟨q, hq, hqp⟩ := Relation.TransGen.head'_iff.mp (h.mem_ancestors.mp hmem)
      exact h.parent_not_mem_below hq (h.mem_below_iff_leads.mpr hqp)

end Sound

end JoinAssembly.JoinTree
