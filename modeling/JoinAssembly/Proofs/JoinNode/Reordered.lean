import JoinAssembly.Proofs.JoinNode.Combine

/-!
# The order of children

Children over streams apart from one another can be combined in any order: every slot is filled by
one of them at most, so the rows are the same up to order.
-/

namespace JoinAssembly.Row

variable {ε : Type} {w : Nat}

/-- Two rows over streams apart from one another can be laid under a row in either order. -/
lemma overlay_right_comm {row x y : Row ε} {S T : List StreamIndex} (hrow : row.width = w)
    (hx : x.Over w S) (hy : y.Over w T) (hdisjoint : S.Disjoint T) :
    (row.overlay x).overlay y = (row.overlay y).overlay x := by
  have hwx : row.width = x.width := hrow.trans hx.width_eq.symm
  have hwy : row.width = y.width := hrow.trans hy.width_eq.symm
  have hwxy : (row.overlay x).width = y.width := (width_overlay hwx).trans hwy
  have hwyx : (row.overlay y).width = x.width := (width_overlay hwy).trans hwx
  apply ext_get?
  · rw [width_overlay hwxy, width_overlay hwx, width_overlay hwyx, width_overlay hwy]
  · intro s
    rw [get?_overlay hwxy, get?_overlay hwx, get?_overlay hwyx, get?_overlay hwy, Option.or_assoc,
      Option.or_assoc]
    by_cases hs : s ∈ S
    · simp [hy.get?_eq_none fun hs' => hdisjoint hs hs']
    · simp [hx.get?_eq_none hs]

lemma flatMap_map_comm {α β γ : Type} (f : α → β → γ) (l : List α) (k : List β) :
    (l.flatMap fun a => k.map (f a)).Perm (k.flatMap fun b => l.map fun a => f a b) := by
  induction l with
  | nil => simp
  | cons a rest ih =>
    rw [List.flatMap_cons]
    exact (ih.append_left _).trans (List.map_append_flatMap_perm k (f a) _)

/-- Rows found for two children are laid under rows in either order. -/
lemma overlays_comm {rows found others : List (Row ε)} {S T : List StreamIndex}
    (hrows : ∀ row ∈ rows, row.width = w) (hfound : ∀ x ∈ found, x.Over w S)
    (hothers : ∀ y ∈ others, y.Over w T) (hdisjoint : S.Disjoint T) :
    ((rows.flatMap fun row => found.map row.overlay).flatMap
        fun row => others.map row.overlay).Perm
      ((rows.flatMap fun row => others.map row.overlay).flatMap
        fun row => found.map row.overlay) := by
  simp only [List.flatMap_assoc, List.flatMap_map]
  refine List.Perm.flatMap_left _ fun row hrow => ?_
  refine (flatMap_map_comm (fun x y => (row.overlay x).overlay y) found others).trans ?_
  refine List.Perm.of_eq (List.flatMap_congr fun y hy => List.map_congr_left fun x hx => ?_)
  exact overlay_right_comm (hrows row hrow) (hfound x hx) (hothers y hy) hdisjoint

section Children

variable {α : Type} {optional : α → Bool} {f : α → List (Row ε)} {T : α → List StreamIndex}

/-- Two neighbouring children can be exchanged. -/
lemma combineAll_swap {a b : α} (l : List α) {rows : List (Row ε)}
    (hrows : ∀ row ∈ rows, row.width = w) (ha : ∀ x ∈ f a, x.Over w (T a))
    (hb : ∀ y ∈ f b, y.Over w (T b)) (hdisjoint : (T a).Disjoint (T b)) :
    (combineAll ((a :: b :: l).map fun a => (optional a, f a)) rows).Perm
      (combineAll ((b :: a :: l).map fun a => (optional a, f a)) rows) := by
  simp only [List.map_cons]
  by_cases hna : f a = []
  · by_cases hnb : f b = []
    · cases optional a <;> cases optional b <;> simp [hna, hnb, combineAll]
    · rw [combineAll_found hnb, hna, combineAll, combineAll, combineAll_found hnb]
  · by_cases hnb : f b = []
    · rw [combineAll_found hna, hnb, combineAll, combineAll, combineAll_found hna]
    · rw [combineAll_found hna, combineAll_found hnb, combineAll_found hnb, combineAll_found hna]
      exact combineAll_perm l (fun _ _ => .refl _) (overlays_comm hrows ha hb hdisjoint)

/-- The order of children only changes the order of what is combined. -/
lemma combineAll_reorder {l l' : List α} (h : l.Perm l') :
    ∀ {rows : List (Row ε)}, (∀ row ∈ rows, row.width = w) →
      (∀ a ∈ l, ∀ row ∈ f a, row.Over w (T a)) →
      l.Pairwise (fun a b => (T a).Disjoint (T b)) →
      (combineAll (l.map fun a => (optional a, f a)) rows).Perm
        (combineAll (l'.map fun a => (optional a, f a)) rows) := by
  induction h with
  | nil => intro rows _ _ _; exact .refl _
  | @cons a l l' _ ih =>
    intro rows hrows hf hdisjoint
    have hf' := fun b hb => hf b (List.mem_cons_of_mem _ hb)
    rw [List.map_cons, List.map_cons]
    by_cases hnone : f a = []
    · rw [hnone, combineAll, combineAll]
      split
      · exact ih hrows hf' hdisjoint.of_cons
      · exact .nil
    · rw [combineAll_found hnone, combineAll_found hnone]
      refine ih (fun both hboth => ?_) hf' hdisjoint.of_cons
      obtain ⟨row, hrow, hboth⟩ := List.mem_flatMap.mp hboth
      obtain ⟨x, hx, rfl⟩ := List.mem_map.mp hboth
      have hwidth := (hf a List.mem_cons_self x hx).width_eq
      rw [width_overlay ((hrows row hrow).trans hwidth.symm), hrows row hrow]
  | swap a b l =>
    intro rows hrows hf hdisjoint
    refine combineAll_swap l hrows (hf b List.mem_cons_self)
      (hf a (List.mem_cons_of_mem _ List.mem_cons_self)) ?_
    exact List.rel_of_pairwise_cons hdisjoint List.mem_cons_self
  | @trans l₁ l₂ l₃ h₁ _ ih₁ ih₂ =>
    intro rows hrows hf hdisjoint
    refine (ih₁ hrows hf hdisjoint).trans (ih₂ hrows (fun a ha => hf a (h₁.mem_iff.mpr ha)) ?_)
    exact h₁.pairwise hdisjoint fun hab _ hb ha => hab ha hb

end Children

end JoinAssembly.Row
