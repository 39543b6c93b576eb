import JoinAssembly.Proofs.JoinNode.Combine

/-!
# Choosing a row of each child

The rows that children are combined to, listed at once: there is one for every way to choose a row
of each child that has some.
-/

namespace JoinAssembly

/-- The ways to choose a value for each key, those for the first key varying slowest. A key without
values is passed over if it is optional and leaves no choice if it is required. -/
def choices {α β : Type} (optional : α → Bool) (values : α → List β) : List α → List (List (α × β))
  | [] => [[]]
  | a :: rest =>
    match values a with
    | [] => if optional a then choices optional values rest else []
    | b :: more =>
      (b :: more).flatMap fun b => (choices optional values rest).map fun choice => (a, b) :: choice

section

variable {α β : Type} {optional : α → Bool} {values : α → List β}

lemma choices_found {a : α} (hfound : values a ≠ []) (rest : List α) :
    choices optional values (a :: rest) = (values a).flatMap fun b =>
      (choices optional values rest).map fun choice => (a, b) :: choice := by
  rw [choices]
  cases hvalues : values a with
  | nil => exact absurd hvalues hfound
  | cons b more => rfl

/-- A choice gives keys some of their values. -/
lemma mem_of_mem_choices {keys : List α} {a : α} {b : β} :
    ∀ {choice : List (α × β)}, choice ∈ choices optional values keys → (a, b) ∈ choice →
      a ∈ keys ∧ b ∈ values a := by
  induction keys with
  | nil =>
    intro choice hchoice hmem
    rw [List.mem_singleton.mp hchoice] at hmem
    exact absurd hmem List.not_mem_nil
  | cons key rest ih =>
    intro choice hchoice hmem
    by_cases hnone : values key = []
    · rw [choices, hnone] at hchoice
      simp only [List.mem_ite_nil_right] at hchoice
      obtain ⟨ha, hb⟩ := ih hchoice.2 hmem
      exact ⟨List.mem_cons_of_mem _ ha, hb⟩
    · rw [choices_found hnone] at hchoice
      obtain ⟨b', hb', hchoice⟩ := List.mem_flatMap.mp hchoice
      obtain ⟨choice', hchoice', rfl⟩ := List.mem_map.mp hchoice
      rcases List.mem_cons.mp hmem with hpair | hmem
      · cases hpair
        exact ⟨List.mem_cons_self, hb'⟩
      · obtain ⟨ha, hb⟩ := ih hchoice' hmem
        exact ⟨List.mem_cons_of_mem _ ha, hb⟩

end

namespace Row

variable {ε α β : Type}

/-- To combine rows with those of each child is to lay under each of them every choice of rows. -/
lemma combineAll_eq_choices (optional : α → Bool) (values : α → List β) (row : α → β → Row ε)
    (keys : List α) :
    ∀ bases : List (Row ε),
      combineAll (keys.map fun a => (optional a, (values a).map (row a))) bases
        = bases.flatMap fun base => (choices optional values keys).map fun choice =>
            (choice.map fun (a, b) => row a b).foldl overlay base := by
  induction keys with
  | nil => intro bases; exact (List.flatMap_singleton' bases).symm
  | cons a rest ih =>
    intro bases
    rw [List.map_cons]
    by_cases hnone : values a = []
    · rw [choices, hnone, List.map_nil, combineAll]
      simp only []
      split
      · exact ih bases
      · simp
    · rw [combineAll_found (by simpa using hnone), ih, choices_found hnone]
      simp only [List.flatMap_assoc, List.flatMap_map, List.map_flatMap, List.map_map,
        Function.comp_def, List.map_cons, List.foldl_cons]

/-- A slot of a row with others laid under it holds the first event that is there. -/
lemma get?_foldl_overlay {w : Nat} (rows : List (Row ε)) :
    ∀ {base : Row ε}, base.width = w → (∀ row ∈ rows, row.width = w) →
      (rows.foldl overlay base).width = w ∧ ∀ x : StreamIndex,
        (rows.foldl overlay base).get? x = (base.get? x).or (rows.findSome? (·.get? x)) := by
  induction rows with
  | nil => intro base hbase _; exact ⟨hbase, fun x => (Option.or_none).symm⟩
  | cons row rest ih =>
    intro base hbase hrows
    have hwidth : base.width = row.width := hbase.trans (hrows row List.mem_cons_self).symm
    have hboth : (base.overlay row).width = w := (width_overlay hwidth).trans hbase
    obtain ⟨hw, hget⟩ := ih hboth fun row' hrow' => hrows row' (List.mem_cons_of_mem _ hrow')
    refine ⟨hw, fun x => ?_⟩
    rw [List.foldl_cons, hget x, get?_overlay hwidth, Option.or_assoc, List.findSome?_cons]
    cases row.get? x <;> rfl

end Row

end JoinAssembly
