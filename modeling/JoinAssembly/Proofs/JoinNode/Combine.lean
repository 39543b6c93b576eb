import JoinAssembly.JoinNode.Product
import JoinAssembly.Proofs.Row
import Mathlib.Data.List.Perm.Basic
import Mathlib.Data.List.ProdSigma

/-!
# Combining the rows of children

Rows found for the children of a stream are combined one child at a time. Over the apart streams of
a join this is what a product does, and it never fails there.
-/

namespace JoinAssembly

variable {ε : Type}

namespace Row

/-- Every row so far with every row found for each child in turn, the rows so far varying slowest. A
child for which nothing is found leaves its slots null if it is optional, and no rows if not. -/
def combineAll : List (Bool × List (Row ε)) → List (Row ε) → List (Row ε)
  | [], rows => rows
  | (optional, []) :: rest, rows => if optional then combineAll rest rows else []
  | (_, found) :: rest, rows => combineAll rest (rows.flatMap fun row => found.map row.overlay)

lemma combineAll_found {found : List (Row ε)} (hfound : found ≠ []) (optional : Bool)
    (rest : List (Bool × List (Row ε))) (rows : List (Row ε)) :
    combineAll ((optional, found) :: rest) rows
      = combineAll rest (rows.flatMap fun row => found.map row.overlay) := by
  cases found with
  | nil => exact absurd rfl hfound
  | cons row more => rfl

lemma combineAll_required (found rows : List (Row ε)) :
    combineAll [(false, found)] rows = rows.flatMap fun row => found.map row.overlay := by
  cases found with
  | nil => simp [combineAll]
  | cons row more => rfl

/-- Without rows so far there is nothing to combine. -/
lemma combineAll_nil (l : List (Bool × List (Row ε))) : combineAll l [] = [] := by
  induction l with
  | nil => rfl
  | cons child rest ih =>
    obtain ⟨optional, _ | ⟨row, more⟩⟩ := child
    · rw [combineAll, ih, ite_self]
    · exact ih

/-- Children are combined one after another. -/
lemma combineAll_append (l l' : List (Bool × List (Row ε))) :
    ∀ rows : List (Row ε), combineAll (l ++ l') rows = combineAll l' (combineAll l rows) := by
  induction l with
  | nil => intro rows; rfl
  | cons child rest ih =>
    intro rows
    obtain ⟨optional, _ | ⟨row, more⟩⟩ := child
    · cases optional with
      | true => exact ih rows
      | false => exact (combineAll_nil l').symm
    · exact ih _

/-- The order of what is found only changes the order of what is combined. -/
lemma combineAll_perm {α : Type} {optional : α → Bool} {f g : α → List (Row ε)} (l : List α) :
    ∀ {rows rows' : List (Row ε)}, (∀ a ∈ l, (f a).Perm (g a)) → rows.Perm rows' →
      (combineAll (l.map fun a => (optional a, f a)) rows).Perm
        (combineAll (l.map fun a => (optional a, g a)) rows') := by
  induction l with
  | nil => intro rows rows' _ hrows; exact hrows
  | cons a rest ih =>
    intro rows rows' hfg hrows
    have ha := hfg a List.mem_cons_self
    have hrest : ∀ b ∈ rest, (f b).Perm (g b) := fun b hb => hfg b (List.mem_cons_of_mem _ hb)
    rw [List.map_cons, List.map_cons]
    by_cases hnone : f a = []
    · have hnone' : g a = [] := (hnone ▸ ha).nil_eq.symm
      rw [hnone, hnone', combineAll, combineAll]
      split
      · exact ih hrest hrows
      · exact .nil
    · have hsome : g a ≠ [] := fun hg => hnone (hg ▸ ha).eq_nil
      rw [combineAll_found hnone, combineAll_found hsome]
      apply ih hrest
      exact (hrows.flatMap_right _).trans (List.Perm.flatMap_left _ fun row _ => ha.map _)

/-- What holds of the rows so far, and still holds when a row found is laid under them, holds of
combined rows. -/
lemma forall_combineAll {α : Type} {optional : α → Bool} {f : α → List (Row ε)}
    {P : Row ε → Prop} (l : List α) :
    ∀ {rows : List (Row ε)}, (∀ row ∈ rows, P row) →
      (∀ a ∈ l, ∀ found ∈ f a, ∀ row, P row → P (row.overlay found)) →
      ∀ row ∈ combineAll (l.map fun a => (optional a, f a)) rows, P row := by
  induction l with
  | nil => intro rows hrows _; exact hrows
  | cons a rest ih =>
    intro rows hrows hkeep
    have hrest : ∀ b ∈ rest, ∀ found ∈ f b, ∀ row, P row → P (row.overlay found) :=
      fun b hb => hkeep b (List.mem_cons_of_mem _ hb)
    rw [List.map_cons]
    by_cases hnone : f a = []
    · rw [hnone, combineAll]
      split
      · exact ih hrows hrest
      · simp
    · rw [combineAll_found hnone]
      apply ih _ hrest
      intro both hboth
      obtain ⟨row, hrow, hboth⟩ := List.mem_flatMap.mp hboth
      obtain ⟨found, hfound, rfl⟩ := List.mem_map.mp hboth
      exact hkeep a List.mem_cons_self found hfound row (hrows row hrow)

/-- Rows can be picked before rows are laid under them, if these do not matter for the choice. -/
lemma filter_overlays {keep : Row ε → Bool} {found : List (Row ε)} (rows : List (Row ε))
    (hkeep : ∀ row ∈ rows, ∀ x ∈ found, keep (row.overlay x) = keep row) :
    (rows.flatMap fun row => found.map row.overlay).filter keep
      = (rows.filter keep).flatMap fun row => found.map row.overlay := by
  induction rows with
  | nil => rfl
  | cons row rest ih =>
    have hrow := hkeep row List.mem_cons_self
    rw [List.flatMap_cons, List.filter_append,
      ih fun other hother => hkeep other (List.mem_cons_of_mem _ hother)]
    cases hk : keep row with
    | true =>
      rw [List.filter_cons_of_pos hk, List.flatMap_cons, List.filter_eq_self.mpr]
      intro both hboth
      obtain ⟨x, hx, rfl⟩ := List.mem_map.mp hboth
      rw [hrow x hx, hk]
    | false =>
      rw [List.filter_cons_of_neg (by simp [hk]), List.filter_eq_nil_iff.mpr, List.nil_append]
      intro both hboth
      obtain ⟨x, hx, rfl⟩ := List.mem_map.mp hboth
      simp [hrow x hx, hk]

/-- Combined rows can be picked before they are combined, if what is found does not matter for the
choice. -/
lemma filter_combineAll (keep : Row ε → Bool) {P : Row ε → Prop} (l : List (Bool × List (Row ε))) :
    ∀ {rows : List (Row ε)}, (∀ row ∈ rows, P row) →
      (∀ child ∈ l, ∀ x ∈ child.2, ∀ row, P row →
        P (row.overlay x) ∧ keep (row.overlay x) = keep row) →
      (combineAll l rows).filter keep = combineAll l (rows.filter keep) := by
  induction l with
  | nil => intro rows _ _; rfl
  | cons child rest ih =>
    intro rows hrows hkeep
    obtain ⟨optional, found⟩ := child
    have hrest := fun other hother => hkeep other (List.mem_cons_of_mem _ hother)
    by_cases hnone : found = []
    · rw [hnone, combineAll, combineAll]
      split
      · exact ih hrows hrest
      · rfl
    · rw [combineAll_found hnone, combineAll_found hnone, ih _ hrest, filter_overlays]
      · exact fun row hrow x hx => (hkeep _ List.mem_cons_self x hx row (hrows row hrow)).2
      · intro both hboth
        obtain ⟨row, hrow, hboth⟩ := List.mem_flatMap.mp hboth
        obtain ⟨x, hx, rfl⟩ := List.mem_map.mp hboth
        exact (hkeep _ List.mem_cons_self x hx row (hrows row hrow)).1

/-- What is done to rows can be done before they are combined, if it can be done before rows are laid
under them. -/
lemma map_combineAll {δ : Type} {φ : Row ε → Row δ} {P : Row ε → Prop}
    (l : List (Bool × List (Row ε))) :
    ∀ {rows : List (Row ε)}, (∀ row ∈ rows, P row) →
      (∀ child ∈ l, ∀ x ∈ child.2, ∀ row, P row →
        P (row.overlay x) ∧ φ (row.overlay x) = (φ row).overlay (φ x)) →
      (combineAll l rows).map φ
        = combineAll (l.map fun child => (child.1, child.2.map φ)) (rows.map φ) := by
  induction l with
  | nil => intro rows _ _; rfl
  | cons child rest ih =>
    intro rows hrows hφ
    obtain ⟨optional, found⟩ := child
    have hrest := fun other hother => hφ other (List.mem_cons_of_mem _ hother)
    by_cases hnone : found = []
    · rw [hnone, combineAll, List.map_cons, List.map_nil, combineAll]
      split
      · exact ih hrows hrest
      · rfl
    · rw [combineAll_found hnone, ih _ hrest, List.map_cons, combineAll_found (by simpa using hnone),
        List.map_flatMap, List.flatMap_map]
      · congr 1
        refine List.flatMap_congr fun row hrow => ?_
        rw [List.map_map, List.map_map]
        exact List.map_congr_left fun x hx => (hφ _ List.mem_cons_self x hx row (hrows row hrow)).2
      · intro both hboth
        obtain ⟨row, hrow, hboth⟩ := List.mem_flatMap.mp hboth
        obtain ⟨x, hx, rfl⟩ := List.mem_map.mp hboth
        exact (hφ _ List.mem_cons_self x hx row (hrows row hrow)).1

variable {w : Nat}

/-- Combined rows hold events of the streams of all their parts. -/
lemma over_combineAll {α : Type} {optional : α → Bool} {f : α → List (Row ε)}
    {T : α → List StreamIndex} (l : List α) :
    ∀ {S : List StreamIndex} {rows : List (Row ε)}, (∀ a ∈ l, ∀ row ∈ f a, row.Over w (T a)) →
      (∀ row ∈ rows, row.Over w S) →
      ∀ row ∈ combineAll (l.map fun a => (optional a, f a)) rows,
        row.Over w (S ++ l.flatMap T) := by
  intro S rows hf hrows
  apply forall_combineAll (P := fun row => row.Over w (S ++ l.flatMap T)) l
  · intro row hrow
    exact (hrows row hrow).mono fun x hx => List.mem_append_left _ hx
  · intro a ha found hfound row hrow
    refine (hrow.overlay (hf a ha found hfound)).mono fun x hx => ?_
    rcases List.mem_append.mp hx with hx | hx
    · exact hx
    · exact List.mem_append_right _ (List.mem_flatMap.mpr ⟨a, ha, hx⟩)

/-- Rows laid over rows hold events of the streams of both. -/
lemma over_overlays {S T : List StreamIndex} {rows found : List (Row ε)}
    (hrows : ∀ row ∈ rows, row.Over w S) (hfound : ∀ row ∈ found, row.Over w T) :
    ∀ both ∈ rows.flatMap fun row => found.map row.overlay, both.Over w (S ++ T) := by
  intro both hboth
  obtain ⟨row, hrow, hboth⟩ := List.mem_flatMap.mp hboth
  obtain ⟨x, hx, rfl⟩ := List.mem_map.mp hboth
  exact (hrows row hrow).overlay (hfound x hx)

/-- Pairs of rows over streams apart from one another give different rows. -/
lemma nodup_overlays {S T : List StreamIndex} {rows found : List (Row ε)}
    (hdisjoint : S.Disjoint T) (hrows : rows.Nodup) (hrowsOver : ∀ row ∈ rows, row.Over w S)
    (hfound : found.Nodup) (hfoundOver : ∀ row ∈ found, row.Over w T) :
    (rows.flatMap fun row => found.map row.overlay).Nodup := by
  have hpairs : (rows.flatMap fun row => found.map row.overlay)
      = (rows ×ˢ found).map fun pair => pair.1.overlay pair.2 := by
    simp [SProd.sprod, List.product, List.map_flatMap, Function.comp_def]
  rw [hpairs]
  apply List.Nodup.map_on _ (hrows.product hfound)
  rintro ⟨row, x⟩ hx ⟨row', x'⟩ hx' heq
  obtain ⟨hrow, hx⟩ := List.mem_product.mp hx
  obtain ⟨hrow', hx'⟩ := List.mem_product.mp hx'
  obtain ⟨rfl, rfl⟩ := (hrowsOver row hrow).overlay_inj (hrowsOver row' hrow') (hfoundOver x hx)
    (hfoundOver x' hx') hdisjoint heq
  rfl

/-- Different rows, combined with different rows over further streams, are different. -/
lemma nodup_combineAll {α : Type} {optional : α → Bool} {f : α → List (Row ε)}
    {T : α → List StreamIndex} (l : List α) :
    ∀ {S : List StreamIndex} {rows : List (Row ε)}, (S ++ l.flatMap T).Nodup → rows.Nodup →
      (∀ row ∈ rows, row.Over w S) → (∀ a ∈ l, (f a).Nodup) →
      (∀ a ∈ l, ∀ row ∈ f a, row.Over w (T a)) →
      (combineAll (l.map fun a => (optional a, f a)) rows).Nodup := by
  induction l with
  | nil => intro S rows _ hrows _ _ _; exact hrows
  | cons a rest ih =>
    intro S rows hstreams hrows hover hf hfover
    have hf' : ∀ b ∈ rest, (f b).Nodup := fun b hb => hf b (List.mem_cons_of_mem _ hb)
    have hfover' : ∀ b ∈ rest, ∀ row ∈ f b, row.Over w (T b) :=
      fun b hb => hfover b (List.mem_cons_of_mem _ hb)
    rw [List.flatMap_cons, ← List.append_assoc] at hstreams
    rw [List.map_cons]
    by_cases hnone : f a = []
    · have hapart : (S ++ rest.flatMap T).Nodup :=
        hstreams.sublist ((List.sublist_append_left S (T a)).append_right _)
      rw [hnone, combineAll]
      split
      · exact ih hapart hrows hover hf' hfover'
      · exact List.nodup_nil
    · have hdisjoint : S.Disjoint (T a) :=
        List.disjoint_of_nodup_append (hstreams.sublist (List.sublist_append_left _ _))
      have hfovera := hfover a List.mem_cons_self
      rw [combineAll_found hnone]
      apply ih hstreams _ (over_overlays hover hfovera) hf' hfover'
      exact nodup_overlays hdisjoint hrows hover (hf a List.mem_cons_self) hfovera

end Row

namespace Product

variable {w : Nat} {S : List StreamIndex}

lemma mapM_eq_ok {α β : Type} {f : α → Except AssemblyError β} {g : α → β} {l : List α}
    (h : ∀ a ∈ l, f a = .ok (g a)) : l.mapM f = .ok (l.map g) := by
  induction l with
  | nil => rfl
  | cons a rest ih =>
    rw [List.mapM_cons, h a List.mem_cons_self, ih fun b hb => h b (List.mem_cons_of_mem _ hb)]
    rfl

/-- Rows over streams cross without fail with what other rows hold apart from these streams. -/
lemma cross_eq {slots : List StreamIndex} {bases : List (Row ε)} (hnodup : (S ++ slots).Nodup)
    (hslots : ∀ x ∈ slots, x < w) (hbases : ∀ base ∈ bases, base.Over w S) (rows : List (Row ε)) :
    cross slots bases rows
      = .ok (bases.flatMap fun base => (rows.map fun row => row.only w slots).map base.overlay) := by
  obtain ⟨-, hdistinct, hdisjoint⟩ := List.nodup_append'.mp hnodup
  have hmerge : ∀ pair ∈ bases.flatMap fun base => rows.map fun row => (base, row),
      pair.1.merge pair.2 slots = .ok (pair.1.overlay (pair.2.only w slots)) := by
    intro pair hpair
    obtain ⟨base, hbase, hpair⟩ := List.mem_flatMap.mp hpair
    obtain ⟨row, -, rfl⟩ := List.mem_map.mp hpair
    have hover := hbases base hbase
    rw [← hover.width_eq] at hslots ⊢
    exact Row.merge_eq_overlay hdistinct hslots fun x hx =>
      hover.get?_eq_none fun hxS => hdisjoint hxS hx
  have hcross := mapM_eq_ok hmerge
  rw [List.map_flatMap] at hcross
  simpa only [cross, List.map_map, Function.comp_def] using hcross

/-- With slots apart from one another, a product combines what the rows of its children hold at
their slots. -/
lemma combine_eq (rowsOf : StreamIndex → List (Row ε)) (factors : List Factor) :
    ∀ {S : List StreamIndex} (bases : List (Row ε)),
      (S ++ factors.flatMap Factor.slots).Nodup → (∀ f ∈ factors, ∀ x ∈ f.slots, x < w) →
      (∀ base ∈ bases, base.Over w S) →
      combine rowsOf bases factors = .ok (Row.combineAll (factors.map fun f =>
        (f.optional, (rowsOf f.stream).map fun row => row.only w f.slots)) bases) := by
  induction factors with
  | nil => intro S bases _ _ _; rfl
  | cons f rest ih =>
    intro S bases hnodup hslots hbases
    have hrest : ∀ f ∈ rest, ∀ x ∈ f.slots, x < w :=
      fun f hf => hslots f (List.mem_cons_of_mem _ hf)
    rw [List.flatMap_cons, ← List.append_assoc] at hnodup
    rw [combine, List.map_cons]
    cases hfound : rowsOf f.stream with
    | nil =>
      have hapart : (S ++ rest.flatMap Factor.slots).Nodup :=
        hnodup.sublist ((List.sublist_append_left S f.slots).append_right _)
      rw [List.map_nil, Row.combineAll]
      simp only []
      split
      · exact ih bases hapart hrest hbases
      · rfl
    | cons row more =>
      have hcross := cross_eq (hnodup.sublist (List.sublist_append_left _ _))
        (hslots f List.mem_cons_self) hbases (row :: more)
      rw [Row.combineAll_found (by simp)]
      simp only [hcross]
      apply ih _ hnodup hrest
      refine Row.over_overlays hbases fun found hmem => ?_
      obtain ⟨row', -, rfl⟩ := List.mem_map.mp hmem
      exact Row.over_only (hslots f List.mem_cons_self) row'

end Product

end JoinAssembly
