import JoinAssembly.Proofs.Join.Entries
import JoinAssembly.Proofs.MatchSets.Renamed

/-!
# Joins of renamed events

A join compares events and looks at nothing else in them, so renaming its events renames its rows.
-/

namespace JoinAssembly

variable {ε δ : Type}

/-! ### Rows -/

namespace Row

/-- Rename the events of a row. -/
def rename (f : ε → δ) (r : Row ε) : Row δ := ⟨r.slots.map (Option.map f)⟩

@[simp] lemma rename_empty (f : ε → δ) (w : Nat) : (empty w : Row ε).rename f = empty w := by
  simp [rename, empty]

lemma rename_put (f : ε → δ) (r : Row ε) (s : StreamIndex) (e : ε) :
    (r.put s e).rename f = (r.rename f).put s (f e) := by
  rw [rename, put, List.map_set]
  rfl

lemma rename_single (f : ε → δ) (w : Nat) (s : StreamIndex) (e : ε) :
    (single w s e).rename f = single w s (f e) := by
  rw [single, rename_put, rename_empty, single]

lemma rename_overlay (f : ε → δ) (r other : Row ε) :
    (r.overlay other).rename f = (r.rename f).overlay (other.rename f) := by
  rw [rename, overlay, List.map_zipWith, overlay, rename, rename, List.zipWith_map]
  congr 2
  funext a b
  cases a <;> rfl

lemma map_rename_combineAll (f : ε → δ) (children : List (Bool × List (Row ε)))
    (rows : List (Row ε)) : (combineAll children rows).map (·.rename f)
      = combineAll (children.map fun child => (child.1, child.2.map (·.rename f)))
        (rows.map (·.rename f)) :=
  map_combineAll (P := fun _ => True) children (fun _ _ => trivial)
    fun _ _ x _ row _ => ⟨trivial, rename_overlay f row x⟩

lemma rename_rename {γ : Type} (f : ε → δ) (g : δ → γ) (r : Row ε) :
    (r.rename f).rename g = r.rename (g ∘ f) := by
  simp [rename]

/-- The text of a row with its events renamed. -/
lemma text_rename (display : δ → String) (f : ε → δ) (r : Row ε) :
    (r.rename f).text display = r.text (display ∘ f) := by
  simp only [text, rename, List.map_map]
  congr 4
  funext slot
  cases slot <;> rfl

end Row

/-! ### Emission lists -/

namespace Entry

/-- Rename the events of an entry. -/
def rename (f : ε ↪ δ) (y : Entry ε) : Entry δ := ⟨y.source.rename f, y.row.rename f⟩

lemma rename_seed (f : ε ↪ δ) (w : Nat) (s : StreamIndex) (o : Occurrence ε) :
    (seed w s o).rename f = seed w s (o.rename f) := by
  rw [seed, rename, Row.rename_single]
  rfl

variable [DecidableEq ε] [DecidableEq δ] (f : ε ↪ δ) (m : MatchSets ε) (w : Nat) (s : StreamIndex)
  (ys : List (Entry ε))

lemma linksTo_rename (y : Entry ε) (o : Occurrence ε) :
    (y.rename f).linksTo s (o.rename f) = y.linksTo s o :=
  y.source.node.linksTo_rename f s o.cursor.node o.event

lemma map_rename_forwarded : (forwarded m s ys).map (·.rename f)
    = forwarded (m.rename f) s (ys.map (·.rename f)) := by
  rw [forwarded, forwarded, List.map_filterMap, List.filterMap_map]
  congr 1
  funext y
  have hlinked : (m.rename f).linked? s (y.rename f).source.node
      = (m.linked? s y.source.node).map (·.rename f) := m.linked?_rename f s y.source.node
  rw [Function.comp_apply, hlinked]
  cases m.linked? s y.source.node with
  | none => rfl
  | some o => simp [rename, Row.rename_put, Occurrence.rename]

lemma map_rename_uncovered : (uncovered m s ys).map (·.rename f)
    = uncovered (m.rename f) s (ys.map (·.rename f)) := by
  rw [uncovered, uncovered, MatchSets.occurrences_rename, List.filter_map]
  congr 2
  funext o
  simp only [Function.comp_def, List.any_map, linksTo_rename]

lemma map_rename_rowsLinked (o : Occurrence ε) : (rowsLinked s o ys).map (·.rename f)
    = rowsLinked s (o.rename f) (ys.map (·.rename f)) := by
  rw [rowsLinked, rowsLinked, List.filter_map, List.map_map, List.map_map]
  simp only [Function.comp_def, linksTo_rename]
  rfl

lemma map_rename_combined (children : List (Bool × List (Entry ε))) (o : Occurrence ε) :
    (combined w s children o).map (·.rename f)
      = combined w s (children.map fun child => (child.1, child.2.map (·.rename f)))
        (o.rename f) := by
  rw [combined, combined, Row.map_rename_combineAll, List.map_map, List.map_map,
    List.map_singleton, Row.rename_single]
  simp only [Function.comp_def, map_rename_rowsLinked]
  rfl

/-- What a stream emits is renamed with what its children emit. -/
lemma map_rename_emitted (children : List (Bool × List (Entry ε))) :
    (emitted m w s children).map (·.rename f)
      = emitted (m.rename f) w s
        (children.map fun child => (child.1, child.2.map (·.rename f))) := by
  have hseeds : ∀ os : List (Occurrence ε), (os.map (seed w s)).map (·.rename f)
      = (os.map (·.rename f)).map (seed w s) := by
    intro os
    simp only [List.map_map, Function.comp_def, rename_seed]
  match children with
  | [] => rw [emitted, hseeds, List.map_nil, emitted, MatchSets.occurrences_rename]
  | [(false, ys)] => exact map_rename_forwarded f m s ys
  | [(true, ys)] =>
    rw [emitted, List.map_append, map_rename_forwarded, hseeds, map_rename_uncovered]
    rfl
  | a :: b :: rest =>
    rw [emitted_many, List.map_cons, List.map_cons, emitted_many, MatchSets.occurrences_rename,
      List.map_flatMap, List.flatMap_map]
    congr 1
    funext o
    have hcombined := map_rename_combined f w s (a :: b :: rest) o
    rw [List.map_cons, List.map_cons] at hcombined
    rw [← hcombined, List.map_map, List.map_map]
    rfl

end Entry

/-- The emission lists of renamed match sets are the renamed emission lists. -/
lemma JoinTree.Sound.entries_rename [DecidableEq ε] [DecidableEq δ] {t : JoinTree} (h : t.Sound)
    (f : ε ↪ δ) (m : MatchSets ε) (s : StreamIndex) :
    t.entries (m.rename f) s = (t.entries m s).map (·.rename f) := by
  induction s using h.child_induction with
  | step s ih =>
    rw [h.entries_eq, h.entries_eq m, Entry.map_rename_emitted, List.map_map]
    congr 1
    apply List.map_congr_left
    intro c hc
    rw [ih c hc]
    rfl

end JoinAssembly
