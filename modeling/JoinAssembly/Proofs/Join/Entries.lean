import JoinAssembly.Proofs.JoinNode.Combine
import JoinAssembly.Proofs.JoinTree.Below
import JoinAssembly.Proofs.MatchSets.Occurrences

/-!
# Emission lists

The rows of a stream, each with the occurrence of the stream that it is for, follow by recursion on
the tree from the rows of the children: without queues, buffers or options, and in order.
-/

namespace JoinAssembly

variable {ε : Type}

/-- A row that a stream emits for one of its occurrences. -/
structure Entry (ε : Type) where
  source : Occurrence ε
  row : Row ε

variable [DecidableEq ε]

namespace Entry

/-- The row was found for an occurrence of the parent stream. -/
def linksTo (y : Entry ε) (s : StreamIndex) (o : Occurrence ε) : Bool :=
  y.source.node.linksTo s o.cursor.node o.event

omit [DecidableEq ε] in
/-- The row that holds only the event of an occurrence. -/
def seed (w : Nat) (s : StreamIndex) (o : Occurrence ε) : Entry ε :=
  ⟨o, .single w s o.event⟩

/-- Rows of a child with the events written into them that they were found for. -/
def forwarded (m : MatchSets ε) (s : StreamIndex) (ys : List (Entry ε)) : List (Entry ε) :=
  ys.filterMap fun y => (m.linked? s y.source.node).map fun o => ⟨o, y.row.put s o.event⟩

/-- The occurrences that no row of a child was found for. -/
def uncovered (m : MatchSets ε) (s : StreamIndex) (ys : List (Entry ε)) : List (Occurrence ε) :=
  (m.occurrences s).filter fun o => !ys.any fun y => y.linksTo s o

/-- The rows of a child that were found for an occurrence. -/
def rowsLinked (s : StreamIndex) (o : Occurrence ε) (ys : List (Entry ε)) : List (Row ε) :=
  (ys.filter fun y => y.linksTo s o).map (·.row)

/-- The rows of an occurrence, combined from those that the children have for it. -/
def combined (w : Nat) (s : StreamIndex) (children : List (Bool × List (Entry ε)))
    (o : Occurrence ε) : List (Row ε) :=
  Row.combineAll (children.map fun (optional, ys) => (optional, rowsLinked s o ys))
    [.single w s o.event]

lemma combined_eq (w : Nat) (s : StreamIndex) (children : List (Bool × List (Entry ε)))
    (o : Occurrence ε) : combined w s children o
      = Row.combineAll (children.map fun child => (child.1, rowsLinked s o child.2))
          [.single w s o.event] := rfl

/-- The rows that a stream emits: for a leaf one for every occurrence; above one required child the
child's, each with its event written into it; above one optional child the same, and then one for
every occurrence left; above several children the combinations of theirs, occurrence after
occurrence. -/
def emitted (m : MatchSets ε) (w : Nat) (s : StreamIndex) :
    List (Bool × List (Entry ε)) → List (Entry ε)
  | [] => (m.occurrences s).map (seed w s)
  | [(false, ys)] => forwarded m s ys
  | [(true, ys)] => forwarded m s ys ++ (uncovered m s ys).map (seed w s)
  | children => (m.occurrences s).flatMap fun o => (combined w s children o).map fun row => ⟨o, row⟩

lemma emitted_many (m : MatchSets ε) (w : Nat) (s : StreamIndex)
    (a b : Bool × List (Entry ε)) (rest : List (Bool × List (Entry ε))) :
    emitted m w s (a :: b :: rest) = (m.occurrences s).flatMap fun o =>
      (combined w s (a :: b :: rest) o).map fun row => ⟨o, row⟩ := by
  obtain ⟨_ | _, ys⟩ := a <;> rfl

lemma emitted_of_two_le (m : MatchSets ε) (w : Nat) (s : StreamIndex)
    {children : List (Bool × List (Entry ε))} (h : 2 ≤ children.length) :
    emitted m w s children = (m.occurrences s).flatMap fun o =>
      (combined w s children o).map fun row => ⟨o, row⟩ := by
  match children with
  | a :: b :: rest => exact emitted_many m w s a b rest

end Entry

namespace JoinShape

mutual
/-- The rows that the top stream of a shape emits. -/
def entries (m : MatchSets ε) (w : Nat) : JoinShape → List (Entry ε)
  | .node s _ children => Entry.emitted m w s (entriesOfAll m w children)

def entriesOfAll (m : MatchSets ε) (w : Nat) : List JoinShape → List (Bool × List (Entry ε))
  | [] => []
  | c :: rest => (c.optional, entries m w c) :: entriesOfAll m w rest
end

lemma entriesOfAll_eq (m : MatchSets ε) (w : Nat) (shapes : List JoinShape) :
    entriesOfAll m w shapes = shapes.map fun c => (c.optional, entries m w c) := by
  induction shapes with
  | nil => rfl
  | cons c rest ih => rw [entriesOfAll, ih, List.map_cons]

end JoinShape

namespace JoinTree

/-- The emission list of a stream of a tree. -/
def entries (t : JoinTree) (m : MatchSets ε) (s : StreamIndex) : List (Entry ε) :=
  (t.shapeOf s).entries m t.size

lemma Sound.entries_eq {t : JoinTree} (h : t.Sound) (m : MatchSets ε) (s : StreamIndex) :
    t.entries m s = Entry.emitted m t.size s
      ((t.childrenOf s).map fun c => (t.isOptional c, t.entries m c)) := by
  rw [entries, h.shapeOf_eq, JoinShape.entries, JoinShape.entriesOfAll_eq, List.map_map]
  congr 1
  apply List.map_congr_left
  intro c _
  simp only [Function.comp_def, h.optional_shapeOf]
  rfl

end JoinTree

/-! ### What entries are for -/

namespace Entry

variable {m : MatchSets ε} {w : Nat} {s : StreamIndex}

lemma mem_forwarded {ys : List (Entry ε)} {z : Entry ε} : z ∈ forwarded m s ys ↔
    ∃ y ∈ ys, ∃ o ∈ m.occurrences s, y.linksTo s o ∧ z = ⟨o, y.row.put s o.event⟩ := by
  simp only [forwarded, List.mem_filterMap, Option.map_eq_some_iff, MatchSets.linked?_eq_some_iff]
  constructor
  · rintro ⟨y, hy, o, ⟨ho, hlink⟩, rfl⟩
    exact ⟨y, hy, o, ho, hlink, rfl⟩
  · rintro ⟨y, hy, o, ho, hlink, rfl⟩
    exact ⟨y, hy, o, ⟨ho, hlink⟩, rfl⟩

lemma mem_rowsLinked {o : Occurrence ε} {ys : List (Entry ε)} {row : Row ε} :
    row ∈ rowsLinked s o ys ↔ ∃ y ∈ ys, y.linksTo s o ∧ y.row = row := by
  simp [rowsLinked, and_assoc]

/-- Entries are for occurrences of the stream. -/
lemma source_mem_of_emitted {children : List (Bool × List (Entry ε))} {z : Entry ε}
    (hz : z ∈ emitted m w s children) : z.source ∈ m.occurrences s := by
  have hforwarded : ∀ ys, z ∈ forwarded m s ys → z.source ∈ m.occurrences s := by
    intro ys hz
    obtain ⟨y, -, o, ho, -, rfl⟩ := mem_forwarded.mp hz
    exact ho
  simp only [emitted] at hz
  split at hz
  · obtain ⟨o, ho, rfl⟩ := List.mem_map.mp hz
    exact ho
  · exact hforwarded _ hz
  · rcases List.mem_append.mp hz with hz | hz
    · exact hforwarded _ hz
    · obtain ⟨o, ho, rfl⟩ := List.mem_map.mp hz
      exact (List.mem_filter.mp ho).1
  · obtain ⟨o, ho, hz⟩ := List.mem_flatMap.mp hz
    obtain ⟨row, -, rfl⟩ := List.mem_map.mp hz
    exact ho

/-- If the children's rows hold events of some streams only, emitted rows hold events of those and
of the stream itself. -/
lemma over_emitted {α : Type} {optional : α → Bool} {f : α → List (Entry ε)}
    {T : α → List StreamIndex} {l : List α} (hs : s < w)
    (hf : ∀ a ∈ l, ∀ y ∈ f a, y.row.Over w (T a)) {z : Entry ε}
    (hz : z ∈ emitted m w s (l.map fun a => (optional a, f a))) :
    z.row.Over w (s :: l.flatMap T) := by
  have hseed : ∀ o : Occurrence ε, (seed w s o).row.Over w (s :: l.flatMap T) := by
    intro o
    refine (Row.Over.single hs o.event).mono fun x hx => ?_
    exact List.mem_singleton.mp hx ▸ List.mem_cons_self
  have hforwarded : ∀ ys, (∀ y ∈ ys, y.row.Over w (l.flatMap T)) → z ∈ forwarded m s ys →
      z.row.Over w (s :: l.flatMap T) := by
    intro ys hys hz
    obtain ⟨y, hy, o, -, -, rfl⟩ := mem_forwarded.mp hz
    exact (hys y hy).put hs o.event
  simp only [emitted] at hz
  split at hz
  · obtain ⟨o, -, rfl⟩ := List.mem_map.mp hz
    exact hseed o
  · rename_i ys hl
    obtain ⟨a, rfl, ha⟩ := List.map_eq_singleton_iff.mp hl
    obtain ⟨-, rfl⟩ := Prod.mk.inj ha
    refine hforwarded _ (fun y hy => ?_) hz
    simpa using hf a List.mem_cons_self y hy
  · rename_i ys hl
    obtain ⟨a, rfl, ha⟩ := List.map_eq_singleton_iff.mp hl
    obtain ⟨-, rfl⟩ := Prod.mk.inj ha
    rcases List.mem_append.mp hz with hz | hz
    · refine hforwarded _ (fun y hy => ?_) hz
      simpa using hf a List.mem_cons_self y hy
    · obtain ⟨o, -, rfl⟩ := List.mem_map.mp hz
      exact hseed o
  · obtain ⟨o, -, hz⟩ := List.mem_flatMap.mp hz
    obtain ⟨row, hrow, rfl⟩ := List.mem_map.mp hz
    rw [combined, List.map_map] at hrow
    refine Row.over_combineAll (S := [s]) (f := fun a => rowsLinked s o (f a)) l ?_ ?_ row hrow
    · intro a ha row hrow
      obtain ⟨y, hy, -, rfl⟩ := mem_rowsLinked.mp hrow
      exact hf a ha y hy
    · intro row hrow
      exact List.mem_singleton.mp hrow ▸ Row.Over.single hs o.event

end Entry

namespace JoinTree.Sound

variable {t : JoinTree} {m : MatchSets ε}

lemma source_mem (h : t.Sound) {s : StreamIndex} {y : Entry ε} (hy : y ∈ t.entries m s) :
    y.source ∈ m.occurrences s := by
  rw [h.entries_eq] at hy
  exact Entry.source_mem_of_emitted hy

/-- The rows of a stream hold events of the streams below it only. -/
lemma over_below (h : t.Sound) (s : StreamIndex) :
    s < t.size → ∀ y ∈ t.entries m s, y.row.Over t.size (t.below s) := by
  induction s using h.child_induction with
  | step s ih =>
    intro hs y hy
    rw [h.entries_eq] at hy
    rw [h.below_eq]
    exact Entry.over_emitted hs (fun c hc => ih c hc (h.lt_of_mem_childrenOf hc)) hy

end JoinTree.Sound

end JoinAssembly
