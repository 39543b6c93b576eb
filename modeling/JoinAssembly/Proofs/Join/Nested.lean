import JoinAssembly.Proofs.Join.Entries

/-!
# The outer join from the root down

The rows of an outer join, event by event: what was found for an event among the children is
combined with it, and a child for which nothing was found is null or takes the row away. Up to order
these are the rows of the emission lists.
-/

namespace JoinAssembly

variable {ε : Type} [DecidableEq ε]

namespace JoinShape

mutual
/-- The rows of an event in a match node of the top stream of a shape. -/
def joinRows (m : MatchSets ε) (w : Nat) : JoinShape → Nat → ε → List (Row ε)
  | .node s _ children, index, e =>
    Row.combineAll (foundBelow m w s index e children) [.single w s e]

/-- For each branch, the rows of all events that were matched against an event. -/
def foundBelow (m : MatchSets ε) (w : Nat) (s : StreamIndex) (index : Nat) (e : ε) :
    List JoinShape → List (Bool × List (Row ε))
  | [] => []
  | c :: rest =>
    let matched := (m.occurrences c.stream).filter fun o => o.node.linksTo s index e
    (c.optional, matched.flatMap fun o => joinRows m w c o.cursor.node o.event)
      :: foundBelow m w s index e rest
end

lemma foundBelow_eq (m : MatchSets ε) (w : Nat) (s : StreamIndex) (index : Nat) (e : ε)
    (shapes : List JoinShape) :
    foundBelow m w s index e shapes = shapes.map fun c =>
      (c.optional, ((m.occurrences c.stream).filter fun o => o.node.linksTo s index e).flatMap
        fun o => joinRows m w c o.cursor.node o.event) := by
  induction shapes with
  | nil => rfl
  | cons c rest ih => rw [foundBelow, ih, List.map_cons]

end JoinShape

namespace JoinTree

/-- The rows of an event in a match node of a stream: the event alone, combined for each child of
the stream with the rows of what was matched against it. -/
def joinRows (t : JoinTree) (m : MatchSets ε) (s : StreamIndex) (index : Nat) (e : ε) :
    List (Row ε) :=
  (t.shapeOf s).joinRows m t.size index e

/-- The rows of all events of a stream that were matched against an event of the parent stream. -/
def foundFor (t : JoinTree) (m : MatchSets ε) (c s : StreamIndex) (index : Nat) (e : ε) :
    List (Row ε) :=
  ((m.occurrences c).filter fun o => o.node.linksTo s index e).flatMap
    fun o => t.joinRows m c o.cursor.node o.event

/-- The rows of all events of the root. -/
def outerJoin (t : JoinTree) (m : MatchSets ε) : List (Row ε) :=
  (m.occurrences t.root).flatMap fun o => t.joinRows m t.root o.cursor.node o.event

variable {t : JoinTree}

lemma Sound.joinRows_eq (h : t.Sound) (m : MatchSets ε) (s : StreamIndex) (index : Nat) (e : ε) :
    t.joinRows m s index e = Row.combineAll
      ((t.childrenOf s).map fun c => (t.isOptional c, t.foundFor m c s index e))
      [.single t.size s e] := by
  rw [joinRows, h.shapeOf_eq, JoinShape.joinRows, JoinShape.foundBelow_eq, List.map_map]
  congr 1
  apply List.map_congr_left
  intro c _
  simp only [Function.comp_def, h.optional_shapeOf, h.stream_shapeOf]
  rfl

end JoinTree

/-! ### Entries by what they are for -/

lemma flatMap_ite_nil {α β : Type} (p : α → Bool) (f : α → List β) (l : List α) :
    (l.flatMap fun a => if p a then f a else []) = (l.filter p).flatMap f := by
  induction l with
  | nil => rfl
  | cons a rest ih =>
    rw [List.flatMap_cons, ih]
    by_cases ha : p a
    · rw [if_pos ha, List.filter_cons_of_pos ha, List.flatMap_cons]
    · rw [if_neg ha, List.filter_cons_of_neg ha, List.nil_append]

namespace Entry

/-- The rows of entries that are for an occurrence. -/
def rowsFor (ys : List (Entry ε)) (o : Occurrence ε) : List (Row ε) :=
  (ys.filter fun y => decide (y.source.cursor = o.cursor)).map (·.row)

omit [DecidableEq ε] in
lemma rowsFor_append (ys zs : List (Entry ε)) (o : Occurrence ε) :
    rowsFor (ys ++ zs) o = rowsFor ys o ++ rowsFor zs o := by
  rw [rowsFor, List.filter_append, List.map_append]
  rfl

omit [DecidableEq ε] in
/-- Entries are, up to order, the entries for one occurrence after those for another. -/
lemma perm_flatMap_filter {os : List (Occurrence ε)} (hnodup : (os.map (·.cursor)).Nodup) :
    ∀ ys : List (Entry ε), (∀ y ∈ ys, y.source.cursor ∈ os.map (·.cursor)) →
      ys.Perm (os.flatMap fun o => ys.filter fun y => decide (y.source.cursor = o.cursor)) := by
  induction os with
  | nil =>
    intro ys hys
    have hnil : ys = [] :=
      List.eq_nil_iff_forall_not_mem.mpr fun y hy => absurd (hys y hy) List.not_mem_nil
    rw [hnil]
    exact .nil
  | cons o rest ih =>
    intro ys hys
    obtain ⟨ho, hrest⟩ := List.nodup_cons.mp hnodup
    have hothers : ∀ y ∈ ys.filter (fun y => !decide (y.source.cursor = o.cursor)),
        y.source.cursor ∈ rest.map (·.cursor) := by
      intro y hy
      obtain ⟨hy, hne⟩ := List.mem_filter.mp hy
      rcases List.mem_cons.mp (hys y hy) with heq | hmem
      · simp [heq] at hne
      · exact hmem
    have hsame : ∀ o' ∈ rest,
        (ys.filter fun y => !decide (y.source.cursor = o.cursor)).filter
            (fun y => decide (y.source.cursor = o'.cursor))
          = ys.filter fun y => decide (y.source.cursor = o'.cursor) := by
      intro o' ho'
      rw [List.filter_filter]
      apply List.filter_congr
      intro y _
      by_cases heq : y.source.cursor = o'.cursor
      · have hne : ¬ o'.cursor = o.cursor := by
          intro h
          exact ho (List.mem_map.mpr ⟨o', ho', h⟩)
        simp [heq, hne]
      · simp [heq]
    have hsplit := List.filter_append_perm (fun y => decide (y.source.cursor = o.cursor)) ys
    rw [List.flatMap_cons]
    refine hsplit.symm.trans (List.Perm.append_left _ ((ih hrest _ hothers).trans ?_))
    rw [List.flatMap_congr hsame]

variable {m : MatchSets ε} {s : StreamIndex} {w : Nat}

omit [DecidableEq ε] in
lemma filter_cursor_eq {o : Occurrence ε} (ho : o ∈ m.occurrences s) :
    (m.occurrences s).filter (fun x => decide (x.cursor = o.cursor)) = [o] := by
  have hnodup := (m.nodup_occurrences s).filter fun x => decide (x.cursor = o.cursor)
  have hmem : ∀ x,
      x ∈ (m.occurrences s).filter (fun x => decide (x.cursor = o.cursor)) ↔ x = o := by
    intro x
    rw [List.mem_filter, decide_eq_true_eq]
    constructor
    · rintro ⟨hx, heq⟩
      exact MatchSets.eq_of_cursor_eq hx ho heq
    · rintro rfl
      exact ⟨ho, rfl⟩
  generalize (m.occurrences s).filter (fun x => decide (x.cursor = o.cursor)) = found at hnodup hmem
  cases found with
  | nil => exact absurd ((hmem o).mpr rfl) List.not_mem_nil
  | cons x rest =>
    have hx : x = o := (hmem x).mp List.mem_cons_self
    cases rest with
    | nil => rw [hx]
    | cons y more =>
      have hy : y = o := (hmem y).mp (List.mem_cons_of_mem _ List.mem_cons_self)
      rw [hx, hy] at hnodup
      exact absurd List.mem_cons_self (List.nodup_cons.mp hnodup).1

omit [DecidableEq ε] in
/-- Seeds for some occurrences, one of which may be the one asked for. -/
lemma rowsFor_map_seed {o : Occurrence ε} (ho : o ∈ m.occurrences s) (p : Occurrence ε → Bool) :
    rowsFor (((m.occurrences s).filter p).map (seed w s)) o
      = if p o then [Row.single w s o.event] else [] := by
  have hswap : ((m.occurrences s).filter p).filter (fun x => decide (x.cursor = o.cursor))
      = [o].filter p := by
    rw [List.filter_comm, filter_cursor_eq ho]
  have hfor : (((m.occurrences s).filter p).map (seed w s)).filter
      (fun y => decide (y.source.cursor = o.cursor)) = ([o].filter p).map (seed w s) := by
    rw [List.filter_map]
    exact congrArg (List.map (seed w s)) hswap
  rw [rowsFor, hfor]
  by_cases hp : p o
  · rw [if_pos hp, List.filter_cons_of_pos hp]
    rfl
  · rw [if_neg hp, List.filter_cons_of_neg hp]
    rfl

/-- What is made of entries by the occurrences that they link to, for one occurrence. -/
lemma filter_linked {β : Type} {o : Occurrence ε} (ho : o ∈ m.occurrences s)
    (make : Occurrence ε → Entry ε → β) (cursor : β → Cursor)
    (hcursor : ∀ o y, cursor (make o y) = o.cursor) (ys : List (Entry ε)) :
    (ys.filterMap fun y => (m.linked? s y.source.node).map fun x => make x y).filter
        (fun b => decide (cursor b = o.cursor))
      = (ys.filter fun y => y.linksTo s o).map (make o) := by
  induction ys with
  | nil => rfl
  | cons y rest ih =>
    have hlink : y.linksTo s o ↔ m.linked? s y.source.node = some o :=
      ⟨fun h => MatchSets.linked?_eq_some_iff.mpr ⟨ho, h⟩,
        fun h => (MatchSets.linked?_eq_some_iff.mp h).2⟩
    cases hfound : m.linked? s y.source.node with
    | none =>
      have hno : ¬ y.linksTo s o := by
        intro hy
        cases hfound.symm.trans (hlink.mp hy)
      rw [List.filterMap_cons_none (by rw [hfound]; rfl), List.filter_cons_of_neg (by exact hno)]
      exact ih
    | some o' =>
      rw [List.filterMap_cons_some (by rw [hfound]; rfl)]
      by_cases heq : o'.cursor = o.cursor
      · have ho' := (MatchSets.linked?_eq_some_iff.mp hfound).1
        have hsame : o' = o := MatchSets.eq_of_cursor_eq ho' ho heq
        rw [hsame] at hfound ⊢
        rw [List.filter_cons_of_pos (by simp [hcursor]),
          List.filter_cons_of_pos (by exact hlink.mpr hfound), List.map_cons, ih]
      · have hno : ¬ y.linksTo s o := by
          intro hy
          have hsame := Option.some.inj (hfound.symm.trans (hlink.mp hy))
          exact heq (congrArg (·.cursor) hsame)
        rw [List.filter_cons_of_neg (by simpa [hcursor] using heq),
          List.filter_cons_of_neg (by exact hno)]
        exact ih

/-- What is forwarded for an occurrence is what is linked to it. -/
lemma rowsFor_forwarded {o : Occurrence ε} (ho : o ∈ m.occurrences s) (ys : List (Entry ε)) :
    rowsFor (forwarded m s ys) o = (rowsLinked s o ys).map fun row => row.put s o.event := by
  have hfor := filter_linked ho (fun x y => (⟨x, y.row.put s x.event⟩ : Entry ε))
    (fun y => y.source.cursor) (fun _ _ => rfl) ys
  rw [rowsFor, forwarded, hfor, rowsLinked, List.map_map, List.map_map]
  rfl

omit [DecidableEq ε] in
/-- Writing an event into rows is combining it with them. -/
lemma map_put_eq {e : ε} {rows : List (Row ε)} (hs : s < w) (hrows : ∀ row ∈ rows, row.width = w) :
    rows.map (fun row => row.put s e) = rows.map (Row.single w s e).overlay := by
  apply List.map_congr_left
  intro row hrow
  have hw := hrows row hrow
  rw [← hw, Row.single_overlay (by rw [hw]; exact hs)]

/-- Whatever the children of a stream are, its rows for an occurrence are those combined from what
is linked to it. -/
lemma rowsFor_emitted (children : List (Bool × List (Entry ε))) {o : Occurrence ε} (hs : s < w)
    (hwidth : ∀ child ∈ children, ∀ y ∈ child.2, y.row.width = w) (ho : o ∈ m.occurrences s) :
    rowsFor (emitted m w s children) o = combined w s children o := by
  have hlinked : ∀ child ∈ children, ∀ row ∈ rowsLinked s o child.2, row.width = w := by
    intro child hchild row hrow
    obtain ⟨y, hy, -, rfl⟩ := mem_rowsLinked.mp hrow
    exact hwidth child hchild y hy
  simp only [emitted]
  split
  · have hall := rowsFor_map_seed (w := w) ho fun _ => true
    rw [List.filter_true] at hall
    exact hall
  · rename_i ys
    have hput := map_put_eq (e := o.event) hs (hlinked (false, ys) List.mem_cons_self)
    rw [rowsFor_forwarded ho, hput, combined, List.map_singleton, Row.combineAll_required]
    simp
  · rename_i ys
    have hput := map_put_eq (e := o.event) hs (hlinked (true, ys) List.mem_cons_self)
    rw [rowsFor_append, rowsFor_forwarded ho, uncovered, rowsFor_map_seed ho, hput, combined,
      List.map_singleton]
    by_cases hnone : rowsLinked s o ys = []
    · have hfree : (ys.any fun y => y.linksTo s o) = false := by
        rw [List.any_eq_false]
        intro y hy hlink
        have hmem := mem_rowsLinked.mpr ⟨y, hy, hlink, rfl⟩
        rw [hnone] at hmem
        exact absurd hmem List.not_mem_nil
      simp [hnone, hfree, Row.combineAll]
    · have hcovered : (ys.any fun y => y.linksTo s o) = true := by
        obtain ⟨row, hrow⟩ := List.exists_mem_of_ne_nil _ hnone
        obtain ⟨y, hy, hlink, -⟩ := mem_rowsLinked.mp hrow
        exact List.any_eq_true.mpr ⟨y, hy, hlink⟩
      rw [Row.combineAll_found hnone]
      simp [hcovered, Row.combineAll]
  · have hone : ∀ x : Occurrence ε,
        ((combined w s children x).map fun row => (⟨x, row⟩ : Entry ε)).filter
            (fun y => decide (y.source.cursor = o.cursor))
          = if x.cursor = o.cursor then (combined w s children x).map (⟨x, ·⟩) else [] := by
      intro x
      by_cases heq : x.cursor = o.cursor <;> simp [List.filter_map, Function.comp_def, heq]
    rw [rowsFor, List.filter_flatMap]
    simp only [hone]
    have hpick := flatMap_ite_nil (fun x => decide (x.cursor = o.cursor))
      (fun x => (combined w s children x).map fun row => (⟨x, row⟩ : Entry ε)) (m.occurrences s)
    simp only [decide_eq_true_eq] at hpick
    rw [hpick, filter_cursor_eq ho]
    simp [Function.comp_def]

end Entry

/-! ### Both ways give the same rows -/

namespace JoinTree.Sound

variable {t : JoinTree} {m : MatchSets ε}

/-- The entries of a stream, sorted by what they are for. -/
lemma perm_rowsFor (h : t.Sound) (s : StreamIndex) :
    ((t.entries m s).map (·.row)).Perm
      ((m.occurrences s).flatMap (Entry.rowsFor (t.entries m s))) := by
  have hperm := Entry.perm_flatMap_filter (m.nodup_cursors s) (t.entries m s)
    fun y hy => List.mem_map_of_mem (h.source_mem hy)
  have hrows := hperm.map (·.row)
  rw [List.map_flatMap] at hrows
  exact hrows

/-- What is linked to an occurrence, sorted by what it is for. -/
lemma perm_rowsLinked (h : t.Sound) (c s : StreamIndex) (o : Occurrence ε) :
    (Entry.rowsLinked s o (t.entries m c)).Perm
      (((m.occurrences c).filter fun x => x.node.linksTo s o.cursor.node o.event).flatMap
        (Entry.rowsFor (t.entries m c))) := by
  have hperm := (Entry.perm_flatMap_filter (m.nodup_cursors c) (t.entries m c)
    fun y hy => List.mem_map_of_mem (h.source_mem hy)).filter fun y => y.linksTo s o
  have hlinked : ∀ x ∈ m.occurrences c,
      ((t.entries m c).filter fun y => decide (y.source.cursor = x.cursor)).filter
          (fun y => y.linksTo s o)
        = if x.node.linksTo s o.cursor.node o.event
          then (t.entries m c).filter fun y => decide (y.source.cursor = x.cursor) else [] := by
    intro x hx
    have hsame : ∀ y ∈ (t.entries m c).filter (fun y => decide (y.source.cursor = x.cursor)),
        y.linksTo s o = x.node.linksTo s o.cursor.node o.event := by
      intro y hy
      obtain ⟨hy, heq⟩ := List.mem_filter.mp hy
      rw [Entry.linksTo, MatchSets.eq_of_cursor_eq (h.source_mem hy) hx (of_decide_eq_true heq)]
    rw [List.filter_congr hsame]
    cases x.node.linksTo s o.cursor.node o.event <;> simp
  rw [List.filter_flatMap, List.flatMap_congr hlinked, flatMap_ite_nil] at hperm
  have hrows := hperm.map (·.row)
  rw [List.map_flatMap] at hrows
  exact hrows

/-- For every occurrence a stream emits the rows that the join has for its event. -/
lemma rowsFor_perm_joinRows (h : t.Sound) (s : StreamIndex) :
    s < t.size → ∀ o ∈ m.occurrences s,
      (Entry.rowsFor (t.entries m s) o).Perm (t.joinRows m s o.cursor.node o.event) := by
  induction s using h.child_induction with
  | step s ih =>
    intro hs o ho
    have hemitted := Entry.rowsFor_emitted (m := m) (o := o)
      ((t.childrenOf s).map fun c => (t.isOptional c, t.entries m c)) hs
      (fun child hchild y hy => by
        obtain ⟨c, hc, rfl⟩ := List.mem_map.mp hchild
        exact (h.over_below c (h.lt_of_mem_childrenOf hc) y hy).width_eq) ho
    rw [← h.entries_eq, Entry.combined, List.map_map] at hemitted
    rw [hemitted, h.joinRows_eq]
    apply Row.combineAll_perm (t.childrenOf s) _ (.refl _)
    intro c hc
    refine (h.perm_rowsLinked c s o).trans (List.Perm.flatMap_left _ fun x hx => ?_)
    exact ih c hc (h.lt_of_mem_childrenOf hc) x (List.mem_filter.mp hx).1

/-- The emission list of the root holds the rows of the outer join. -/
lemma entries_perm_outerJoin (h : t.Sound) :
    ((t.entries m t.root).map (·.row)).Perm (t.outerJoin m) :=
  (h.perm_rowsFor t.root).trans
    (List.Perm.flatMap_left _ (h.rowsFor_perm_joinRows t.root h.root_lt))

end JoinTree.Sound

end JoinAssembly
