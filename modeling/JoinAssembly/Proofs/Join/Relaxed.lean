import JoinAssembly.Proofs.Join.Distinct

/-!
# Required and optional streams

A required stream leaves out the rows in which nothing was found for it. Where all streams above it
are required as well, nothing else sets it apart from an optional one.
-/

namespace JoinAssembly

variable {ε : Type}

/-- The tree in which a stream is optional and all else is as it was. -/
def JoinTree.relaxed (t : JoinTree) (c : StreamIndex) : JoinTree :=
  { t with nodes := t.nodes.modify c fun n => { n with optional := true } }

namespace JoinTree

variable (t : JoinTree) (c : StreamIndex)

lemma node?_relaxed (s : StreamIndex) : (t.relaxed c).node? s =
    (t.node? s).map fun n => if c = s then { n with optional := true } else n := by
  rw [node?, relaxed, List.getElem?_modify]
  rfl

@[simp] lemma size_relaxed : (t.relaxed c).size = t.size := by simp [size, relaxed]

@[simp] lemma parent?_relaxed (s : StreamIndex) : (t.relaxed c).parent? s = t.parent? s := by
  rw [parent?, node?_relaxed, parent?]
  cases t.node? s with
  | none => rfl
  | some n => by_cases hs : c = s <;> simp [hs]

@[simp] lemma childrenOf_relaxed (s : StreamIndex) :
    (t.relaxed c).childrenOf s = t.childrenOf s := by
  rw [childrenOf, node?_relaxed, childrenOf]
  cases t.node? s with
  | none => rfl
  | some n => by_cases hs : c = s <;> simp [hs]

lemma isOptional_relaxed {s : StreamIndex} (hs : s ≠ c) :
    (t.relaxed c).isOptional s = t.isOptional s := by
  rw [isOptional, node?_relaxed, isOptional]
  cases t.node? s with
  | none => rfl
  | some n => simp [Ne.symm hs]

end JoinTree

/-! ### Combining with one child that matters -/

namespace Row

/-- The rows of children whose slot of a stream is null do not matter for picking the rows in which
it is not. -/
lemma filter_combineAll_null {w : Nat} {c : StreamIndex} (l : List (Bool × List (Row ε)))
    {rows : List (Row ε)} (hrows : ∀ row ∈ rows, row.width = w)
    (hl : ∀ child ∈ l, ∀ x ∈ child.2, x.width = w ∧ x.isNull c) :
    (combineAll l rows).filter (fun row => !row.isNull c)
      = combineAll l (rows.filter fun row => !row.isNull c) := by
  apply filter_combineAll (fun row => !row.isNull c) l hrows
  intro child hchild x hx row hrow
  obtain ⟨hwidth, hnull⟩ := hl child hchild x hx
  have heq : row.width = x.width := hrow.trans hwidth.symm
  rw [width_overlay heq, isNull_overlay heq, hnull, Bool.and_true]
  exact ⟨hrow, rfl⟩

/-- For one child alone it makes no difference whether it is optional, once the rows are left out in
which the slot of a stream is null that only the child fills. -/
lemma filter_combineAll_single {w : Nat} {c : StreamIndex} {rows : List (Row ε)} (optional : Bool)
    (found : List (Row ε)) (hrows : ∀ row ∈ rows, row.width = w ∧ row.isNull c)
    (hfound : ∀ x ∈ found, x.width = w) :
    (combineAll [(optional, found)] rows).filter (fun row => !row.isNull c)
      = combineAll [(false, found.filter fun row => !row.isNull c)] rows := by
  rw [combineAll_required]
  by_cases hnone : found = []
  · rw [hnone, combineAll]
    have hleft : rows.filter (fun row => !row.isNull c) = [] :=
      List.filter_eq_nil_iff.mpr fun row hrow => by simp [(hrows row hrow).2]
    have hright : (rows.flatMap fun row =>
        ([].filter fun row => !row.isNull c).map row.overlay) = [] :=
      List.flatMap_eq_nil_iff.mpr fun _ _ => rfl
    rw [hright]
    cases optional with
    | true => exact hleft
    | false => rfl
  · rw [combineAll_found hnone, combineAll, List.filter_flatMap]
    apply List.flatMap_congr
    intro row hrow
    obtain ⟨hwidth, hnull⟩ := hrows row hrow
    rw [List.filter_map]
    congr 1
    apply List.filter_congr
    intro x hx
    rw [Function.comp_apply, isNull_overlay (hwidth.trans (hfound x hx).symm), hnull,
      Bool.true_and]

/-- If one child alone fills the slot of a stream, the combined rows that hold an event there are
those combined from the rows of the child that do, with the child required. -/
lemma filter_combineAll_child {w : Nat} {c : StreamIndex}
    {before after : List (Bool × List (Row ε))} {rows : List (Row ε)} (optional : Bool)
    (found : List (Row ε)) (hrows : ∀ row ∈ rows, row.width = w ∧ row.isNull c)
    (hothers : ∀ child ∈ before ++ after, ∀ x ∈ child.2, x.width = w ∧ x.isNull c)
    (hfound : ∀ x ∈ found, x.width = w) :
    (combineAll (before ++ (optional, found) :: after) rows).filter (fun row => !row.isNull c)
      = combineAll (before ++ (false, found.filter fun row => !row.isNull c) :: after) rows := by
  have hbefore : ∀ row ∈ combineAll before rows, row.width = w ∧ row.isNull c := by
    have hall : ∀ row ∈ combineAll (before.map fun child => (child.1, child.2)) rows,
        row.width = w ∧ row.isNull c := by
      apply forall_combineAll before hrows
      rintro child hchild x hx row ⟨hw, hn⟩
      obtain ⟨hwidth, hnull⟩ := hothers child (List.mem_append_left after hchild) x hx
      have heq : row.width = x.width := hw.trans hwidth.symm
      rw [width_overlay heq, isNull_overlay heq, hn, hnull]
      exact ⟨hw, rfl⟩
    simpa using hall
  have hwidth : ∀ row ∈ combineAll [(optional, found)] (combineAll before rows),
      row.width = w := by
    have hall : ∀ row ∈ combineAll ([(optional, found)].map fun child => (child.1, child.2))
        (combineAll before rows), row.width = w := by
      apply forall_combineAll [(optional, found)] fun row hrow => (hbefore row hrow).1
      intro child hchild x hx row hrow
      rw [List.mem_singleton.mp hchild] at hx
      rw [width_overlay (hrow.trans (hfound x hx).symm), hrow]
    exact hall
  have hsplit : ∀ child : Bool × List (Row ε), combineAll (before ++ child :: after) rows
      = combineAll after (combineAll [child] (combineAll before rows)) := by
    intro child
    rw [← combineAll_append, ← combineAll_append]
    rfl
  rw [hsplit, hsplit, filter_combineAll_null after hwidth,
    filter_combineAll_single _ _ hbefore hfound]
  exact fun child hchild => hothers child (List.mem_append_right before hchild)

end Row

variable [DecidableEq ε]

namespace Entry

variable {m : MatchSets ε} {w : Nat} {s c : StreamIndex}

lemma filter_forwarded (hc : c ≠ s) (hs : s < w) (ys : List (Entry ε))
    (hys : ∀ y ∈ ys, y.row.width = w) :
    (forwarded m s ys).filter (fun z => !z.row.isNull c)
      = forwarded m s (ys.filter fun y => !y.row.isNull c) := by
  rw [forwarded, forwarded, List.filter_filterMap, List.filterMap_filter]
  apply List.filterMap_congr
  intro y hy
  have hnull : ∀ e : ε, (y.row.put s e).isNull c = y.row.isNull c :=
    Row.isNull_put (by rw [hys y hy]; exact hs) hc
  cases m.linked? s y.source.node with
  | none => simp
  | some o => cases hn : y.row.isNull c <;> simp [Option.filter, hnull, hn]

lemma rowsLinked_filter (o : Occurrence ε) (ys : List (Entry ε)) (keep : Row ε → Bool) :
    rowsLinked s o (ys.filter fun y => keep y.row) = (rowsLinked s o ys).filter keep := by
  rw [rowsLinked, rowsLinked, List.filter_map, List.filter_comm]
  rfl

/-- Two lists of the children of a stream that differ in one child, the only one whose rows may fill
the slot of another stream. In the second list it is required and has only the rows that do. -/
structure Narrowed (w : Nat) (c : StreamIndex) (children narrowed : List (Bool × List (Entry ε))) :
    Prop where
  width_eq : ∀ child ∈ children, ∀ y ∈ child.2, y.row.width = w
  split : ∃ before optional ys after, children = before ++ (optional, ys) :: after ∧
    narrowed = before ++ (false, ys.filter fun y => !y.row.isNull c) :: after ∧
    ∀ child ∈ before ++ after, ∀ y ∈ child.2, y.row.isNull c

variable {children narrowed : List (Bool × List (Entry ε))}

lemma combined_narrowed (h : Narrowed w c children narrowed) (hs : s < w) (hc : c ≠ s)
    (o : Occurrence ε) :
    combined w s narrowed o = (combined w s children o).filter fun row => !row.isNull c := by
  obtain ⟨hwidth, before, optional, ys, after, rfl, rfl, hnull⟩ := h
  have hlinked : ∀ child ∈ before ++ (optional, ys) :: after, ∀ x ∈ rowsLinked s o child.2,
      x.width = w := by
    intro child hchild x hx
    obtain ⟨y, hy, -, rfl⟩ := mem_rowsLinked.mp hx
    exact hwidth child hchild y hy
  have hothers : ∀ child ∈ before.map (fun child => (child.1, rowsLinked s o child.2))
      ++ after.map (fun child => (child.1, rowsLinked s o child.2)),
      ∀ x ∈ child.2, x.width = w ∧ x.isNull c := by
    rw [← List.map_append, List.forall_mem_map]
    intro child hchild x hx
    have hmem : child ∈ before ++ (optional, ys) :: after := by
      rcases List.mem_append.mp hchild with h | h
      · exact List.mem_append_left _ h
      · exact List.mem_append_right _ (List.mem_cons_of_mem _ h)
    refine ⟨hlinked child hmem x hx, ?_⟩
    obtain ⟨y, hy, -, rfl⟩ := mem_rowsLinked.mp hx
    exact hnull child hchild y hy
  have hseed : ∀ row ∈ [Row.single w s o.event], row.width = w ∧ row.isNull c := by
    intro row hrow
    rw [List.mem_singleton.mp hrow, Row.isNull, Row.get?_single hs, if_neg hc]
    exact ⟨Row.width_single w s o.event, rfl⟩
  have hys := hlinked (optional, ys) (List.mem_append_right _ List.mem_cons_self)
  rw [combined_eq, combined_eq, List.map_append, List.map_append, List.map_cons, List.map_cons,
    Row.filter_combineAll_child optional (rowsLinked s o ys) hseed hothers hys,
    ← rowsLinked_filter o ys fun row => !row.isNull c]

/-- If one child alone fills the slot of another stream, the rows that a stream emits and that hold
an event there are those that it emits with the child required and left with such rows. -/
lemma emitted_narrowed (h : Narrowed w c children narrowed) (hs : s < w) (hc : c ≠ s) :
    emitted m w s narrowed = (emitted m w s children).filter fun z => !z.row.isNull c := by
  have hcombined := combined_narrowed h hs hc
  obtain ⟨hwidth, before, optional, ys, after, rfl, rfl, hnull⟩ := h
  by_cases hone : before = [] ∧ after = []
  · obtain ⟨rfl, rfl⟩ := hone
    have hforwarded := filter_forwarded (m := m) hc hs ys fun y hy =>
      hwidth (optional, ys) List.mem_cons_self y hy
    cases optional with
    | false => exact hforwarded.symm
    | true =>
      have hseeds : ((uncovered m s ys).map (seed w s)).filter (fun z => !z.row.isNull c) = [] := by
        rw [List.filter_eq_nil_iff]
        intro z hz
        obtain ⟨o, -, rfl⟩ := List.mem_map.mp hz
        simp [seed, Row.isNull, Row.get?_single hs, hc]
      have hsplit : emitted m w s [(true, ys)]
          = forwarded m s ys ++ (uncovered m s ys).map (seed w s) := rfl
      rw [List.nil_append, List.nil_append, hsplit, List.filter_append, hforwarded, hseeds,
        List.append_nil]
      rfl
  · have hlength : 2 ≤ before.length + (after.length + 1) := by
      rw [← List.length_eq_zero_iff, ← List.length_eq_zero_iff] at hone
      omega
    rw [emitted_of_two_le m w s (by simpa using hlength),
      emitted_of_two_le m w s (by simpa using hlength), List.filter_flatMap]
    apply List.flatMap_congr
    intro o _
    rw [hcombined, List.filter_map]
    rfl

end Entry

/-! ### One stream required or optional -/

namespace JoinTree.Sound

variable {t : JoinTree} {m : MatchSets ε} {c : StreamIndex}

/-- A stream emits the same rows if a stream that is not below its children becomes optional. -/
lemma entries_relaxed_of_not_mem (h : t.Sound) (h' : (t.relaxed c).Sound) (s : StreamIndex) :
    (∀ d ∈ t.childrenOf s, c ∉ t.below d) → (t.relaxed c).entries m s = t.entries m s := by
  induction s using h.child_induction with
  | step s ih =>
    intro hapart
    rw [h.entries_eq, h'.entries_eq, t.size_relaxed, t.childrenOf_relaxed]
    congr 1
    apply List.map_congr_left
    intro d hd
    have hne : d ≠ c := fun heq => hapart d hd (heq ▸ h.mem_below_self d)
    rw [t.isOptional_relaxed c hne, ih d hd]
    exact fun e he hc => hapart d hd (h.mem_below_of_child he hc)

/-- Above one child that holds a stream below it, only this child's rows fill the stream's slot. -/
lemma narrowed_relaxed (h : t.Sound) (h' : (t.relaxed c).Sound) {s d : StreamIndex}
    (hd : d ∈ t.childrenOf s) (hcd : c ∈ t.below d) (hrequired : t.isOptional d = false)
    (hentries : t.entries m d = ((t.relaxed c).entries m d).filter fun y => !y.row.isNull c) :
    Entry.Narrowed t.size c
      ((t.childrenOf s).map fun d => ((t.relaxed c).isOptional d, (t.relaxed c).entries m d))
      ((t.childrenOf s).map fun d => (t.isOptional d, t.entries m d)) := by
  obtain ⟨before, after, hsplit⟩ := List.mem_iff_append.mp hd
  have hnodup : (before ++ d :: after).Nodup := hsplit ▸ h.nodup_childrenOf s
  -- The other children have nothing to do with the stream.
  have hothers : ∀ x ∈ before ++ after, x ∈ t.childrenOf s ∧ c ∉ t.below x := by
    intro x hx
    have hne : d ≠ x := fun heq => (List.nodup_middle.mp hnodup).notMem (heq ▸ hx)
    have hmem : x ∈ t.childrenOf s := by
      rw [hsplit]
      exact List.perm_middle.symm.subset (List.mem_cons_of_mem d hx)
    exact ⟨hmem, h.not_mem_below_sibling hd hmem hne hcd⟩
  have hsame : ∀ x ∈ before ++ after, (t.isOptional x, t.entries m x)
      = ((t.relaxed c).isOptional x, (t.relaxed c).entries m x) := by
    intro x hx
    have hcx := (hothers x hx).2
    have hne : x ≠ c := fun heq => hcx (heq ▸ h.mem_below_self x)
    rw [t.isOptional_relaxed c hne, h.entries_relaxed_of_not_mem h' x]
    exact fun e he hce => hcx (h.mem_below_of_child he hce)
  constructor
  · rw [List.forall_mem_map]
    intro x hx y hy
    have hlt : x < (t.relaxed c).size := by simpa using h.lt_of_mem_childrenOf hx
    simpa using (h'.over_below x hlt y hy).width_eq
  · refine ⟨before.map fun x => (t.isOptional x, t.entries m x), (t.relaxed c).isOptional d,
      (t.relaxed c).entries m d, after.map fun x => (t.isOptional x, t.entries m x), ?_, ?_, ?_⟩
    · rw [hsplit, List.map_append, List.map_cons]
      rw [List.map_congr_left fun x hx => hsame x (List.mem_append_left _ hx),
        List.map_congr_left fun x hx => hsame x (List.mem_append_right _ hx)]
    · rw [hsplit, List.map_append, List.map_cons, hrequired, hentries]
    · rw [← List.map_append, List.forall_mem_map]
      intro x hx y hy
      obtain ⟨hmem, hcx⟩ := hothers x hx
      exact (h.over_below x (h.lt_of_mem_childrenOf hmem) y hy).isNull_of_not_mem hcx

/-- If a stream and all streams above it but the root are required, then of the rows emitted with
the stream optional those are emitted in which it is not null. -/
lemma entries_relaxed (h : t.Sound) (h' : (t.relaxed c).Sound) (hc : c < t.size)
    (hrequired : ∀ s, s ≠ t.root → c ∈ t.below s → t.isOptional s = false) (s : StreamIndex) :
    c ∈ t.below s →
      t.entries m s = ((t.relaxed c).entries m s).filter fun y => !y.row.isNull c := by
  induction s using h.child_induction with
  | step s ih =>
    intro hcs
    by_cases heq : c = s
    · subst heq
      rw [h.entries_relaxed_of_not_mem h' c fun d hd => h.not_mem_below_child hd,
        List.filter_eq_self.mpr]
      intro y hy
      rw [Row.isNull, h.get?_of_mem_entries hc hy]
      rfl
    · rw [h.below_eq] at hcs
      obtain ⟨d, hd, hcd⟩ := List.mem_flatMap.mp ((List.mem_cons.mp hcs).resolve_left heq)
      have hp := h.parent_of_mem_childrenOf hd
      have hnarrowed := h.narrowed_relaxed h' hd hcd
        (hrequired d (h.ne_root_of_parent hp) hcd) (ih d hd hcd)
      rw [h.entries_eq, h'.entries_eq, t.size_relaxed, t.childrenOf_relaxed]
      exact Entry.emitted_narrowed hnarrowed (h.parent_lt hp) heq

end JoinTree.Sound

end JoinAssembly
