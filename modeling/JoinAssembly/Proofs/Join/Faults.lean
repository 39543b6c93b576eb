import JoinAssembly.Proofs.Join.Nested
import JoinAssembly.Proofs.JoinNode.Settle

/-!
# Faulty links

A match node can fail to link to its parent in five ways, and each has an error that names it. A
pass meets the fault only if a row of the match node is on its way.
-/

namespace JoinAssembly

variable {ε : Type} [DecidableEq ε]

namespace JoinTree

omit [DecidableEq ε] in
/-- A match node of a stream has a faulty link, which an error names. -/
inductive Fault (t : JoinTree) (m : MatchSets ε) (s : StreamIndex) (index : Nat) :
    AssemblyError → Prop where
  | rootLinked {node : MatchNode ε} {link : ParentLink ε} (hnode : m.node? ⟨s, index⟩ = some node)
      (hroot : s = t.root) (hlink : node.parent = some link) :
      Fault t m s index (.rootLinked s index)
  | notLinked {node : MatchNode ε} (hnode : m.node? ⟨s, index⟩ = some node)
      (hroot : s ≠ t.root) (hlink : node.parent = none) :
      Fault t m s index (.notLinked s index)
  | linkedElsewhere {node : MatchNode ε} {link : ParentLink ε} {p : StreamIndex}
      (hnode : m.node? ⟨s, index⟩ = some node) (hparent : t.parent? s = some p)
      (hlink : node.parent = some link) (helsewhere : link.place.stream ≠ p) :
      Fault t m s index (.linkedElsewhere s p link.place.stream)
  | noMatchNode {node : MatchNode ε} {link : ParentLink ε} {p : StreamIndex}
      (hnode : m.node? ⟨s, index⟩ = some node) (hparent : t.parent? s = some p)
      (hlink : node.parent = some link) (hplace : link.place.stream = p)
      (hmissing : m.node? link.place = none) :
      Fault t m s index (.noMatchNode p link.place.index)
  | eventNotHeld {node target : MatchNode ε} {link : ParentLink ε} {p : StreamIndex}
      (hnode : m.node? ⟨s, index⟩ = some node) (hparent : t.parent? s = some p)
      (hlink : node.parent = some link) (hplace : link.place.stream = p)
      (htarget : m.node? link.place = some target) (hevent : link.event ∉ target.events.toList) :
      Fault t m s index (.eventNotHeld p link.place.index)

/-- The join has rows for an event of a match node. -/
def Live (t : JoinTree) (m : MatchSets ε) (s : StreamIndex) (index : Nat) : Prop :=
  ∃ node, m.node? ⟨s, index⟩ = some node ∧ ∃ e ∈ node.events.toList, t.joinRows m s index e ≠ []

variable {t : JoinTree} {m : MatchSets ε}

/-- A match node is live when its stream emits rows for it. -/
lemma Sound.live_iff (h : t.Sound) {s : StreamIndex} (hs : s < t.size) {index : Nat} :
    t.Live m s index ↔ ∃ y ∈ t.entries m s, y.source.cursor.node = index := by
  constructor
  · rintro ⟨node, hnode, e, he, hrows⟩
    obtain ⟨position, ho⟩ := MatchSets.exists_occurrence hnode he
    have hperm := h.rowsFor_perm_joinRows s hs _ ho
    have hne : Entry.rowsFor (t.entries m s) ⟨⟨index, position⟩, node, e⟩ ≠ [] :=
      fun hnil => hrows (hnil ▸ hperm).nil_eq.symm
    obtain ⟨row, hrow⟩ := List.exists_mem_of_ne_nil _ hne
    obtain ⟨y, hy, -⟩ := List.mem_map.mp hrow
    obtain ⟨hy, heq⟩ := List.mem_filter.mp hy
    exact ⟨y, hy, congrArg Cursor.node (of_decide_eq_true heq)⟩
  · rintro ⟨y, hy, rfl⟩
    have ho := h.source_mem hy
    have hperm := h.rowsFor_perm_joinRows s hs _ ho
    obtain ⟨hnode, hevent⟩ := MatchSets.mem_occurrences.mp ho
    refine ⟨y.source.node, hnode, y.source.event, List.mem_of_getElem? hevent, fun hnil => ?_⟩
    have hrow : y.row ∈ Entry.rowsFor (t.entries m s) y.source :=
      List.mem_map.mpr ⟨y, List.mem_filter.mpr ⟨hy, by simp⟩, rfl⟩
    have hmem := hperm.mem_iff.mp hrow
    rw [hnil] at hmem
    exact absurd hmem List.not_mem_nil

/-- An error names the faulty link of a match node that rows are emitted for. -/
def Blamed (t : JoinTree) (m : MatchSets ε) (e : AssemblyError) : Prop :=
  ∃ s < t.size, ∃ y ∈ t.entries m s, t.Fault m s y.source.cursor.node e

/-- What a node of a stream knows of its place in the tree. -/
def seatOf (t : JoinTree) (s : StreamIndex) : Seat := ⟨s, t.parent? s, t.size⟩

@[simp] lemma stream_seatOf (t : JoinTree) (s : StreamIndex) : (t.seatOf s).stream = s := rfl

end JoinTree

/-! ### Faults met on the way -/

namespace Entry

/-- Send the row of an entry upward. -/
def send (seat : Seat) (y : Entry ε) : Except AssemblyError (Delivery ε) :=
  seat.send y.source y.row

variable {t : JoinTree} {m : MatchSets ε} {s : StreamIndex} {y : Entry ε}

omit [DecidableEq ε] in
/-- What becomes of a row that a stream sends upward. -/
lemma send_cases (t : JoinTree) (s : StreamIndex) (y : Entry ε) :
    (t.parent? s = none ∧ y.source.node.parent = none ∧
      y.send (t.seatOf s) = .ok (.complete y.row)) ∨
    (∃ link, t.parent? s = none ∧ y.source.node.parent = some link ∧
      y.send (t.seatOf s) = .error (.rootLinked s y.source.cursor.node)) ∨
    (∃ p, t.parent? s = some p ∧ y.source.node.parent = none ∧
      y.send (t.seatOf s) = .error (.notLinked s y.source.cursor.node)) ∨
    (∃ p link, t.parent? s = some p ∧ y.source.node.parent = some link ∧ link.place.stream = p ∧
      y.send (t.seatOf s) = .ok (.toParent p ⟨y.row, s, link.event, link.place⟩)) ∨
    (∃ p link, t.parent? s = some p ∧ y.source.node.parent = some link ∧ link.place.stream ≠ p ∧
      y.send (t.seatOf s) = .error (.linkedElsewhere s p link.place.stream)) :=
  y.source.node.send_cases s (t.parent? s) y.source.cursor.node y.row

/-- A row cannot be sent only if the link of its match node is faulty. -/
lemma blamed_of_send (h : t.Sound) (hs : s < t.size) (hy : y ∈ t.entries m s) {e : AssemblyError}
    (hsend : y.send (t.seatOf s) = .error e) : t.Blamed m e := by
  obtain ⟨hnode, -⟩ := MatchSets.mem_occurrences.mp (h.source_mem hy)
  refine ⟨s, hs, y, hy, ?_⟩
  rcases send_cases t s y with ⟨-, -, hok⟩ | ⟨link, hparent, hlink, herror⟩ |
    ⟨p, hparent, hlink, herror⟩ | ⟨_, _, -, -, -, hok⟩ |
    ⟨p, link, hparent, hlink, helsewhere, herror⟩
  · cases hok.symm.trans hsend
  · cases herror.symm.trans hsend
    exact .rootLinked hnode (h.eq_root s hs hparent) hlink
  · cases herror.symm.trans hsend
    exact .notLinked hnode (h.ne_root_of_parent hparent) hlink
  · cases hok.symm.trans hsend
  · cases herror.symm.trans hsend
    exact .linkedElsewhere hnode hparent hlink helsewhere

omit [DecidableEq ε] in
/-- A row that was sent is complete if it comes from the root, and else it was sent along a link. -/
lemma delivery_of_send {d : Delivery ε} (hsend : y.send (t.seatOf s) = .ok d) :
    (t.parent? s = none ∧ y.source.node.parent = none ∧ d = .complete y.row) ∨
      ∃ p link, t.parent? s = some p ∧ y.source.node.parent = some link ∧
        link.place.stream = p ∧ d = .toParent p ⟨y.row, s, link.event, link.place⟩ := by
  rcases send_cases t s y with ⟨hparent, hlink, hok⟩ | ⟨_, -, -, herror⟩ | ⟨_, -, -, herror⟩ |
    ⟨p, link, hparent, hlink, hplace, hok⟩ | ⟨_, _, -, -, -, herror⟩
  · exact .inl ⟨hparent, hlink, Except.ok.inj (hsend.symm.trans hok)⟩
  · cases herror.symm.trans hsend
  · cases herror.symm.trans hsend
  · exact .inr ⟨p, link, hparent, hlink, hplace, Except.ok.inj (hsend.symm.trans hok)⟩
  · cases herror.symm.trans hsend

omit [DecidableEq ε] in
/-- A row is sent only if its match node links to the parent stream, or to nothing at the root. -/
lemma parent_of_send {d : Delivery ε} (hsend : y.send (t.seatOf s) = .ok d) :
    (y.source.node.parent.map (·.place.stream)) = t.parent? s := by
  rcases delivery_of_send hsend with ⟨hparent, hlink, -⟩ | ⟨p, link, hparent, hlink, hplace, -⟩
  · rw [hparent, hlink, Option.map_none]
  · rw [hparent, hlink, Option.map_some, hplace]

omit [DecidableEq ε] in
/-- A row that was sent to a parent was sent along a link. -/
lemma handoff_of_send {p : StreamIndex} {x : Handoff ε}
    (hsend : y.send (t.seatOf s) = .ok (.toParent p x)) :
    t.parent? s = some p ∧ ∃ link, y.source.node.parent = some link ∧ link.place.stream = p ∧
      x = ⟨y.row, s, link.event, link.place⟩ := by
  rcases delivery_of_send hsend with ⟨-, -, hd⟩ | ⟨q, link, hparent, hlink, hplace, hd⟩
  · cases hd
  · cases hd
    exact ⟨hparent, link, hlink, hplace, rfl⟩

/-- A stream that is called back for a row finds the occurrence that the row was found for, unless
the link of the row's match node is faulty. -/
lemma locate_of_send (h : t.Sound) {c : StreamIndex} (hy : y ∈ t.entries m c) {x : Handoff ε}
    (hsend : y.send (t.seatOf c) = .ok (.toParent s x)) :
    (∃ o, m.linked? s y.source.node = some o ∧ x.place.index = o.cursor.node ∧ x.event = o.event ∧
        m.locate s x.place x.event = .ok (o.node, o.cursor.position)) ∨
      ∃ e, m.locate s x.place x.event = .error e ∧ t.Blamed m e := by
  obtain ⟨hparent, link, hlink, hplace, rfl⟩ := handoff_of_send hsend
  obtain ⟨hnode, -⟩ := MatchSets.mem_occurrences.mp (h.source_mem hy)
  have hc : c < t.size := JoinTree.lt_size_of_parent hparent
  rcases m.locate_cases hplace link.event with
    ⟨o, ho, hindex, hevent, hok⟩ | ⟨hmissing, herror⟩ | ⟨target, htarget, hevent, herror⟩
  · left
    refine ⟨o, MatchSets.linked?_eq_some_iff.mpr ⟨ho, ?_⟩, hindex.symm, hevent.symm, hok⟩
    apply decide_eq_true
    rw [hlink, hindex, hevent, ← hplace]
  · right
    exact ⟨_, herror, c, hc, y, hy, .noMatchNode hnode hparent hlink hplace hmissing⟩
  · right
    exact ⟨_, herror, c, hc, y, hy, .eventNotHeld hnode hparent hlink hplace htarget hevent⟩

/-- A row that is sent and finds what it was found for has no faulty link behind it. -/
lemma not_fault (h : t.Sound) (hs : s < t.size) (hy : y ∈ t.entries m s) {d : Delivery ε}
    (hsend : y.send (t.seatOf s) = .ok d)
    (hlinked : ∀ p, t.parent? s = some p → ∃ o, m.linked? p y.source.node = some o)
    (e : AssemblyError) : ¬ t.Fault m s y.source.cursor.node e := by
  obtain ⟨hheld, -⟩ := MatchSets.mem_occurrences.mp (h.source_mem hy)
  have hlink_of : ∀ {p : StreamIndex} {link : ParentLink ε}, t.parent? s = some p →
      y.source.node.parent = some link → ∃ o ∈ m.occurrences p,
        link = ⟨⟨p, o.cursor.node⟩, o.event⟩ := by
    intro p link hparent hlink
    obtain ⟨o, ho⟩ := hlinked p hparent
    obtain ⟨ho, hto⟩ := MatchSets.linked?_eq_some_iff.mp ho
    exact ⟨o, ho, Option.some.inj (hlink.symm.trans (of_decide_eq_true hto))⟩
  have hplace := parent_of_send hsend
  intro hfault
  cases hfault with
  | rootLinked hnode hroot hlink =>
    cases hheld.symm.trans hnode
    rw [hroot, h.parent_root, hlink] at hplace
    cases hplace
  | notLinked hnode hroot hlink =>
    cases hheld.symm.trans hnode
    rw [hlink] at hplace
    exact hroot (h.eq_root s hs hplace.symm)
  | linkedElsewhere hnode hparent hlink helsewhere =>
    cases hheld.symm.trans hnode
    rw [hparent, hlink] at hplace
    exact helsewhere (Option.some.inj hplace)
  | noMatchNode hnode hparent hlink hplace hmissing =>
    cases hheld.symm.trans hnode
    obtain ⟨o, ho, rfl⟩ := hlink_of hparent hlink
    obtain ⟨htarget, -⟩ := MatchSets.mem_occurrences.mp ho
    cases hmissing.symm.trans htarget
  | eventNotHeld hnode hparent hlink hplace htarget hevent =>
    cases hheld.symm.trans hnode
    obtain ⟨o, ho, rfl⟩ := hlink_of hparent hlink
    obtain ⟨hfound, hget⟩ := MatchSets.mem_occurrences.mp ho
    cases hfound.symm.trans htarget
    exact hevent (List.mem_of_getElem? hget)

end Entry

end JoinAssembly
