import JoinAssembly.Proofs.Join.Emissions

/-!
# The answers of passes

Between passes an assembler over a tree answers match sets of the right width with the rows of the
root's emission list, which are those of the outer join, or with an error that names a faulty link
behind a row of the join.
-/

namespace JoinAssembly

variable {ε : Type} [DecidableEq ε]

namespace JoinTree

variable {t : JoinTree} {m : MatchSets ε}

omit [DecidableEq ε] in
/-- Rows sent from the root are complete. -/
lemma rows_of_sent (h : t.Sound) {ys : List (Entry ε)} {ds : List (Delivery ε)}
    (hsent : List.Forall₂ (fun y d => y.send (t.seatOf t.root) = .ok d) ys ds) :
    ds.filterMap Delivery.row? = ys.map (·.row) := by
  induction hsent with
  | nil => rfl
  | @cons y d ys ds hsend _ ih =>
    have hcomplete : d = .complete y.row := by
      rcases Entry.delivery_of_send hsend with ⟨-, -, hd⟩ | ⟨p, _, hp, -⟩
      · exact hd
      · exact absurd rfl (h.ne_root_of_parent hp)
    rw [hcomplete, List.filterMap_cons_some (l := ds)
      (rfl : (Delivery.complete y.row).row? = some y.row), ih, List.map_cons]

/-- The emission list of the root is the answer, unless there is a row to blame. -/
lemma answer_cases (h : t.Sound) (options : AssemblyOptions) :
    ((Assembler.emission t options m t.root).answer = .ok ⟨(t.entries m t.root).map (·.row)⟩ ∧
        ∀ e, ¬ t.Blamed m e) ∨
      ∃ e, (Assembler.emission t options m t.root).answer = .error e ∧ t.Blamed m e := by
  obtain ⟨sent, hsent, -, hall, hblamed⟩ := sends_emission (m := m) h options t.root h.root_lt
  rw [Emission.answer]
  cases herror : (Assembler.emission t options m t.root).error with
  | none =>
    left
    rw [hall herror] at hsent
    refine ⟨by rw [rows_of_sent h hsent], ?_⟩
    rintro e ⟨s, hs, y, hy, hfault⟩
    refine not_fault_of_emission h t.root h.root_lt herror ?_ s (h.mem_below_root.mpr hs) y hy e
      hfault
    intro p hp
    exact absurd rfl (h.ne_root_of_parent hp)
  | some e =>
    right
    exact ⟨e, rfl, hblamed e herror⟩

omit [DecidableEq ε] in
lemma lt_width_of_node? {place : MatchRef} {node : MatchNode ε} (h : m.node? place = some node) :
    place.stream < m.width := by
  by_contra hge
  have hnone : m.streams[place.stream]? = none :=
    List.getElem?_eq_none (Nat.le_of_not_lt hge)
  rw [MatchSets.node?, MatchSets.nodesOf, hnone] at h
  cases h

lemma blamed_of_live (h : t.Sound) (hm : m.width = t.size) {s : StreamIndex} {index : Nat}
    {e : AssemblyError} (hlive : t.Live m s index) (hfault : t.Fault m s index e) :
    t.Blamed m e := by
  have hs : s < t.size := by
    obtain ⟨node, hnode, -⟩ := hlive
    exact hm ▸ lt_width_of_node? hnode
  obtain ⟨y, hy, rfl⟩ := (h.live_iff hs).mp hlive
  exact ⟨s, hs, y, hy, hfault⟩

lemma live_of_blamed (h : t.Sound) {e : AssemblyError} (hblamed : t.Blamed m e) :
    ∃ s index, t.Live m s index ∧ t.Fault m s index e := by
  obtain ⟨s, hs, y, hy, hfault⟩ := hblamed
  exact ⟨s, y.source.cursor.node, (h.live_iff hs).mpr ⟨y, hy, rfl⟩, hfault⟩

end JoinTree

/-! ### A join to look at -/

/-- A root with an optional leaf and a required child, which has an optional leaf itself. -/
def sampleBuilder : TreeBuilder :=
  .ofCalls 4 [.root 0, .optional 1 0, .required 2 0, .optional 3 2]

def sampleTree : JoinTree where
  nodes := [⟨0, none, false, [1, 2], none⟩, ⟨1, some 0, true, [], none⟩,
    ⟨2, some 0, false, [3], none⟩, ⟨3, some 2, true, [], none⟩]
  root := 0
  preorder := [0, 1, 2, 3]
  postorder := [1, 3, 2, 0]
  subtrees := [[0, 1, 2, 3], [1], [2, 3], [3]]

/-- Two events at the root, one of them without required match. -/
def sampleSets : MatchSets Nat :=
  let m := ((MatchSets.empty 4).pushRoot 0 [10, 11]).2
  let m := (m.pushMatch 2 ⟨0, 0⟩ 10 [20, 21]).2
  let m := (m.pushMatch 3 ⟨2, 0⟩ 20 [30]).2
  (m.pushMatch 1 ⟨0, 0⟩ 11 [12]).2

/-- The same with a link to a match node that the root does not have. -/
def faultySets : MatchSets Nat := (sampleSets.pushMatch 2 ⟨0, 7⟩ 11 [22]).2

/-- An assembler after a pass that failed. -/
def sampleAssembler (options : AssemblyOptions) : Assembler Nat :=
  ((Assembler.new sampleTree options).run faultySets).assembler

namespace Assembler

lemma reachable_sample (options : AssemblyOptions) :
    Reachable sampleTree (sampleAssembler options) := .runInto faultySets .empty (.new options)

variable {b : TreeBuilder} {t : JoinTree} {a : Assembler ε} {m : MatchSets ε}

/-- A pass over match sets of the right width answers with what the root sends. -/
lemma rows_run_of_width (hb : b.build = .ok t) (ha : Reachable t a) (hm : m.width = t.size) :
    (a.run m).rows = (emission t a.options m t.root).answer := by
  rw [rows_run ha.ready, freshAnswer_eq (TreeBuilder.sound_of_build hb) a.options hm]

lemma rows_run_of_width_ne (ha : Reachable t a) (hm : m.width ≠ t.size) :
    (a.run m).rows = .error (.widthMismatch t.size m.width) := by
  rw [rows_run ha.ready, freshAnswer, if_neg hm]

/-- If a pass succeeds, its rows are those of the outer join, each as often as it is there. -/
theorem rows_perm_outerJoin (hb : b.build = .ok t) (ha : Reachable t a) {c : RowCollection ε}
    (hc : (a.run m).rows = .ok c) : c.rows.Perm (t.outerJoin m) := by
  have h := TreeBuilder.sound_of_build hb
  by_cases hm : m.width = t.size
  · rw [rows_run_of_width hb ha hm] at hc
    rcases JoinTree.answer_cases (m := m) h a.options with ⟨hok, -⟩ | ⟨e, herror, -⟩
    · cases hok.symm.trans hc
      exact h.entries_perm_outerJoin
    · cases herror.symm.trans hc
  · rw [rows_run_of_width_ne ha hm] at hc
    cases hc

theorem sample_rows_perm : sampleBuilder.build = .ok sampleTree ∧
    ((sampleAssembler {}).run sampleSets).rows
      = .ok ⟨[⟨[some 10, none, some 20, some 30]⟩, ⟨[some 10, none, some 21, none]⟩]⟩ ∧
    [⟨[some 10, none, some 20, some 30]⟩, ⟨[some 10, none, some 21, none]⟩].Perm
      (sampleTree.outerJoin sampleSets) :=
  ⟨by decide, by decide, rows_perm_outerJoin (by decide : sampleBuilder.build = .ok sampleTree)
    (reachable_sample {}) (by decide)⟩

/-- A pass fails just when the match sets are of another width than the tree, or the join has rows
for a match node whose link is faulty. The error says so, and names such a match node. -/
theorem run_fails_iff (hb : b.build = .ok t) (ha : Reachable t a) (m : MatchSets ε) :
    ((∃ e, (a.run m).rows = .error e) ↔
        m.width ≠ t.size ∨ ∃ s index e, t.Live m s index ∧ t.Fault m s index e) ∧
      (m.width ≠ t.size → (a.run m).rows = .error (.widthMismatch t.size m.width)) ∧
      (m.width = t.size → ∀ e, (a.run m).rows = .error e →
        ∃ s index, t.Live m s index ∧ t.Fault m s index e) := by
  have h := TreeBuilder.sound_of_build hb
  by_cases hm : m.width = t.size
  · rw [rows_run_of_width hb ha hm]
    rcases JoinTree.answer_cases (m := m) h a.options with ⟨hok, hnone⟩ | ⟨e, herror, hblamed⟩
    · rw [hok]
      refine ⟨⟨?_, ?_⟩, fun hne => absurd hm hne, fun _ e he => ?_⟩
      · rintro ⟨e, he⟩
        cases he
      · rintro (hne | ⟨s, index, e, hlive, hfault⟩)
        · exact absurd hm hne
        · exact absurd (JoinTree.blamed_of_live h hm hlive hfault) (hnone e)
      · cases he
    · obtain ⟨s, index, hlive, hfault⟩ := JoinTree.live_of_blamed h hblamed
      rw [herror]
      refine ⟨⟨fun _ => .inr ⟨s, index, e, hlive, hfault⟩, fun _ => ⟨e, rfl⟩⟩,
        fun hne => absurd hm hne, fun _ e' he' => ?_⟩
      cases he'
      exact ⟨s, index, hlive, hfault⟩
  · rw [rows_run_of_width_ne ha hm]
    exact ⟨⟨fun _ => .inl hm, fun _ => ⟨_, rfl⟩⟩, fun _ => rfl, fun heq => absurd heq hm⟩

theorem sample_run_fails : ((sampleAssembler {}).run faultySets).rows = .error (.noMatchNode 0 7) ∧
    ∃ s index e, sampleTree.Live faultySets s index ∧ sampleTree.Fault faultySets s index e := by
  have herror : ((sampleAssembler {}).run faultySets).rows = .error (.noMatchNode 0 7) := by decide
  have hiff := (run_fails_iff (by decide : sampleBuilder.build = .ok sampleTree)
    (reachable_sample {}) faultySets).1
  exact ⟨herror, (hiff.mp ⟨_, herror⟩).resolve_left (by decide)⟩

end Assembler

/-! ### Match sets without faults -/

/-- Match nodes of the root have no link, and every other match node links to a match node of the
parent stream that holds its parent event. -/
structure JoinTree.WellLinked (t : JoinTree) (m : MatchSets ε) : Prop where
  root_unlinked : ∀ node ∈ m.nodesOf t.root, node.parent = none
  linked : ∀ s < t.size, s ≠ t.root → ∀ node ∈ m.nodesOf s, ∃ link ∈ node.parent,
    t.parent? s = some link.place.stream ∧
      ∃ target ∈ m.node? link.place, link.event ∈ target.events.toList

omit [DecidableEq ε] in
lemma JoinTree.WellLinked.not_fault {t : JoinTree} {m : MatchSets ε} (hlinks : t.WellLinked m)
    (h : t.Sound) (hm : m.width = t.size) {s : StreamIndex} {index : Nat} (e : AssemblyError) :
    ¬ t.Fault m s index e := by
  have hlinked : ∀ {node : MatchNode ε}, m.node? ⟨s, index⟩ = some node → s ≠ t.root →
      ∃ link ∈ node.parent, t.parent? s = some link.place.stream ∧
        ∃ target ∈ m.node? link.place, link.event ∈ target.events.toList := by
    intro node hnode hroot
    exact hlinks.linked s (hm ▸ JoinTree.lt_width_of_node? hnode) hroot node
      (List.mem_of_getElem? hnode)
  intro hfault
  cases hfault with
  | rootLinked hnode hroot hlink =>
    subst hroot
    cases (hlinks.root_unlinked _ (List.mem_of_getElem? hnode)).symm.trans hlink
  | notLinked hnode hroot hlink =>
    obtain ⟨link, hlink', -⟩ := hlinked hnode hroot
    cases hlink.symm.trans hlink'
  | linkedElsewhere hnode hparent hlink helsewhere =>
    obtain ⟨link, hlink', hplace, -⟩ := hlinked hnode (h.ne_root_of_parent hparent)
    cases hlink.symm.trans hlink'
    exact helsewhere (Option.some.inj (hplace.symm.trans hparent))
  | noMatchNode hnode hparent hlink hplace hmissing =>
    obtain ⟨link, hlink', -, target, htarget, -⟩ := hlinked hnode (h.ne_root_of_parent hparent)
    cases hlink.symm.trans hlink'
    cases hmissing.symm.trans htarget
  | eventNotHeld hnode hparent hlink hplace htarget hevent =>
    obtain ⟨link, hlink', -, target, htarget', hheld⟩ := hlinked hnode (h.ne_root_of_parent hparent)
    cases hlink.symm.trans hlink'
    cases htarget.symm.trans htarget'
    exact hevent hheld

/-- Without faults the root sends its whole emission list. -/
lemma JoinTree.WellLinked.answer_eq {t : JoinTree} {m : MatchSets ε} (hlinks : t.WellLinked m)
    (h : t.Sound) (hm : m.width = t.size) (options : AssemblyOptions) :
    (Assembler.emission t options m t.root).answer
      = .ok ⟨(t.entries m t.root).map (·.row)⟩ := by
  rcases JoinTree.answer_cases (m := m) h options with ⟨hok, -⟩ | ⟨e, -, s, -, y, -, hfault⟩
  · exact hok
  · exact absurd hfault (hlinks.not_fault h hm e)

namespace Assembler

/-- Over match sets of the right width without faults, a pass succeeds with the rows of the root's
emission list, in order. -/
theorem rows_eq_entries {b : TreeBuilder} {t : JoinTree} (hb : b.build = .ok t)
    {a : Assembler ε} (ha : Reachable t a) {m : MatchSets ε} (hm : m.width = t.size)
    (hlinks : t.WellLinked m) :
    (a.run m).rows = .ok ⟨(t.entries m t.root).map (·.row)⟩ := by
  rw [rows_run_of_width hb ha hm]
  exact hlinks.answer_eq (TreeBuilder.sound_of_build hb) hm a.options

set_option synthInstance.maxSize 2000 in
theorem sample_rows_eq :
    (sampleTree.entries sampleSets 0).map (·.row)
      = [⟨[some 10, none, some 20, some 30]⟩, ⟨[some 10, none, some 21, none]⟩] ∧
    ((sampleAssembler {}).run sampleSets).rows
      = .ok ⟨[⟨[some 10, none, some 20, some 30]⟩, ⟨[some 10, none, some 21, none]⟩]⟩ := by
  have hentries : (sampleTree.entries sampleSets 0).map (·.row)
      = [⟨[some 10, none, some 20, some 30]⟩, ⟨[some 10, none, some 21, none]⟩] := by decide
  refine ⟨hentries, ?_⟩
  rw [← hentries]
  exact rows_eq_entries (by decide : sampleBuilder.build = .ok sampleTree) (reachable_sample {})
    (by decide) ⟨by decide, by decide⟩

end Assembler

end JoinAssembly
