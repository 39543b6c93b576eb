import JoinAssembly.Proofs.Assembler.Answers
import JoinAssembly.Proofs.JoinNode.Choices
import JoinAssembly.Proofs.JoinNode.Offered

/-!
# What a node makes of any rows

The node of a stream that several rows or none are combined at finishes without an error, whatever
it was offered: an outer branch emits the events that no row was for, and a product one row for
every choice among the rows that were for an event.
-/

namespace JoinAssembly

variable {ε : Type}

/-- Where a row for an occurrence goes along the link of the match node. -/
def Occurrence.upward (o : Occurrence ε) (s : StreamIndex) (row : Row ε) : Delivery ε :=
  match o.node.parent with
  | none => .complete row
  | some link => .toParent link.place.stream ⟨row, s, link.event, link.place⟩

/-- The row with an event of a stream and with what the rows chosen for children of the stream hold
at the streams of their subtrees. -/
def Row.ofChoice (t : JoinTree) (s : StreamIndex) (e : ε) (choice : List (StreamIndex × Row ε)) :
    Row ε :=
  ⟨(List.range t.size).map fun x =>
    if x = s then some e
    else choice.findSome? fun (c, row) => if x ∈ t.subtree c then row.get? x else none⟩

namespace JoinTree

variable {t : JoinTree} {m : MatchSets ε} {s : StreamIndex}

/-- The match nodes of a stream link to the parent stream, and to nothing at the root. -/
def Upward (t : JoinTree) (m : MatchSets ε) (s : StreamIndex) : Prop :=
  ∀ node ∈ m.nodesOf s, node.parent.map (·.place.stream) = t.parent? s

instance (t : JoinTree) (m : MatchSets ε) (s : StreamIndex) : Decidable (t.Upward m s) :=
  inferInstanceAs (Decidable (∀ node ∈ m.nodesOf s, node.parent.map (·.place.stream) = t.parent? s))

lemma Upward.send_eq (hm : t.Upward m s) {o : Occurrence ε} (ho : o ∈ m.occurrences s)
    (row : Row ε) : (t.seatOf s).send o row = .ok (o.upward s row) := by
  have hlink := hm o.node (List.mem_of_getElem? (MatchSets.mem_occurrences.mp ho).1)
  have hsend : (t.seatOf s).send o row = o.node.send s (t.parent? s) o.cursor.node row := rfl
  rw [hsend, ← hlink, Occurrence.upward]
  cases hparent : o.node.parent with
  | none => simp only [MatchNode.send, hparent, Option.map_none]
  | some link => simp only [MatchNode.send, hparent, Option.map_some, if_true]

lemma Upward.sendSeed_eq (hm : t.Upward m s) (hs : s < t.size) {o : Occurrence ε}
    (ho : o ∈ m.occurrences s) :
    (t.seatOf s).sendSeed o = .ok (o.upward s (.single t.size s o.event)) := by
  rw [JoinTree.sendSeed_eq hs]
  exact hm.send_eq ho _

/-- What a product lays under an event are the slots of the rows that were chosen. -/
lemma Sound.foldl_overlay_eq (h : t.Sound) (hs : s < t.size) (e : ε)
    {choice : List (StreamIndex × Row ε)} (hchoice : ∀ x ∈ choice, x.1 < t.size) :
    (choice.map fun (c, row) => row.only t.size (t.subtree c)).foldl Row.overlay
      (.single t.size s e) = .ofChoice t s e choice := by
  obtain ⟨hwidth, hget⟩ := Row.get?_foldl_overlay
    (choice.map fun (c, row) => row.only t.size (t.subtree c)) (Row.width_single t.size s e)
    fun row hrow => by
      obtain ⟨x, -, rfl⟩ := List.mem_map.mp hrow
      exact Row.width_only _ _ _
  have hwidth' : (Row.ofChoice t s e choice).width = t.size := by simp [Row.ofChoice, Row.width]
  have hfound : ∀ x : StreamIndex,
      (choice.map fun (c, row) => row.only t.size (t.subtree c)).findSome? (·.get? x)
        = choice.findSome? fun (c, row) => if x ∈ t.subtree c then row.get? x else none := by
    intro x
    rw [List.findSome?_map, ← List.head?_filterMap, ← List.head?_filterMap]
    refine congrArg List.head? (List.filterMap_congr fun pair hpair => ?_)
    have hc := hchoice pair hpair
    exact Row.get?_only (fun y hy => h.lt_of_mem_below hc (h.subtree_eq_below hc ▸ hy)) pair.2 x
  apply Row.ext_get? (hwidth.trans hwidth'.symm)
  intro x
  by_cases hx : x < t.size
  · rw [hget x, Row.get?_single hs, hfound x]
    simp only [Row.get?, Row.ofChoice, List.getElem?_map, List.getElem?_range hx, Option.map_some,
      Option.join_some]
    by_cases hxs : x = s <;> simp [hxs]
  · have hle := Nat.le_of_not_lt hx
    rw [Row.get?_of_width_le (Nat.le_trans (Nat.le_of_eq hwidth) hle),
      Row.get?_of_width_le (Nat.le_trans (Nat.le_of_eq hwidth') hle)]

end JoinTree

/-- Starting a node of a stream starts the stream's new node. -/
lemma JoinNode.start_of_blank {t : JoinTree} {s : StreamIndex} {n : JoinNode ε}
    (hn : n.blank = .ofTree t s) (m : MatchSets ε)
    (options : AssemblyOptions) : n.start m options = (ofTree t s).start m options := by
  rw [← hn, start_blank]

variable [DecidableEq ε]

namespace JoinNode

variable {b : TreeBuilder} {t : JoinTree} {s : StreamIndex} {n : JoinNode ε} {m : MatchSets ε}

/-- The sample with the event 20 in a second match node. -/
def repeatedSets : MatchSets Nat := (sampleSets.pushMatch 2 ⟨0, 0⟩ 11 [20]).2

/-- Rows of the wrong child, for an event that is not held, and without a slot for the event. -/
def spoiledRows : List (Handoff Nat) :=
  [⟨.empty 4, 1, 20, ⟨2, 0⟩⟩, ⟨.empty 4, 3, 22, ⟨2, 0⟩⟩, ⟨.empty 0, 3, 20, ⟨2, 1⟩⟩]

/-- After any rows, an outer branch finishes with a row that holds only the event for each of its
events that none of the rows was for. It refuses just the rows that are for none of its events, and
they leave no trace. -/
theorem finish_outer_offered (hb : b.build = .ok t) (hn : n.blank = .ofTree t s) {c : StreamIndex}
    (honly : t.childrenOf s = [c]) (hoptional : t.isOptional c = true) (hm : t.Upward m s)
    (options : AssemblyOptions) (hs : List (Handoff ε)) :
    (((n.start m options).offerAll m hs).finish m).2
        = ⟨((m.occurrences s).filter fun o => !hs.any fun h => h.isFor c s o).map fun o =>
            o.upward s (.single t.size s o.event), none⟩ ∧
      ∀ h : Handoff ε,
        ((∃ o ∈ m.occurrences s, h.isFor c s o) ∧
          ∀ e, (((n.start m options).offerAll m hs).accept m h).2 = .error e → ¬ e.Refuses s h) ∨
        ((∀ o ∈ m.occurrences s, ¬ h.isFor c s o) ∧ ∃ e : AssemblyError, e.Refuses s h ∧
          ((n.start m options).offerAll m hs).accept m h
            = ((n.start m options).offerAll m hs, .error e)) := by
  have h := TreeBuilder.sound_of_build hb
  have hlt : s < t.size :=
    h.parent_lt (h.parent_of_mem_childrenOf (honly ▸ List.mem_cons_self))
  obtain ⟨branch, cursors, hoffered, hcovers, hmem⟩ := offerAll_outer hs
    (OuterBranch.covers_start c (t.seatOf s) m options.fastPath)
  rw [← Assembler.start_outer options m honly hoptional, ← start_of_blank hn] at hoffered
  rw [hoffered]
  constructor
  · have hfree : (m.occurrences s).filter (fun o => !cursors.contains o.cursor)
        = (m.occurrences s).filter fun o => !hs.any fun h => h.isFor c s o := by
      refine List.filter_congr fun o ho => congrArg (!·) ?_
      rw [Bool.eq_iff_iff, List.contains_iff_mem, hmem o ho, List.any_eq_true]
      simp
    have hfinish : (finish ⟨t.seatOf s, .outer branch⟩ m).2 = _ := hcovers.finish
    rw [hfinish, JoinTree.stream_seatOf, hfree, List.map_eq_flatMap]
    refine Emission.forEach_of_ok fun o ho => ?_
    rw [hm.sendSeed_eq hlt (List.mem_filter.mp ho).1]
    rfl
  · rw [← hcovers.child_eq]
    exact accept_outer_cases branch (t.seatOf s) m

/-- Of the events 20 and 21 and of 20 again in another match node, the last one is covered, by a row
that has no slot for it. -/
theorem sample_outer_offered :
    sampleBuilder.build = .ok sampleTree ∧ (JoinNode.ofTree sampleTree 2 : JoinNode Nat).blank
      = .ofTree sampleTree 2 ∧ sampleTree.childrenOf 2 = [3] ∧ sampleTree.isOptional 3 = true ∧
    sampleTree.Upward repeatedSets 2 ∧
    (((start (ofTree sampleTree 2) repeatedSets {}).offerAll repeatedSets spoiledRows).finish
        repeatedSets).2
      = ⟨[.toParent 0 ⟨⟨[none, none, some 20, none]⟩, 2, 10, ⟨0, 0⟩⟩,
          .toParent 0 ⟨⟨[none, none, some 21, none]⟩, 2, 10, ⟨0, 0⟩⟩], none⟩ := by
  have hm : sampleTree.Upward repeatedSets 2 := by decide
  obtain ⟨hfinish, -⟩ := finish_outer_offered (by decide : sampleBuilder.build = .ok sampleTree)
    (blank_ofTree sampleTree 2) (by decide : sampleTree.childrenOf 2 = [3]) (by decide) hm {}
    spoiledRows
  exact ⟨by decide, blank_ofTree sampleTree 2, by decide, by decide, hm,
    hfinish.trans (by decide)⟩

omit [DecidableEq ε] in
/-- For an event, a product sends a row for every choice among the rows that wait for it. -/
lemma emitFor_choices (h : t.Sound) (hlt : s < t.size) (hm : t.Upward m s) {o : Occurrence ε}
    (ho : o ∈ m.occurrences s) {own : List (Arrival ε)} {rowsFor : StreamIndex → List (Row ε)}
    (hown : ∀ c ∈ t.childrenOf s, Product.rowsOf own c = rowsFor c) :
    Product.emitFor (Assembler.factorsOf t s) (t.seatOf s) o own
      = ⟨(choices t.isOptional rowsFor (t.childrenOf s)).map fun choice =>
          o.upward s (.ofChoice t s o.event choice), none⟩ := by
  have hfound : (t.childrenOf s).map (fun c => (t.isOptional c,
        (Product.rowsOf own c).map fun row => row.only t.size (t.subtree c)))
      = (t.childrenOf s).map fun c => (t.isOptional c,
          (rowsFor c).map fun row => row.only t.size (t.subtree c)) :=
    List.map_congr_left fun c hc => by rw [hown c hc]
  rw [JoinTree.emitFor_only h hlt, hfound, Row.combineAll_eq_choices, List.flatMap_singleton,
    Emission.forEach_of_ok fun row _ => by rw [hm.send_eq ho row]; rfl, ← List.map_eq_flatMap,
    List.map_map]
  refine congrArg (Emission.mk · none) (List.map_congr_left fun choice hchoice => ?_)
  refine congrArg (o.upward s) (h.foldl_overlay_eq hlt o.event fun pair hpair => ?_)
  exact h.lt_of_mem_childrenOf (mem_of_mem_choices hchoice hpair).1

/-- After any rows, a product finishes with a row for every choice among the rows that were for an
event, event after event, and nothing waits any more. It refuses just the rows that are for none of
its events, and they leave no trace. -/
theorem finish_product_offered (hb : b.build = .ok t) (hn : n.blank = .ofTree t s)
    (hmany : 2 ≤ (t.childrenOf s).length) (hm : t.Upward m s) (options : AssemblyOptions)
    (hs : List (Handoff ε)) :
    ((n.start m options).offerAll m hs).finish m
        = (.ofTree t s, ⟨(m.occurrences s).flatMap fun o =>
            (choices t.isOptional (fun c => Handoff.rowsFor c s o hs) (t.childrenOf s)).map
              fun choice => o.upward s (.ofChoice t s o.event choice), none⟩) ∧
      ∀ h : Handoff ε,
        ((∃ o ∈ m.occurrences s, ∃ c ∈ t.childrenOf s, h.isFor c s o) ∧
          (((n.start m options).offerAll m hs).accept m h).2 = .ok none) ∨
        ((∀ o ∈ m.occurrences s, ∀ c ∈ t.childrenOf s, ¬ h.isFor c s o) ∧
          ∃ e : AssemblyError, e.Refuses s h ∧ ((n.start m options).offerAll m hs).accept m h
            = ((n.start m options).offerAll m hs, .error e)) := by
  have h := TreeBuilder.sound_of_build hb
  obtain ⟨c, d, rest, hchildren⟩ : ∃ c d rest, t.childrenOf s = c :: d :: rest := by
    rcases t.children_cases s with hnone | ⟨c, hone, -⟩ | ⟨c, hone, -⟩ | hchildren
    · simp [hnone] at hmany
    · simp [hone] at hmany
    · simp [hone] at hmany
    · exact hchildren
  have hlt : s < t.size :=
    h.parent_lt (h.parent_of_mem_childrenOf (hchildren ▸ List.mem_cons_self))
  obtain ⟨waiting, hoffered, hmem, hrows⟩ :=
    offerAll_product (t.seatOf s) m hs ⟨Assembler.factorsOf t s, []⟩
  rw [← Assembler.start_product options m hchildren, ← start_of_blank hn] at hoffered
  rw [hoffered]
  constructor
  · have hemission : (finish ⟨t.seatOf s, .product ⟨Assembler.factorsOf t s, waiting⟩⟩ m).2
        = ⟨(m.occurrences s).flatMap fun o =>
            (choices t.isOptional (fun c => Handoff.rowsFor c s o hs) (t.childrenOf s)).map
              fun choice => o.upward s (.ofChoice t s o.event choice), none⟩ := by
      rw [finish_product]
      refine Emission.forEach_of_ok fun o ho => emitFor_choices h hlt hm ho fun c hc => ?_
      exact hrows o ho _ (List.mem_map_of_mem hc)
    have hdrained : (Product.drain (Assembler.factorsOf t s) (t.seatOf s) waiting
        (m.occurrences s)).1 = [] := by
      apply List.eq_nil_iff_forall_not_mem.mpr
      intro a ha
      obtain ⟨hwaiting, hnone⟩ := Product.mem_drain _ _ _ _ (congrArg Emission.error hemission) a ha
      rcases hmem a hwaiting with hold | ⟨o, ho, hcursor⟩
      · exact absurd hold List.not_mem_nil
      · exact hnone o ho hcursor
    rw [Assembler.ofTree_product hchildren, ← hemission, ← hdrained]
    rfl
  · intro x
    rcases accept_product_cases ⟨Assembler.factorsOf t s, waiting⟩ (t.seatOf s) m x with
      ⟨⟨o, ho, f, hf, hfor⟩, hkept⟩ | ⟨hnone, hrefused⟩
    · obtain ⟨c, hc, rfl⟩ := List.mem_map.mp hf
      exact .inl ⟨⟨o, ho, c, hc, hfor⟩, hkept⟩
    · exact .inr ⟨fun o ho c hc => hnone o ho _ (List.mem_map_of_mem hc), hrefused⟩

/-- Rows that are too narrow or too wide or have slots filled that are not the child's, and two that
come from no child and from a required one only. -/
def unevenRows : List (Handoff Nat) :=
  [⟨⟨[none, some 7]⟩, 1, 10, ⟨0, 0⟩⟩, ⟨⟨[some 5, some 8, some 20, none, some 9]⟩, 2, 10, ⟨0, 0⟩⟩,
    ⟨.empty 4, 3, 10, ⟨0, 0⟩⟩, ⟨⟨[none, none, some 21, some 30]⟩, 2, 10, ⟨0, 0⟩⟩,
    ⟨⟨[none, some 12]⟩, 1, 11, ⟨0, 0⟩⟩]

theorem sample_product_offered :
    sampleBuilder.build = .ok sampleTree ∧ (JoinNode.ofTree sampleTree 0 : JoinNode Nat).blank
      = .ofTree sampleTree 0 ∧ 2 ≤ (sampleTree.childrenOf 0).length ∧
    sampleTree.Upward sampleSets 0 ∧
    ((start (ofTree sampleTree 0) sampleSets {}).offerAll sampleSets unevenRows).finish sampleSets
      = (.ofTree sampleTree 0, ⟨[.complete ⟨[some 10, some 7, some 20, none]⟩,
          .complete ⟨[some 10, some 7, some 21, some 30]⟩], none⟩) := by
  have hm : sampleTree.Upward sampleSets 0 := by decide
  obtain ⟨hfinish, -⟩ := finish_product_offered (by decide : sampleBuilder.build = .ok sampleTree)
    (blank_ofTree sampleTree 0) (by decide) hm {} unevenRows
  exact ⟨by decide, blank_ofTree sampleTree 0, by decide, hm, hfinish.trans (by decide)⟩

end JoinNode

end JoinAssembly
