import JoinAssembly.JoinNode.Basic
import JoinAssembly.Proofs.Join.Renamed

/-!
# Nodes over renamed events

A node compares events and hands them on, and looks at nothing else in them. So it takes the same
steps over renamed match sets, with what it holds and what it emits renamed.
-/

namespace JoinAssembly

variable {ε δ : Type}

/-! ### Rows -/

namespace Row

variable (f : ε → δ) (r other : Row ε)

@[simp] lemma width_rename : (r.rename f).width = r.width := by simp [rename, width]

@[simp] lemma get?_rename (s : StreamIndex) : (r.rename f).get? s = (r.get? s).map f := by
  rw [get?, get?, rename, List.getElem?_map]
  cases r.slots[s]? <;> rfl

lemma set_rename (s : StreamIndex) (e : ε) :
    (r.rename f).set s (f e) = (r.set s e).map (·.rename f) := by
  have hslot : (r.rename f).slots[s]? = r.slots[s]?.map (Option.map f) := List.getElem?_map
  rw [set, set, hslot]
  rcases r.slots[s]? with _ | _ | taken
  · simp [Except.map]
  · simp [Except.map, rename, List.map_set]
  · simp [Except.map]

lemma seed_rename (w : Nat) (s : StreamIndex) (e : ε) :
    seed w s (f e) = (seed w s e).map (·.rename f) := by
  rw [seed, seed, ← set_rename, rename_empty]

lemma copyFrom_rename (streams : List StreamIndex) : ∀ r : Row ε,
    (r.rename f).copyFrom (other.rename f) streams
      = ((r.copyFrom other streams).1.rename f, (r.copyFrom other streams).2) := by
  induction streams with
  | nil => intro r; rfl
  | cons s rest ih =>
    intro r
    rw [copyFrom, copyFrom, get?_rename]
    cases other.get? s with
    | none => exact ih r
    | some e =>
      simp only [Option.map_some, set_rename]
      cases r.set s e with
      | ok r' => exact ih r'
      | error err => rfl

lemma merge_rename (streams : List StreamIndex) :
    (r.rename f).merge (other.rename f) streams
      = (r.merge other streams).map (·.rename f) := by
  rw [merge, merge, copyFrom_rename]
  rcases r.copyFrom other streams with ⟨merged, _ | err⟩ <;> rfl

end Row

/-! ### Deliveries -/

def Handoff.rename (f : ε → δ) (h : Handoff ε) : Handoff δ :=
  ⟨h.row.rename f, h.sender, f h.event, h.place⟩

def Delivery.rename (f : ε → δ) : Delivery ε → Delivery δ
  | .complete row => .complete (row.rename f)
  | .toParent s h => .toParent s (h.rename f)

namespace MatchNode

lemma send_rename (f : ε ↪ δ) (x : MatchNode ε) (s : StreamIndex) (parent : Option StreamIndex)
    (index : Nat) (row : Row ε) : (x.rename f).send s parent index (row.rename f)
      = (x.send s parent index row).map (·.rename f) := by
  have hparent : (x.rename f).parent = x.parent.map (·.rename f) := rfl
  cases parent with
  | none => cases hlink : x.parent <;> simp [send, hparent, hlink, Except.map, Delivery.rename]
  | some p =>
    cases hlink : x.parent with
    | none => simp [send, hparent, hlink, Except.map]
    | some link =>
      by_cases hp : link.place.stream = p <;>
        simp [send, hparent, hlink, ParentLink.rename, hp, Except.map, Delivery.rename,
          Handoff.rename]

end MatchNode

namespace MatchSets

variable [DecidableEq ε] [DecidableEq δ] (f : ε ↪ δ) (m : MatchSets ε)

/-- A stream is called back for the same place, or with the same error. -/
lemma locate_rename (s : StreamIndex) (p : MatchRef) (e : ε) : (m.rename f).locate s p (f e)
      = (m.locate s p e).map fun found => (found.1.rename f, found.2) := by
  by_cases hs : p.stream = s
  · simp only [locate, hs, ne_eq, not_true_eq_false, if_false, node?_rename]
    cases m.node? p with
    | none => rfl
    | some x =>
      simp only [Option.map_some, MatchNode.events_rename, DistinctList.indexOf?_rename]
      cases x.events.indexOf? e <;> rfl
  · simp [locate, hs, Except.map]

end MatchSets

namespace Handoff

variable (f : ε ↪ δ) (h : Handoff ε) (s : StreamIndex)

@[simp] lemma sender_rename : (h.rename f).sender = h.sender := rfl

lemma set_rename :
    (h.rename f).row.set s (h.rename f).event = (h.row.set s h.event).map (·.rename f) :=
  h.row.set_rename f s h.event

lemma locate_rename [DecidableEq ε] [DecidableEq δ] (m : MatchSets ε) :
    (m.rename f).locate s (h.rename f).place (h.rename f).event
      = (m.locate s h.place h.event).map fun found => (found.1.rename f, found.2) :=
  m.locate_rename f s h.place h.event

end Handoff

namespace Emission

/-- Rename the events of all that is emitted. -/
def rename (f : ε → δ) (e : Emission ε) : Emission δ := ⟨e.deliveries.map (·.rename f), e.error⟩

variable (f : ε → δ)

lemma rename_ofExcept (d : Except AssemblyError (Delivery ε)) :
    (ofExcept d).rename f = ofExcept (d.map (·.rename f)) := by
  cases d <;> rfl

lemma rename_andThen (a b : Emission ε) :
    (a.andThen b).rename f = (a.rename f).andThen (b.rename f) := by
  obtain ⟨ds, _ | err⟩ := a <;> simp [andThen, rename]

lemma rename_forEach {α β : Type} {emit : α → Emission ε} {emit' : β → Emission δ} {g : α → β}
    (h : ∀ a, emit' (g a) = (emit a).rename f) (l : List α) :
    forEach emit' (l.map g) = (forEach emit l).rename f := by
  induction l with
  | nil => rfl
  | cons a rest ih => rw [List.map_cons, forEach, forEach, h, ih, rename_andThen]

end Emission

namespace Seat

variable (f : ε ↪ δ) (seat : Seat) (o : Occurrence ε)

lemma send_rename (row : Row ε) :
    seat.send (o.rename f) (row.rename f) = (seat.send o row).map (·.rename f) :=
  o.node.send_rename f seat.stream seat.parent o.cursor.node row

lemma seed_rename (e : ε) : seat.seed (f e) = (seat.seed e).map (·.rename f) :=
  Row.seed_rename f seat.width seat.stream e

lemma sendSeed_rename : seat.sendSeed (o.rename f) = (seat.sendSeed o).map (·.rename f) := by
  have hevent : (o.rename f).event = f o.event := rfl
  rw [sendSeed, sendSeed, hevent, seed_rename]
  cases seat.seed o.event with
  | error err => rfl
  | ok row => exact seat.send_rename f o row

end Seat

/-! ### Outer branches -/

def Tracking.rename (f : ε → δ) : Tracking ε → Tracking δ
  | .absent => .absent
  | .single place event => .single place (f event)
  | .several => .several

namespace OuterBranch

/-- Rename the event that an outer branch keeps track of. -/
def rename (f : ε → δ) (b : OuterBranch ε) : OuterBranch δ :=
  ⟨b.child, b.tracking.rename f, b.received, b.covered⟩

variable (f : ε ↪ δ) (b : OuterBranch ε) (seat : Seat) (m : MatchSets ε)

lemma choose_rename (fastPath : Bool) (s : StreamIndex) (nodes : List (MatchNode ε)) :
    Tracking.choose fastPath s (nodes.map (·.rename f))
      = (Tracking.choose fastPath s nodes).rename f := by
  match nodes with
  | [] => rfl
  | [node] =>
    cases fastPath with
    | false => rfl
    | true =>
      simp only [List.map_singleton, Tracking.choose, MatchNode.events_rename,
        DistinctList.toList_rename]
      rcases node.events.toList with _ | ⟨e, _ | ⟨e', rest⟩⟩ <;> rfl
  | _ :: _ :: _ => rfl

lemma start_rename (fastPath : Bool) :
    (b.rename f).start seat (m.rename f) fastPath = (b.start seat m fastPath).rename f := by
  simp [start, rename, choose_rename]

lemma cover_rename (cursor : Cursor) :
    (b.rename f).cover cursor = (b.cover cursor).rename f := by
  obtain ⟨child, tracking, received, covered⟩ := b
  cases tracking <;> rfl

variable [DecidableEq ε] [DecidableEq δ]

lemma finish_rename :
    (b.rename f).finish seat (m.rename f) = (b.finish seat m).rename f := by
  obtain ⟨child, tracking, received, covered⟩ := b
  cases tracking with
  | absent => rfl
  | single place event =>
    cases received with
    | true => rfl
    | false =>
      simp only [finish, rename, Tracking.rename, Bool.false_eq_true, if_false,
        Emission.rename_ofExcept]
      congr 1
      rw [MatchSets.locate_rename, Seat.seed_rename]
      cases m.locate seat.stream place event with
      | error err => rfl
      | ok found =>
        cases seat.seed event with
        | error err => rfl
        | ok row => exact found.1.send_rename f _ _ _ row
  | several =>
    have hfilter : ((m.occurrences seat.stream).map (·.rename f)).filter
          (fun o => !covered.contains o.cursor)
        = ((m.occurrences seat.stream).filter fun o => !covered.contains o.cursor).map
          (·.rename f) := List.filter_map
    simp only [finish, rename, Tracking.rename, MatchSets.occurrences_rename, hfilter]
    apply Emission.rename_forEach
    intro o
    rw [Emission.rename_ofExcept, Seat.sendSeed_rename]

lemma accept_rename (h : Handoff ε) : (b.rename f).accept seat (m.rename f) (h.rename f)
    = ((b.accept seat m h).1.rename f, (b.accept seat m h).2.map (·.rename f)) := by
  have hchild : (b.rename f).child = b.child := rfl
  rw [accept, accept, h.locate_rename, h.set_rename, h.sender_rename, hchild]
  split
  · rfl
  · rcases m.locate seat.stream h.place h.event with err | ⟨node, position⟩
    · rfl
    · refine Prod.ext (cover_rename f b _) ?_
      cases h.row.set seat.stream h.event with
      | error err => rfl
      | ok row => exact node.send_rename f _ _ _ row

end OuterBranch

/-! ### Products -/

def Arrival.rename (f : ε → δ) (a : Arrival ε) : Arrival δ := ⟨a.cursor, a.sender, a.row.rename f⟩

namespace Product

/-- Rename the events of the rows that wait. -/
def rename (f : ε → δ) (p : Product ε) : Product δ := ⟨p.factors, p.waiting.map (·.rename f)⟩

lemma mapM_map_eq {α β α' β' : Type} {F : α → Except AssemblyError β}
    {F' : α' → Except AssemblyError β'} {g : α → α'} {φ : β → β'}
    (h : ∀ a, F' (g a) = (F a).map φ) (l : List α) :
    (l.map g).mapM F' = (l.mapM F).map (List.map φ) := by
  induction l with
  | nil => rfl
  | cons a rest ih =>
    rw [List.map_cons, List.mapM_cons, List.mapM_cons, h, ih]
    cases F a with
    | error err => rfl
    | ok b => cases rest.mapM F <;> rfl

section Rows

variable (f : ε → δ)

lemma cross_rename (slots : List StreamIndex) (bases rows : List (Row ε)) :
    cross slots (bases.map (·.rename f)) (rows.map (·.rename f))
      = (cross slots bases rows).map (List.map (·.rename f)) := by
  have hpairs : ((bases.map (·.rename f)).flatMap fun base =>
        (rows.map (·.rename f)).map fun row => (base, row))
      = (bases.flatMap fun base => rows.map fun row => (base, row)).map
        fun pair => (pair.1.rename f, pair.2.rename f) := by
    simp [List.flatMap_map, List.map_flatMap, Function.comp_def]
  rw [cross, cross, hpairs]
  exact mapM_map_eq (fun pair => pair.1.merge_rename f pair.2 slots) _

lemma rowsOf_rename (waiting : List (Arrival ε)) (sender : StreamIndex) :
    rowsOf (waiting.map (·.rename f)) sender = (rowsOf waiting sender).map (·.rename f) := by
  simp only [rowsOf, List.filter_map, List.map_map]
  rfl

lemma combine_rename (waiting : List (Arrival ε)) (factors : List Factor) :
    ∀ bases : List (Row ε),
      combine (rowsOf (waiting.map (·.rename f))) (bases.map (·.rename f)) factors
        = (combine (rowsOf waiting) bases factors).map (List.map (·.rename f)) := by
  induction factors with
  | nil => intro bases; rfl
  | cons c rest ih =>
    intro bases
    rw [combine, combine, rowsOf_rename]
    cases hrows : rowsOf waiting c.stream with
    | nil =>
      simp only [List.map_nil]
      split
      · exact ih bases
      · rfl
    | cons row rows =>
      simp only [List.map_cons]
      rw [← List.map_cons, cross_rename]
      cases cross c.slots bases (row :: rows) with
      | error err => rfl
      | ok bases => exact ih bases

end Rows

variable (f : ε ↪ δ) (factors : List Factor) (seat : Seat)

lemma emitFor_rename (o : Occurrence ε) (waiting : List (Arrival ε)) :
    emitFor factors seat (o.rename f) (waiting.map (·.rename f))
      = (emitFor factors seat o waiting).rename f := by
  have hseed : seat.seed (o.rename f).event = (seat.seed o.event).map (·.rename f) :=
    seat.seed_rename f o.event
  rw [emitFor, emitFor, hseed]
  cases seat.seed o.event with
  | error err => rfl
  | ok seed =>
    have hcombine := combine_rename f waiting factors [seed]
    simp only [Except.map, bind, Except.bind]
    rw [← List.map_singleton, hcombine]
    cases combine (rowsOf waiting) [seed] factors with
    | error err => rfl
    | ok rows =>
      refine Emission.rename_forEach f (fun row => ?_) rows
      rw [Emission.rename_ofExcept, Seat.send_rename]

lemma drain_rename (os : List (Occurrence ε)) : ∀ waiting : List (Arrival ε),
    drain factors seat (waiting.map (·.rename f)) (os.map (·.rename f))
      = ((drain factors seat waiting os).1.map (·.rename f),
        (drain factors seat waiting os).2.rename f) := by
  induction os with
  | nil => intro waiting; rfl
  | cons o rest ih =>
    intro waiting
    have hpartition : (waiting.map (·.rename f)).partition
          (fun a => a.cursor == (o.rename f).cursor)
        = ((waiting.partition fun a => a.cursor == o.cursor).1.map (·.rename f),
          (waiting.partition fun a => a.cursor == o.cursor).2.map (·.rename f)) := by
      simp only [List.partition_eq_filter_filter, List.filter_map]
      rfl
    rw [List.map_cons, drain, drain, hpartition]
    generalize waiting.partition (fun a => a.cursor == o.cursor) = parts
    -- Both runs stop here or both go on, since the errors agree.
    simp only [emitFor_rename, ih]
    generalize emitFor factors seat o parts.1 = emission
    obtain ⟨ds, _ | err⟩ := emission
    · exact Prod.ext rfl (Emission.rename_andThen f ⟨ds, none⟩ _).symm
    · rfl

lemma finish_rename (p : Product ε) (m : MatchSets ε) : (p.rename f).finish seat (m.rename f)
    = ((p.finish seat m).1.rename f, (p.finish seat m).2.rename f) := by
  rw [finish, finish, MatchSets.occurrences_rename, rename, drain_rename]
  rfl

lemma accept_rename [DecidableEq ε] [DecidableEq δ] (p : Product ε) (m : MatchSets ε)
    (h : Handoff ε) : (p.rename f).accept seat (m.rename f) (h.rename f)
      = ((p.accept seat m h).1.rename f, (p.accept seat m h).2) := by
  have hfactors : (p.rename f).factors = p.factors := rfl
  rw [accept, accept, h.locate_rename, h.sender_rename, hfactors]
  split
  · rcases m.locate seat.stream h.place h.event with err | ⟨node, position⟩
    · rfl
    · simp [Except.map, rename, Arrival.rename, Handoff.rename]
  · rfl

end Product

/-! ### Nodes -/

/-- Rename the events that the state of a node holds. -/
def NodeState.rename (f : ε → δ) : NodeState ε → NodeState δ
  | .leaf => .leaf
  | .inner child => .inner child
  | .outer b => .outer (b.rename f)
  | .product p => .product (p.rename f)

namespace JoinNode

/-- Rename the events that a node holds. -/
def rename (f : ε → δ) (n : JoinNode ε) : JoinNode δ := ⟨n.seat, n.state.rename f⟩

section

variable (f : ε → δ) (n : JoinNode ε)

@[simp] lemma kind_rename : (n.rename f).kind = n.kind := by
  obtain ⟨seat, _ | _ | _ | _⟩ := n <;> rfl

/-- New nodes hold no events. -/
lemma rename_ofTree (t : JoinTree) (s : StreamIndex) : (ofTree t s).rename f = ofTree t s := by
  have hstate : (stateFor t s : NodeState ε).rename f = stateFor t s := by
    rw [stateFor, stateFor]
    split
    · rfl
    · split <;> rfl
    · rfl
  simp only [rename, ofTree, hstate]

end

variable (f : ε ↪ δ) (n : JoinNode ε) (m : MatchSets ε)

lemma start_rename (options : AssemblyOptions) :
    (n.rename f).start (m.rename f) options = (n.start m options).rename f := by
  obtain ⟨seat, _ | _ | b | p⟩ := n
  · rfl
  · rfl
  · simp only [start, rename, NodeState.rename, OuterBranch.start_rename]
  · rfl

variable [DecidableEq ε] [DecidableEq δ]

lemma finish_rename : (n.rename f).finish (m.rename f)
    = ((n.finish m).1.rename f, (n.finish m).2.rename f) := by
  obtain ⟨seat, _ | _ | b | p⟩ := n
  · refine Prod.ext rfl ?_
    simp only [finish, rename, NodeState.rename, stream, MatchSets.occurrences_rename]
    refine Emission.rename_forEach f (fun o => ?_) _
    rw [Emission.rename_ofExcept, Seat.sendSeed_rename]
  · rfl
  · simp only [finish, rename, NodeState.rename, OuterBranch.finish_rename]
  · simp only [finish, rename, NodeState.rename, Product.finish_rename]

lemma forward_rename (seat : Seat) (child : StreamIndex) (h : Handoff ε) :
    forward seat child (m.rename f) (h.rename f) = (forward seat child m h).map (·.rename f) := by
  rw [forward, forward, h.locate_rename, h.set_rename, h.sender_rename]
  by_cases hchild : h.sender = child
  · simp only [hchild, ne_eq, not_true_eq_false, if_false]
    rcases m.locate seat.stream h.place h.event with err | ⟨node, position⟩
    · rfl
    · cases h.row.set seat.stream h.event with
      | error err => rfl
      | ok row => exact node.send_rename f _ _ _ row
  · simp only [hchild, ne_eq, not_false_eq_true, if_true]
    rfl

/-- A node takes a row over renamed events as it takes the row. -/
lemma accept_rename (h : Handoff ε) : (n.rename f).accept (m.rename f) (h.rename f)
    = ((n.accept m h).1.rename f, (n.accept m h).2.map (Option.map (·.rename f))) := by
  obtain ⟨seat, _ | child | b | p⟩ := n
  · rfl
  · simp only [accept, rename, NodeState.rename, forward_rename]
    cases forward seat child m h <;> rfl
  · simp only [accept, rename, NodeState.rename, OuterBranch.accept_rename]
    cases (b.accept seat m h).2 <;> rfl
  · simp only [accept, rename, NodeState.rename, Product.accept_rename]
    cases (p.accept seat m h).2 <;> rfl

end JoinNode

end JoinAssembly
