import JoinAssembly.Proofs.Assembler.Sweep
import JoinAssembly.Proofs.JoinTree.Shape
import JoinAssembly.Proofs.Results

/-!
# Settling a node

Seen from one node, a pass hands it all rows of its children, child after child, and then finishes
it. What the node sends upward meanwhile is a function of what the children send, so a pass over a
whole tree has a description by recursion on the tree's shape.
-/

namespace JoinAssembly

variable {ε : Type}

/-! ### Where deliveries go -/

namespace Delivery

/-- The stream that a delivery goes to; none past the root. -/
def heading : Delivery ε → Option StreamIndex
  | .complete _ => none
  | .toParent s _ => some s

def handoff? : Delivery ε → Option (Handoff ε)
  | .complete _ => none
  | .toParent _ h => some h

def row? : Delivery ε → Option (Row ε)
  | .complete row => some row
  | .toParent _ _ => none

end Delivery

namespace Emission

/-- All that is emitted has a property. -/
def All (e : Emission ε) (P : Delivery ε → Prop) : Prop := ∀ d ∈ e.deliveries, P d

/-- All that is emitted goes to one place. -/
def HeadsTo (e : Emission ε) (p : Option StreamIndex) : Prop := ∀ d ∈ e.deliveries, d.heading = p

/-- The rows handed to a parent stream. -/
def handoffs (e : Emission ε) : List (Handoff ε) := e.deliveries.filterMap Delivery.handoff?

/-- The emission that only stops with an error, if there is one. -/
def stop (error : Option AssemblyError) : Emission ε := ⟨[], error⟩

lemma andThen_stop_none (a : Emission ε) : a.andThen (stop Option.none) = a := a.andThen_none

lemma error_andThen {a b : Emission ε} :
    (a.andThen b).error = Option.none ↔ a.error = Option.none ∧ b.error = Option.none := by
  obtain ⟨ds, _ | err⟩ := a <;> simp [andThen]

lemma prefix_andThen (a b : Emission ε) : a.deliveries <+: (a.andThen b).deliveries := by
  rw [andThen]
  split
  · exact List.prefix_rfl
  · exact List.prefix_append _ _

@[simp] lemma error_settled (e : Emission ε) : e.settled.error = e.error := by
  obtain ⟨ds, _ | err⟩ := e <;> rfl

lemma settled_of_ok {e : Emission ε} (h : e.error = Option.none) : e.settled = e := by
  rw [settled, h]

lemma mem_of_mem_settled {e : Emission ε} {d : Delivery ε} (h : d ∈ e.settled.deliveries) :
    d ∈ e.deliveries := by
  rw [settled] at h
  split at h
  · exact absurd h List.not_mem_nil
  · exact h

section

variable {P : Delivery ε → Prop}

lemma All.none : (Emission.none : Emission ε).All P := by
  intro d hd
  exact absurd hd List.not_mem_nil

lemma All.stop (error : Option AssemblyError) : (Emission.stop error : Emission ε).All P := by
  intro d hd
  exact absurd hd List.not_mem_nil

lemma All.andThen {a b : Emission ε} (ha : a.All P) (hb : b.All P) : (a.andThen b).All P := by
  intro d hd
  rw [Emission.andThen] at hd
  split at hd
  · exact ha d hd
  · rcases List.mem_append.mp hd with hd | hd
    · exact ha d hd
    · exact hb d hd

lemma All.ofExcept {answer : Except AssemblyError (Delivery ε)}
    (h : ∀ d, answer = .ok d → P d) : (Emission.ofExcept answer).All P := by
  intro d hd
  cases answer with
  | error e => exact absurd hd List.not_mem_nil
  | ok d' => exact List.mem_singleton.mp hd ▸ h d' rfl

lemma All.forEach {α : Type} {emit : α → Emission ε} {l : List α}
    (h : ∀ a ∈ l, (emit a).All P) : (Emission.forEach emit l).All P := by
  induction l with
  | nil => exact .none
  | cons a rest ih =>
    rw [Emission.forEach]
    exact (h a List.mem_cons_self).andThen (ih fun b hb => h b (List.mem_cons_of_mem _ hb))

end

variable {p : Option StreamIndex}

lemma HeadsTo.none : (Emission.none : Emission ε).HeadsTo p := All.none

lemma HeadsTo.stop (error : Option AssemblyError) :
    (Emission.stop error : Emission ε).HeadsTo p := All.stop error

lemma HeadsTo.andThen {a b : Emission ε} (ha : a.HeadsTo p) (hb : b.HeadsTo p) :
    (a.andThen b).HeadsTo p := All.andThen ha hb

lemma HeadsTo.settled {e : Emission ε} (h : e.HeadsTo p) : e.settled.HeadsTo p :=
  fun d hd => h d (mem_of_mem_settled hd)

lemma HeadsTo.ofExcept {answer : Except AssemblyError (Delivery ε)}
    (h : ∀ d, answer = .ok d → d.heading = p) : (Emission.ofExcept answer).HeadsTo p :=
  All.ofExcept h

lemma HeadsTo.forEach {α : Type} {emit : α → Emission ε} {l : List α}
    (h : ∀ a ∈ l, (emit a).HeadsTo p) : (Emission.forEach emit l).HeadsTo p := All.forEach h

/-- An emission to a stream is made of handoffs to it. -/
lemma HeadsTo.deliveries_eq {e : Emission ε} {s : StreamIndex} (h : e.HeadsTo (some s)) :
    e.deliveries = e.handoffs.map (.toParent s) := by
  obtain ⟨ds, error⟩ := e
  rw [Emission.HeadsTo] at h
  rw [handoffs]
  simp only at h ⊢
  induction ds with
  | nil => rfl
  | cons d rest ih =>
    have hd := h d List.mem_cons_self
    have hrest := ih fun d' hd' => h d' (List.mem_cons_of_mem _ hd')
    cases d with
    | complete row => cases hd
    | toParent s' x =>
      cases hd
      rw [List.filterMap_cons_some (l := rest) (rfl : (Delivery.toParent s x).handoff? = some x),
        List.map_cons, ← hrest]

end Emission

/-! ### What a node sends goes to its parent -/

/-- A row is complete at a root without link, it is handed along a link to the parent stream, and it
cannot be sent otherwise. -/
lemma MatchNode.send_cases (node : MatchNode ε) (s : StreamIndex) (parent : Option StreamIndex)
    (index : Nat) (row : Row ε) :
    (parent = none ∧ node.parent = none ∧ node.send s parent index row = .ok (.complete row)) ∨
    (∃ link, parent = none ∧ node.parent = some link ∧
      node.send s parent index row = .error (.rootLinked s index)) ∨
    (∃ p, parent = some p ∧ node.parent = none ∧
      node.send s parent index row = .error (.notLinked s index)) ∨
    (∃ p link, parent = some p ∧ node.parent = some link ∧ link.place.stream = p ∧
      node.send s parent index row = .ok (.toParent p ⟨row, s, link.event, link.place⟩)) ∨
    (∃ p link, parent = some p ∧ node.parent = some link ∧ link.place.stream ≠ p ∧
      node.send s parent index row = .error (.linkedElsewhere s p link.place.stream)) := by
  cases parent with
  | none =>
    cases hlink : node.parent with
    | none => simp [send, hlink]
    | some link => simp [send, hlink]
  | some p =>
    cases hlink : node.parent with
    | none => simp [send, hlink]
    | some link =>
      by_cases hplace : link.place.stream = p
      · simp [send, hlink, hplace]
      · simp [send, hlink, hplace]

lemma MatchNode.heading_send {node : MatchNode ε} {s : StreamIndex} {parent : Option StreamIndex}
    {index : Nat} {row : Row ε} {d : Delivery ε} (h : node.send s parent index row = .ok d) :
    d.heading = parent := by
  rcases node.send_cases s parent index row with ⟨rfl, -, hsend⟩ | ⟨_, -, -, hsend⟩ |
    ⟨_, -, -, hsend⟩ | ⟨p, link, rfl, -, -, hsend⟩ | ⟨_, _, -, -, -, hsend⟩
  · cases hsend.symm.trans h
    rfl
  · cases hsend.symm.trans h
  · cases hsend.symm.trans h
  · cases hsend.symm.trans h
    rfl
  · cases hsend.symm.trans h

lemma Seat.heading_sendSeed {seat : Seat} {o : Occurrence ε} {d : Delivery ε}
    (h : seat.sendSeed o = .ok d) : d.heading = seat.parent := by
  rw [Seat.sendSeed] at h
  cases hseed : seat.seed o.event with
  | error e => rw [hseed] at h; cases h
  | ok row => rw [hseed] at h; exact MatchNode.heading_send h

/-- Deliveries of a computation that sends at its end. -/
lemma heading_of_bind {α : Type} {x : Except AssemblyError α}
    {f : α → Except AssemblyError (Delivery ε)} {p : Option StreamIndex}
    (hf : ∀ a d, f a = .ok d → d.heading = p) {d : Delivery ε} (h : x >>= f = .ok d) :
    d.heading = p := by
  obtain ⟨a, -, ha⟩ := bind_eq_ok_iff.mp h
  exact hf a d ha

/-- An outer branch answers as an inner one does. -/
lemma OuterBranch.answer_accept [DecidableEq ε] (b : OuterBranch ε) (seat : Seat)
    (m : MatchSets ε) (h : Handoff ε) :
    (b.accept seat m h).2 = JoinNode.forward seat b.child m h := by
  rw [accept, JoinNode.forward]
  split
  · rfl
  · cases hfound : m.locate seat.stream h.place h.event <;> rfl

namespace JoinNode

variable [DecidableEq ε]

lemma heading_forward {seat : Seat} {child : StreamIndex} {m : MatchSets ε} {h : Handoff ε}
    {d : Delivery ε} (hd : forward seat child m h = .ok d) : d.heading = seat.parent := by
  rw [forward] at hd
  split at hd
  · cases hd
  · refine heading_of_bind (fun found d hd => ?_) hd
    exact heading_of_bind (fun row d hd => MatchNode.heading_send hd) hd

lemma located_of_forward {seat : Seat} {child : StreamIndex} {m : MatchSets ε} {h : Handoff ε}
    {d : Delivery ε} (hd : forward seat child m h = .ok d) :
    ∃ found, m.locate seat.stream h.place h.event = .ok found := by
  rw [forward] at hd
  split at hd
  · cases hd
  · cases hlocate : m.locate seat.stream h.place h.event with
    | error e => rw [hlocate] at hd; cases hd
    | ok found => exact ⟨found, rfl⟩

/-- A node that accepts a row forwards it, or it keeps it for an event that it holds. -/
lemma accept_cases {n : JoinNode ε} {m : MatchSets ε} {h : Handoff ε}
    {next : Option (Delivery ε)} (hn : (n.accept m h).2 = .ok next) :
    (∃ child d, forward n.seat child m h = .ok d ∧ next = some d) ∨
      (next = none ∧ ∃ found, m.locate n.seat.stream h.place h.event = .ok found) := by
  obtain ⟨seat, _ | child | b | p⟩ := n
  · cases hn
  · have hanswer : (forward seat child m h).map some = .ok next := hn
    obtain ⟨d, hf, rfl⟩ := map_eq_ok_iff.mp hanswer
    exact .inl ⟨child, d, hf, rfl⟩
  · have hanswer : (b.accept seat m h).2.map some = .ok next := hn
    obtain ⟨d, hf, rfl⟩ := map_eq_ok_iff.mp hanswer
    rw [OuterBranch.answer_accept] at hf
    exact .inl ⟨b.child, d, hf, rfl⟩
  · have hanswer : ((p.accept seat m h).2.map fun _ => none) = .ok next := hn
    obtain ⟨_, hkept, rfl⟩ := map_eq_ok_iff.mp hanswer
    refine .inr ⟨rfl, ?_⟩
    rw [Product.accept] at hkept
    split at hkept
    · cases hlocate : m.locate seat.stream h.place h.event with
      | error e => rw [hlocate] at hkept; cases hkept
      | ok found => exact ⟨found, rfl⟩
    · cases hkept

lemma heading_accept {n : JoinNode ε} {m : MatchSets ε} {h : Handoff ε} {d : Delivery ε}
    (hd : (n.accept m h).2 = .ok (some d)) : d.heading = n.seat.parent := by
  rcases accept_cases hd with ⟨child, d', hf, heq⟩ | ⟨hnone, -⟩
  · cases heq
    exact heading_forward hf
  · cases hnone

omit [DecidableEq ε] in
lemma headsTo_drain (factors : List Factor) (seat : Seat) (occurrences : List (Occurrence ε)) :
    ∀ waiting : List (Arrival ε),
      (Product.drain factors seat waiting occurrences).2.HeadsTo seat.parent := by
  induction occurrences with
  | nil => intro waiting; exact .none
  | cons o rest ih =>
    intro waiting
    have hfor : ∀ own, (Product.emitFor factors seat o own).HeadsTo seat.parent := by
      intro own
      simp only [Product.emitFor]
      split
      · exact .stop _
      · exact .forEach fun row _ => .ofExcept fun d hd => MatchNode.heading_send hd
    simp only [Product.drain]
    split
    · exact hfor _
    · exact (hfor _).andThen (ih _)

lemma headsTo_finish (n : JoinNode ε) (m : MatchSets ε) :
    (n.finish m).2.HeadsTo n.seat.parent := by
  obtain ⟨seat, _ | child | b | p⟩ := n
  · exact .forEach fun o _ => .ofExcept fun d hd => Seat.heading_sendSeed hd
  · exact .none
  · simp only [finish, OuterBranch.finish]
    split
    · exact .none
    · split
      · exact .none
      · refine .ofExcept fun d hd => ?_
        refine heading_of_bind (fun found d hd => ?_) hd
        exact heading_of_bind (fun row d hd => MatchNode.heading_send hd) hd
    · exact .forEach fun o _ => .ofExcept fun d hd => Seat.heading_sendSeed hd
  · exact headsTo_drain p.factors seat _ _

/-! ### One node in a pass -/

/-- Accept rows in order, up to the first error. -/
def acceptAll (m : MatchSets ε) (n : JoinNode ε) : List (Handoff ε) → JoinNode ε × Emission ε
  | [] => (n, .none)
  | h :: rest =>
    match n.accept m h with
    | (n', .error e) => (n', .stop (some e))
    | (n', .ok next) =>
      let (n'', later) := acceptAll m n' rest
      (n'', Emission.andThen ⟨next.toList, none⟩ later)

/-- Accept what a child sends; then the child's error counts. -/
def relay (m : MatchSets ε) (n : JoinNode ε) (e : Emission ε) : JoinNode ε × Emission ε :=
  let (n', passed) := n.acceptAll m e.handoffs
  (n', passed.andThen (.stop e.error))

/-- Accept what the children send, child after child. -/
def relayAll (m : MatchSets ε) (n : JoinNode ε) : List (Emission ε) → JoinNode ε × Emission ε
  | [] => (n, .none)
  | e :: rest =>
    let (n', passed) := n.relay m e
    let (n'', later) := n'.relayAll m rest
    (n'', passed.andThen later)

/-- What a node sends in a pass, by what its children send. -/
def settle (m : MatchSets ε) (n : JoinNode ε) (es : List (Emission ε)) : Emission ε :=
  let (n', passed) := n.relayAll m es
  passed.andThen (n'.finish m).2.settled

@[simp] lemma seat_acceptAll (m : MatchSets ε) (hs : List (Handoff ε)) :
    ∀ n : JoinNode ε, (n.acceptAll m hs).1.seat = n.seat := by
  induction hs with
  | nil => intro n; rfl
  | cons h rest ih =>
    intro n
    have hseat := n.seat_accept m h
    rw [acceptAll]
    generalize n.accept m h = accepted at hseat
    obtain ⟨n', _ | next⟩ := accepted
    · exact hseat
    · exact (ih n').trans hseat

@[simp] lemma seat_relay (m : MatchSets ε) (n : JoinNode ε) (e : Emission ε) :
    (n.relay m e).1.seat = n.seat := n.seat_acceptAll m e.handoffs

@[simp] lemma seat_relayAll (m : MatchSets ε) (es : List (Emission ε)) :
    ∀ n : JoinNode ε, (n.relayAll m es).1.seat = n.seat := by
  induction es with
  | nil => intro n; rfl
  | cons e rest ih => intro n; exact (ih _).trans (n.seat_relay m e)

lemma headsTo_acceptAll (m : MatchSets ε) (hs : List (Handoff ε)) :
    ∀ n : JoinNode ε, (n.acceptAll m hs).2.HeadsTo n.seat.parent := by
  induction hs with
  | nil => intro n; exact .none
  | cons h rest ih =>
    intro n
    have hseat := n.seat_accept m h
    have hheading := @heading_accept _ _ n m h
    rw [acceptAll]
    generalize n.accept m h = accepted at hseat hheading
    obtain ⟨n', _ | next⟩ := accepted
    · exact .stop _
    · refine Emission.HeadsTo.andThen ?_ (hseat ▸ ih n')
      intro d hd
      exact hheading (congrArg Except.ok (Option.mem_toList.mp hd))

lemma headsTo_relay (m : MatchSets ε) (n : JoinNode ε) (e : Emission ε) :
    (n.relay m e).2.HeadsTo n.seat.parent :=
  (n.headsTo_acceptAll m e.handoffs).andThen (.stop _)

lemma headsTo_relayAll (m : MatchSets ε) (es : List (Emission ε)) :
    ∀ n : JoinNode ε, (n.relayAll m es).2.HeadsTo n.seat.parent := by
  induction es with
  | nil => intro n; exact .none
  | cons e rest ih =>
    intro n
    exact (n.headsTo_relay m e).andThen (n.seat_relay m e ▸ ih (n.relay m e).1)

/-- Whatever a node sends in a pass goes to its parent. -/
lemma headsTo_settle (m : MatchSets ε) (n : JoinNode ε) (es : List (Emission ε)) :
    (n.settle m es).HeadsTo n.seat.parent := by
  refine (n.headsTo_relayAll m es).andThen (Emission.HeadsTo.settled ?_)
  exact n.seat_relayAll m es ▸ (n.relayAll m es).1.headsTo_finish m

/-! ### Passes without an error -/

/-- A node that accepts a row has found the event that the row was found for. -/
lemma located_of_accept {n : JoinNode ε} {m : MatchSets ε} {h : Handoff ε}
    {next : Option (Delivery ε)} (hn : (n.accept m h).2 = .ok next) :
    ∃ found, m.locate n.seat.stream h.place h.event = .ok found := by
  rcases accept_cases hn with ⟨child, d, hf, -⟩ | ⟨-, hlocated⟩
  · exact located_of_forward hf
  · exact hlocated

lemma located_of_acceptAll (m : MatchSets ε) (hs : List (Handoff ε)) :
    ∀ n : JoinNode ε, (n.acceptAll m hs).2.error = none →
      ∀ h ∈ hs, ∃ found, m.locate n.seat.stream h.place h.event = .ok found := by
  induction hs with
  | nil => intro n _ h hh; exact absurd hh List.not_mem_nil
  | cons x rest ih =>
    intro n hok h hh
    rw [acceptAll] at hok
    cases hx : n.accept m x with
    | mk n' answer =>
      rw [hx] at hok
      cases answer with
      | error e => cases hok
      | ok next =>
        have hseat : n'.seat = n.seat := by rw [← n.seat_accept m x, hx]
        rcases List.mem_cons.mp hh with rfl | hh
        · exact located_of_accept (congrArg Prod.snd hx)
        · rw [← hseat]
          exact ih n' (Emission.error_andThen.mp hok).2 h hh

/-- If a node does not run into an error before it is finished, no child has, and all rows of the
children were accepted. -/
lemma ok_of_relayAll (m : MatchSets ε) (es : List (Emission ε)) :
    ∀ n : JoinNode ε, (n.relayAll m es).2.error = none →
      ∀ e ∈ es, e.error = none ∧
        ∀ h ∈ e.handoffs, ∃ found, m.locate n.seat.stream h.place h.event = .ok found := by
  induction es with
  | nil => intro n _ e he; exact absurd he List.not_mem_nil
  | cons x rest ih =>
    intro n hok e he
    obtain ⟨hx, hrest⟩ := Emission.error_andThen.mp hok
    rcases List.mem_cons.mp he with rfl | he
    · obtain ⟨haccepted, herror⟩ := Emission.error_andThen.mp hx
      exact ⟨herror, located_of_acceptAll m e.handoffs n haccepted⟩
    · rw [← n.seat_relay m x]
      exact ih (n.relay m x).1 hrest e he

end JoinNode

/-! ### All nodes of a shape -/

namespace JoinShape

variable [DecidableEq ε]

mutual
/-- What the top stream of a shape sends in a pass that begins with given nodes. -/
def emission (m : MatchSets ε) (fresh : StreamIndex → JoinNode ε) : JoinShape → Emission ε
  | .node s _ children => (fresh s).settle m (emissions m fresh children)

def emissions (m : MatchSets ε) (fresh : StreamIndex → JoinNode ε) :
    List JoinShape → List (Emission ε)
  | [] => []
  | c :: rest => emission m fresh c :: emissions m fresh rest
end

lemma emissions_eq (m : MatchSets ε) (fresh : StreamIndex → JoinNode ε) (shapes : List JoinShape) :
    emissions m fresh shapes = shapes.map (emission m fresh) := by
  induction shapes with
  | nil => rfl
  | cons c rest ih => rw [emissions, ih, List.map_cons]

end JoinShape

end JoinAssembly
