import JoinAssembly.Proofs.JoinNode.Settle
import JoinAssembly.Proofs.MatchSets.Occurrences

/-!
# Nodes that pass rows on

Inner and outer branches pass the rows of their one child on in the same way. An outer branch
remembers meanwhile which of its events were covered; on the fast path it remembers less, and what
it sends at the end is the same.
-/

namespace JoinAssembly

variable {ε : Type} [DecidableEq ε]

namespace JoinNode

/-- What is sent on, up to the first error, when rows of a child come in order. -/
def forwardAll (seat : Seat) (child : StreamIndex) (m : MatchSets ε) (hs : List (Handoff ε)) :
    Emission ε :=
  .forEach (fun h => .ofExcept (forward seat child m h)) hs

lemma forwardAll_of_error {seat : Seat} {child : StreamIndex} {m : MatchSets ε} {h : Handoff ε}
    {e : AssemblyError} (hf : forward seat child m h = .error e) (rest : List (Handoff ε)) :
    forwardAll seat child m (h :: rest) = .stop (some e) := by
  rw [forwardAll, Emission.forEach, hf]
  rfl

lemma forwardAll_of_ok {seat : Seat} {child : StreamIndex} {m : MatchSets ε} {h : Handoff ε}
    {d : Delivery ε} (hf : forward seat child m h = .ok d) (rest : List (Handoff ε)) :
    forwardAll seat child m (h :: rest)
      = Emission.andThen ⟨[d], none⟩ (forwardAll seat child m rest) := by
  rw [forwardAll, Emission.forEach, hf]
  rfl

/-- Without an error every row is sent on. -/
lemma forward_of_forwardAll {seat : Seat} {child : StreamIndex} {m : MatchSets ε}
    {hs : List (Handoff ε)} (hok : (forwardAll seat child m hs).error = none) :
    ∀ h ∈ hs, ∃ d, forward seat child m h = .ok d := by
  induction hs with
  | nil => intro h hh; exact absurd hh List.not_mem_nil
  | cons x rest ih =>
    intro h hh
    obtain ⟨-, hrest⟩ := Emission.error_andThen.mp hok
    rcases List.mem_cons.mp hh with rfl | hh
    · cases hf : forward seat child m h with
      | error e =>
        rw [forwardAll_of_error hf] at hok
        cases hok
      | ok d => exact ⟨d, rfl⟩
    · exact ih hrest h hh

lemma deliveries_forwardAll {seat : Seat} {child : StreamIndex} {m : MatchSets ε}
    {hs : List (Handoff ε)} (hok : (forwardAll seat child m hs).error = none) :
    (forwardAll seat child m hs).deliveries
      = hs.filterMap fun h => (forward seat child m h).toOption := by
  have hall : forwardAll seat child m hs
      = ⟨hs.flatMap fun h => (forward seat child m h).toOption.toList, none⟩ := by
    refine Emission.forEach_of_ok fun h hh => ?_
    obtain ⟨d, hd⟩ := forward_of_forwardAll hok h hh
    rw [hd]
    rfl
  rw [hall, List.filterMap_eq_flatMap_toList]

lemma located_of_forwardAll {seat : Seat} {child : StreamIndex} {m : MatchSets ε}
    {hs : List (Handoff ε)} (hok : (forwardAll seat child m hs).error = none) :
    ∀ h ∈ hs, ∃ found, m.locate seat.stream h.place h.event = .ok found := by
  intro h hh
  obtain ⟨d, hd⟩ := forward_of_forwardAll hok h hh
  exact located_of_forward hd

/-! ### Inner branches -/

lemma acceptAll_inner (seat : Seat) (child : StreamIndex) (m : MatchSets ε)
    (hs : List (Handoff ε)) :
    acceptAll m ⟨seat, .inner child⟩ hs = (⟨seat, .inner child⟩, forwardAll seat child m hs) := by
  induction hs with
  | nil => rfl
  | cons h rest ih =>
    have haccept : accept ⟨seat, .inner child⟩ m h
        = (⟨seat, .inner child⟩, (forward seat child m h).map some) := rfl
    cases hf : forward seat child m h with
    | error e =>
      rw [forwardAll_of_error hf, acceptAll, haccept, hf]
      rfl
    | ok d =>
      rw [forwardAll_of_ok hf, acceptAll, haccept, hf]
      simp only [Except.map, ih]
      rfl

/-- An inner branch sends on what its child sends, and nothing else. -/
lemma settle_inner (seat : Seat) (child : StreamIndex) (m : MatchSets ε) (e : Emission ε) :
    settle m ⟨seat, .inner child⟩ [e]
      = (forwardAll seat child m e.handoffs).andThen (.stop e.error) := by
  simp only [settle, relayAll, relay, acceptAll_inner]
  rw [Emission.andThen_none]
  exact Emission.andThen_none _

/-! ### Outer branches -/

/-- The cursor of the occurrence that a row was found for. -/
def cursor? (m : MatchSets ε) (s : StreamIndex) (h : Handoff ε) : Option Cursor :=
  match m.locate s h.place h.event with
  | .error _ => none
  | .ok (_, position) => some ⟨h.place.index, position⟩

end JoinNode

lemma MatchSets.locate_eq_ok {m : MatchSets ε} {s : StreamIndex} {place : MatchRef} {e : ε}
    {node : MatchNode ε} {position : Nat} (h : m.locate s place e = .ok (node, position)) :
    ⟨⟨place.index, position⟩, node, e⟩ ∈ m.occurrences s := by
  by_cases hs : place.stream = s
  · rcases m.locate_cases hs e with ⟨o, ho, hnode, hevent, hok⟩ | ⟨-, herr⟩ | ⟨_, -, -, herr⟩
    · cases Except.ok.inj (hok.symm.trans h)
      rw [← hnode, ← hevent]
      exact ho
    · cases herr.symm.trans h
    · cases herr.symm.trans h
  · rw [locate] at h
    rw [if_pos hs] at h
    cases h

namespace OuterBranch

/-- In a pass, rows of the child have come for the events at some cursors. What is remembered of
them depends on the tracking. -/
structure Covers (b : OuterBranch ε) (seat : Seat) (m : MatchSets ε) (child : StreamIndex)
    (cursors : List Cursor) : Prop where
  child_eq : b.child = child
  tracking_eq : ∃ fastPath, b.tracking = .choose fastPath seat.stream (m.nodesOf seat.stream)
  received_iff : b.received = true ↔ cursors ≠ []
  covered_eq : b.tracking = .several → b.covered = cursors
  mem_occurrences : ∀ c ∈ cursors, ∃ o ∈ m.occurrences seat.stream, o.cursor = c

variable {b : OuterBranch ε} {seat : Seat} {m : MatchSets ε} {child : StreamIndex}
  {cursors : List Cursor}

omit [DecidableEq ε] in
lemma covers_start (child : StreamIndex) (seat : Seat) (m : MatchSets ε) (fastPath : Bool) :
    ((new child).start seat m fastPath).Covers seat m child [] where
  child_eq := rfl
  tracking_eq := ⟨fastPath, rfl⟩
  received_iff := by simp [start]
  covered_eq _ := rfl
  mem_occurrences c hc := absurd hc List.not_mem_nil

omit [DecidableEq ε] in
lemma Covers.cover (hb : b.Covers seat m child cursors) {o : Occurrence ε}
    (ho : o ∈ m.occurrences seat.stream) :
    (b.cover o.cursor).Covers seat m child (o.cursor :: cursors) := by
  have hmem : ∀ c ∈ o.cursor :: cursors, ∃ o ∈ m.occurrences seat.stream, o.cursor = c := by
    intro c hc
    rcases List.mem_cons.mp hc with rfl | hc
    · exact ⟨o, ho, rfl⟩
    · exact hb.mem_occurrences c hc
  obtain ⟨child', tracking, received, covered⟩ := b
  cases tracking with
  | several =>
    exact ⟨hb.child_eq, hb.tracking_eq, by simp [OuterBranch.cover],
      fun _ => congrArg (o.cursor :: ·) (hb.covered_eq rfl), hmem⟩
  | absent =>
    exact ⟨hb.child_eq, hb.tracking_eq, by simp [OuterBranch.cover],
      by simp [OuterBranch.cover], hmem⟩
  | single place event =>
    exact ⟨hb.child_eq, hb.tracking_eq, by simp [OuterBranch.cover],
      by simp [OuterBranch.cover], hmem⟩

/-- Whatever is remembered, at the end a row is sent for every event that none has come for. -/
lemma Covers.finish (hb : b.Covers seat m child cursors) :
    b.finish seat m = .forEach (fun o => .ofExcept (seat.sendSeed o))
      ((m.occurrences seat.stream).filter fun o => !cursors.contains o.cursor) := by
  obtain ⟨fastPath, htracking⟩ := hb.tracking_eq
  rw [OuterBranch.finish]
  cases hchosen : b.tracking with
  | several => rw [hb.covered_eq hchosen]
  | absent =>
    have hnone : m.nodesOf seat.stream = [] := by
      rw [hchosen] at htracking
      simp only [Tracking.choose] at htracking
      split at htracking
      · assumption
      · split at htracking <;> cases htracking
      · cases htracking
    rw [MatchSets.occurrences, hnone]
    rfl
  | single place event =>
    -- There is one match node with one event, so that one bit tells whether it was covered.
    obtain ⟨node, hnodes, hevents, rfl⟩ : ∃ node, m.nodesOf seat.stream = [node] ∧
        node.events.toList = [event] ∧ place = ⟨seat.stream, 0⟩ := by
      rw [hchosen] at htracking
      simp only [Tracking.choose] at htracking
      split at htracking
      · cases htracking
      · rename_i node hnodes
        split at htracking
        · rename_i event' hevents
          cases htracking
          exact ⟨node, hnodes, hevents, rfl⟩
        · cases htracking
      · cases htracking
    have honly : m.occurrences seat.stream = [⟨⟨0, 0⟩, node, event⟩] := by
      simp [MatchSets.occurrences, hnodes, hevents]
    simp only []
    by_cases hcursors : cursors = []
    · have hnot : b.received = false := by
        rw [← Bool.not_eq_true, hb.received_iff]
        exact not_not_intro hcursors
      have hlocate : m.locate seat.stream ⟨seat.stream, 0⟩ event = .ok (node, 0) := by
        simp [MatchSets.locate, MatchSets.node?, hnodes, DistinctList.indexOf?, hevents]
      rw [hnot, if_neg Bool.false_ne_true, honly, hcursors, hlocate]
      exact (Emission.andThen_none _).symm
    · have hall : ∀ c ∈ cursors, c = ⟨0, 0⟩ := by
        intro c hc
        obtain ⟨o, ho, rfl⟩ := hb.mem_occurrences c hc
        rw [honly] at ho
        rw [List.mem_singleton.mp ho]
      obtain ⟨c, hc⟩ := List.exists_mem_of_ne_nil _ hcursors
      have hmem : ⟨0, 0⟩ ∈ cursors := hall c hc ▸ hc
      rw [if_pos (hb.received_iff.mpr hcursors), honly,
        List.filter_cons_of_neg (by simpa using hmem)]
      rfl

end OuterBranch

namespace JoinNode

/-- A row that can be passed on is, and the event that it was found for is covered. -/
lemma accept_outer {seat : Seat} {child : StreamIndex} {m : MatchSets ε} {b : OuterBranch ε}
    {cursors : List Cursor} (hb : b.Covers seat m child cursors) {h : Handoff ε} {d : Delivery ε}
    (hf : forward seat child m h = .ok d) :
    ∃ b' cursor, cursor? m seat.stream h = some cursor ∧
      accept ⟨seat, .outer b⟩ m h = (⟨seat, .outer b'⟩, .ok (some d)) ∧
      b'.Covers seat m child (cursor :: cursors) := by
  have hanswer := b.answer_accept seat m h
  rw [hb.child_eq, hf] at hanswer
  obtain ⟨⟨node, position⟩, hlocate⟩ := located_of_forward hf
  have hsender : ¬ h.sender ≠ b.child := by
    intro hne
    rw [OuterBranch.accept, if_pos hne] at hanswer
    cases hanswer
  have hstate : (b.accept seat m h).1 = b.cover ⟨h.place.index, position⟩ := by
    rw [OuterBranch.accept, if_neg hsender, hlocate]
  refine ⟨_, ⟨h.place.index, position⟩, by rw [cursor?, hlocate], ?_,
    hb.cover (MatchSets.locate_eq_ok hlocate)⟩
  rw [accept]
  simp only [hstate, hanswer]
  rfl

/-- Accepting rows without an error covers the events that they were found for. -/
lemma acceptAll_outer (seat : Seat) (child : StreamIndex) (m : MatchSets ε)
    (hs : List (Handoff ε)) :
    ∀ {b : OuterBranch ε} {cursors : List Cursor}, b.Covers seat m child cursors →
      (acceptAll m ⟨seat, .outer b⟩ hs).2 = forwardAll seat child m hs ∧
        ((forwardAll seat child m hs).error = none →
          ∃ b', (acceptAll m ⟨seat, .outer b⟩ hs).1 = ⟨seat, .outer b'⟩ ∧
            b'.Covers seat m child
              ((hs.filterMap (cursor? m seat.stream)).reverse ++ cursors)) := by
  induction hs with
  | nil => intro b cursors hb; exact ⟨rfl, fun _ => ⟨b, rfl, hb⟩⟩
  | cons h rest ih =>
    intro b cursors hb
    have hanswer := b.answer_accept seat m h
    rw [hb.child_eq] at hanswer
    cases hf : forward seat child m h with
    | error e =>
      rw [hf] at hanswer
      rw [forwardAll_of_error hf, acceptAll, accept]
      simp only [hanswer]
      refine ⟨rfl, fun hok => ?_⟩
      cases hok
    | ok d =>
      obtain ⟨b', cursor, hcursor, haccept, hcover⟩ := accept_outer hb hf
      obtain ⟨hemission, hcovers⟩ := ih hcover
      rw [forwardAll_of_ok hf, acceptAll, haccept]
      simp only [hemission]
      refine ⟨rfl, fun hok => ?_⟩
      obtain ⟨b'', hb'', hcovers'⟩ := hcovers hok
      refine ⟨b'', hb'', ?_⟩
      rw [List.filterMap_cons_some hcursor, List.reverse_cons, List.append_assoc]
      exact hcovers'

/-- What an outer branch sends: what its child sends, and then a row for every event that no row of
the child has come for. -/
def outerEmission (seat : Seat) (child : StreamIndex) (m : MatchSets ε) (e : Emission ε) :
    Emission ε :=
  ((forwardAll seat child m e.handoffs).andThen (.stop e.error)).andThen
    (Emission.forEach (fun o => .ofExcept (seat.sendSeed o)) ((m.occurrences seat.stream).filter
      fun o => !(e.handoffs.filterMap (cursor? m seat.stream)).contains o.cursor)).settled

/-- What an outer branch sends in a pass does not depend on how it keeps track of its events. -/
lemma settle_outer (seat : Seat) (child : StreamIndex) (m : MatchSets ε) (fastPath : Bool)
    (e : Emission ε) :
    settle m ⟨seat, .outer ((OuterBranch.new child).start seat m fastPath)⟩ [e]
      = outerEmission seat child m e := by
  obtain ⟨hemission, hcovers⟩ := acceptAll_outer seat child m e.handoffs
    (OuterBranch.covers_start child seat m fastPath)
  simp only [settle, relayAll, relay, hemission, outerEmission, Emission.andThen_none]
  cases hok : (forwardAll seat child m e.handoffs).error with
  | some err =>
    -- Nothing follows an error.
    simp only [Emission.andThen, hok]
  | none =>
    obtain ⟨b', hb', hcovers'⟩ := hcovers hok
    have hfinish := hcovers'.finish
    rw [List.append_nil] at hfinish
    rw [hb']
    simp only [finish, hfinish, List.contains_reverse]

end JoinNode

end JoinAssembly
