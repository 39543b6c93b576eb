import JoinAssembly.Proofs.JoinNode.Gathering

/-!
# Rows offered to a node

Between its start and its finish a node can be offered any rows. It refuses a row that does not come
from a child, or that is not for an event of the stream; such a row leaves no trace. Of the others,
an outer branch remembers what they are for, whatever becomes of them, and a product keeps them all.
-/

namespace JoinAssembly

variable {ε : Type} [DecidableEq ε]

/-! ### What a row is for -/

namespace Handoff

/-- A row comes from a stream and names the match node and the event of an occurrence. -/
def isFor (h : Handoff ε) (c s : StreamIndex) (o : Occurrence ε) : Bool :=
  decide (h.sender = c ∧ h.place = ⟨s, o.cursor.node⟩ ∧ h.event = o.event)

/-- The rows of a stream that are offered for an occurrence, in order. -/
def rowsFor (c s : StreamIndex) (o : Occurrence ε) (hs : List (Handoff ε)) : List (Row ε) :=
  (hs.filter fun h => h.isFor c s o).map (·.row)

variable {h : Handoff ε} {c s : StreamIndex} {m : MatchSets ε}

lemma isFor_iff {o : Occurrence ε} : h.isFor c s o ↔
    h.sender = c ∧ h.place = ⟨s, o.cursor.node⟩ ∧ h.event = o.event := decide_eq_true_iff

@[simp] lemma rowsFor_append (c s : StreamIndex) (o : Occurrence ε)
    (hs hs' : List (Handoff ε)) :
    rowsFor c s o (hs ++ hs') = rowsFor c s o hs ++ rowsFor c s o hs' := by
  simp only [rowsFor, List.filter_append, List.map_append]

/-- A row is for one occurrence at most. -/
lemma isFor_iff_cursor {o o' : Occurrence ε} (ho : o ∈ m.occurrences s)
    (ho' : o' ∈ m.occurrences s) (hfor : h.isFor c s o) :
    h.isFor c s o' ↔ o'.cursor = o.cursor := by
  obtain ⟨hsender, hplace, hevent⟩ := isFor_iff.mp hfor
  constructor
  · intro hfor'
    obtain ⟨-, hplace', hevent'⟩ := isFor_iff.mp hfor'
    have hnode : o'.cursor.node = o.cursor.node :=
      congrArg MatchRef.index (hplace'.symm.trans hplace)
    rw [MatchSets.eq_of_event_eq ho' ho hnode (hevent'.symm.trans hevent)]
  · intro hcursor
    rw [MatchSets.eq_of_cursor_eq ho' ho hcursor]
    exact hfor

end Handoff

/-- An error says that a row offered to a stream is refused: it comes from a stream that is not a
child, or its event is not found. -/
inductive AssemblyError.Refuses (s : StreamIndex) (h : Handoff ε) : AssemblyError → Prop where
  | notAChild : Refuses s h (.notAChild s h.sender)
  | wrongStream : Refuses s h (.wrongStream s h.place.stream)
  | noMatchNode : Refuses s h (.noMatchNode s h.place.index)
  | eventNotHeld : Refuses s h (.eventNotHeld s h.place.index)

/-- A stream finds the occurrence that a row is for, or it refuses the row. -/
lemma Handoff.locate_cases (m : MatchSets ε) (s : StreamIndex) (h : Handoff ε) :
    (∃ o ∈ m.occurrences s, h.isFor h.sender s o ∧ h.place.index = o.cursor.node ∧
        m.locate s h.place h.event = .ok (o.node, o.cursor.position)) ∨
      ((∀ c, ∀ o ∈ m.occurrences s, ¬ h.isFor c s o) ∧
        ∃ e : AssemblyError, e.Refuses s h ∧ m.locate s h.place h.event = .error e) := by
  by_cases hs : h.place.stream = s
  · rcases m.locate_cases hs h.event with ⟨o, ho, hindex, hevent, hok⟩ | ⟨hmissing, herror⟩ |
      ⟨node, hnode, hevent, herror⟩
    · have hplace : h.place = ⟨s, o.cursor.node⟩ := by rw [hindex, ← hs]
      exact .inl ⟨o, ho, isFor_iff.mpr ⟨rfl, hplace, hevent.symm⟩, hindex.symm, hok⟩
    · refine .inr ⟨fun c o ho hfor => ?_, _, .noMatchNode, herror⟩
      obtain ⟨-, hplace, -⟩ := isFor_iff.mp hfor
      rw [hplace, (MatchSets.mem_occurrences.mp ho).1] at hmissing
      cases hmissing
    · refine .inr ⟨fun c o ho hfor => ?_, _, .eventNotHeld, herror⟩
      obtain ⟨-, hplace, hsame⟩ := isFor_iff.mp hfor
      obtain ⟨hfound, hheld⟩ := MatchSets.mem_occurrences.mp ho
      rw [hplace, hfound] at hnode
      cases hnode
      exact hevent (hsame ▸ List.mem_of_getElem? hheld)
  · refine .inr ⟨fun c o _ hfor => ?_, _, .wrongStream, by rw [MatchSets.locate, if_pos hs]⟩
    obtain ⟨-, hplace, -⟩ := isFor_iff.mp hfor
    exact hs (congrArg MatchRef.stream hplace)

/-- Offer rows to a node in order, whatever it answers. -/
def JoinNode.offerAll (m : MatchSets ε) (n : JoinNode ε) (hs : List (Handoff ε)) : JoinNode ε :=
  hs.foldl (fun n h => (n.accept m h).1) n

/-! ### Outer branches -/

omit [DecidableEq ε] in
/-- Where the row of an occurrence cannot be written or sent on, that is no refusal. -/
lemma JoinNode.not_refuses_of_sent {s : StreamIndex} {h : Handoff ε} {row : Row ε}
    {node : MatchNode ε} {parent : Option StreamIndex} {index : Nat} {e : AssemblyError}
    (he : (do node.send s parent index (← row.set s h.event)) = .error e) : ¬ e.Refuses s h := by
  intro hrefuses
  rw [Row.set] at he
  split at he
  · cases he
    cases hrefuses
  · cases he
    cases hrefuses
  · change node.send s parent index _ = .error e at he
    rcases node.send_cases s parent index _ with ⟨-, -, hsend⟩ | ⟨_, -, -, hsend⟩ |
      ⟨_, -, -, hsend⟩ | ⟨_, _, -, -, -, hsend⟩ | ⟨_, _, -, -, -, hsend⟩
    all_goals
      cases hsend.symm.trans he
      try cases hrefuses

namespace OuterBranch

variable {b : OuterBranch ε} {seat : Seat} {m : MatchSets ε} {child : StreamIndex}

/-- What an outer branch makes of a row. -/
lemma accept_cases (b : OuterBranch ε) (seat : Seat) (m : MatchSets ε) (h : Handoff ε) :
    (∃ o ∈ m.occurrences seat.stream, h.isFor b.child seat.stream o ∧
        (b.accept seat m h).1 = b.cover o.cursor ∧
        ∀ e, (b.accept seat m h).2 = .error e → ¬ e.Refuses seat.stream h) ∨
      ((∀ o ∈ m.occurrences seat.stream, ¬ h.isFor b.child seat.stream o) ∧
        ∃ e : AssemblyError, e.Refuses seat.stream h ∧ b.accept seat m h = (b, .error e)) := by
  by_cases hsender : h.sender = b.child
  · rcases h.locate_cases m seat.stream with ⟨o, ho, hfor, hindex, hok⟩ | ⟨hnone, e, he, herror⟩
    · left
      have haccept : b.accept seat m h = (b.cover o.cursor, do
          o.node.send seat.stream seat.parent h.place.index
            (← h.row.set seat.stream h.event)) := by
        simp only [accept, hsender, ne_eq, not_true_eq_false, if_false, hok, hindex]
      rw [haccept]
      exact ⟨o, ho, hsender ▸ hfor, rfl, fun e he => JoinNode.not_refuses_of_sent he⟩
    · right
      refine ⟨hnone b.child, e, he, ?_⟩
      simp only [accept, hsender, ne_eq, not_true_eq_false, if_false, herror]
  · right
    refine ⟨fun o _ hfor => hsender (Handoff.isFor_iff.mp hfor).1, _, .notAChild, ?_⟩
    simp only [accept, ne_eq, hsender, not_false_eq_true, if_true]

end OuterBranch

namespace JoinNode

variable {seat : Seat} {m : MatchSets ε} {child : StreamIndex}

/-- An outer branch refuses just the rows that are for none of its events, and they leave no trace.
-/
lemma accept_outer_cases (b : OuterBranch ε) (seat : Seat) (m : MatchSets ε) (h : Handoff ε) :
    ((∃ o ∈ m.occurrences seat.stream, h.isFor b.child seat.stream o) ∧
        ∀ e, (accept ⟨seat, .outer b⟩ m h).2 = .error e → ¬ e.Refuses seat.stream h) ∨
      ((∀ o ∈ m.occurrences seat.stream, ¬ h.isFor b.child seat.stream o) ∧
        ∃ e : AssemblyError, e.Refuses seat.stream h ∧
          accept ⟨seat, .outer b⟩ m h = (⟨seat, .outer b⟩, .error e)) := by
  have haccept : accept ⟨seat, .outer b⟩ m h
      = (⟨seat, .outer (b.accept seat m h).1⟩, (b.accept seat m h).2.map some) := rfl
  rw [haccept]
  rcases b.accept_cases seat m h with ⟨o, ho, hfor, -, hkept⟩ | ⟨hnone, e, he, hrefused⟩
  · left
    refine ⟨⟨o, ho, hfor⟩, fun e he => ?_⟩
    cases hanswer : (b.accept seat m h).2 with
    | error e' =>
      rw [hanswer] at he
      cases he
      exact hkept e hanswer
    | ok d =>
      rw [hanswer] at he
      cases he
  · right
    refine ⟨hnone, e, he, ?_⟩
    rw [hrefused]
    rfl

/-- After any rows an outer branch has covered what they are for, unless they were refused. -/
lemma offerAll_outer (hs : List (Handoff ε)) :
    ∀ {b : OuterBranch ε} {cursors : List Cursor}, b.Covers seat m child cursors →
      ∃ b' cursors', offerAll m ⟨seat, .outer b⟩ hs = ⟨seat, .outer b'⟩ ∧
        b'.Covers seat m child cursors' ∧ ∀ o ∈ m.occurrences seat.stream,
          (o.cursor ∈ cursors' ↔ o.cursor ∈ cursors ∨ ∃ h ∈ hs, h.isFor child seat.stream o) := by
  induction hs with
  | nil => intro b cursors hb; exact ⟨b, cursors, rfl, hb, by simp⟩
  | cons h rest ih =>
    intro b cursors hb
    have hoffer : offerAll m ⟨seat, .outer b⟩ (h :: rest)
        = offerAll m ⟨seat, .outer (b.accept seat m h).1⟩ rest := rfl
    rw [hoffer]
    rcases b.accept_cases seat m h with ⟨o, ho, hfor, hstate, -⟩ | ⟨hnone, e, -, haccept⟩
    · rw [hb.child_eq] at hfor
      obtain ⟨b', cursors', hb', hcovers, hmem⟩ := ih (hb.cover ho)
      refine ⟨b', cursors', hstate ▸ hb', hcovers, fun o' ho' => ?_⟩
      rw [hmem o' ho', List.mem_cons, ← Handoff.isFor_iff_cursor ho ho' hfor]
      simp only [List.mem_cons, exists_eq_or_imp]
      tauto
    · rw [hb.child_eq] at hnone
      obtain ⟨b', cursors', hb', hcovers, hmem⟩ := ih hb
      refine ⟨b', cursors', by rw [haccept]; exact hb', hcovers, fun o ho => ?_⟩
      rw [hmem o ho]
      simp [hnone o ho]

end JoinNode

/-! ### Products -/

namespace Product

variable {p : Product ε} {seat : Seat} {m : MatchSets ε}

/-- What a product makes of a row. -/
lemma accept_cases (p : Product ε) (seat : Seat) (m : MatchSets ε) (h : Handoff ε) :
    (∃ o ∈ m.occurrences seat.stream, (∃ f ∈ p.factors, h.isFor f.stream seat.stream o) ∧
        p.accept seat m h = (⟨p.factors, p.waiting ++ [⟨o.cursor, h.sender, h.row⟩]⟩, .ok ())) ∨
      ((∀ o ∈ m.occurrences seat.stream, ∀ f ∈ p.factors, ¬ h.isFor f.stream seat.stream o) ∧
        ∃ e : AssemblyError, e.Refuses seat.stream h ∧ p.accept seat m h = (p, .error e)) := by
  by_cases hsender : p.factors.any fun f => f.stream == h.sender
  · rcases h.locate_cases m seat.stream with ⟨o, ho, hfor, hindex, hok⟩ | ⟨hnone, e, he, herror⟩
    · left
      obtain ⟨f, hf, heq⟩ := List.any_eq_true.mp hsender
      refine ⟨o, ho, ⟨f, hf, eq_of_beq heq ▸ hfor⟩, ?_⟩
      simp only [accept, if_pos hsender, hok, hindex]
    · right
      refine ⟨fun o ho f _ => hnone f.stream o ho, e, he, ?_⟩
      simp only [accept, if_pos hsender, herror]
  · right
    refine ⟨fun o _ f hf hfor => hsender ?_, _, .notAChild, ?_⟩
    · exact List.any_eq_true.mpr ⟨f, hf, beq_iff_eq.mpr (Handoff.isFor_iff.mp hfor).1.symm⟩
    · simp only [accept, if_neg hsender]

/-- A row that comes to wait for an occurrence is one more of those for it. -/
lemma rowsOf_push (waiting : List (Arrival ε)) {h : Handoff ε} {s d : StreamIndex}
    {o o' : Occurrence ε} (ho : o ∈ m.occurrences s) (hfor : h.isFor d s o)
    (ho' : o' ∈ m.occurrences s) (c : StreamIndex) :
    rowsOf ((waiting ++ [(⟨o.cursor, h.sender, h.row⟩ : Arrival ε)]).filter
        fun a => a.cursor == o'.cursor) c
      = rowsOf (waiting.filter fun a => a.cursor == o'.cursor) c ++ Handoff.rowsFor c s o' [h] := by
  have hsame : h.isFor c s o' = (o.cursor == o'.cursor && h.sender == c) := by
    obtain ⟨rfl, hplace, hevent⟩ := Handoff.isFor_iff.mp hfor
    have hcursor := Handoff.isFor_iff_cursor ho ho' hfor
    rw [Handoff.isFor_iff] at hcursor
    rw [Bool.eq_iff_iff, Bool.and_eq_true, beq_iff_eq, beq_iff_eq, Handoff.isFor_iff,
      eq_comm (a := o.cursor), ← hcursor]
    tauto
  simp only [rowsOf, Handoff.rowsFor, List.filter_append, List.map_append, List.filter_cons, hsame]
  cases o.cursor == o'.cursor <;> cases hsender : h.sender == c <;> simp [hsender]

end Product

namespace JoinNode

/-- A product refuses just the rows that are for none of its events, and they leave no trace. -/
lemma accept_product_cases (p : Product ε) (seat : Seat) (m : MatchSets ε) (h : Handoff ε) :
    ((∃ o ∈ m.occurrences seat.stream, ∃ f ∈ p.factors, h.isFor f.stream seat.stream o) ∧
        (accept ⟨seat, .product p⟩ m h).2 = .ok none) ∨
      ((∀ o ∈ m.occurrences seat.stream, ∀ f ∈ p.factors, ¬ h.isFor f.stream seat.stream o) ∧
        ∃ e : AssemblyError, e.Refuses seat.stream h ∧
          accept ⟨seat, .product p⟩ m h = (⟨seat, .product p⟩, .error e)) := by
  have haccept : accept ⟨seat, .product p⟩ m h
      = (⟨seat, .product (p.accept seat m h).1⟩, (p.accept seat m h).2.map fun _ => none) := rfl
  rw [haccept]
  rcases p.accept_cases seat m h with ⟨o, ho, hfor, hkept⟩ | ⟨hnone, e, he, hrefused⟩
  · left
    refine ⟨⟨o, ho, hfor⟩, ?_⟩
    rw [hkept]
    rfl
  · right
    refine ⟨hnone, e, he, ?_⟩
    rw [hrefused]
    rfl

/-- After any rows, there wait at a product for each of its events and from each of its children, in
order, the rows of the child that are for the event, and nothing else. -/
lemma offerAll_product (seat : Seat) (m : MatchSets ε) (hs : List (Handoff ε)) :
    ∀ p : Product ε, ∃ waiting,
      offerAll m ⟨seat, .product p⟩ hs = ⟨seat, .product ⟨p.factors, waiting⟩⟩ ∧
      (∀ a ∈ waiting, a ∈ p.waiting ∨ ∃ o ∈ m.occurrences seat.stream, a.cursor = o.cursor) ∧
      ∀ o ∈ m.occurrences seat.stream, ∀ f ∈ p.factors,
        Product.rowsOf (waiting.filter fun a => a.cursor == o.cursor) f.stream
          = Product.rowsOf (p.waiting.filter fun a => a.cursor == o.cursor) f.stream
            ++ Handoff.rowsFor f.stream seat.stream o hs := by
  induction hs with
  | nil =>
    intro p
    exact ⟨p.waiting, rfl, fun a ha => .inl ha, fun o _ f _ => (List.append_nil _).symm⟩
  | cons h rest ih =>
    intro p
    have hoffer : offerAll m ⟨seat, .product p⟩ (h :: rest)
        = offerAll m ⟨seat, .product (p.accept seat m h).1⟩ rest := rfl
    rw [hoffer]
    rcases p.accept_cases seat m h with ⟨o, ho, ⟨f, -, hfor⟩, haccept⟩ | ⟨hnone, e, -, haccept⟩
    · rw [haccept]
      obtain ⟨waiting, hnode, hmem, hrows⟩ :=
        ih ⟨p.factors, p.waiting ++ [⟨o.cursor, h.sender, h.row⟩]⟩
      refine ⟨waiting, hnode, fun a ha => ?_, fun o' ho' f' hf' => ?_⟩
      · rcases hmem a ha with ha | hnew
        · rcases List.mem_append.mp ha with ha | ha
          · exact .inl ha
          · exact .inr ⟨o, ho, congrArg Arrival.cursor (List.mem_singleton.mp ha)⟩
        · exact .inr hnew
      · have hwaiting := Product.rowsOf_push p.waiting ho hfor ho' f'.stream
        rw [hrows o' ho' f' hf', hwaiting, List.append_assoc, ← Handoff.rowsFor_append]
        rfl
    · rw [haccept]
      obtain ⟨waiting, hnode, hmem, hrows⟩ := ih p
      refine ⟨waiting, hnode, hmem, fun o ho f hf => ?_⟩
      have hnot : Handoff.rowsFor f.stream seat.stream o [h] = [] := by
        simp [Handoff.rowsFor, hnone o ho f hf]
      rw [hrows o ho f hf, ← List.singleton_append, Handoff.rowsFor_append, hnot,
        List.nil_append]

end JoinNode

end JoinAssembly
