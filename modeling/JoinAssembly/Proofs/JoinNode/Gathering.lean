import JoinAssembly.Proofs.JoinNode.Passing
import JoinAssembly.Proofs.JoinNode.Combine

/-!
# Nodes that gather rows

A product keeps what its children send and sends nothing before it is finished. Then it combines,
for each of its events apart, what has come for the event.
-/

namespace JoinAssembly

variable {ε : Type}

lemma Emission.forEach_congr {α : Type} {f g : α → Emission ε} {l : List α}
    (h : ∀ a ∈ l, f a = g a) : forEach f l = forEach g l := by
  induction l with
  | nil => rfl
  | cons a rest ih =>
    rw [forEach, forEach, h a List.mem_cons_self, ih fun b hb => h b (List.mem_cons_of_mem _ hb)]

namespace Product

/-- Of the rows found for children only those of the children matter. -/
lemma combine_congr {f g : StreamIndex → List (Row ε)} (factors : List Factor) :
    ∀ bases : List (Row ε), (∀ x ∈ factors, f x.stream = g x.stream) →
      combine f bases factors = combine g bases factors := by
  induction factors with
  | nil => intro bases _; rfl
  | cons x rest ih =>
    intro bases hfg
    have hrest := fun bases => ih bases fun y hy => hfg y (List.mem_cons_of_mem _ hy)
    simp only [combine, hfg x List.mem_cons_self, hrest]

/-- Of the rows that wait for an event, only the order for each child matters. -/
lemma emitFor_congr {factors : List Factor} {own own' : List (Arrival ε)}
    (h : ∀ x ∈ factors, rowsOf own x.stream = rowsOf own' x.stream) (seat : Seat)
    (o : Occurrence ε) : emitFor factors seat o own = emitFor factors seat o own' := by
  have hcombine := fun bases => combine_congr factors bases h
  simp only [emitFor, hcombine]

/-- Draining takes the events one by one; what waits for one is not touched by the others. -/
lemma drain_eq (factors : List Factor) (seat : Seat) {os : List (Occurrence ε)}
    (hnodup : (os.map (·.cursor)).Nodup) :
    ∀ waiting : List (Arrival ε), (drain factors seat waiting os).2 = .forEach
      (fun o => emitFor factors seat o (waiting.filter fun a => a.cursor == o.cursor)) os := by
  induction os with
  | nil => intro waiting; rfl
  | cons o rest ih =>
    intro waiting
    obtain ⟨ho, hrest⟩ := List.nodup_cons.mp hnodup
    have hothers : ∀ o' ∈ rest,
        (waiting.filter fun a => !(a.cursor == o.cursor)).filter (fun a => a.cursor == o'.cursor)
          = waiting.filter fun a => a.cursor == o'.cursor := by
      intro o' ho'
      rw [List.filter_filter]
      apply List.filter_congr
      intro a _
      by_cases heq : a.cursor = o'.cursor
      · have hne : ¬ o'.cursor = o.cursor := by
          intro h
          exact ho (List.mem_map.mpr ⟨o', ho', h⟩)
        simp [heq, hne]
      · simp [heq]
    have hlater : Emission.forEach (fun o' => emitFor factors seat o'
        ((waiting.filter fun a => !(a.cursor == o.cursor)).filter
          fun a => a.cursor == o'.cursor)) rest
        = Emission.forEach (fun o' => emitFor factors seat o'
            (waiting.filter fun a => a.cursor == o'.cursor)) rest :=
      Emission.forEach_congr fun o' ho' => congrArg (emitFor factors seat o') (hothers o' ho')
    rw [drain, Emission.forEach, List.partition_eq_filter_filter]
    simp only []
    split
    · rename_i e he
      simp only [Emission.andThen, he]
    · rw [ih hrest]
      exact congrArg (Emission.andThen _) hlater

/-- Draining without an error leaves only rows that wait for none of the events. -/
lemma mem_drain (factors : List Factor) (seat : Seat) (os : List (Occurrence ε)) :
    ∀ waiting : List (Arrival ε), (drain factors seat waiting os).2.error = none →
      ∀ x ∈ (drain factors seat waiting os).1, x ∈ waiting ∧ ∀ o ∈ os, x.cursor ≠ o.cursor := by
  induction os with
  | nil => intro waiting _ x hx; exact ⟨hx, fun o ho => absurd ho List.not_mem_nil⟩
  | cons o rest ih =>
    intro waiting hok x hx
    rw [drain, List.partition_eq_filter_filter] at hok hx
    cases herror : (emitFor factors seat o
        (waiting.filter fun a => a.cursor == o.cursor)).error with
    | some e =>
      simp only [herror] at hok
      cases hok
    | none =>
      simp only [herror] at hok hx
      obtain ⟨hmem, hrest⟩ := ih _ (Emission.error_andThen.mp hok).2 x hx
      obtain ⟨hmem, hne⟩ := List.mem_filter.mp hmem
      refine ⟨hmem, fun o' ho' => ?_⟩
      rcases List.mem_cons.mp ho' with rfl | ho'
      · simpa using hne
      · exact hrest o' ho'

end Product

variable [DecidableEq ε]

namespace JoinNode

/-- A product finishes with what it combines for each of its events from what waits for it. -/
lemma finish_product (m : MatchSets ε) (seat : Seat) (factors : List Factor)
    (waiting : List (Arrival ε)) :
    (finish ⟨seat, .product ⟨factors, waiting⟩⟩ m).2 = .forEach (fun o =>
      Product.emitFor factors seat o (waiting.filter fun a => a.cursor == o.cursor))
      (m.occurrences seat.stream) :=
  Product.drain_eq factors seat (m.nodup_cursors seat.stream) waiting

/-- A row of a child with the event that it waits for. -/
def arrival? (m : MatchSets ε) (s : StreamIndex) (h : Handoff ε) : Option (Arrival ε) :=
  (cursor? m s h).map fun cursor => ⟨cursor, h.sender, h.row⟩

variable (m : MatchSets ε) (seat : Seat)

/-- A product keeps a row of a child with the event that it was found for. -/
lemma accept_product {p : Product ε} {h : Handoff ε}
    (hsender : p.factors.any fun f => f.stream == h.sender) {found : MatchNode ε × Nat}
    (hlocate : m.locate seat.stream h.place h.event = .ok found) :
    ∃ x, arrival? m seat.stream h = some x ∧ x.sender = h.sender ∧
      accept ⟨seat, .product p⟩ m h
        = (⟨seat, .product ⟨p.factors, p.waiting ++ [x]⟩⟩, .ok none) := by
  obtain ⟨node, position⟩ := found
  refine ⟨⟨⟨h.place.index, position⟩, h.sender, h.row⟩, ?_, rfl, ?_⟩
  · rw [arrival?, cursor?, hlocate]
    rfl
  · simp only [accept, Product.accept, if_pos hsender, hlocate]
    rfl

/-- A product accepts rows of its children unless their events cannot be found. -/
lemma acceptAll_product (hs : List (Handoff ε)) :
    ∀ {p : Product ε}, (∀ h ∈ hs, p.factors.any fun f => f.stream == h.sender) →
      (acceptAll m ⟨seat, .product p⟩ hs = (⟨seat, .product ⟨p.factors,
          p.waiting ++ hs.filterMap (arrival? m seat.stream)⟩⟩, .none)) ∨
        ∃ e, (acceptAll m ⟨seat, .product p⟩ hs).2 = .stop (some e) ∧
          ∃ h ∈ hs, m.locate seat.stream h.place h.event = .error e := by
  induction hs with
  | nil => intro p _; left; rw [List.filterMap_nil, List.append_nil]; rfl
  | cons h rest ih =>
    intro p hsender
    have hsender' := hsender h List.mem_cons_self
    cases hlocate : m.locate seat.stream h.place h.event with
    | error e =>
      right
      have haccept : accept ⟨seat, .product p⟩ m h = (⟨seat, .product p⟩, .error e) := by
        simp only [accept, Product.accept, if_pos hsender', hlocate]
        rfl
      refine ⟨e, ?_, h, List.mem_cons_self, hlocate⟩
      rw [acceptAll, haccept]
    | ok found =>
      obtain ⟨x, harrival, -, haccept⟩ := accept_product m seat hsender' hlocate
      have hrest := ih (p := ⟨p.factors, p.waiting ++ [x]⟩)
        fun h' hh' => hsender h' (List.mem_cons_of_mem _ hh')
      rw [acceptAll, haccept, List.filterMap_cons_some harrival]
      rcases hrest with hok | ⟨e, herror, h', hh', hlocate'⟩
      · left
        simp only [hok, List.append_assoc, List.singleton_append]
        rfl
      · right
        refine ⟨e, ?_, h', List.mem_cons_of_mem _ hh', hlocate'⟩
        simp only [herror]
        rfl

/-- Why a product is stopped before it is finished: a child was, or an event cannot be found. -/
def Stopped (m : MatchSets ε) (s : StreamIndex) (es : List (Emission ε)) (err : AssemblyError) :
    Prop :=
  ∃ e ∈ es, e.error = some err ∨ ∃ h ∈ e.handoffs, m.locate s h.place h.event = .error err

variable {m} in
lemma Stopped.cons {s : StreamIndex} {es : List (Emission ε)} {err : AssemblyError}
    (h : Stopped m s es err) (e : Emission ε) : Stopped m s (e :: es) err := by
  obtain ⟨e', he', hwhy⟩ := h
  exact ⟨e', List.mem_cons_of_mem _ he', hwhy⟩

lemma relayAll_product (es : List (Emission ε)) :
    ∀ {p : Product ε},
      (∀ e ∈ es, ∀ h ∈ e.handoffs, p.factors.any fun f => f.stream == h.sender) →
      (relayAll m ⟨seat, .product p⟩ es = (⟨seat, .product ⟨p.factors, p.waiting ++
          es.flatMap fun e => e.handoffs.filterMap (arrival? m seat.stream)⟩⟩, .none)) ∨
        ∃ err, (relayAll m ⟨seat, .product p⟩ es).2 = .stop (some err) ∧
          Stopped m seat.stream es err := by
  induction es with
  | nil => intro p _; left; rw [List.flatMap_nil, List.append_nil]; rfl
  | cons e rest ih =>
    intro p hsender
    rw [relayAll, relay]
    rcases acceptAll_product m seat e.handoffs (hsender e List.mem_cons_self)
      with hok | ⟨err, herror, h, hh, hlocate⟩
    · simp only [hok, Emission.none_andThen]
      cases hchild : e.error with
      | some err =>
        right
        exact ⟨err, rfl, e, List.mem_cons_self, .inl hchild⟩
      | none =>
        have hrest := ih (p := ⟨p.factors,
            p.waiting ++ e.handoffs.filterMap (arrival? m seat.stream)⟩)
          fun e' he' => hsender e' (List.mem_cons_of_mem _ he')
        rcases hrest with hall | ⟨err, herror, hstopped⟩
        · left
          simp only [hall, List.flatMap_cons, List.append_assoc]
          rfl
        · right
          refine ⟨err, ?_, hstopped.cons e⟩
          simp only [herror]
          rfl
    · right
      refine ⟨err, ?_, e, List.mem_cons_self, .inr ⟨h, hh, hlocate⟩⟩
      simp only [herror]
      rfl

/-- What a product sends in a pass: nothing if it is stopped, and else what it combines for each of
its events from the rows that have come for it. -/
lemma settle_product {factors : List Factor} (es : List (Emission ε))
    (hsender : ∀ e ∈ es, ∀ h ∈ e.handoffs, factors.any fun f => f.stream == h.sender) :
    ((relayAll m ⟨seat, .product ⟨factors, []⟩⟩ es).2 = .none ∧
      settle m ⟨seat, .product ⟨factors, []⟩⟩ es = (Emission.forEach (fun o =>
        Product.emitFor factors seat o ((es.flatMap fun e =>
          e.handoffs.filterMap (arrival? m seat.stream)).filter fun a => a.cursor == o.cursor))
        (m.occurrences seat.stream)).settled) ∨
      ∃ err, settle m ⟨seat, .product ⟨factors, []⟩⟩ es = .stop (some err) ∧
        Stopped m seat.stream es err := by
  rcases relayAll_product m seat es (p := ⟨factors, []⟩) hsender with
    hok | ⟨err, herror, hstopped⟩
  · left
    refine ⟨congrArg Prod.snd hok, ?_⟩
    simp only [settle, hok, finish_product, List.nil_append]
    rfl
  · right
    refine ⟨err, ?_, hstopped⟩
    simp only [settle, herror]
    rfl

end JoinNode

end JoinAssembly
