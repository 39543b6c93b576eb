import JoinAssembly.Proofs.Join.Sends

/-!
# Every kind of node sends its entries

By the children of a stream, its node is one of four kinds. Each sends the rows of the stream's
emission list if its children send theirs.
-/

namespace JoinAssembly

variable {ε : Type} [DecidableEq ε]

namespace Assembler

variable {t : JoinTree} {m : MatchSets ε} {s : StreamIndex} {options : AssemblyOptions}

/-- What a stream sends in a pass is settled from what its children send. -/
lemma emission_eq (h : t.Sound) (options : AssemblyOptions) (m : MatchSets ε) (s : StreamIndex) :
    emission t options m s = ((JoinNode.ofTree t s).start m options).settle m
      ((t.childrenOf s).map (emission t options m)) :=
  h.emissionFrom_eq m _ s

lemma headsTo_emission (h : t.Sound) (options : AssemblyOptions) (m : MatchSets ε)
    (s : StreamIndex) : (emission t options m s).HeadsTo (t.parent? s) := by
  have hheads := ((JoinNode.ofTree t s).start m options).headsTo_settle m
    ((t.childrenOf s).map (emission t options m))
  rw [JoinNode.seat_start, ← emission_eq h] at hheads
  exact hheads

lemma headsTo_child (h : t.Sound) (options : AssemblyOptions) (m : MatchSets ε) {c : StreamIndex}
    (hc : c ∈ t.childrenOf s) : (emission t options m c).HeadsTo (some s) :=
  h.parent_of_mem_childrenOf hc ▸ headsTo_emission h options m c

/-- The children of a product. -/
def factorsOf (t : JoinTree) (s : StreamIndex) : List Factor :=
  (t.childrenOf s).map fun c => ⟨c, t.isOptional c, t.subtree c⟩

omit [DecidableEq ε] in
lemma ofTree_product {c d : StreamIndex} {rest : List StreamIndex}
    (hmany : t.childrenOf s = c :: d :: rest) :
    (JoinNode.ofTree t s : JoinNode ε) = ⟨t.seatOf s, .product ⟨factorsOf t s, []⟩⟩ := by
  simp [JoinNode.ofTree, JoinNode.stateFor, hmany, JoinTree.seatOf, factorsOf]

section

variable (options : AssemblyOptions) (m : MatchSets ε)

omit [DecidableEq ε] in
lemma start_leaf (hleaf : t.childrenOf s = []) :
    (JoinNode.ofTree t s).start m options = ⟨t.seatOf s, .leaf⟩ := by
  simp [JoinNode.start, JoinNode.ofTree, JoinNode.stateFor, hleaf, JoinTree.seatOf]

omit [DecidableEq ε] in
lemma start_inner {c : StreamIndex} (honly : t.childrenOf s = [c])
    (hrequired : t.isOptional c = false) :
    (JoinNode.ofTree t s).start m options = ⟨t.seatOf s, .inner c⟩ := by
  simp [JoinNode.start, JoinNode.ofTree, JoinNode.stateFor, honly, hrequired, JoinTree.seatOf]

omit [DecidableEq ε] in
lemma start_outer {c : StreamIndex} (honly : t.childrenOf s = [c])
    (hoptional : t.isOptional c = true) :
    (JoinNode.ofTree t s).start m options
      = ⟨t.seatOf s, .outer ((OuterBranch.new c).start (t.seatOf s) m options.fastPath)⟩ := by
  simp [JoinNode.start, JoinNode.ofTree, JoinNode.stateFor, honly, hoptional, JoinTree.seatOf]

omit [DecidableEq ε] in
lemma start_product {c d : StreamIndex} {rest : List StreamIndex}
    (hmany : t.childrenOf s = c :: d :: rest) :
    (JoinNode.ofTree t s).start m options = ⟨t.seatOf s, .product ⟨factorsOf t s, []⟩⟩ := by
  rw [ofTree_product hmany]
  rfl

end

lemma emission_leaf (h : t.Sound) (hleaf : t.childrenOf s = []) :
    emission t options m s = (Emission.forEach
      (fun o => .ofExcept ((t.seatOf s).sendSeed o)) (m.occurrences s)).settled := by
  rw [emission_eq h, start_leaf options m hleaf, hleaf]
  rfl

lemma emission_inner (h : t.Sound) {c : StreamIndex} (honly : t.childrenOf s = [c])
    (hrequired : t.isOptional c = false) :
    emission t options m s = (JoinNode.forwardAll (t.seatOf s) c m
      (emission t options m c).handoffs).andThen (.stop (emission t options m c).error) := by
  rw [emission_eq h, start_inner options m honly hrequired, honly]
  exact JoinNode.settle_inner _ _ _ _

lemma emission_outer (h : t.Sound) {c : StreamIndex} (honly : t.childrenOf s = [c])
    (hoptional : t.isOptional c = true) :
    emission t options m s
      = JoinNode.outerEmission (t.seatOf s) c m (emission t options m c) := by
  rw [emission_eq h, start_outer options m honly hoptional, honly]
  exact JoinNode.settle_outer _ _ _ _ _

lemma emission_product (h : t.Sound) {c d : StreamIndex} {rest : List StreamIndex}
    (hmany : t.childrenOf s = c :: d :: rest) :
    emission t options m s = JoinNode.settle m ⟨t.seatOf s, .product ⟨factorsOf t s, []⟩⟩
      ((t.childrenOf s).map (emission t options m)) := by
  rw [emission_eq h, start_product options m hmany]

end Assembler

namespace JoinTree

variable {t : JoinTree} {m : MatchSets ε} {s : StreamIndex} {e : Emission ε}

/-! ### Leaves and branches -/

omit [DecidableEq ε] in
lemma sendSeed_eq (hs : s < t.size) (o : Occurrence ε) :
    (t.seatOf s).sendSeed o = (Entry.seed t.size s o).send (t.seatOf s) := by
  have hseed : (t.seatOf s).seed o.event = .ok (Row.single t.size s o.event) :=
    Row.seed_eq_single hs o.event
  rw [Seat.sendSeed, hseed]
  rfl

lemma sends_seeds (h : t.Sound) (hs : s < t.size) (os : List (Occurrence ε))
    (hmem : ∀ o ∈ os, Entry.seed t.size s o ∈ t.entries m s) :
    t.Sends m s (os.map (Entry.seed t.size s))
      (.forEach (fun o => .ofExcept ((t.seatOf s).sendSeed o)) os) := by
  rw [List.map_eq_flatMap]
  apply Sends.forEach
  intro o ho
  rw [sendSeed_eq hs]
  exact .ofExcept fun err hsend => Entry.blamed_of_send h hs (hmem o ho) hsend

/-- A branch sends the rows of its child on, and stops where the child does. -/
lemma sends_forwarded (h : t.Sound) {c : StreamIndex} (hc : c ∈ t.childrenOf s)
    (he : t.Sends m c (t.entries m c) e) (hheads : e.HeadsTo (some s))
    (hmem : ∀ z ∈ Entry.forwarded m s (t.entries m c), z ∈ t.entries m s) :
    t.Sends m s (Entry.forwarded m s (t.entries m c))
      ((JoinNode.forwardAll (t.seatOf s) c m e.handoffs).andThen (.stop e.error)) := by
  obtain ⟨sent, hsent, hsub, hall⟩ := Entry.handed_of_sends he hheads
  have hforward := Entry.sends_forwardAll h hc hsent hsub hmem
  cases herror : e.error with
  | none =>
    rw [hall herror] at hforward
    rw [Emission.andThen_stop_none]
    exact hforward
  | some err =>
    obtain ⟨-, -, -, -, hblamed⟩ := he
    have hstop := hforward.andThen fun _ => Sends.stop (hblamed err herror) []
    rw [List.append_nil] at hstop
    have hstopped : ((JoinNode.forwardAll (t.seatOf s) c m e.handoffs).andThen
        (.stop (some err))).error ≠ none := by
      intro hok
      cases (Emission.error_andThen.mp hok).2
    obtain ⟨err', herror'⟩ := Option.ne_none_iff_exists'.mp hstopped
    refine hstop.of_error herror' fun z hz => ?_
    obtain ⟨y, hy, o, ho, hlink, rfl⟩ := Entry.mem_forwarded.mp hz
    exact Entry.mem_forwarded.mpr ⟨y, hsub y hy, o, ho, hlink, rfl⟩

/-- The events that an outer branch finds covered are those that rows of the child link to. -/
lemma contains_cursors (h : t.Sound) {c : StreamIndex} {hs : List (Handoff ε)}
    (hhanded : Entry.Handed t c s (t.entries m c) hs)
    (hlocated : ∀ x ∈ hs, ∃ found, m.locate s x.place x.event = .ok found) {o : Occurrence ε}
    (ho : o ∈ m.occurrences s) :
    (hs.filterMap (JoinNode.cursor? m s)).contains o.cursor
      = (t.entries m c).any fun y => y.linksTo s o := by
  have hcursors := Entry.filterMap_cursor? h hhanded (fun _ hy => hy) hlocated
    fun cursor _ _ => cursor
  simp only [Option.map_id'] at hcursors
  rw [hcursors, Bool.eq_iff_iff, List.contains_iff_mem, List.mem_filterMap, List.any_eq_true]
  constructor
  · rintro ⟨y, hy, hfound⟩
    obtain ⟨o', hlinked, hsame⟩ := Option.map_eq_some_iff.mp hfound
    obtain ⟨ho', hlink⟩ := MatchSets.linked?_eq_some_iff.mp hlinked
    rw [MatchSets.eq_of_cursor_eq ho' ho hsame] at hlink
    exact ⟨y, hy, hlink⟩
  · rintro ⟨y, hy, hlink⟩
    exact ⟨y, hy, Option.map_eq_some_iff.mpr
      ⟨o, MatchSets.linked?_eq_some_iff.mpr ⟨ho, hlink⟩, rfl⟩⟩

/-- An outer branch adds the rows of the events that no row of its child was found for. -/
lemma sends_outer (h : t.Sound) (hs : s < t.size) {c : StreamIndex} (honly : t.childrenOf s = [c])
    (hoptional : t.isOptional c = true) (he : t.Sends m c (t.entries m c) e)
    (hheads : e.HeadsTo (some s)) :
    t.Sends m s (t.entries m s) (JoinNode.outerEmission (t.seatOf s) c m e) := by
  have hc : c ∈ t.childrenOf s := honly ▸ List.mem_cons_self
  have hentries : t.entries m s = Entry.forwarded m s (t.entries m c)
      ++ (Entry.uncovered m s (t.entries m c)).map (Entry.seed t.size s) := by
    rw [h.entries_eq, honly, List.map_singleton, hoptional]
    rfl
  have hforwarded := sends_forwarded h hc he hheads fun z hz => by
    rw [hentries]
    exact List.mem_append_left _ hz
  rw [JoinNode.outerEmission, hentries]
  refine hforwarded.andThen fun hok => Sends.settled ?_
  obtain ⟨haccepted, herror⟩ := Emission.error_andThen.mp hok
  obtain ⟨sent, hsent, -, hall⟩ := Entry.handed_of_sends he hheads
  rw [hall herror] at hsent
  have hfree : (m.occurrences s).filter
      (fun o => !(e.handoffs.filterMap (JoinNode.cursor? m s)).contains o.cursor)
      = Entry.uncovered m s (t.entries m c) := by
    apply List.filter_congr
    intro o ho
    rw [contains_cursors h hsent (JoinNode.located_of_forwardAll haccepted) ho]
  have hseeds := sends_seeds (m := m) h hs (Entry.uncovered m s (t.entries m c))
    fun o ho => by
      rw [hentries]
      exact List.mem_append_right _ (List.mem_map_of_mem ho)
  rw [← hfree] at hseeds ⊢
  exact hseeds

/-! ### Products -/

/-- The rows of a child that wait at a product once the child is done. -/
def arrivals (t : JoinTree) (m : MatchSets ε) (s c : StreamIndex) : List (Arrival ε) :=
  (t.entries m c).filterMap fun y =>
    (m.linked? s y.source.node).map fun o => ⟨o.cursor, c, y.row⟩

omit [DecidableEq ε] in
/-- Of all that waits at a product, what one child has sent. -/
lemma filter_sender (h : t.Sound) {c : StreamIndex} (hc : c ∈ t.childrenOf s)
    {f : StreamIndex → List (Arrival ε)} (hf : ∀ d ∈ t.childrenOf s, ∀ a ∈ f d, a.sender = d) :
    ((t.childrenOf s).flatMap f).filter (fun a => a.sender == c) = f c := by
  have hone : ∀ d ∈ t.childrenOf s, (f d).filter (fun a => a.sender == c)
      = if d == c then f d else [] := by
    intro d hd
    have hsender : ∀ a ∈ f d, (a.sender == c) = (d == c) := fun a ha => by rw [hf d hd a ha]
    rw [List.filter_congr hsender]
    cases d == c <;> simp
  have hpick : (t.childrenOf s).filter (fun d => d == c) = [c] := by
    rw [List.filter_beq, List.count_eq_one_of_mem (h.nodup_childrenOf s) hc]
    rfl
  rw [List.filter_flatMap, List.flatMap_congr hone, flatMap_ite_nil, hpick, List.flatMap_singleton]

/-- Of all that waits at a product, the rows of one child for one event. -/
lemma rowsOf_arrivals (h : t.Sound) {c : StreamIndex} (hc : c ∈ t.childrenOf s)
    {o : Occurrence ε} (ho : o ∈ m.occurrences s) :
    Product.rowsOf (((t.childrenOf s).flatMap (t.arrivals m s)).filter
        fun a => a.cursor == o.cursor) c
      = Entry.rowsLinked s o (t.entries m c) := by
  have hsender : ∀ d ∈ t.childrenOf s, ∀ a ∈ t.arrivals m s d, a.sender = d := by
    intro d _ a ha
    obtain ⟨y, -, hy⟩ := List.mem_filterMap.mp ha
    obtain ⟨o', -, rfl⟩ := Option.map_eq_some_iff.mp hy
    rfl
  have hlinked := Entry.filter_linked ho
    (fun o y => (⟨o.cursor, c, y.row⟩ : Arrival ε)) Arrival.cursor (fun _ _ => rfl) (t.entries m c)
  rw [Product.rowsOf, List.filter_comm, filter_sender h hc hsender]
  have hfor : (t.arrivals m s c).filter (fun a => a.cursor == o.cursor)
      = ((t.entries m c).filter fun y => y.linksTo s o).map fun y => ⟨o.cursor, c, y.row⟩ := by
    rw [← hlinked]
    apply List.filter_congr
    intro a _
    rw [Bool.eq_iff_iff]
    simp
  rw [hfor, List.map_map]
  rfl

omit [DecidableEq ε] in
/-- Whatever rows wait, a product combines without fail what they hold at the streams below the
children, and sends the outcome. -/
lemma emitFor_only (h : t.Sound) (hs : s < t.size) (o : Occurrence ε) (own : List (Arrival ε)) :
    Product.emitFor (Assembler.factorsOf t s) (t.seatOf s) o own
      = .forEach (fun row => .ofExcept ((t.seatOf s).send o row)) (Row.combineAll
          ((t.childrenOf s).map fun c => (t.isOptional c,
            (Product.rowsOf own c).map fun row => row.only t.size (t.subtree c)))
          [Row.single t.size s o.event]) := by
  have hslots : (Assembler.factorsOf t s).flatMap Factor.slots
      = (t.childrenOf s).flatMap t.below := by
    rw [Assembler.factorsOf, List.flatMap_map]
    exact List.flatMap_congr fun c hc => h.subtree_eq_below (h.lt_of_mem_childrenOf hc)
  have hnodup : ([s] ++ (Assembler.factorsOf t s).flatMap Factor.slots).Nodup := by
    rw [hslots, List.singleton_append, ← h.below_eq]
    exact h.nodup_below s
  have hwidth : ∀ f ∈ Assembler.factorsOf t s, ∀ x ∈ f.slots, x < t.size := by
    intro f hf x hx
    obtain ⟨c, hc, rfl⟩ := List.mem_map.mp hf
    have hc' := h.lt_of_mem_childrenOf hc
    exact h.lt_of_mem_below hc' (h.subtree_eq_below hc' ▸ hx)
  have hseed : (t.seatOf s).seed o.event = .ok (Row.single t.size s o.event) :=
    Row.seed_eq_single hs o.event
  have hcombine := Product.combine_eq (Product.rowsOf own) (Assembler.factorsOf t s)
    [Row.single t.size s o.event] hnodup hwidth
    (fun base hbase => List.mem_singleton.mp hbase ▸ Row.Over.single hs o.event)
  rw [Assembler.factorsOf, List.map_map] at hcombine
  simp only [Product.emitFor, hseed, bind, Except.bind, Assembler.factorsOf, hcombine]
  rfl

omit [DecidableEq ε] in
/-- If what waits are rows over the streams below the children, a product combines them whole. -/
lemma emitFor_eq (h : t.Sound) (hs : s < t.size) (o : Occurrence ε) {own : List (Arrival ε)}
    (hown : ∀ c ∈ t.childrenOf s, ∀ row ∈ Product.rowsOf own c, row.Over t.size (t.below c)) :
    Product.emitFor (Assembler.factorsOf t s) (t.seatOf s) o own
      = .forEach (fun row => .ofExcept ((t.seatOf s).send o row)) (Row.combineAll
          ((t.childrenOf s).map fun c => (t.isOptional c, Product.rowsOf own c))
          [Row.single t.size s o.event]) := by
  have hwhole : (t.childrenOf s).map (fun c => (t.isOptional c,
        (Product.rowsOf own c).map fun row => row.only t.size (t.subtree c)))
      = (t.childrenOf s).map fun c => (t.isOptional c, Product.rowsOf own c) := by
    refine List.map_congr_left fun c hc => congrArg (Prod.mk _) ?_
    have hc' := h.lt_of_mem_childrenOf hc
    refine (List.map_congr_left fun row hrow => ?_).trans (List.map_id _)
    rw [h.subtree_eq_below hc']
    exact (hown c hc row hrow).only_eq fun x => h.lt_of_mem_below hc'
  rw [emitFor_only h hs, hwhole]

/-- For each of its events, a product sends the combinations of the rows that wait for it. -/
lemma emitFor_arrivals (h : t.Sound) (hs : s < t.size) {o : Occurrence ε}
    (ho : o ∈ m.occurrences s) :
    Product.emitFor (Assembler.factorsOf t s) (t.seatOf s) o
        (((t.childrenOf s).flatMap (t.arrivals m s)).filter fun a => a.cursor == o.cursor)
      = .forEach (fun row => .ofExcept ((⟨o, row⟩ : Entry ε).send (t.seatOf s)))
          (Entry.combined t.size s ((t.childrenOf s).map fun c => (t.isOptional c, t.entries m c))
            o) := by
  have hfound : (t.childrenOf s).map (fun c => (t.isOptional c, Product.rowsOf
      (((t.childrenOf s).flatMap (t.arrivals m s)).filter fun a => a.cursor == o.cursor) c))
      = ((t.childrenOf s).map fun c => (t.isOptional c, t.entries m c)).map
          fun x => (x.1, Entry.rowsLinked s o x.2) := by
    rw [List.map_map]
    apply List.map_congr_left
    intro c hc
    simp only [Function.comp_def, rowsOf_arrivals h hc ho]
  rw [emitFor_eq h hs o fun c hc row hrow => ?_, hfound]
  · rfl
  · rw [rowsOf_arrivals h hc ho] at hrow
    obtain ⟨y, hy, -, rfl⟩ := Entry.mem_rowsLinked.mp hrow
    exact h.over_below c (h.lt_of_mem_childrenOf hc) y hy

/-- The rows that a child sends bear its stream. -/
lemma sender_of_sends {c : StreamIndex} (hsends : t.Sends m c (t.entries m c) e)
    (hheads : e.HeadsTo (some s)) {x : Handoff ε} (hx : x ∈ e.handoffs) : x.sender = c := by
  obtain ⟨sent, hsent, -, -⟩ := Entry.handed_of_sends hsends hheads
  obtain ⟨y, -, hsend⟩ := exists_left_of_forall₂ hsent hx
  obtain ⟨-, link, -, -, rfl⟩ := Entry.handoff_of_send hsend
  rfl

omit [DecidableEq ε] in
lemma any_factorsOf {c : StreamIndex} (hc : c ∈ t.childrenOf s) :
    (Assembler.factorsOf t s).any fun f => f.stream == c :=
  List.any_eq_true.mpr ⟨⟨c, t.isOptional c, t.subtree c⟩, List.mem_map_of_mem hc,
    beq_self_eq_true c⟩

lemma sends_product (h : t.Sound) (hs : s < t.size) {c d : StreamIndex} {rest : List StreamIndex}
    (hmany : t.childrenOf s = c :: d :: rest) {emission : StreamIndex → Emission ε}
    (hsends : ∀ c ∈ t.childrenOf s, t.Sends m c (t.entries m c) (emission c))
    (hheads : ∀ c ∈ t.childrenOf s, (emission c).HeadsTo (some s)) :
    t.Sends m s (t.entries m s) (JoinNode.settle m
      ⟨t.seatOf s, .product ⟨Assembler.factorsOf t s, []⟩⟩ ((t.childrenOf s).map emission)) := by
  have hentries : t.entries m s = (m.occurrences s).flatMap fun o =>
      (Entry.combined t.size s ((t.childrenOf s).map fun c => (t.isOptional c, t.entries m c))
        o).map fun row => ⟨o, row⟩ := by
    rw [h.entries_eq, hmany]
    exact Entry.emitted_many m t.size s _ _ _
  have hsender : ∀ e ∈ (t.childrenOf s).map emission, ∀ x ∈ e.handoffs,
      (Assembler.factorsOf t s).any fun f => f.stream == x.sender := by
    intro e he x hx
    obtain ⟨c, hc, rfl⟩ := List.mem_map.mp he
    rw [sender_of_sends (hsends c hc) (hheads c hc) hx]
    exact any_factorsOf hc
  rcases JoinNode.settle_product m (t.seatOf s) _ hsender with
    ⟨hgathered, hsettled⟩ | ⟨err, herror, e, he, hstopped⟩
  · -- All rows of the children wait at the product.
    have hok := JoinNode.ok_of_relayAll m _ _ (congrArg Emission.error hgathered)
    have harrivals : (((t.childrenOf s).map emission).flatMap fun e =>
        e.handoffs.filterMap (JoinNode.arrival? m s))
        = (t.childrenOf s).flatMap (t.arrivals m s) := by
      rw [List.flatMap_map]
      apply List.flatMap_congr
      intro c hc
      obtain ⟨hnone, hlocated⟩ := hok (emission c) (List.mem_map_of_mem hc)
      obtain ⟨sent, hsent, -, hall⟩ := Entry.handed_of_sends (hsends c hc) (hheads c hc)
      rw [hall hnone] at hsent
      exact Entry.filterMap_cursor? h hsent (fun _ hy => hy) hlocated Arrival.mk
    simp only [stream_seatOf, harrivals] at hsettled
    rw [hsettled, hentries]
    apply Sends.settled
    apply Sends.forEach
    intro o ho
    rw [emitFor_arrivals h hs ho, List.map_eq_flatMap]
    apply Sends.forEach
    intro row hrow
    refine .ofExcept fun err hsend => Entry.blamed_of_send h hs ?_ hsend
    rw [hentries]
    exact List.mem_flatMap.mpr ⟨o, ho, List.mem_map_of_mem hrow⟩
  · rw [herror]
    obtain ⟨c, hc, rfl⟩ := List.mem_map.mp he
    refine .stop ?_ _
    rcases hstopped with hchild | ⟨x, hx, hlocate⟩
    · obtain ⟨-, -, -, -, hblamed⟩ := hsends c hc
      exact hblamed err hchild
    · obtain ⟨sent, hsent, hsub, -⟩ := Entry.handed_of_sends (hsends c hc) (hheads c hc)
      exact Entry.blamed_of_locate h hsent hsub hx hlocate

/-! ### All streams -/

/-- In a pass every stream sends the rows of its emission list. -/
lemma sends_emission (h : t.Sound) (options : AssemblyOptions) (s : StreamIndex) :
    s < t.size → t.Sends m s (t.entries m s) (Assembler.emission t options m s) := by
  induction s using h.child_induction with
  | step s ih =>
    intro hs
    have hsends : ∀ c ∈ t.childrenOf s,
        t.Sends m c (t.entries m c) (Assembler.emission t options m c) :=
      fun c hc => ih c hc (h.lt_of_mem_childrenOf hc)
    have hheads : ∀ c ∈ t.childrenOf s, (Assembler.emission t options m c).HeadsTo (some s) :=
      fun c hc => Assembler.headsTo_child h options m hc
    rcases t.children_cases s with hleaf | ⟨c, hone, hrequired⟩ | ⟨c, hone, hoptional⟩ |
      ⟨c, d, rest, hmany⟩
    · have hentries : t.entries m s = (m.occurrences s).map (Entry.seed t.size s) := by
        rw [h.entries_eq, hleaf]
        rfl
      have hseeds := sends_seeds (m := m) h hs (m.occurrences s) fun o ho => by
        rw [hentries]
        exact List.mem_map_of_mem ho
      rw [Assembler.emission_leaf h hleaf, hentries]
      exact hseeds.settled
    · have hc : c ∈ t.childrenOf s := by simp [hone]
      have hentries : t.entries m s = Entry.forwarded m s (t.entries m c) := by
        rw [h.entries_eq, hone, List.map_singleton, hrequired]
        rfl
      rw [Assembler.emission_inner h hone hrequired, hentries]
      exact sends_forwarded h hc (hsends c hc) (hheads c hc) fun z hz => hentries ▸ hz
    · have hc : c ∈ t.childrenOf s := by simp [hone]
      rw [Assembler.emission_outer h hone hoptional]
      exact sends_outer h hs hone hoptional (hsends c hc) (hheads c hc)
    · rw [Assembler.emission_product h hmany]
      exact sends_product h hs hmany hsends hheads

lemma sender_of_emission (h : t.Sound) {options : AssemblyOptions} {c : StreamIndex}
    (hc : c ∈ t.childrenOf s) {x : Handoff ε} (hx : x ∈ (Assembler.emission t options m c).handoffs) :
    x.sender = c :=
  sender_of_sends (sends_emission h options c (h.lt_of_mem_childrenOf hc))
    (Assembler.headsTo_child h options m hc) hx

/-- If a stream runs into no error, neither do its children, and all rows that they send are found.
-/
lemma located_of_emission (h : t.Sound) {options : AssemblyOptions}
    (hok : (Assembler.emission t options m s).error = none) {c : StreamIndex}
    (hc : c ∈ t.childrenOf s) :
    (Assembler.emission t options m c).error = none ∧
      ∀ x ∈ (Assembler.emission t options m c).handoffs,
        ∃ found, m.locate s x.place x.event = .ok found := by
  rw [Assembler.emission_eq h] at hok
  have hchild := JoinNode.ok_of_relayAll m _ _ (Emission.error_andThen.mp hok).1 _
    (List.mem_map_of_mem hc)
  rwa [JoinNode.seat_start] at hchild

/-- If the root runs into no error, no stream does. -/
lemma errorless_of_emission (h : t.Sound) {options : AssemblyOptions}
    (hok : (Assembler.emission t options m t.root).error = none) :
    ∀ s < t.size, (Assembler.emission t options m s).error = none := by
  have hbelow : ∀ s, (Assembler.emission t options m s).error = none →
      ∀ x ∈ t.below s, (Assembler.emission t options m x).error = none := by
    intro s
    induction s using h.child_induction with
    | step s ih =>
      intro hs x hx
      rw [h.below_eq] at hx
      rcases List.mem_cons.mp hx with rfl | hx
      · exact hs
      · obtain ⟨c, hc, hx⟩ := List.mem_flatMap.mp hx
        exact ih c hc (located_of_emission h hs hc).1 x hx
  exact fun s hs => hbelow t.root hok s (h.mem_below_root.mpr hs)

/-- If a stream runs into no error, neither do its children, and their rows find what they were
found for. -/
lemma ok_of_emission (h : t.Sound) {options : AssemblyOptions}
    (hok : (Assembler.emission t options m s).error = none) {c : StreamIndex}
    (hc : c ∈ t.childrenOf s) :
    (Assembler.emission t options m c).error = none ∧
      ∀ y ∈ t.entries m c, ∃ o, m.linked? s y.source.node = some o := by
  obtain ⟨hnone, hlocated⟩ := located_of_emission h hok hc
  obtain ⟨sent, hsent, -, hall⟩ := Entry.handed_of_sends
    (sends_emission h options c (h.lt_of_mem_childrenOf hc)) (Assembler.headsTo_child h options m hc)
  rw [hall hnone] at hsent
  refine ⟨hnone, fun y hy => ?_⟩
  obtain ⟨x, hx, hsend⟩ := exists_right_of_forall₂ hsent hy
  rcases Entry.locate_of_send h hy hsend with ⟨o, ho, -⟩ | ⟨err, herror, -⟩
  · exact ⟨o, ho⟩
  · obtain ⟨found, hfound⟩ := hlocated x hx
    cases herror.symm.trans hfound

/-- If a stream runs into no error, no faulty link is behind a row of the streams below it. -/
lemma not_fault_of_emission (h : t.Sound) {options : AssemblyOptions} (s : StreamIndex) :
    s < t.size → (Assembler.emission t options m s).error = none →
      (∀ p, t.parent? s = some p → ∀ y ∈ t.entries m s, ∃ o, m.linked? p y.source.node = some o) →
      ∀ x ∈ t.below s, ∀ y ∈ t.entries m x, ∀ e, ¬ t.Fault m x y.source.cursor.node e := by
  induction s using h.child_induction with
  | step s ih =>
    intro hs hok hup x hx
    rw [h.below_eq] at hx
    rcases List.mem_cons.mp hx with rfl | hx
    · intro y hy e
      obtain ⟨sent, hsent, -, hall, -⟩ := sends_emission (m := m) h options x hs
      rw [hall hok] at hsent
      obtain ⟨d, -, hsend⟩ := exists_right_of_forall₂ hsent hy
      exact Entry.not_fault h hs hy hsend (fun p hp => hup p hp y hy) e
    · obtain ⟨c, hc, hx⟩ := List.mem_flatMap.mp hx
      obtain ⟨hnone, hlinked⟩ := ok_of_emission h hok hc
      refine ih c hc (h.lt_of_mem_childrenOf hc) hnone (fun p hp => ?_) x hx
      rw [h.parent_of_mem_childrenOf hc] at hp
      cases hp
      exact hlinked

end JoinTree

end JoinAssembly
