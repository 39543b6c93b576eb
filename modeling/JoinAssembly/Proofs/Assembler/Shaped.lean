import JoinAssembly.Proofs.Assembler.Calls
import JoinAssembly.Proofs.Join.Shaped

/-!
# The shape of the rows of a pass

Whatever the match sets are, every row that is sent in a pass has the shape of the stream that sends
it, also if the pass fails later. So no slot is written twice, and nothing is ever handed to a
stream that cannot take it.
-/

namespace JoinAssembly

variable {ε : Type}

/-! ### Deliveries -/

/-- The row that a delivery carries. -/
def Delivery.carried : Delivery ε → Row ε
  | .complete row => row
  | .toParent _ y => y.row

/-- A delivery names the stream that sends it, and carries a row of its shape. -/
structure Delivery.ShapedFrom (t : JoinTree) (s : StreamIndex) (d : Delivery ε) : Prop where
  shaped : d.carried.Shaped t s
  sender_eq : ∀ p y, d = .toParent p y → y.sender = s

variable {t : JoinTree} {s : StreamIndex} {m : MatchSets ε} {d : Delivery ε}

lemma MatchNode.shapedFrom_send {node : MatchNode ε} {parent : Option StreamIndex} {index : Nat}
    {row : Row ε} (hrow : row.Shaped t s) (hd : node.send s parent index row = .ok d) :
    d.ShapedFrom t s := by
  rcases node.send_cases s parent index row with ⟨-, -, hsend⟩ | ⟨_, -, -, hsend⟩ |
    ⟨_, -, -, hsend⟩ | ⟨_, _, -, -, -, hsend⟩ | ⟨_, _, -, -, -, hsend⟩
  · cases hsend.symm.trans hd
    exact ⟨hrow, fun _ _ heq => by cases heq⟩
  · cases hsend.symm.trans hd
  · cases hsend.symm.trans hd
  · cases hsend.symm.trans hd
    exact ⟨hrow, fun _ _ heq => by cases heq; rfl⟩
  · cases hsend.symm.trans hd

/-- A stream on which no child depends sends its own events. -/
lemma Seat.shapedFrom_sendSeed (h : t.Sound) (hs : s < t.size)
    (hchildren : t.childrenOf s = [] ∨ ∃ c, t.childrenOf s = [c] ∧ t.isOptional c = true)
    {o : Occurrence ε} (hd : (t.seatOf s).sendSeed o = .ok d) : d.ShapedFrom t s := by
  rw [JoinTree.sendSeed_eq hs] at hd
  exact MatchNode.shapedFrom_send (Row.shaped_single h hs hchildren o.event) hd

variable [DecidableEq ε]

namespace JoinNode

/-! ### Nodes -/

/-- What a branch sends on has the shape of its own stream. -/
lemma shapedFrom_forward (h : t.Sound) (hs : s < t.size) {c : StreamIndex}
    (honly : t.childrenOf s = [c]) {y : Handoff ε} (hy : y.row.Shaped t y.sender)
    (hd : forward (t.seatOf s) c m y = .ok d) : d.ShapedFrom t s := by
  rw [forward] at hd
  split at hd
  · cases hd
  · rename_i hsender
    have hrow : y.row.Shaped t c := not_not.mp hsender ▸ hy
    obtain ⟨⟨node, position⟩, -, hd⟩ := bind_eq_ok_iff.mp hd
    obtain ⟨row, hset, hd⟩ := bind_eq_ok_iff.mp hd
    obtain ⟨-, rfl⟩ := Row.set_eq_ok_iff.mp hset
    exact MatchNode.shapedFrom_send (Row.shaped_put h hs honly hrow y.event) hd

lemma shapedFrom_accept (h : t.Sound) {nodes : List (JoinNode ε)} (hfits : t.Fits nodes)
    {n : JoinNode ε} (hn : nodes[s]? = some n) {y : Handoff ε} (hy : y.row.Shaped t y.sender)
    (hd : (n.accept m y).2 = .ok (some d)) : d.ShapedFrom t s := by
  have hs : s < t.size := hfits.length_eq ▸ (List.getElem?_eq_some_iff.mp hn).1
  rcases hfits.node_cases hn with ⟨-, rfl⟩ | ⟨c, honly, -, rfl⟩ | ⟨b, honly, -, rfl⟩ |
    ⟨waiting, rfl⟩
  · cases hd
  · obtain ⟨_, hforward, heq⟩ := map_eq_ok_iff.mp hd
    cases heq
    exact shapedFrom_forward h hs honly hy hforward
  · have hanswer : (b.accept (t.seatOf s) m y).2.map some = .ok (some d) := hd
    obtain ⟨_, hforward, heq⟩ := map_eq_ok_iff.mp hanswer
    cases heq
    rw [OuterBranch.answer_accept] at hforward
    exact shapedFrom_forward h hs honly hy hforward
  · obtain ⟨_, -, heq⟩ := map_eq_ok_iff.mp hd
    cases heq

/-- A node finishes with rows of the shape of its stream if the rows that wait at it have the shapes
of theirs. -/
lemma shapedFrom_finish (h : t.Sound) {nodes : List (JoinNode ε)} (hfits : t.Fits nodes)
    {n : JoinNode ε} (hn : nodes[s]? = some n)
    (hwaiting : ∀ x ∈ n.waiting, x.row.Shaped t x.sender) :
    (n.finish m).2.All (Delivery.ShapedFrom t s) := by
  have hs : s < t.size := hfits.length_eq ▸ (List.getElem?_eq_some_iff.mp hn).1
  rcases hfits.node_cases hn with ⟨hnone, rfl⟩ | ⟨c, -, -, rfl⟩ | ⟨b, honly, hoptional, rfl⟩ |
    ⟨waiting, rfl⟩
  · exact .forEach fun o _ => .ofExcept fun d hd => Seat.shapedFrom_sendSeed h hs (.inl hnone) hd
  · exact .none
  · have hchildren : t.childrenOf s = [] ∨ ∃ c, t.childrenOf s = [c] ∧ t.isOptional c = true :=
      .inr ⟨_, honly, hoptional⟩
    simp only [finish, OuterBranch.finish]
    split
    · exact .none
    · rename_i place event _
      split
      · exact .none
      · refine .ofExcept fun d hd => ?_
        have hseed : (t.seatOf s).seed event = .ok (Row.single t.size s event) :=
          Row.seed_eq_single hs event
        obtain ⟨⟨node, position⟩, -, hd⟩ := bind_eq_ok_iff.mp hd
        obtain ⟨row, hrow, hd⟩ := bind_eq_ok_iff.mp hd
        cases hseed.symm.trans hrow
        exact MatchNode.shapedFrom_send (Row.shaped_single h hs hchildren event) hd
    · exact .forEach fun o _ => .ofExcept fun d hd => Seat.shapedFrom_sendSeed h hs hchildren hd
  · have hrows : ∀ (o : Occurrence ε) c, ∀ row ∈ Product.rowsOf
        (waiting.filter fun x => x.cursor == o.cursor) c, row.Shaped t c := by
      intro o c row hrow
      obtain ⟨x, hx, rfl⟩ := List.mem_map.mp hrow
      obtain ⟨hx, hsender⟩ := List.mem_filter.mp hx
      rw [← eq_of_beq hsender]
      exact hwaiting x (List.mem_filter.mp hx).1
    rw [finish_product]
    refine .forEach fun o _ => ?_
    rw [JoinTree.emitFor_eq h hs o fun c hc row hrow =>
      h.subtree_eq_below (h.lt_of_mem_childrenOf hc) ▸ (hrows o c row hrow).within]
    exact .forEach fun row hrow => .ofExcept fun d hd =>
      MatchNode.shapedFrom_send (Row.shaped_combineAll h hs (hrows o) o.event row hrow) hd

end JoinNode

/-! ### Passes -/

namespace CallTrace

variable {start nodes : List (JoinNode ε)} {calls : List (NodeCall ε)}

/-- All rows that are sent have the shapes of their streams. -/
lemma shapedFrom (hsound : t.Sound) (h : CallTrace t m start calls nodes) (hstart : t.Fits start)
    (hnone : ∀ n ∈ start, n.waiting = []) :
    ∀ s d, SentIn calls s d → d.ShapedFrom t s := by
  induction h with
  | nil =>
    rintro s d ⟨call, hcall, -⟩
    exact absurd hcall List.not_mem_nil
  | @snoc calls nodes nodes' call htrace hstep ih =>
    intro s d hd
    rcases sentIn_snoc.mp hd with hd | hd
    · exact ih s d hd
    · have hfits := htrace.fits hstart
      have hhanded : ∀ {c p y}, SentIn calls c (.toParent p y) → y.row.Shaped t y.sender := by
        intro c p y hy
        have hfrom := ih c _ hy
        rw [hfrom.sender_eq p y rfl]
        exact hfrom.shaped
      cases hstep with
      | @finish x n hn hopen _ =>
        obtain ⟨rfl, hemitted⟩ := NodeCall.mem_sent_finish.mp hd
        refine JoinNode.shapedFrom_finish hsound hfits hn (fun z hz => ?_) d hemitted
        rw [htrace.waiting_eq hstart hnone hopen hn] at hz
        obtain ⟨y, hy, harrival⟩ := mem_keptIn.mp hz
        obtain ⟨o, -, -, -, -, rfl⟩ := JoinNode.arrival?_eq_some_iff.mp harrival
        obtain ⟨c, hsent⟩ := htrace.sent_of_accept hy
        exact hhanded hsent
      | accept hn _ hsent =>
        obtain ⟨rfl, hanswer⟩ := NodeCall.mem_sent_accept.mp hd
        exact JoinNode.shapedFrom_accept hsound hfits hn (hhanded hsent) hanswer

end CallTrace

namespace Assembler

variable {b : TreeBuilder} {a : Assembler ε}

/-- A pass is aborted for match sets of another width, or for a faulty link. -/
lemma fault_of_error (h : t.Sound) (ha : a.Ready t) {c : RowCollection ε} {e : AssemblyError}
    (he : (a.runInto m c).error = some e) :
    e = .widthMismatch t.size m.width ∨ ∃ s index, t.Fault m s index e := by
  have hanswer : freshAnswer t a.options m = .error e := by
    rcases runInto_cases ha m c with ⟨_, -, hok, -, -⟩ | ⟨e', hanswer, herror, -, -⟩
    · cases hok.symm.trans he
    · cases herror.symm.trans he
      exact hanswer
  by_cases hm : m.width = t.size
  · rw [freshAnswer_eq h a.options hm] at hanswer
    rcases JoinTree.answer_cases (m := m) h a.options with ⟨hok, -⟩ | ⟨e', herror, hblamed⟩
    · cases hok.symm.trans hanswer
    · cases herror.symm.trans hanswer
      obtain ⟨s, index, -, hfault⟩ := JoinTree.live_of_blamed h hblamed
      exact .inr ⟨s, index, hfault⟩
  · rw [freshAnswer, if_neg hm] at hanswer
    cases hanswer
    exact .inl rfl

/-- The rows of a pass over match sets of the right width are shaped when they are sent, when they
are accepted and when they are complete. -/
lemma shaped_of_width (h : t.Sound) (ha : a.Ready t) (hm : m.width = t.size)
    (c : RowCollection ε) :
    (∀ s d, SentIn (a.runInto m c).journal s d → d.carried.Shaped t s) ∧
      (∀ s y answer, .accept s y answer ∈ (a.runInto m c).journal →
        y.row.Shaped t y.sender ∧ t.parent? y.sender = some s) ∧
      ∀ row ∈ (a.runInto m c).collection.rows, row ∈ c.rows ∨ row.Shaped t t.root := by
  have hstart := fits_startedNodes t a.options m
  obtain ⟨calls, hjournal, htrace, hrows, -⟩ := trace_runInto h ha hm c
  have hfrom := htrace.shapedFrom h hstart (waiting_startedNodes t a.options m)
  rw [hjournal]
  refine ⟨fun s d hd => ?_, fun s y answer hmem => ?_, fun row hrow => ?_⟩
  · exact (hfrom s d ((sentIn_append.mp hd).resolve_left not_sentIn_start)).shaped
  · rcases List.mem_append.mp hmem with hmem | hmem
    · obtain ⟨x, -, hx⟩ := List.mem_map.mp hmem
      cases hx
    · obtain ⟨x, hsent⟩ := htrace.sent_of_accept hmem
      have hsender : y.sender = x := (hfrom x _ hsent).sender_eq s y rfl
      exact hsender ▸ ⟨(hfrom x _ hsent).shaped, (htrace.heading_of_sentIn hstart hsent).symm⟩
  · refine (hrows row hrow).imp_right fun ⟨s, hsent⟩ => ?_
    have hshaped : row.Shaped t s := (hfrom s _ hsent).shaped
    obtain ⟨e, he⟩ := Option.ne_none_iff_exists'.mp hshaped.own
    have hs : s < t.size := hshaped.within.width_eq ▸ Row.lt_width_of_get? he
    have hroot := h.eq_root s hs (htrace.heading_of_sentIn hstart hsent).symm
    exact hroot ▸ hshaped

/-- Whatever the match sets are and whether the pass succeeds, every row that a stream sends in it
has the shape of the stream. So have the rows that nodes accept, which come from their children, and
the rows that the pass adds to a collection are shaped as rows of the root. No pass ever finds a
slot taken or missing, a row from a stream that is not a child, or a match node of another
stream. -/
theorem shaped_runInto (hb : b.build = .ok t) (ha : Reachable t a) (m : MatchSets ε)
    (c : RowCollection ε) :
    (∀ s d, SentIn (a.runInto m c).journal s d → d.carried.Shaped t s) ∧
      (∀ s y answer, .accept s y answer ∈ (a.runInto m c).journal →
        y.row.Shaped t y.sender ∧ t.parent? y.sender = some s) ∧
      (∀ row ∈ (a.runInto m c).collection.rows, row ∈ c.rows ∨ row.Shaped t t.root) ∧
      ∀ e, (a.runInto m c).error = some e → (∀ x, e ≠ .slotTaken x) ∧
        (∀ x w, e ≠ .slotMissing x w) ∧ (∀ x y, e ≠ .notAChild x y) ∧
        ∀ x y, e ≠ .wrongStream x y := by
  have h := TreeBuilder.sound_of_build hb
  refine and_assoc.mp (and_assoc.mp ⟨and_assoc.mpr ?_, fun e he => ?_⟩)
  · by_cases hm : m.width = t.size
    · exact shaped_of_width h ha.ready hm c
    · rw [runInto_of_width_ne ha.ready hm]
      refine ⟨fun s d hd => ?_, fun s y answer hmem => absurd hmem List.not_mem_nil,
        fun row hrow => .inl hrow⟩
      obtain ⟨call, hcall, -⟩ := hd
      exact absurd hcall List.not_mem_nil
  · rcases fault_of_error h ha.ready he with rfl | ⟨s, index, hfault⟩
    · simp
    · cases hfault <;> simp

theorem faulty_shaped :
    ((sampleAssembler {}).runInto faultySets .empty).error = some (.noMatchNode 0 7) ∧
      ∀ s d, SentIn ((sampleAssembler {}).runInto faultySets .empty).journal s d →
        d.carried.Shaped sampleTree s :=
  ⟨by decide, (shaped_runInto (by decide : sampleBuilder.build = .ok sampleTree)
    (reachable_sample {}) faultySets .empty).1⟩

end Assembler

end JoinAssembly
