import JoinAssembly.Proofs.Assembler.Answers
import JoinAssembly.Proofs.Assembler.Trace

/-!
# The calls of a pass

A pass starts all nodes before it finishes one, nothing is queued when a node is finished, and no
node accepts a row after that. So a product has all rows that it will ever get when it combines
them, and a pass that succeeds leaves none of them behind.
-/

namespace JoinAssembly

variable {ε : Type}

/-! ### Waiting rows -/

/-- The rows that wait at a node. -/
def JoinNode.waiting (n : JoinNode ε) : List (Arrival ε) :=
  match n.state with
  | .product p => p.waiting
  | _ => []

lemma JoinNode.waiting_start (n : JoinNode ε) (m : MatchSets ε) (options : AssemblyOptions) :
    (n.start m options).waiting = [] := by
  obtain ⟨seat, _ | _ | _ | _⟩ := n <;> rfl

variable [DecidableEq ε] {m : MatchSets ε} {s : StreamIndex}

/-- The row that a call leaves waiting at a stream. -/
def NodeCall.kept? (m : MatchSets ε) (s : StreamIndex) : NodeCall ε → Option (Arrival ε)
  | .accept x h (.ok none) => if x = s then JoinNode.arrival? m s h else none
  | _ => none

/-- The rows that some calls leave waiting at a stream, in order. -/
def keptIn (m : MatchSets ε) (s : StreamIndex) (calls : List (NodeCall ε)) : List (Arrival ε) :=
  calls.filterMap (NodeCall.kept? m s)

lemma keptIn_snoc (calls : List (NodeCall ε)) (call : NodeCall ε) :
    keptIn m s (calls ++ [call]) = keptIn m s calls ++ (call.kept? m s).toList := by
  rw [keptIn, List.filterMap_append]
  cases hcall : call.kept? m s <;> simp [keptIn, hcall]

lemma mem_keptIn {calls : List (NodeCall ε)} {x : Arrival ε} : x ∈ keptIn m s calls ↔
    ∃ h, .accept s h (.ok none) ∈ calls ∧ JoinNode.arrival? m s h = some x := by
  rw [keptIn, List.mem_filterMap]
  constructor
  · rintro ⟨call, hcall, hx⟩
    rcases call with _ | _ | ⟨y, h, _ | _ | d⟩
    · cases hx
    · cases hx
    · cases hx
    · simp only [NodeCall.kept?, Option.ite_none_right_eq_some] at hx
      obtain ⟨rfl, hx⟩ := hx
      exact ⟨h, hcall, hx⟩
    · cases hx
  · rintro ⟨h, hcall, hx⟩
    exact ⟨_, hcall, (if_pos rfl).trans hx⟩

lemma NodeCall.kept?_of_ne {x : StreamIndex} (hx : x ≠ s) (h : Handoff ε)
    (answer : Except AssemblyError (Option (Delivery ε))) :
    (NodeCall.accept x h answer).kept? m s = none := by
  rcases answer with e | _ | d
  · rfl
  · exact if_neg hx
  · rfl

/-- A row is found for an event of the stream, and waits for it. -/
lemma JoinNode.arrival?_eq_some_iff {h : Handoff ε} {x : Arrival ε} :
    arrival? m s h = some x ↔ ∃ o ∈ m.occurrences s,
      m.locate s h.place h.event = .ok (o.node, o.cursor.position) ∧
        o.cursor.node = h.place.index ∧ o.event = h.event ∧ x = ⟨o.cursor, h.sender, h.row⟩ := by
  rw [arrival?, cursor?]
  cases hlocate : m.locate s h.place h.event with
  | error e => simp
  | ok found =>
    obtain ⟨node, position⟩ := found
    simp only [Option.map_some, Option.some.injEq]
    constructor
    · rintro rfl
      exact ⟨_, MatchSets.locate_eq_ok hlocate, rfl, rfl, rfl, rfl⟩
    · rintro ⟨⟨⟨index, position'⟩, node', e⟩, -, hsame, rfl, -, rfl⟩
      cases hsame
      rfl

/-- A node that accepts a row keeps the rows that wait at it, and the new one if it answers so. -/
lemma JoinNode.waiting_accept (n : JoinNode ε) (h : Handoff ε) :
    (n.accept m h).1.waiting
      = n.waiting ++ ((NodeCall.accept n.stream h (n.accept m h).2).kept? m n.stream).toList := by
  obtain ⟨seat, _ | child | b | p⟩ := n
  · rfl
  · simp only [accept, waiting]
    cases forward seat child m h <;> rfl
  · simp only [accept, waiting]
    cases (b.accept seat m h).2 <;> rfl
  · simp only [accept, waiting, Product.accept, stream]
    split
    · cases hlocate : m.locate seat.stream h.place h.event with
      | error e => exact (List.append_nil _).symm
      | ok found =>
        obtain ⟨node, position⟩ := found
        simp [NodeCall.kept?, arrival?, cursor?, hlocate, Except.map]
    · exact (List.append_nil _).symm

/-! ### Waiting rows in a pass -/

namespace CallTrace

variable {t : JoinTree} {start nodes : List (JoinNode ε)} {calls : List (NodeCall ε)}
  {n : JoinNode ε}

/-- At an open stream wait the rows that were kept there. -/
lemma waiting_eq (h : CallTrace t m start calls nodes) (hstart : t.Fits start)
    (hnone : ∀ n ∈ start, n.waiting = []) (hopen : s ∉ finishedIn calls)
    (hn : nodes[s]? = some n) : n.waiting = keptIn m s calls := by
  induction h generalizing n with
  | nil => exact hnone n (List.mem_of_getElem? hn)
  | @snoc calls nodes nodes' call htrace hstep ih =>
    cases hstep with
    | @finish x n' hn' _ _ =>
      rw [finishedIn_finish, List.mem_append, not_or] at hopen
      rw [keptIn_snoc]
      rcases getElem?_set_cases hn with ⟨rfl, -⟩ | ⟨-, hn⟩
      · exact absurd (List.mem_singleton_self _) hopen.2
      · exact (ih hopen.1 hn).trans (List.append_nil _).symm
    | @accept x _ n' y hn' _ _ =>
      rw [finishedIn_accept] at hopen
      rw [keptIn_snoc]
      rcases getElem?_set_cases hn with ⟨rfl, rfl⟩ | ⟨hne, hn⟩
      · have hstream : n'.stream = s := congrArg Seat.stream ((htrace.fits hstart).seat_eq hn')
        rw [n'.waiting_accept, hstream, ih hopen hn']
      · rw [NodeCall.kept?_of_ne (Ne.symm hne)]
        exact (ih hopen hn).trans (List.append_nil _).symm

/-- What is finished without an error has no rows left. -/
lemma waiting_eq_nil (h : CallTrace t m start calls nodes) (hstart : t.Fits start)
    (hnone : ∀ n ∈ start, n.waiting = []) (hclean : ∀ call ∈ calls, call.error? = none)
    (hs : s ∈ finishedIn calls) (hn : nodes[s]? = some n) : n.waiting = [] := by
  induction h generalizing n with
  | nil => exact hnone n (List.mem_of_getElem? hn)
  | @snoc calls nodes nodes' call htrace hstep ih =>
    have hbefore : ∀ {n}, s ∈ finishedIn calls → nodes[s]? = some n → n.waiting = [] :=
      ih fun call hcall => hclean call (List.mem_append_left _ hcall)
    cases hstep with
    | @finish x n' hn' hopen _ =>
      rw [finishedIn_finish] at hs
      rcases getElem?_set_cases hn with ⟨rfl, rfl⟩ | ⟨hne, hn⟩
      · have hok : (n'.finish m).2.error = none :=
          hclean _ (List.mem_append_right _ (List.mem_singleton_self _))
        rcases (htrace.fits hstart).node_cases hn' with ⟨-, rfl⟩ | ⟨_, -, -, rfl⟩ |
          ⟨_, -, -, rfl⟩ | ⟨waiting, rfl⟩
        · rfl
        · rfl
        · rfl
        · -- What waited was found for an event of the stream, so it is gone.
          obtain rfl : waiting = keptIn m s calls := htrace.waiting_eq hstart hnone hopen hn'
          apply List.eq_nil_iff_forall_not_mem.mpr
          intro y hy
          obtain ⟨hmem, hne⟩ := Product.mem_drain _ _ _ _ hok y hy
          obtain ⟨x, -, hx⟩ := mem_keptIn.mp hmem
          obtain ⟨o, ho, -, -, -, rfl⟩ := JoinNode.arrival?_eq_some_iff.mp hx
          exact hne o ho rfl
      · have hs : s ∈ finishedIn calls := by
          rcases List.mem_append.mp hs with hs | hs
          · exact hs
          · exact absurd (List.mem_singleton.mp hs) hne
        exact hbefore hs hn
    | @accept x _ n' y hn' hopen _ =>
      rw [finishedIn_accept] at hs
      rcases getElem?_set_cases hn with ⟨rfl, -⟩ | ⟨-, hn⟩
      · exact absurd hs hopen
      · exact hbefore hs hn

/-- When a stream is finished, nothing is queued. A product combines for each of its events the rows
that were kept for it before. -/
lemma finish_at (h : CallTrace t m start calls nodes) (hstart : t.Fits start)
    (hnone : ∀ n ∈ start, n.waiting = []) {before after : List (NodeCall ε)} {kind : JoinKind}
    {queued : Nat} {emission : Emission ε}
    (hcalls : calls = before ++ .finish s kind queued emission :: after) :
    queued = 0 ∧ kind = (JoinNode.ofTree t s : JoinNode ε).kind ∧
      (kind = .product → emission = .forEach (fun o => Product.emitFor (Assembler.factorsOf t s)
        (t.seatOf s) o ((keptIn m s before).filter fun x => x.cursor == o.cursor))
        (m.occurrences s)) := by
  obtain ⟨_, _, htrace, hstep⟩ := h.step_at hcalls
  obtain ⟨hopen, n, hn, hkind, hqueued, hemission⟩ := hstep.of_finish
  have hfits := htrace.fits hstart
  refine ⟨hqueued, hkind.trans (hfits.kind_eq hn), fun hproduct => ?_⟩
  have hwaiting := htrace.waiting_eq hstart hnone hopen hn
  obtain ⟨waiting, rfl⟩ := hfits.product_of_kind hn (hkind.symm.trans hproduct)
  obtain rfl : waiting = keptIn m s before := hwaiting
  exact hemission.trans (JoinNode.finish_product m _ _ _)

/-- Every row that a product accepted without an error was there when the product was finished, kept
for the event that it was found for. -/
lemma kept_before_finish (h : CallTrace t m start calls nodes) (hstart : t.Fits start)
    (hclean : ∀ call ∈ calls, call.error? = none) {before after : List (NodeCall ε)}
    {queued : Nat} {emission : Emission ε}
    (hcalls : calls = before ++ .finish s .product queued emission :: after) {y : Handoff ε}
    {answer : Except AssemblyError (Option (Delivery ε))} (hmem : .accept s y answer ∈ calls) :
    ∃ o ∈ m.occurrences s, o.cursor.node = y.place.index ∧ o.event = y.event ∧
      ⟨o.cursor, y.sender, y.row⟩ ∈ keptIn m s before := by
  -- The node is the product that is finished, so it answers that it keeps the row.
  have hkept : answer = .ok none ∧ ∃ found, m.locate s y.place y.event = .ok found := by
    obtain ⟨_, _, htrace, hfinish⟩ := h.step_at hcalls
    obtain ⟨_, _, _, _, -, htrace', haccept⟩ := h.step_of_mem hmem
    obtain ⟨-, n, hn, hkind, -, -⟩ := hfinish.of_finish
    obtain ⟨-, -, n', hn', hanswer⟩ := haccept.of_accept
    have hfits' := htrace'.fits hstart
    have hkind' : n'.kind = .product := by
      rw [hfits'.kind_eq hn', ← (htrace.fits hstart).kind_eq hn, ← hkind]
    obtain ⟨waiting, rfl⟩ := hfits'.product_of_kind hn' hkind'
    cases answer with
    | error e => cases hclean _ hmem
    | ok next =>
      obtain ⟨_, -, rfl⟩ := map_eq_ok_iff.mp hanswer.symm
      exact ⟨rfl, JoinNode.located_of_accept hanswer.symm⟩
  obtain ⟨rfl, ⟨node, position⟩, hlocate⟩ := hkept
  have harrival : JoinNode.arrival? m s y = some ⟨⟨y.place.index, position⟩, y.sender, y.row⟩ := by
    rw [JoinNode.arrival?, JoinNode.cursor?, hlocate]
    rfl
  refine ⟨_, MatchSets.locate_eq_ok hlocate, rfl, rfl, mem_keptIn.mpr ⟨y, ?_, harrival⟩⟩
  obtain ⟨hafter, -⟩ := h.closed_after hcalls
  rw [hcalls] at hmem
  rcases List.mem_append.mp hmem with hbefore | hmem
  · exact hbefore
  · rcases List.mem_cons.mp hmem with heq | hmem
    · cases heq
    · exact absurd hmem (hafter _ _)

end CallTrace

/-! ### The order of the calls -/

namespace Assembler

variable {b : TreeBuilder} {t : JoinTree} {a : Assembler ε}

omit [DecidableEq ε] in
lemma waiting_startedNodes (t : JoinTree) (options : AssemblyOptions) (m : MatchSets ε) :
    ∀ n ∈ startedNodes t options m, n.waiting = [] := by
  intro n hn
  obtain ⟨n', -, rfl⟩ := List.mem_map.mp hn
  exact n'.waiting_start m options

/-- In a pass, all nodes are started before the first is finished, and none again. When a stream is
finished nothing is queued, and no call after that is for the stream, so a product combines all rows
that it ever keeps. If the pass succeeds, every stream is finished once, no rows are left waiting,
and each row that a product accepted was there when its event was combined. -/
theorem calls_runInto (hb : b.build = .ok t) (ha : Reachable t a) (hm : m.width = t.size)
    (c : RowCollection ε) : ∃ calls,
      (a.runInto m c).journal = (List.range t.size).map .start ++ calls ∧
      (∀ s, .start s ∉ calls) ∧
      (∀ before after s kind queued emission,
        calls = before ++ .finish s kind queued emission :: after →
          queued = 0 ∧ kind = (JoinNode.ofTree t s : JoinNode ε).kind ∧
          (∀ y answer, .accept s y answer ∉ after) ∧ s ∉ finishedIn after ∧
          (kind = .product → emission = .forEach (fun o => Product.emitFor (factorsOf t s)
            (t.seatOf s) o ((keptIn m s before).filter fun x => x.cursor == o.cursor))
            (m.occurrences s))) ∧
      ((a.runInto m c).error = none →
        (finishedIn calls).Perm (List.range t.size) ∧
        (∀ n ∈ (a.runInto m c).assembler.nodes, n.waiting = []) ∧
        ∀ before after s queued emission,
          calls = before ++ .finish s .product queued emission :: after →
            ∀ y answer, .accept s y answer ∈ calls → ∃ o ∈ m.occurrences s,
              o.cursor.node = y.place.index ∧ o.event = y.event ∧
              ⟨o.cursor, y.sender, y.row⟩ ∈ keptIn m s before) := by
  have h := TreeBuilder.sound_of_build hb
  have hstart := fits_startedNodes t a.options m
  have hnone := waiting_startedNodes t a.options m
  obtain ⟨calls, hjournal, htrace, -, hsuccess⟩ := trace_runInto h ha.ready hm c
  refine ⟨calls, hjournal, fun s hs => ?_, fun before after s kind queued emission hcalls => ?_,
    fun hok => ?_⟩
  · obtain ⟨_, _, _, _, -, -, hstep⟩ := htrace.step_of_mem hs
    cases hstep
  · obtain ⟨hqueued, hkind, hemission⟩ := htrace.finish_at hstart hnone hcalls
    obtain ⟨hafter, honce⟩ := htrace.closed_after hcalls
    exact ⟨hqueued, hkind, hafter, honce, hemission⟩
  · obtain ⟨hclean, hfinished⟩ := hsuccess hok
    have hperm := h.childrenFirst_postorder.perm
    refine ⟨hfinished ▸ hperm, fun n hn => ?_,
      fun before after s queued emission hcalls y answer hmem =>
        htrace.kept_before_finish hstart hclean hcalls hmem⟩
    obtain ⟨s, hs⟩ := List.mem_iff_getElem?.mp hn
    have hlt : s < t.size :=
      (htrace.fits hstart).length_eq ▸ (List.getElem?_eq_some_iff.mp hs).1
    refine htrace.waiting_eq_nil hstart hnone hclean ?_ hs
    rw [hfinished, hperm.mem_iff]
    exact List.mem_range.mpr hlt

/-- The calls of a pass after its starts and before the root is finished. The root keeps a row of
its leaf and two of its other child, of which the first has passed through the node of that child. -/
def sampleCalls : List (NodeCall Nat) := [
  .finish 1 .leaf 0 ⟨[.toParent 0 ⟨⟨[none, some 12, none, none]⟩, 1, 11, ⟨0, 0⟩⟩], none⟩,
  .accept 0 ⟨⟨[none, some 12, none, none]⟩, 1, 11, ⟨0, 0⟩⟩ (.ok none),
  .finish 3 .leaf 0 ⟨[.toParent 2 ⟨⟨[none, none, none, some 30]⟩, 3, 20, ⟨2, 0⟩⟩], none⟩,
  .accept 2 ⟨⟨[none, none, none, some 30]⟩, 3, 20, ⟨2, 0⟩⟩
    (.ok (some (.toParent 0 ⟨⟨[none, none, some 20, some 30]⟩, 2, 10, ⟨0, 0⟩⟩))),
  .accept 0 ⟨⟨[none, none, some 20, some 30]⟩, 2, 10, ⟨0, 0⟩⟩ (.ok none),
  .finish 2 .outer 0 ⟨[.toParent 0 ⟨⟨[none, none, some 21, none]⟩, 2, 10, ⟨0, 0⟩⟩], none⟩,
  .accept 0 ⟨⟨[none, none, some 21, none]⟩, 2, 10, ⟨0, 0⟩⟩ (.ok none)]

/-- What the root sends when it is finished. -/
def sampleEmission : Emission Nat :=
  ⟨[.complete ⟨[some 10, none, some 20, some 30]⟩,
    .complete ⟨[some 10, none, some 21, none]⟩], none⟩

theorem sample_calls : ∃ calls,
    ((sampleAssembler {}).runInto sampleSets .empty).journal
      = (List.range 4).map .start ++ calls ∧
    calls = sampleCalls ++ [.finish 0 .product 0 sampleEmission] ∧
    (finishedIn calls).Perm (List.range 4) ∧
    (∀ n ∈ ((sampleAssembler {}).runInto sampleSets .empty).assembler.nodes, n.waiting = []) ∧
    ∃ o ∈ sampleSets.occurrences 0, o.cursor.node = 0 ∧ o.event = 10 ∧
      ⟨o.cursor, 2, ⟨[none, none, some 20, some 30]⟩⟩ ∈ keptIn sampleSets 0 sampleCalls := by
  obtain ⟨calls, hjournal, -, -, hsuccess⟩ := calls_runInto (m := sampleSets)
    (by decide : sampleBuilder.build = .ok sampleTree) (reachable_sample {}) (by decide) .empty
  obtain ⟨hperm, hwaiting, hkept⟩ := hsuccess (by decide)
  have hshown : ((sampleAssembler {}).runInto sampleSets .empty).journal
      = (List.range 4).map .start ++ (sampleCalls ++ [.finish 0 .product 0 sampleEmission]) := rfl
  have hcalls := List.append_cancel_left (hjournal.symm.trans hshown)
  have haccepted :
      .accept 0 ⟨⟨[none, none, some 20, some 30]⟩, 2, 10, ⟨0, 0⟩⟩ (.ok none) ∈ calls := by
    simp [hcalls, sampleCalls]
  exact ⟨calls, hjournal, hcalls, hperm, hwaiting, hkept sampleCalls [] 0 0 _ hcalls _ _ haccepted⟩

end Assembler

end JoinAssembly
