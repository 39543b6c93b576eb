import JoinAssembly.Proofs.Join.Emissions
import JoinAssembly.Proofs.JoinTree.Orders

/-!
# Traces of a pass

The calls of nodes in a pass, as a relation between the calls made so far and the next one. A node
is finished once, after its children, and accepts only what a call before has sent to it, while it
is still open. The routing loop of a pass follows this relation, also where it is stopped.
-/

namespace JoinAssembly

variable {ε : Type}

/-! ### Calls -/

namespace NodeCall

/-- The stream that a call finishes. -/
def finished? : NodeCall ε → Option StreamIndex
  | .finish s _ _ _ => some s
  | _ => none

/-- The error that a call ends with. -/
def error? : NodeCall ε → Option AssemblyError
  | .finish _ _ _ emission => emission.error
  | .accept _ _ (.error e) => some e
  | _ => none

/-- What a call sends, each with the stream that sends it. -/
def sent : NodeCall ε → List (StreamIndex × Delivery ε)
  | .finish s _ _ emission => emission.deliveries.map fun d => (s, d)
  | .accept s _ (.ok (some d)) => [(s, d)]
  | _ => []

lemma mem_sent_finish {s x : StreamIndex} {kind : JoinKind} {queued : Nat} {emission : Emission ε}
    {d : Delivery ε} : (x, d) ∈ (finish s kind queued emission).sent ↔
      x = s ∧ d ∈ emission.deliveries := by
  simp only [sent, List.mem_map, Prod.mk.injEq]
  constructor
  · rintro ⟨d', hd, rfl, rfl⟩
    exact ⟨rfl, hd⟩
  · rintro ⟨rfl, hd⟩
    exact ⟨d, hd, rfl, rfl⟩

lemma mem_sent_accept {s x : StreamIndex} {h : Handoff ε}
    {answer : Except AssemblyError (Option (Delivery ε))} {d : Delivery ε} :
    (x, d) ∈ (accept s h answer).sent ↔ x = s ∧ answer = .ok (some d) := by
  rcases answer with e | _ | d'
  · simp [sent]
  · simp [sent]
  · simp [sent, eq_comm]

end NodeCall

/-- The streams that some calls finish, in order. -/
def finishedIn (calls : List (NodeCall ε)) : List StreamIndex :=
  calls.filterMap NodeCall.finished?

lemma finishedIn_append (calls calls' : List (NodeCall ε)) :
    finishedIn (calls ++ calls') = finishedIn calls ++ finishedIn calls' := List.filterMap_append

lemma finishedIn_finish (calls : List (NodeCall ε)) (s : StreamIndex) (kind : JoinKind)
    (queued : Nat) (emission : Emission ε) :
    finishedIn (calls ++ [.finish s kind queued emission]) = finishedIn calls ++ [s] :=
  finishedIn_append calls _

lemma finishedIn_accept (calls : List (NodeCall ε)) (s : StreamIndex) (h : Handoff ε)
    (answer : Except AssemblyError (Option (Delivery ε))) :
    finishedIn (calls ++ [.accept s h answer]) = finishedIn calls :=
  (finishedIn_append calls _).trans (List.append_nil _)

/-- Some calls send a delivery from a stream. -/
def SentIn (calls : List (NodeCall ε)) (s : StreamIndex) (d : Delivery ε) : Prop :=
  ∃ call ∈ calls, (s, d) ∈ call.sent

lemma sentIn_append {calls calls' : List (NodeCall ε)} {s : StreamIndex} {d : Delivery ε} :
    SentIn (calls ++ calls') s d ↔ SentIn calls s d ∨ SentIn calls' s d := by
  simp only [SentIn, List.mem_append, or_and_right, exists_or]

lemma sentIn_snoc {calls : List (NodeCall ε)} {call : NodeCall ε} {s : StreamIndex}
    {d : Delivery ε} : SentIn (calls ++ [call]) s d ↔ SentIn calls s d ∨ (s, d) ∈ call.sent := by
  rw [sentIn_append]
  simp only [SentIn, List.mem_singleton, exists_eq_left]

/-- Starting nodes sends nothing. -/
lemma not_sentIn_start {streams : List StreamIndex} {s : StreamIndex} {d : Delivery ε} :
    ¬ SentIn (streams.map .start) s d := by
  rintro ⟨call, hcall, hd⟩
  obtain ⟨x, -, rfl⟩ := List.mem_map.mp hcall
  exact absurd hd List.not_mem_nil

lemma SentIn.append {calls : List (NodeCall ε)} {s : StreamIndex} {d : Delivery ε}
    (h : SentIn calls s d) (calls' : List (NodeCall ε)) : SentIn (calls ++ calls') s d :=
  sentIn_append.mpr (.inl h)

/-- A node that is replaced is the new one, and the others stay. -/
lemma getElem?_set_cases {nodes : List (JoinNode ε)} {s x : StreamIndex} {n n' : JoinNode ε}
    (h : (nodes.set s n')[x]? = some n) : (x = s ∧ n = n') ∨ (x ≠ s ∧ nodes[x]? = some n) := by
  by_cases hx : x = s
  · subst hx
    obtain ⟨hlt, hget⟩ := List.getElem?_eq_some_iff.mp h
    rw [List.getElem_set_self] at hget
    exact .inl ⟨rfl, hget.symm⟩
  · rw [List.getElem?_set_ne (Ne.symm hx)] at h
    exact .inr ⟨hx, h⟩

/-! ### Nodes of a tree -/

/-- The kind of a stream's node, by the number of children and whether an only child is optional. -/
def JoinTree.kindOf (t : JoinTree) (s : StreamIndex) : JoinKind :=
  match t.childrenOf s with
  | [] => .leaf
  | [child] => if t.isOptional child then .outer else .inner
  | _ => .product

lemma JoinNode.kind_ofTree (t : JoinTree) (s : StreamIndex) :
    (ofTree t s : JoinNode ε).kind = t.kindOf s := by
  rw [kind, ofTree, stateFor, JoinTree.kindOf]
  rcases t.children_cases s with hnone | ⟨c, hone, hflag⟩ | ⟨c, hone, hflag⟩ | ⟨c, d, rest, hmany⟩
  · rw [hnone]
  · simp [hone, hflag]
  · simp [hone, hflag]
  · rw [hmany]

/-- By the children of its stream, a node of a pass is a leaf, an inner or outer branch, or a
product of the children. -/
lemma JoinTree.Fits.node_cases {t : JoinTree} {nodes : List (JoinNode ε)} (h : t.Fits nodes)
    {s : StreamIndex} {n : JoinNode ε} (hn : nodes[s]? = some n) :
    (t.childrenOf s = [] ∧ n = ⟨t.seatOf s, .leaf⟩) ∨
      (∃ c, t.childrenOf s = [c] ∧ t.isOptional c = false ∧ n = ⟨t.seatOf s, .inner c⟩) ∨
      (∃ b, t.childrenOf s = [b.child] ∧ t.isOptional b.child = true ∧
        n = ⟨t.seatOf s, .outer b⟩) ∨
      ∃ waiting, n = ⟨t.seatOf s, .product ⟨Assembler.factorsOf t s, waiting⟩⟩ := by
  have hblank := h.blank_eq hn
  obtain ⟨seat, state⟩ := n
  obtain rfl : seat = t.seatOf s := congrArg JoinNode.seat hblank
  have hstate : state.blank = JoinNode.stateFor t s := congrArg JoinNode.state hblank
  rcases t.children_cases s with hnone | ⟨c, hone, hrequired⟩ | ⟨c, hone, hoptional⟩ |
    ⟨c, d, rest, hmany⟩
  · rw [JoinNode.stateFor, hnone] at hstate
    cases state with
    | leaf => exact .inl ⟨hnone, rfl⟩
    | inner | outer | product => cases hstate
  · simp only [JoinNode.stateFor, hone, hrequired] at hstate
    cases state with
    | inner c' =>
      cases hstate
      exact .inr (.inl ⟨c, hone, hrequired, rfl⟩)
    | leaf | outer | product => cases hstate
  · simp only [JoinNode.stateFor, hone, hoptional] at hstate
    cases state with
    | outer b =>
      obtain rfl : b.child = c := by
        injection hstate with hnew
        exact congrArg OuterBranch.child hnew
      exact .inr (.inr (.inl ⟨b, hone, hoptional, rfl⟩))
    | leaf | inner | product => cases hstate
  · rw [JoinNode.stateFor, hmany] at hstate
    cases state with
    | product p =>
      have hfactors : p.factors = Assembler.factorsOf t s := by
        injection hstate with hstart
        rw [Assembler.factorsOf, hmany]
        exact congrArg Product.factors hstart
      exact .inr (.inr (.inr ⟨p.waiting, by rw [← hfactors]⟩))
    | leaf | inner | outer => cases hstate

/-- The kind of a node does not change in a pass. -/
lemma JoinTree.Fits.kind_eq {t : JoinTree} {nodes : List (JoinNode ε)} (h : t.Fits nodes)
    {s : StreamIndex} {n : JoinNode ε} (hn : nodes[s]? = some n) :
    n.kind = (JoinNode.ofTree t s : JoinNode ε).kind := by
  rw [← h.blank_eq hn]
  obtain ⟨seat, _ | _ | _ | _⟩ := n <;> rfl

lemma JoinTree.Fits.product_of_kind {t : JoinTree} {nodes : List (JoinNode ε)} (h : t.Fits nodes)
    {s : StreamIndex} {n : JoinNode ε} (hn : nodes[s]? = some n) (hkind : n.kind = .product) :
    ∃ waiting, n = ⟨t.seatOf s, .product ⟨Assembler.factorsOf t s, waiting⟩⟩ := by
  rcases h.node_cases hn with ⟨-, rfl⟩ | ⟨_, -, -, rfl⟩ | ⟨_, -, -, rfl⟩ | hproduct
  · cases hkind
  · cases hkind
  · cases hkind
  · exact hproduct

/-! ### Steps and traces -/

section Traces

variable [DecidableEq ε] (t : JoinTree) (m : MatchSets ε)

/-- The next call of a pass, after some calls. -/
inductive CallStep (calls : List (NodeCall ε)) (nodes : List (JoinNode ε)) :
    NodeCall ε → List (JoinNode ε) → Prop where
  | finish {s : StreamIndex} {n : JoinNode ε} (hn : nodes[s]? = some n)
      (hopen : s ∉ finishedIn calls) (hchildren : ∀ c ∈ t.childrenOf s, c ∈ finishedIn calls) :
      CallStep calls nodes (.finish s n.kind 0 (n.finish m).2) (nodes.set s (n.finish m).1)
  | accept {s c : StreamIndex} {n : JoinNode ε} {h : Handoff ε} (hn : nodes[s]? = some n)
      (hopen : s ∉ finishedIn calls) (hsent : SentIn calls c (.toParent s h)) :
      CallStep calls nodes (.accept s h (n.accept m h).2) (nodes.set s (n.accept m h).1)

/-- The calls of a pass so far, and the nodes that they leave. -/
inductive CallTrace (start : List (JoinNode ε)) :
    List (NodeCall ε) → List (JoinNode ε) → Prop where
  | nil : CallTrace start [] start
  | snoc {calls : List (NodeCall ε)} {nodes nodes' : List (JoinNode ε)} {call : NodeCall ε}
      (htrace : CallTrace start calls nodes) (hstep : CallStep t m calls nodes call nodes') :
      CallTrace start (calls ++ [call]) nodes'

variable {t m} {start nodes nodes' : List (JoinNode ε)} {calls : List (NodeCall ε)}
  {call : NodeCall ε} {s : StreamIndex}

lemma CallStep.of_finish {kind : JoinKind} {queued : Nat} {emission : Emission ε}
    (h : CallStep t m calls nodes (.finish s kind queued emission) nodes') :
    s ∉ finishedIn calls ∧ ∃ n, nodes[s]? = some n ∧ kind = n.kind ∧ queued = 0 ∧
      emission = (n.finish m).2 := by
  cases h with
  | finish hn hopen _ => exact ⟨hopen, _, hn, rfl, rfl, rfl⟩

lemma CallStep.of_accept {y : Handoff ε} {answer : Except AssemblyError (Option (Delivery ε))}
    (h : CallStep t m calls nodes (.accept s y answer) nodes') :
    s ∉ finishedIn calls ∧ (∃ c, SentIn calls c (.toParent s y)) ∧
      ∃ n, nodes[s]? = some n ∧ answer = (n.accept m y).2 := by
  cases h with
  | accept hn hopen hsent => exact ⟨hopen, ⟨_, hsent⟩, _, hn, rfl⟩

lemma CallStep.fits (h : CallStep t m calls nodes call nodes') (hfits : t.Fits nodes) :
    t.Fits nodes' := by
  cases h with
  | finish hn _ _ => exact hfits.set hn (JoinNode.blank_finish _ m)
  | accept hn _ _ => exact hfits.accept m hn _

/-- What a call sends goes to the parent of the stream that sends it. -/
lemma CallStep.heading_of_sent (h : CallStep t m calls nodes call nodes') (hfits : t.Fits nodes)
    {d : Delivery ε} (hd : (s, d) ∈ call.sent) : d.heading = t.parent? s := by
  cases h with
  | finish hn _ _ =>
    obtain ⟨rfl, hemitted⟩ := NodeCall.mem_sent_finish.mp hd
    rw [JoinNode.headsTo_finish _ m d hemitted, hfits.seat_eq hn]
  | accept hn _ _ =>
    obtain ⟨rfl, hanswer⟩ := NodeCall.mem_sent_accept.mp hd
    rw [JoinNode.heading_accept hanswer, hfits.seat_eq hn]

namespace CallTrace

/-- A call of a pass is a step from what the calls before it leave. -/
lemma step_at {calls : List (NodeCall ε)} (h : CallTrace t m start calls nodes) :
    ∀ {before after : List (NodeCall ε)} {call : NodeCall ε}, calls = before ++ call :: after →
      ∃ nodes₁ nodes₂, CallTrace t m start before nodes₁ ∧
        CallStep t m before nodes₁ call nodes₂ := by
  induction h with
  | nil => intro before after call heq; simp at heq
  | @snoc calls nodes nodes' last htrace hstep ih =>
    intro before after call heq
    rcases List.eq_nil_or_concat after with rfl | ⟨rest, x, rfl⟩
    · obtain ⟨rfl, hlast⟩ := List.append_inj' heq rfl
      cases List.singleton_inj.mp hlast
      exact ⟨nodes, nodes', htrace, hstep⟩
    · rw [List.concat_eq_append, ← List.cons_append, ← List.append_assoc] at heq
      exact ih (List.append_inj' heq rfl).1

lemma step_of_mem (h : CallTrace t m start calls nodes) (hmem : call ∈ calls) :
    ∃ before after nodes₁ nodes₂, calls = before ++ call :: after ∧
      CallTrace t m start before nodes₁ ∧ CallStep t m before nodes₁ call nodes₂ := by
  obtain ⟨before, after, hcalls⟩ := List.append_of_mem hmem
  obtain ⟨nodes₁, nodes₂, htrace, hstep⟩ := h.step_at hcalls
  exact ⟨before, after, nodes₁, nodes₂, hcalls, htrace, hstep⟩

/-- What a node accepts has been sent to it. -/
lemma sent_of_accept (h : CallTrace t m start calls nodes) {y : Handoff ε}
    {answer : Except AssemblyError (Option (Delivery ε))} (hmem : .accept s y answer ∈ calls) :
    ∃ c, SentIn calls c (.toParent s y) := by
  obtain ⟨before, after, _, _, rfl, -, hstep⟩ := h.step_of_mem hmem
  obtain ⟨-, ⟨c, hsent⟩, -⟩ := hstep.of_accept
  exact ⟨c, hsent.append _⟩

/-- No call for a stream comes after the one that finishes it. -/
lemma closed_after (h : CallTrace t m start calls nodes) {before after : List (NodeCall ε)}
    {kind : JoinKind} {queued : Nat} {emission : Emission ε}
    (hcalls : calls = before ++ .finish s kind queued emission :: after) :
    (∀ y answer, .accept s y answer ∉ after) ∧ s ∉ finishedIn after := by
  have hlater : ∀ call ∈ after, ∃ calls' nodes₁ nodes₂, s ∈ finishedIn calls' ∧
      CallStep t m calls' nodes₁ call nodes₂ := by
    intro call hcall
    obtain ⟨mid, rest, hafter⟩ := List.append_of_mem hcall
    have hsplit : calls = (before ++ .finish s kind queued emission :: mid) ++ call :: rest := by
      rw [hcalls, hafter, List.append_assoc, List.cons_append]
    obtain ⟨nodes₁, nodes₂, -, hstep⟩ := h.step_at hsplit
    refine ⟨_, nodes₁, nodes₂, ?_, hstep⟩
    rw [finishedIn_append]
    exact List.mem_append_right _ List.mem_cons_self
  refine ⟨fun y answer hmem => ?_, fun hmem => ?_⟩
  · obtain ⟨_, _, _, hs, hstep⟩ := hlater _ hmem
    exact hstep.of_accept.1 hs
  · obtain ⟨call, hcall, hfinished⟩ := List.mem_filterMap.mp hmem
    obtain ⟨_, _, _, hs, hstep⟩ := hlater call hcall
    cases call with
    | finish x kind' queued' emission' =>
      cases hfinished
      exact hstep.of_finish.1 hs
    | start x => cases hfinished
    | accept x y answer => cases hfinished

lemma fits (h : CallTrace t m start calls nodes) (hstart : t.Fits start) : t.Fits nodes := by
  induction h with
  | nil => exact hstart
  | snoc _ hstep ih => exact hstep.fits ih

lemma heading_of_sentIn (h : CallTrace t m start calls nodes) (hstart : t.Fits start)
    {d : Delivery ε} (hd : SentIn calls s d) : d.heading = t.parent? s := by
  induction h with
  | nil =>
    obtain ⟨call, hcall, -⟩ := hd
    exact absurd hcall List.not_mem_nil
  | snoc htrace hstep ih =>
    rcases sentIn_snoc.mp hd with hd | hd
    · exact ih hd
    · exact hstep.heading_of_sent (htrace.fits hstart) hd

/-- The children of a stream that is finished are finished. -/
lemma child_finished (h : CallTrace t m start calls nodes) (hs : s ∈ finishedIn calls) :
    ∀ c ∈ t.childrenOf s, c ∈ finishedIn calls := by
  induction h with
  | nil => exact absurd hs List.not_mem_nil
  | @snoc calls nodes nodes' call _ hstep ih =>
    intro c hc
    cases hstep with
    | finish _ _ hchildren =>
      rw [finishedIn_finish] at hs ⊢
      apply List.mem_append_left
      rcases List.mem_append.mp hs with hs | hs
      · exact ih hs c hc
      · exact hchildren c (List.mem_singleton.mp hs ▸ hc)
    | accept _ _ _ =>
      rw [finishedIn_accept] at hs ⊢
      exact ih hs c hc

/-- The parent of an open stream is open. -/
lemma parent_open (hsound : t.Sound) (h : CallTrace t m start calls nodes)
    (hopen : s ∉ finishedIn calls) {p : StreamIndex} (hp : t.parent? s = some p) :
    p ∉ finishedIn calls :=
  fun hfinished => hopen (h.child_finished hfinished s (hsound.mem_childrenOf.mpr hp))

end CallTrace

/-! ### A routing as a trace -/

/-- A routing goes on with a trace, in which its complete rows were sent. Unless it is stopped, no
call of it ends with an error, and it finishes some given streams in order. -/
structure Continues (t : JoinTree) (m : MatchSets ε) (start : List (JoinNode ε))
    (calls : List (NodeCall ε)) (streams : List StreamIndex) (r : Routed ε) : Prop where
  trace : CallTrace t m start (calls ++ r.journal) r.nodes
  complete : ∀ row ∈ r.rows, ∃ s, SentIn (calls ++ r.journal) s (.complete row)
  clean : r.error = none → ∀ call ∈ r.journal, call.error? = none
  finished : r.error = none → finishedIn r.journal = streams

omit [DecidableEq ε] in
lemma Routed.error_andThen {r : Routed ε} {next : List (JoinNode ε) → Routed ε} :
    (r.andThen next).error = none ↔ r.error = none ∧ (next r.nodes).error = none := by
  cases hr : r.error with
  | some e => simp [andThen_of_error hr, hr]
  | none => simp [andThen, hr]

namespace Continues

variable {streams streams' : List StreamIndex} {r : Routed ε}

lemma stop (h : CallTrace t m start calls nodes) (error : Option AssemblyError) :
    Continues t m start calls [] (.stop nodes error) where
  trace := (List.append_nil calls).symm ▸ h
  complete _ hrow := absurd hrow List.not_mem_nil
  clean _ _ hcall := absurd hcall List.not_mem_nil
  finished _ := rfl

lemma andThen (h : Continues t m start calls streams r) {next : List (JoinNode ε) → Routed ε}
    (hnext : r.error = none → Continues t m start (calls ++ r.journal) streams' (next r.nodes)) :
    Continues t m start calls (streams ++ streams') (r.andThen next) := by
  cases hr : r.error with
  | some e =>
    rw [Routed.andThen_of_error hr]
    exact ⟨h.trace, h.complete, fun hok => absurd (hr.symm.trans hok) (by simp),
      fun hok => absurd (hr.symm.trans hok) (by simp)⟩
  | none =>
    have hlater := hnext hr
    simp only [Routed.andThen, hr]
    refine ⟨List.append_assoc calls _ _ ▸ hlater.trace, fun row hrow => ?_,
      fun hok call hcall => ?_, fun hok => ?_⟩
    · rw [← List.append_assoc]
      rcases List.mem_append.mp hrow with hrow | hrow
      · obtain ⟨s, hs⟩ := h.complete row hrow
        exact ⟨s, hs.append _⟩
      · exact hlater.complete row hrow
    · rcases List.mem_append.mp hcall with hcall | hcall
      · exact h.clean hr call hcall
      · exact hlater.clean hok call hcall
    · rw [finishedIn_append, h.finished hr, hlater.finished hok]

/-- A row that was sent past the root is complete. -/
lemma done {row : Row ε} (h : CallTrace t m start calls nodes)
    (hsent : SentIn calls s (.complete row)) :
    Continues t m start calls [] ⟨nodes, [row], [], none⟩ where
  trace := (List.append_nil calls).symm ▸ h
  complete row' hrow := by
    rw [List.mem_singleton.mp hrow, List.append_nil]
    exact ⟨s, hsent⟩
  clean _ _ hcall := absurd hcall List.not_mem_nil
  finished _ := rfl

/-- One call, and a routing after it. -/
lemma cons {later : Routed ε} {call : NodeCall ε}
    (h : Continues t m start (calls ++ [call]) streams later)
    (hclean : later.error = none → call.error? = none) :
    Continues t m start calls (call.finished?.toList ++ streams)
      { later with journal := call :: later.journal } where
  trace := by
    rw [← List.singleton_append, ← List.append_assoc]
    exact h.trace
  complete row hrow := by
    rw [← List.singleton_append, ← List.append_assoc]
    exact h.complete row hrow
  clean hok call' hcall := by
    rcases List.mem_cons.mp hcall with rfl | hcall
    · exact hclean hok
    · exact h.clean hok call' hcall
  finished hok := by
    rw [← h.finished hok]
    cases hcall : call.finished? <;> simp [finishedIn, hcall]

end Continues

section Routing

variable (m)

/-- Routing what an open stream was sent continues a trace. -/
lemma continues_route (hsound : t.Sound) (hstart : t.Fits start) :
    ∀ (k : Nat) {calls : List (NodeCall ε)} {nodes : List (JoinNode ε)} {c : StreamIndex}
      {d : Delivery ε}, CallTrace t m start calls nodes → SentIn calls c d →
      (∀ p, t.parent? c = some p → p ∉ finishedIn calls) →
      Continues t m start calls [] (route m k nodes d) := by
  intro k
  induction k with
  | zero =>
    intro calls nodes c d htrace hsent _
    cases d with
    | complete row => exact Continues.done htrace hsent
    | toParent s h => exact Continues.stop htrace none
  | succ k ih =>
    intro calls nodes c d htrace hsent hopen
    cases d with
    | complete row => exact Continues.done htrace hsent
    | toParent s h =>
      have hparent : t.parent? c = some s := (htrace.heading_of_sentIn hstart hsent).symm
      cases hn : nodes[s]? with
      | none =>
        simp only [route, hn]
        exact Continues.stop htrace none
      | some n =>
        have hfits := htrace.fits hstart
        have hs := hopen s hparent
        have hnext : CallTrace t m start (calls ++ [.accept s h (n.accept m h).2])
            (nodes.set s (n.accept m h).1) := htrace.snoc (.accept hn hs hsent)
        cases hx : n.accept m h with
        | mk n' answer =>
          rw [hx] at hnext
          rcases answer with e | _ | next
          · rw [route_of_error m hn hx]
            exact (Continues.stop hnext (some e)).cons fun hok => by cases hok
          · rw [route_of_kept m hn hx]
            exact (Continues.stop hnext none).cons fun _ => rfl
          · rw [route_of_sent m hn hx]
            refine (ih hnext (c := s) (sentIn_snoc.mpr (.inr ?_)) fun p hp => ?_).cons fun _ => rfl
            · exact NodeCall.mem_sent_accept.mpr ⟨rfl, rfl⟩
            -- The stream is still open, so the row does not go on to one that is finished.
            · exact hnext.parent_open hsound (by simpa [finishedIn_accept] using hs) hp

lemma continues_routeAll (hsound : t.Sound) (hstart : t.Fits start) {c : StreamIndex}
    (ds : List (Delivery ε)) :
    ∀ {calls : List (NodeCall ε)} {nodes : List (JoinNode ε)}, CallTrace t m start calls nodes →
      (∀ d ∈ ds, SentIn calls c d) → (∀ p, t.parent? c = some p → p ∉ finishedIn calls) →
      Continues t m start calls [] (routeAll m nodes ds) := by
  induction ds with
  | nil => intro calls nodes htrace _ _; exact Continues.stop htrace none
  | cons d rest ih =>
    intro calls nodes htrace hsent hopen
    have hfirst := continues_route m hsound hstart nodes.length htrace
      (hsent d List.mem_cons_self) hopen
    rw [routeAll_cons]
    show Continues t m start calls ([] ++ []) _
    refine hfirst.andThen fun hok => ih hfirst.trace ?_ ?_
    · exact fun d' hd' => (hsent d' (List.mem_cons_of_mem _ hd')).append _
    · simpa [finishedIn_append, hfirst.finished hok] using hopen

/-- Finishing a stream after its children, and routing what it emits, continues a trace. -/
lemma continues_finishOne (hsound : t.Sound) (hstart : t.Fits start)
    (htrace : CallTrace t m start calls nodes) (hs : s < t.size) (hopen : s ∉ finishedIn calls)
    (hchildren : ∀ c ∈ t.childrenOf s, c ∈ finishedIn calls) :
    Continues t m start calls [s] (finishOne m s nodes) := by
  obtain ⟨n, hn⟩ : ∃ n, nodes[s]? = some n := by
    have hlt : s < nodes.length := (htrace.fits hstart).length_eq ▸ hs
    exact ⟨_, List.getElem?_eq_getElem hlt⟩
  have hnext : CallTrace t m start (calls ++ [.finish s n.kind 0 (n.finish m).2])
      (nodes.set s (n.finish m).1) := htrace.snoc (.finish hn hopen hchildren)
  have hparent : ∀ p, t.parent? s = some p →
      p ∉ finishedIn (calls ++ [.finish s n.kind 0 (n.finish m).2]) := by
    intro p hp hfinished
    rw [finishedIn_finish] at hfinished
    rcases List.mem_append.mp hfinished with hfinished | hfinished
    · exact htrace.parent_open hsound hopen hp hfinished
    · exact hsound.ne_of_parent hp (List.mem_singleton.mp hfinished)
  have hall := continues_routeAll m hsound hstart (c := s) (n.finish m).2.settled.deliveries hnext
    (fun d hd => ?_) hparent
  · have hrouted : Continues t m start (calls ++ [.finish s n.kind 0 (n.finish m).2]) ([] ++ [])
        (routeEmission m (nodes.set s (n.finish m).1) (n.finish m).2.settled) :=
      hall.andThen fun _ => Continues.stop hall.trace _
    simp only [finishOne, hn]
    refine hrouted.cons fun hok => ?_
    have hsettled : (n.finish m).2.settled.error = none := (Routed.error_andThen.mp hok).2
    exact (Emission.error_settled _).symm.trans hsettled
  · refine sentIn_snoc.mpr (.inr (NodeCall.mem_sent_finish.mpr ⟨rfl, ?_⟩))
    exact Emission.mem_of_mem_settled hd

/-- Finishing the streams that are left of an order with children first continues a trace. -/
lemma continues_sweep (hsound : t.Sound) (hstart : t.Fits start) (rest : List StreamIndex) :
    ∀ {calls : List (NodeCall ε)} {nodes : List (JoinNode ε)}, CallTrace t m start calls nodes →
      t.ChildrenFirst (finishedIn calls ++ rest) →
      Continues t m start calls rest (sweep m rest nodes) := by
  induction rest with
  | nil => intro calls nodes htrace _; exact Continues.stop htrace none
  | cons s rest ih =>
    intro calls nodes htrace horder
    obtain ⟨hs, hopen, hchildren⟩ := hsound.done_of_childrenFirst horder
    have hfirst := continues_finishOne m hsound hstart htrace hs hopen hchildren
    rw [sweep]
    -- What is finished and what is left make up the same order after the step.
    show Continues t m start calls ([s] ++ rest) _
    refine hfirst.andThen fun hok => ih hfirst.trace ?_
    rw [finishedIn_append, hfirst.finished hok, List.append_assoc]
    exact horder

end Routing

/-! ### A pass as a trace -/

namespace Assembler

variable {a : Assembler ε}

omit [DecidableEq ε] in
lemma fits_startedNodes (t : JoinTree) (options : AssemblyOptions) (m : MatchSets ε) :
    t.Fits (startedNodes t options m) :=
  (JoinTree.Fits.allOfTree t).start m options

/-- The calls of a pass over match sets of the right width: all nodes are started, and a trace
follows, in which its rows were sent. If the pass succeeds, no call ends with an error, and all
streams are finished. -/
lemma trace_runInto (hsound : t.Sound) (ha : a.Ready t) (hm : m.width = t.size)
    (c : RowCollection ε) : ∃ calls,
      (a.runInto m c).journal = (List.range t.size).map .start ++ calls ∧
      CallTrace t m (startedNodes t a.options m) calls (a.runInto m c).assembler.nodes ∧
      (∀ row ∈ (a.runInto m c).collection.rows,
        row ∈ c.rows ∨ ∃ s, SentIn calls s (.complete row)) ∧
      ((a.runInto m c).error = none →
        (∀ call ∈ calls, call.error? = none) ∧ finishedIn calls = t.postorder) := by
  have hpass := passed ha hm c
  have hstart := fits_startedNodes t a.options m
  have hstreams : a.nodes.map (fun n => NodeCall.start n.stream)
      = (List.range t.size).map (NodeCall.start (ε := ε)) := by
    apply List.ext_getElem (by simpa using ha.fits.length_eq)
    intro s hs _
    have hlt : s < a.nodes.length := by simpa using hs
    have hseat := ha.fits.seat_eq (List.getElem?_eq_getElem hlt)
    simp [JoinNode.stream, hseat]
  have hsweep : Continues t m (startedNodes t a.options m) [] t.postorder
      (passSweep t a.options m) :=
    continues_sweep m hsound hstart t.postorder .nil hsound.childrenFirst_postorder
  refine ⟨(passSweep t a.options m).journal, hstreams ▸ hpass.journal_eq,
    hpass.nodes_eq ▸ hsweep.trace, fun row hrow => ?_, fun hok => ?_⟩
  · rw [hpass.collection_eq] at hrow
    split at hrow
    · exact (List.mem_append.mp hrow).imp_right (hsweep.complete row)
    · exact .inl hrow
  · rw [hpass.error_eq] at hok
    exact ⟨hsweep.clean hok, hsweep.finished hok⟩

end Assembler

end Traces

end JoinAssembly
