import JoinAssembly.Proofs.Assembler.Options
import JoinAssembly.Proofs.Join.Unfinished
import JoinAssembly.Proofs.JoinTree.Orders

/-!
# Streams in any order

The streams of a pass may be finished in any order that has children first. Rows of unrelated
streams then come in between one another, at their common ancestors too, but every stream sends the
same rows in the same order.
-/

namespace JoinAssembly

variable {ε : Type} [DecidableEq ε]

namespace JoinTree

variable {t : JoinTree} {options : AssemblyOptions} {m : MatchSets ε} {closed : List StreamIndex}
  {sent got sent' : StreamIndex → List (Delivery ε)} {nodes : List (JoinNode ε)}
  {s c p : StreamIndex} {d : Delivery ε} {x : Handoff ε}

/-- A pass on the way in which some streams are finished, by what the streams have sent and how much
of it has come to their parents. -/
structure Midway (t : JoinTree) (options : AssemblyOptions) (m : MatchSets ε)
    (closed : List StreamIndex) (sent got : StreamIndex → List (Delivery ε))
    (nodes : List (JoinNode ε)) : Prop where
  fits : t.Fits nodes
  awaits : ∀ s < t.size, s ∉ closed → ∃ n, nodes[s]? = some n ∧ t.Awaits m got s n
  sent_eq : ∀ s < t.size, s ∉ closed → sent s = t.passedOn m got s
  prefix_sent : ∀ s < t.size, sent s <+: (Assembler.emission t options m s).deliveries
  downward : ∀ {x p}, t.parent? x = some p → p ∈ closed → x ∈ closed

/-- The rows that are complete. -/
def completed (t : JoinTree) (sent : StreamIndex → List (Delivery ε)) : List (Row ε) :=
  (sent t.root).filterMap Delivery.row?

/-- Routing has brought all that was sent to where it goes. The finished streams have sent what was
wanted, and the rows completed meanwhile are those of the routing. -/
structure Arrives (t : JoinTree) (options : AssemblyOptions) (m : MatchSets ε)
    (closed : List StreamIndex) (wanted got sent : StreamIndex → List (Delivery ε)) (r : Routed ε) :
    Prop where
  error_eq : r.error = none
  midway : t.Midway options m closed sent sent r.nodes
  sent_eq : ∀ s ∈ closed, sent s = wanted s
  completed_eq : t.completed sent = t.completed got ++ r.rows

namespace Midway

/-! ### One row on its way -/

lemma heading_last (h : t.Sound) (hmid : t.Midway options m closed sent got nodes) (hc : c < t.size)
    (hsent : sent c = got c ++ [d]) : d.heading = t.parent? c :=
  Assembler.headsTo_emission h options m c d
    ((hmid.prefix_sent c hc).mem (hsent ▸ List.mem_append_right _ List.mem_cons_self))

/-- A finished stream sends one more row. -/
lemma send (hmid : t.Midway options m closed sent sent nodes) (hc : c ∈ closed)
    (hbegins : sent c ++ [d] <+: (Assembler.emission t options m c).deliveries) :
    t.Midway options m closed (Function.update sent c (sent c ++ [d])) sent nodes := by
  refine ⟨hmid.fits, hmid.awaits, fun s hs hopen => ?_, fun s hs => ?_, hmid.downward⟩
  · have hne : s ≠ c := fun heq => hopen (heq ▸ hc)
    rw [Function.update_of_ne hne]
    exact hmid.sent_eq s hs hopen
  · by_cases hsc : s = c
    · subst hsc
      rw [Function.update_self]
      exact hbegins
    · rw [Function.update_of_ne hsc]
      exact hmid.prefix_sent s hs

/-- What the root has sent goes nowhere. -/
lemma landed (h : t.Sound) (hmid : t.Midway options m closed sent got nodes)
    (hsame : ∀ x ≠ t.root, sent x = got x) : t.Midway options m closed sent sent nodes := by
  have hchildren : ∀ s, ∀ c ∈ t.childrenOf s, got c = sent c := fun s c hc =>
    (hsame c (h.ne_root_of_parent (h.parent_of_mem_childrenOf hc))).symm
  refine ⟨hmid.fits, fun s hs hopen => ?_, fun s hs hopen => ?_, hmid.prefix_sent, hmid.downward⟩
  · obtain ⟨n, hn, hawaits⟩ := hmid.awaits s hs hopen
    exact ⟨n, hn, hawaits.congr (hchildren s)⟩
  · rw [hmid.sent_eq s hs hopen, passedOn_congr (hchildren s)]

section Routing

variable (h : t.Sound) (hok : ∀ s < t.size, (Assembler.emission t options m s).error = none)
include h hok

/-- The node of a stream that is not finished accepts what a child has sent last. -/
lemma accept (hmid : t.Midway options m closed sent got nodes) (hp : t.parent? c = some p)
    (hopen : p ∉ closed) (hsent : sent c = got c ++ [.toParent p x])
    (hsame : ∀ y ≠ c, sent y = got y) :
    ∃ n n' next, nodes[p]? = some n ∧ n.accept m x = (n', .ok next) ∧
      t.Midway options m closed (Function.update sent p (sent p ++ next.toList)) sent
        (nodes.set p n') := by
  have hlt := h.parent_lt hp
  have hc := h.mem_childrenOf.mpr hp
  have hx : x ∈ (Assembler.emission t options m c).handoffs :=
    List.mem_filterMap.mpr ⟨.toParent p x, (hmid.prefix_sent c (lt_size_of_parent hp)).mem
      (hsent ▸ List.mem_append_right _ List.mem_cons_self), rfl⟩
  obtain ⟨n, hn, hawaits⟩ := hmid.awaits p hlt hopen
  obtain ⟨n', next, haccept, hawaits', hpassed⟩ :=
    hawaits.accept h (hok p hlt) hc hx hsent hsame
  -- All other streams have got from their children what they had before.
  have hothers : ∀ s ≠ p, ∀ y ∈ t.childrenOf s, got y = sent y := by
    intro s hne y hy
    refine (hsame y ?_).symm
    rintro rfl
    exact hne (Option.some.inj ((h.parent_of_mem_childrenOf hy).symm.trans hp))
  rw [← hmid.sent_eq p hlt hopen] at hpassed
  refine ⟨n, n', next, hn, haccept, ?_, fun s hs hopen' => ?_, fun s hs hopen' => ?_,
    fun s hs => ?_, hmid.downward⟩
  · have hset := hmid.fits.accept m hn x
    rwa [haccept] at hset
  · by_cases hsp : s = p
    · subst hsp
      exact ⟨n', List.getElem?_set_self (List.getElem?_eq_some_iff.mp hn).1, hawaits'⟩
    · obtain ⟨n₀, hn₀, hawaits₀⟩ := hmid.awaits s hs hopen'
      exact ⟨n₀, (List.getElem?_set_ne (Ne.symm hsp)).trans hn₀, hawaits₀.congr (hothers s hsp)⟩
  · by_cases hsp : s = p
    · subst hsp
      rw [Function.update_self, hpassed]
    · rw [Function.update_of_ne hsp, hmid.sent_eq s hs hopen', passedOn_congr (hothers s hsp)]
  · by_cases hsp : s = p
    · subst hsp
      rw [Function.update_self, ← hpassed]
      exact prefix_passedOn h (hok s hs) fun y hy =>
        hmid.prefix_sent y (h.lt_of_mem_childrenOf hy)
    · rw [Function.update_of_ne hsp]
      exact hmid.prefix_sent s hs

omit hok in
/-- What the root has sent is complete. -/
lemma complete (hmid : t.Midway options m closed sent got nodes) (hc : c < t.size)
    (hroot : t.parent? c = none) (hsent : sent c = got c ++ [d]) (hsame : ∀ y ≠ c, sent y = got y)
    (k : Nat) : t.Arrives options m closed sent got sent (JoinAssembly.route m k nodes d) := by
  have hheading := hmid.heading_last h hc hsent
  obtain rfl := h.eq_root c hc hroot
  cases d with
  | toParent s x => cases hheading.trans hroot
  | complete row =>
    have hroute : JoinAssembly.route m k nodes (.complete row) = ⟨nodes, [row], [], none⟩ := by
      cases k <;> rfl
    rw [hroute]
    refine ⟨rfl, hmid.landed h hsame, fun s _ => rfl, ?_⟩
    rw [completed, hsent, List.filterMap_append]
    rfl

/-- What a stream has sent last is routed upward until it stays somewhere. -/
lemma route {rank : StreamIndex → Nat} (hrank : Ranked t.childrenOf t.size rank) :
    ∀ (k : Nat) {sent got : StreamIndex → List (Delivery ε)} {nodes : List (JoinNode ε)}
      {c : StreamIndex} {d : Delivery ε}, t.Midway options m closed sent got nodes →
      c < t.size → sent c = got c ++ [d] → (∀ y ≠ c, sent y = got y) →
      (∀ p, t.parent? c = some p → p ∉ closed ∧ rank p < k) →
      ∃ sent', t.Arrives options m closed sent got sent' (JoinAssembly.route m k nodes d) := by
  intro k
  induction k with
  | zero =>
    intro sent got nodes c d hmid hc hsent hsame hup
    cases hp : t.parent? c with
    | none => exact ⟨sent, hmid.complete h hc hp hsent hsame 0⟩
    | some p => exact absurd (hup p hp).2 (Nat.not_lt_zero _)
  | succ k ih =>
    intro sent got nodes c d hmid hc hsent hsame hup
    cases hp : t.parent? c with
    | none => exact ⟨sent, hmid.complete h hc hp hsent hsame (k + 1)⟩
    | some p =>
      obtain ⟨hopen, hlt⟩ := hup p hp
      have hheading := hmid.heading_last h hc hsent
      have hrows : t.completed sent = t.completed got :=
        congrArg (List.filterMap Delivery.row?) (hsame _ (h.ne_root_of_parent hp).symm)
      cases d with
      | complete row => cases hheading.trans hp
      | toParent q x =>
        cases hheading.trans hp
        obtain ⟨n, n', next, hn, haccept, hmid'⟩ := hmid.accept h hok hp hopen hsent hsame
        cases next with
        | none =>
          rw [Option.toList_none, List.append_nil, Function.update_eq_self] at hmid'
          rw [route_of_kept m hn haccept]
          exact ⟨sent, rfl, hmid', fun s _ => rfl, hrows.trans (List.append_nil _).symm⟩
        | some d' =>
          -- The parent has sent a row in turn, and its own parent is not finished either.
          obtain ⟨sent', harrives⟩ := ih (c := p) hmid' (h.parent_lt hp) (Function.update_self ..)
            (fun y hy => Function.update_of_ne hy ..) fun q hq =>
              ⟨fun hclosed => hopen (hmid.downward hq hclosed), by
                have := hrank.rank_lt q p (h.mem_childrenOf.mpr hq)
                omega⟩
          rw [route_of_sent m hn haccept]
          refine ⟨sent', harrives.error_eq, harrives.midway, fun s hs => ?_,
            harrives.completed_eq.trans (by rw [hrows])⟩
          have hne : s ≠ p := fun heq => hopen (heq ▸ hs)
          rw [harrives.sent_eq s hs, Function.update_of_ne hne]

/-- A finished stream sends its rows one after another. -/
lemma routeAll (hc : c ∈ closed) (hlt : c < t.size) (hup : ∀ p, t.parent? c = some p → p ∉ closed)
    (ds : List (Delivery ε)) :
    ∀ {sent : StreamIndex → List (Delivery ε)} {nodes : List (JoinNode ε)},
      t.Midway options m closed sent sent nodes →
      sent c ++ ds <+: (Assembler.emission t options m c).deliveries →
      ∃ sent', t.Arrives options m closed (Function.update sent c (sent c ++ ds)) sent sent'
        (JoinAssembly.routeAll m nodes ds) := by
  obtain ⟨rank, hrank⟩ := h.ranked
  induction ds with
  | nil =>
    intro sent nodes hmid _
    rw [List.append_nil, Function.update_eq_self]
    exact ⟨sent, rfl, hmid, fun s _ => rfl, (List.append_nil _).symm⟩
  | cons d rest ih =>
    intro sent nodes hmid hbegins
    rw [List.append_cons] at hbegins
    have hsending := hmid.send hc ((List.prefix_append _ rest).trans hbegins)
    obtain ⟨sent₁, hfirst⟩ := hsending.route h hok hrank nodes.length hlt (Function.update_self ..)
      (fun y hy => Function.update_of_ne hy ..) fun p hp => ⟨hup p hp, by
        rw [hmid.fits.length_eq]
        have hp' := h.mem_childrenOf.mpr hp
        exact Nat.lt_trans (hrank.rank_lt p c hp') (hrank.rank_bound p c hp')⟩
    have hsent₁ : sent₁ c = sent c ++ [d] := (hfirst.sent_eq c hc).trans (Function.update_self ..)
    obtain ⟨sent₂, hrest⟩ := ih hfirst.midway (hsent₁ ▸ hbegins)
    have hnodes : JoinAssembly.routeAll m nodes (d :: rest) = _ := routeAll_cons m nodes d rest
    rw [hnodes, Routed.andThen, hfirst.error_eq]
    refine ⟨sent₂, hrest.error_eq, hrest.midway, fun s hs => ?_, ?_⟩
    · rw [hrest.sent_eq s hs]
      by_cases hsc : s = c
      · subst hsc
        rw [Function.update_self, Function.update_self, hsent₁, List.append_assoc]
        rfl
      · rw [Function.update_of_ne hsc, hfirst.sent_eq s hs, Function.update_of_ne hsc,
          Function.update_of_ne hsc]
    · rw [hrest.completed_eq, hfirst.completed_eq, List.append_assoc]

/-! ### One stream after another -/

omit hok in
/-- A stream whose children are done may be finished as well. -/
lemma close {n : JoinNode ε} (hmid : t.Midway options m closed sent sent nodes)
    (hn : nodes[s]? = some n) (hchildren : ∀ c ∈ t.childrenOf s, c ∈ closed) :
    t.Midway options m (closed ++ [s]) sent sent (nodes.set s (n.finish m).1) := by
  have hearlier : ∀ {x}, x ∉ closed ++ [s] → x ∉ closed ∧ s ≠ x := fun {x} hx =>
    ⟨fun hmem => hx (List.mem_append_left _ hmem), fun heq => hx (by simp [heq])⟩
  refine ⟨hmid.fits.set hn (n.blank_finish m), fun x hx hxs => ?_, fun x hx hxs =>
    hmid.sent_eq x hx (hearlier hxs).1, hmid.prefix_sent, fun {x p} hp hmem => ?_⟩
  · obtain ⟨n₀, hn₀, hawaits₀⟩ := hmid.awaits x hx (hearlier hxs).1
    exact ⟨n₀, (List.getElem?_set_ne (hearlier hxs).2).trans hn₀, hawaits₀⟩
  · refine List.mem_append_left _ ?_
    rcases List.mem_append.mp hmem with hmem | hmem
    · exact hmid.downward hp hmem
    · rw [List.mem_singleton.mp hmem] at hp
      exact hchildren x (h.mem_childrenOf.mpr hp)

/-- Finishing a stream whose children are done makes it send the rest of what it sends in a pass. -/
lemma finishOne (hmid : t.Midway options m closed sent sent nodes) (hs : s < t.size)
    (hopen : s ∉ closed) (hchildren : ∀ c ∈ t.childrenOf s, c ∈ closed)
    (hsent : ∀ c ∈ closed, sent c = (Assembler.emission t options m c).deliveries) :
    ∃ sent', t.Arrives options m (closed ++ [s])
      (fun c => (Assembler.emission t options m c).deliveries) sent sent'
      (JoinAssembly.finishOne m s nodes) := by
  obtain ⟨n, hn, hawaits⟩ := hmid.awaits s hs hopen
  obtain ⟨hfinish, hall⟩ := hawaits.finish h (hok s hs) fun c hc => hsent c (hchildren c hc)
  rw [← hmid.sent_eq s hs hopen] at hall
  have hup : ∀ p, t.parent? s = some p → p ∉ closed ++ [s] := by
    intro p hp hmem
    rcases List.mem_append.mp hmem with hmem | hmem
    · exact hopen (hmid.downward hp hmem)
    · exact h.ne_of_parent hp (List.mem_singleton.mp hmem)
  obtain ⟨sent', harrives⟩ := (hmid.close h hn hchildren).routeAll h hok (by simp) hs hup
    (n.finish m).2.deliveries (hall ▸ List.prefix_rfl)
  have hroute : routeEmission m (nodes.set s (n.finish m).1) (n.finish m).2.settled
      = JoinAssembly.routeAll m (nodes.set s (n.finish m).1) (n.finish m).2.deliveries := by
    have hemission : (n.finish m).2 = ⟨(n.finish m).2.deliveries, none⟩ := by rw [← hfinish]
    rw [Emission.settled_of_ok hfinish, hemission]
    exact routeEmission_of_ok ..
  rw [JoinAssembly.finishOne, hn]
  simp only [hroute]
  refine ⟨sent', harrives.error_eq, harrives.midway, fun x hx => ?_, harrives.completed_eq⟩
  rw [harrives.sent_eq x hx]
  rcases List.mem_append.mp hx with hx | hx
  · have hne : x ≠ s := fun heq => hopen (heq ▸ hx)
    rw [Function.update_of_ne hne, hsent x hx]
  · cases List.mem_singleton.mp hx
    rw [Function.update_self, hall]

/-- Finishing the streams in an order with children first brings the rest of the rows. -/
lemma sweep (rest : List StreamIndex) :
    ∀ {closed : List StreamIndex} {sent : StreamIndex → List (Delivery ε)}
      {nodes : List (JoinNode ε)}, t.ChildrenFirst (closed ++ rest) →
      t.Midway options m closed sent sent nodes →
      (∀ c ∈ closed, sent c = (Assembler.emission t options m c).deliveries) →
      (JoinAssembly.sweep m rest nodes).error = none ∧
        t.completed (fun c => (Assembler.emission t options m c).deliveries)
          = t.completed sent ++ (JoinAssembly.sweep m rest nodes).rows := by
  induction rest with
  | nil =>
    intro closed sent nodes horder _ hsent
    have hroot : t.root ∈ closed := by
      rw [← List.append_nil closed, horder.perm.mem_iff]
      exact List.mem_range.mpr h.root_lt
    refine ⟨rfl, ?_⟩
    rw [completed, ← hsent t.root hroot]
    exact (List.append_nil _).symm
  | cons s rest ih =>
    intro closed sent nodes horder hmid hsent
    obtain ⟨hs, hopen, hchildren⟩ := h.done_of_childrenFirst horder
    obtain ⟨sent', hfirst⟩ := hmid.finishOne h hok hs hopen hchildren hsent
    rw [List.append_cons] at horder
    obtain ⟨herror, hrows⟩ := ih horder hfirst.midway hfirst.sent_eq
    rw [JoinAssembly.sweep, Routed.andThen, hfirst.error_eq]
    refine ⟨herror, ?_⟩
    rw [hrows, hfirst.completed_eq, List.append_assoc]

end Routing

/-- At the start of a pass nothing was sent. -/
lemma start (t : JoinTree) (options : AssemblyOptions) (m : MatchSets ε) :
    t.Midway options m [] (fun _ => []) (fun _ => []) (Assembler.startedNodes t options m) := by
  refine ⟨(JoinTree.Fits.allOfTree t).start m options, fun s hs _ => ?_, fun s hs _ => ?_,
    fun s hs => List.nil_prefix, fun _ hp => absurd hp List.not_mem_nil⟩
  · refine ⟨(JoinNode.ofTree t s).start m options, by
      simp [Assembler.startedNodes, JoinNode.allOfTree, hs], ?_⟩
    rcases t.children_cases s with hleaf | ⟨c, honly, hrequired⟩ | ⟨c, honly, hoptional⟩ |
      ⟨c, d, rest, hmany⟩
    · rw [Assembler.start_leaf options m hleaf]
      exact .leaf hleaf
    · rw [Assembler.start_inner options m honly hrequired]
      exact .inner honly hrequired
    · rw [Assembler.start_outer options m honly hoptional]
      exact .outer honly hoptional (OuterBranch.covers_start ..)
    · rw [Assembler.start_product options m hmany]
      exact .product hmany fun x hx => rfl
  · rw [passedOn]
    split <;> rfl

end Midway

end JoinTree

/-! ### Passes in any order -/

/-- Start the nodes of some streams in order. -/
def startEach (m : MatchSets ε) (options : AssemblyOptions) :
    List StreamIndex → List (JoinNode ε) → List (JoinNode ε)
  | [], nodes => nodes
  | s :: rest, nodes => startEach m options rest (nodes.modify s fun n => n.start m options)

namespace Assembler

/-- A pass over new nodes that starts and finishes the streams in given orders. -/
def passInOrder (t : JoinTree) (options : AssemblyOptions) (m : MatchSets ε)
    (starts order : List StreamIndex) : PassState ε × Option AssemblyError :=
  PassState.finishAll m
    ⟨{ Assembler.new t options with nodes := startEach m options starts (JoinNode.allOfTree t) },
      .empty, []⟩ order

end Assembler

omit [DecidableEq ε] in
lemma getElem?_startEach (m : MatchSets ε) (options : AssemblyOptions) (s : StreamIndex)
    (starts : List StreamIndex) : ∀ nodes : List (JoinNode ε), starts.Nodup →
      (startEach m options starts nodes)[s]?
        = nodes[s]?.map fun n => if s ∈ starts then n.start m options else n := by
  induction starts with
  | nil =>
    intro nodes _
    simp [startEach]
  | cons x rest ih =>
    intro nodes hnodup
    obtain ⟨hx, hrest⟩ := List.nodup_cons.mp hnodup
    rw [startEach, ih _ hrest, List.getElem?_modify]
    cases nodes[s]? with
    | none => rfl
    | some n =>
      by_cases hs : x = s
      · subst hs
        simp [hx]
      · simp [hs, Ne.symm hs]

namespace Assembler

omit [DecidableEq ε] in
/-- Starting every stream once, in any order, starts a pass. -/
lemma startEach_eq {t : JoinTree} (options : AssemblyOptions) (m : MatchSets ε)
    {starts : List StreamIndex} (hstarts : starts.Perm (List.range t.size)) :
    startEach m options starts (JoinNode.allOfTree t) = startedNodes t options m := by
  refine List.ext_getElem? fun s => ?_
  rw [getElem?_startEach m options s starts _ (hstarts.nodup_iff.mpr List.nodup_range),
    startedNodes, List.getElem?_map]
  by_cases hs : s < t.size
  · have hmem : s ∈ starts := hstarts.mem_iff.mpr (List.mem_range.mpr hs)
    simp [hmem]
  · have hnone : (JoinNode.allOfTree t : List (JoinNode ε))[s]? = none :=
      List.getElem?_eq_none (by simpa using hs)
    simp [hnone]

/-- Without faults in the match sets, a pass completes the same rows in the same order as any other
that finishes children first, whatever order the streams are started in. -/
theorem rows_in_any_order {b : TreeBuilder} {t : JoinTree} (hb : b.build = .ok t)
    {a : Assembler ε} (ha : Reachable t a) {m : MatchSets ε} (hm : m.width = t.size)
    (hlinks : t.WellLinked m) (options : AssemblyOptions) {starts order : List StreamIndex}
    (hstarts : starts.Perm (List.range t.size)) (horder : t.ChildrenFirst order) :
    (passInOrder t options m starts order).2 = none ∧
      (a.run m).rows = .ok (passInOrder t options m starts order).1.collection := by
  have h := TreeBuilder.sound_of_build hb
  have hanswer := hlinks.answer_eq h hm options
  have hroot : (emission t options m t.root).error = none := by
    cases herror : (emission t options m t.root).error with
    | none => rfl
    | some e =>
      rw [Emission.answer, herror] at hanswer
      cases hanswer
  have hall : t.ChildrenFirst ([] ++ order) := horder
  obtain ⟨herror, hrows⟩ := (JoinTree.Midway.start t options m).sweep h
    (JoinTree.errorless_of_emission h hroot) order hall fun c hc => absurd hc List.not_mem_nil
  obtain ⟨hswept, hstop⟩ := PassState.finishAll_swept m order
    ⟨{ Assembler.new t options with nodes := startEach m options starts (JoinNode.allOfTree t) },
      .empty, []⟩ rfl
  simp only [startEach_eq options m hstarts] at hswept hstop
  refine ⟨?_, ?_⟩
  · rw [passInOrder, startEach_eq options m hstarts]
    exact hstop.trans herror
  · rw [rows_run_of_width hb ha hm, emission_options h a.options options, Emission.answer, hroot,
      passInOrder, startEach_eq options m hstarts, hswept.collection_eq]
    exact congrArg (fun rows => Except.ok (RowCollection.mk rows)) hrows

set_option synthInstance.maxSize 2000 in
theorem sample_in_any_order :
    sampleTree.ChildrenFirst [3, 2, 1, 0] ∧
      (passInOrder sampleTree {} sampleSets [3, 1, 0, 2] [3, 2, 1, 0]).2 = none ∧
      (passInOrder sampleTree {} sampleSets [3, 1, 0, 2] [3, 2, 1, 0]).1.collection
        = ⟨[⟨[some 10, none, some 20, some 30]⟩, ⟨[some 10, none, some 21, none]⟩]⟩ ∧
      ((sampleAssembler {}).run sampleSets).rows
        = .ok ⟨[⟨[some 10, none, some 20, some 30]⟩, ⟨[some 10, none, some 21, none]⟩]⟩ := by
  have horder : sampleTree.ChildrenFirst [3, 2, 1, 0] := ⟨by decide, by decide⟩
  have hcollection : (passInOrder sampleTree {} sampleSets [3, 1, 0, 2] [3, 2, 1, 0]).1.collection
      = ⟨[⟨[some 10, none, some 20, some 30]⟩, ⟨[some 10, none, some 21, none]⟩]⟩ := by decide
  obtain ⟨herror, hrows⟩ := rows_in_any_order (m := sampleSets)
    (by decide : sampleBuilder.build = .ok sampleTree) (reachable_sample {}) (by decide)
    ⟨by decide, by decide⟩ {} (by decide : [3, 1, 0, 2].Perm (List.range 4)) horder
  exact ⟨horder, herror, hcollection, hrows.trans (congrArg Except.ok hcollection)⟩

end Assembler

end JoinAssembly
