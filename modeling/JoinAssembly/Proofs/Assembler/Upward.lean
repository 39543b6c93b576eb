import JoinAssembly.Proofs.Assembler.Calls
import JoinAssembly.Proofs.JoinTree.Ancestors

/-!
# The way of a row upward

A delivery is routed in a loop that goes on for as long as nodes pass the row on. As a node names
nothing but its parent, the loop calls the ancestors of the stream that emitted the row, one after
the other: it ends at the first product, at the first ancestor that refuses the row, or past the
root.
-/

namespace JoinAssembly

variable {ε : Type}

/-- The stream whose node is called. -/
def NodeCall.stream : NodeCall ε → StreamIndex
  | .start s => s
  | .finish s _ _ _ => s
  | .accept s _ _ => s

variable [DecidableEq ε]

/-- The loop that routes a delivery, with no bound on its rounds, ends with an outcome. -/
inductive Routes (m : MatchSets ε) : List (JoinNode ε) → Delivery ε → Routed ε → Prop where
  | complete {nodes : List (JoinNode ε)} {row : Row ε} :
      Routes m nodes (.complete row) ⟨nodes, [row], [], none⟩
  | refused {nodes : List (JoinNode ε)} {p : StreamIndex} {x : Handoff ε} {n n' : JoinNode ε}
      {e : AssemblyError} (hn : nodes[p]? = some n) (hx : n.accept m x = (n', .error e)) :
      Routes m nodes (.toParent p x) ⟨nodes.set p n', [], [.accept p x (.error e)], some e⟩
  | kept {nodes : List (JoinNode ε)} {p : StreamIndex} {x : Handoff ε} {n n' : JoinNode ε}
      (hn : nodes[p]? = some n) (hx : n.accept m x = (n', .ok none)) :
      Routes m nodes (.toParent p x) ⟨nodes.set p n', [], [.accept p x (.ok none)], none⟩
  | sent {nodes : List (JoinNode ε)} {p : StreamIndex} {x : Handoff ε} {n n' : JoinNode ε}
      {next : Delivery ε} {r : Routed ε} (hn : nodes[p]? = some n)
      (hx : n.accept m x = (n', .ok (some next))) (hnext : Routes m (nodes.set p n') next r) :
      Routes m nodes (.toParent p x)
        { r with journal := .accept p x (.ok (some next)) :: r.journal }

namespace JoinTree

/-- The node of a stream emits a delivery: when it is finished, or in answer to a row. -/
inductive Emits (t : JoinTree) (m : MatchSets ε) (s : StreamIndex) (d : Delivery ε) : Prop where
  | finish {n : JoinNode ε} (hn : n.blank = .ofTree t s) (hd : d ∈ (n.finish m).2.deliveries)
  | accept {n : JoinNode ε} {x : Handoff ε} (hn : n.blank = .ofTree t s)
      (hd : (n.accept m x).2 = .ok (some d))

/-- A call of a node that is no product and passes a row on. -/
def PassesOn (t : JoinTree) (call : NodeCall ε) : Prop :=
  ∃ p x next, call = .accept p x (.ok (some next)) ∧ t.kindOf p ≠ .product

/-- Where the loop ends that routes a row upward from a stream. -/
inductive Landed (t : JoinTree) (s : StreamIndex) (nodes : List (JoinNode ε)) (r : Routed ε) :
    Prop where
  /-- All ancestors pass the row on, and it is complete. -/
  | pastRoot {row : Row ε} (hcalled : r.journal.map NodeCall.stream = t.ancestors s)
      (hpassed : ∀ call ∈ r.journal, t.PassesOn call) (hrows : r.rows = [row])
      (herror : r.error = none)
  /-- The first product among the ancestors keeps the row. -/
  | atProduct {passed : List (NodeCall ε)} {p : StreamIndex} {x : Handoff ε} {n n' : JoinNode ε}
      {cursor : Cursor} (hjournal : r.journal = passed ++ [.accept p x (.ok none)])
      (hpassed : ∀ call ∈ passed, t.PassesOn call) (hproduct : t.kindOf p = .product)
      (hbefore : nodes[p]? = some n) (hafter : r.nodes[p]? = some n')
      (hwaiting : n'.waiting = n.waiting ++ [⟨cursor, x.sender, x.row⟩])
      (hrows : r.rows = []) (herror : r.error = none)
  /-- An ancestor refuses the row, the first one to do so. -/
  | refused {passed : List (NodeCall ε)} {p : StreamIndex} {x : Handoff ε} {e : AssemblyError}
      (hjournal : r.journal = passed ++ [.accept p x (.error e)])
      (hpassed : ∀ call ∈ passed, t.PassesOn call) (hrows : r.rows = [])
      (herror : r.error = some e)

end JoinTree

variable {t : JoinTree} {m : MatchSets ε} {s p : StreamIndex} {d : Delivery ε}
  {nodes : List (JoinNode ε)} {n n' : JoinNode ε} {x : Handoff ε} {r : Routed ε}

/-! ### One call -/

/-- What a node emits goes to the parent of its stream. -/
lemma JoinTree.Emits.heading (h : t.Emits m s d) : d.heading = t.parent? s := by
  cases h with
  | @finish n hn hd =>
    rw [n.headsTo_finish m d hd, ← n.seat_blank, hn]
    rfl
  | @accept n x hn hd =>
    rw [JoinNode.heading_accept hd, ← n.seat_blank, hn]
    rfl

/-- A product passes no row on. -/
lemma JoinNode.kind_ne_of_sent {next : Delivery ε} (hx : n.accept m x = (n', .ok (some next))) :
    n.kind ≠ .product := by
  obtain ⟨seat, _ | child | b | p⟩ := n
  · exact fun hkind => nomatch hkind
  · exact fun hkind => nomatch hkind
  · exact fun hkind => nomatch hkind
  · obtain ⟨_, -, hnone⟩ := map_eq_ok_iff.mp (congrArg Prod.snd hx)
    cases hnone

/-- A row that is accepted waits behind those that were there. -/
lemma Product.waiting_of_accept {p p' : Product ε} {seat : Seat}
    (hx : p.accept seat m x = (p', .ok ())) :
    ∃ cursor, p'.waiting = p.waiting ++ [⟨cursor, x.sender, x.row⟩] := by
  rw [accept] at hx
  split at hx
  · split at hx
    · cases hx
    · cases hx
      exact ⟨_, rfl⟩
  · cases hx

/-- Only a product keeps a row. -/
lemma JoinNode.waiting_of_kept (hx : n.accept m x = (n', .ok none)) :
    n.kind = .product ∧ ∃ cursor, n'.waiting = n.waiting ++ [⟨cursor, x.sender, x.row⟩] := by
  have hanswer := congrArg Prod.snd hx
  obtain ⟨seat, _ | child | b | p⟩ := n
  · cases hx
  · obtain ⟨_, -, hsome⟩ := map_eq_ok_iff.mp hanswer
    cases hsome
  · obtain ⟨_, -, hsome⟩ := map_eq_ok_iff.mp hanswer
    cases hsome
  · obtain ⟨_, hkept, -⟩ := map_eq_ok_iff.mp hanswer
    obtain rfl := (congrArg Prod.fst hx).symm
    exact ⟨rfl, Product.waiting_of_accept (Prod.ext rfl hkept)⟩

/-! ### The loop -/

/-- With a round for every ancestor of the stream that emits a row, the loop ends. -/
lemma routes_route (h : t.Sound) : ∀ (k : Nat) {nodes : List (JoinNode ε)} {s : StreamIndex}
    {d : Delivery ε}, t.Fits nodes → d.heading = t.parent? s → t.depth s ≤ k →
      Routes m nodes d (route m k nodes d) := by
  intro k
  induction k with
  | zero =>
    intro nodes s d _ hd hk
    cases d with
    | complete row => exact .complete
    | toParent p x =>
      rw [h.depth_of_parent hd.symm] at hk
      exact absurd hk (Nat.not_succ_le_zero _)
  | succ k ih =>
    intro nodes s d hfits hd hk
    cases d with
    | complete row => exact .complete
    | toParent p x =>
      have hparent : t.parent? s = some p := hd.symm
      rw [h.depth_of_parent hparent] at hk
      have hlt : p < nodes.length := hfits.length_eq ▸ h.parent_lt hparent
      have hn := List.getElem?_eq_getElem hlt
      cases hx : nodes[p].accept m x with
      | mk n' answer =>
        rcases answer with e | _ | next
        · rw [route_of_error m hn hx]
          exact .refused hn hx
        · rw [route_of_kept m hn hx]
          exact .kept hn hx
        · have hheading := heading_of_sent m hfits hn hx
          rw [route_of_sent m hn hx]
          exact .sent hn hx
            (ih (hfits.of_accept m hn hx) hheading (Nat.le_of_succ_le_succ hk))

namespace Routes

/-- The loop leaves the nodes alone that it does not call. -/
lemma spares (hr : Routes m nodes d r) :
    ∀ y ∉ r.journal.map NodeCall.stream, r.nodes[y]? = nodes[y]? := by
  induction hr with
  | complete => exact fun _ _ => rfl
  | refused hn hx =>
    intro y hy
    exact List.getElem?_set_ne fun heq => hy (List.mem_cons.mpr (.inl heq.symm))
  | kept hn hx =>
    intro y hy
    exact List.getElem?_set_ne fun heq => hy (List.mem_cons.mpr (.inl heq.symm))
  | sent hn hx _ ih =>
    intro y hy
    rw [List.map_cons, List.mem_cons, not_or] at hy
    exact (ih y hy.2).trans (List.getElem?_set_ne (Ne.symm hy.1))

/-- The loop calls ancestors, one after the other from the parent on. -/
lemma called (h : t.Sound) (hr : Routes m nodes d r) :
    ∀ {s : StreamIndex}, t.Fits nodes → d.heading = t.parent? s →
      r.journal.map NodeCall.stream <+: t.ancestors s := by
  induction hr with
  | complete => exact fun _ _ => List.nil_prefix
  | refused hn hx =>
    intro s _ hd
    rw [h.ancestors_of_parent hd.symm]
    exact (List.prefix_cons_inj _).mpr List.nil_prefix
  | kept hn hx =>
    intro s _ hd
    rw [h.ancestors_of_parent hd.symm]
    exact (List.prefix_cons_inj _).mpr List.nil_prefix
  | @sent nodes p x n n' next r hn hx _ ih =>
    intro s hfits hd
    have hlater := ih (hfits.of_accept m hn hx) (heading_of_sent m hfits hn hx)
    rw [h.ancestors_of_parent hd.symm]
    exact (List.prefix_cons_inj _).mpr hlater

end Routes

omit [DecidableEq ε] in
/-- A row that the parent passes on ends where it ends from there. -/
lemma JoinTree.Landed.cons (h : t.Sound) (hparent : t.parent? s = some p) {next : Delivery ε}
    (hkind : t.kindOf p ≠ .product)
    (hcalled : r.journal.map NodeCall.stream <+: t.ancestors p)
    (hlater : t.Landed p (nodes.set p n') r) :
    t.Landed s nodes { r with journal := .accept p x (.ok (some next)) :: r.journal } := by
  have hancestors := h.ancestors_of_parent hparent
  have hfirst : t.PassesOn (.accept p x (.ok (some next))) := ⟨p, x, next, rfl, hkind⟩
  cases hlater with
  | pastRoot hall hpassed hrows herror =>
    exact .pastRoot (hancestors ▸ congrArg (p :: ·) hall)
      (List.forall_mem_cons.mpr ⟨hfirst, hpassed⟩) hrows herror
  | @atProduct passed q y _ _ _ hjournal hpassed hproduct hbefore hafter hwaiting hrows herror =>
    -- The product is another node than the one that passed the row on.
    have hq : q ∈ t.ancestors p := by
      refine hcalled.subset ?_
      rw [hjournal, List.map_append]
      exact List.mem_append_right _ List.mem_cons_self
    have hne : p ≠ q := by
      rintro rfl
      exact (List.nodup_cons.mp (hancestors ▸ h.nodup_ancestors s)).1 hq
    rw [List.getElem?_set_ne hne] at hbefore
    exact .atProduct (congrArg (_ :: ·) hjournal) (List.forall_mem_cons.mpr ⟨hfirst, hpassed⟩)
      hproduct hbefore hafter hwaiting hrows herror
  | refused hjournal hpassed hrows herror =>
    exact .refused (congrArg (_ :: ·) hjournal) (List.forall_mem_cons.mpr ⟨hfirst, hpassed⟩)
      hrows herror

/-- The loop ends at a product, at an ancestor that refuses the row, or past the root. -/
lemma Routes.landed (h : t.Sound) (hr : Routes m nodes d r) :
    ∀ {s : StreamIndex}, t.Fits nodes → d.heading = t.parent? s → t.Landed s nodes r := by
  induction hr with
  | complete =>
    intro s _ hd
    exact .pastRoot (JoinTree.ancestors_of_parent_none hd.symm).symm (List.forall_mem_nil _) rfl rfl
  | refused hn hx =>
    intro s _ _
    exact .refused (List.nil_append _).symm (List.forall_mem_nil _) rfl rfl
  | kept hn hx =>
    intro s hfits _
    obtain ⟨hkind, cursor, hwaiting⟩ := JoinNode.waiting_of_kept hx
    rw [hfits.kind_eq hn, JoinNode.kind_ofTree] at hkind
    exact .atProduct (List.nil_append _).symm (List.forall_mem_nil _) hkind hn
      (List.getElem?_set_self (List.getElem?_eq_some_iff.mp hn).1) hwaiting rfl rfl
  | @sent nodes p x n n' next r hn hx hnext ih =>
    intro s hfits hd
    have hfits' := hfits.of_accept m hn hx
    have hheading := heading_of_sent m hfits hn hx
    have hkind := JoinNode.kind_ne_of_sent hx
    rw [hfits.kind_eq hn, JoinNode.kind_ofTree] at hkind
    exact .cons h hd.symm hkind (hnext.called h hfits' hheading) (ih hfits' hheading)

/-- Routing what a stream of a built tree emits ends, whatever the nodes remember and the match sets
are, after one call each of its ancestors, from its parent on, and at most as many as it has. The
row is past the root then, or kept by the first product, or refused by the first ancestor to do so;
nodes that are not called are as before. -/
theorem route_ends {b : TreeBuilder} (hb : b.build = .ok t) (hfits : t.Fits nodes)
    (hd : t.Emits m s d) : ∃ r, route m nodes.length nodes d = r ∧ Routes m nodes d r ∧
      r.journal.length ≤ t.depth s ∧ r.journal.map NodeCall.stream <+: t.ancestors s ∧
      (r.journal.map NodeCall.stream).Nodup ∧ t.Landed s nodes r ∧
      ∀ x ∉ r.journal.map NodeCall.stream, r.nodes[x]? = nodes[x]? := by
  have h := TreeBuilder.sound_of_build hb
  have hdepth : t.depth s ≤ nodes.length := hfits.length_eq ▸ t.depth_le_size s
  have hr := routes_route (m := m) h nodes.length hfits hd.heading hdepth
  have hcalled := hr.called h hfits hd.heading
  have hlen := hcalled.length_le
  rw [List.length_map] at hlen
  exact ⟨_, rfl, hr, hlen, hcalled, (h.nodup_ancestors s).sublist hcalled.sublist,
    hr.landed h hfits hd.heading, hr.spares⟩

/-- A row of a stream with two ancestors, on its way to the first of them. -/
def sampleDelivery : Delivery Nat :=
  .toParent 2 ⟨⟨[none, none, none, some 30]⟩, 3, 20, ⟨2, 0⟩⟩

theorem sample_route_ends : ∃ r,
    route sampleSets 4 (Assembler.startedNodes sampleTree {} sampleSets) sampleDelivery = r ∧
      Routes sampleSets (Assembler.startedNodes sampleTree {} sampleSets) sampleDelivery r ∧
      r.journal.map NodeCall.stream = [2, 0] ∧ sampleTree.depth 3 = 2 ∧
      sampleTree.Landed 3 (Assembler.startedNodes sampleTree {} sampleSets) r := by
  have hemits : sampleTree.Emits sampleSets 3 sampleDelivery :=
    .finish (JoinNode.blank_ofTree sampleTree 3) (by decide)
  obtain ⟨_, rfl, hroutes, -, -, -, hlanded, -⟩ := route_ends
    (by decide : sampleBuilder.build = .ok sampleTree)
    (Assembler.fits_startedNodes sampleTree {} sampleSets) hemits
  exact ⟨_, rfl, hroutes, by decide, by decide, hlanded⟩

end JoinAssembly
