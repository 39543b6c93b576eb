import JoinAssembly.Proofs.Assembler.Reachable
import JoinAssembly.Proofs.JoinNode.Settle
import JoinAssembly.Proofs.JoinTree.Below

/-!
# What a sweep emits

A sweep over the streams below a stream does to all other nodes what routing the stream's emission
does. What is sent upward from a stream never comes back to the streams below it, so the nodes there
may be left out of sight.
-/

namespace JoinAssembly

variable {ε : Type} {S T : List StreamIndex}

/-! ### Nodes out of sight -/

/-- The same nodes, except at some streams. -/
def SameBut (S : List StreamIndex) (as bs : List (JoinNode ε)) : Prop :=
  ∀ x, x ∉ S → as[x]? = bs[x]?

namespace SameBut

variable {as bs cs : List (JoinNode ε)}

lemma trans (h : SameBut S as bs) (h' : SameBut S bs cs) : SameBut S as cs :=
  fun x hx => (h x hx).trans (h' x hx)

lemma set (h : SameBut S as bs) (hlen : as.length = bs.length) (s : StreamIndex)
    (n : JoinNode ε) : SameBut S (as.set s n) (bs.set s n) := by
  intro x hx
  rw [List.getElem?_set, List.getElem?_set, h x hx, hlen]

lemma of_set {s : StreamIndex} (hs : s ∈ S) (n : JoinNode ε) : SameBut S (as.set s n) as := by
  intro x hx
  have hne : s ≠ x := fun he => hx (he ▸ hs)
  rw [List.getElem?_set_ne hne]

end SameBut

namespace Routed

/-- Two routings come to the same, except for the nodes at some streams. -/
structure Agree (S : List StreamIndex) (q r : Routed ε) : Prop where
  error_eq : q.error = r.error
  rows_eq : q.error = none → q.rows = r.rows
  nodes_eq : q.error = none → SameBut S q.nodes r.nodes

namespace Agree

variable {q r r' : Routed ε}

lemma refl (S : List StreamIndex) (q : Routed ε) : q.Agree S q :=
  ⟨rfl, fun _ => rfl, fun _ _ _ => rfl⟩

lemma trans (h : q.Agree S r) (h' : r.Agree S r') : q.Agree S r' where
  error_eq := h.error_eq.trans h'.error_eq
  rows_eq hq := (h.rows_eq hq).trans (h'.rows_eq (h.error_eq ▸ hq))
  nodes_eq hq := (h.nodes_eq hq).trans (h'.nodes_eq (h.error_eq ▸ hq))

lemma mono (h : q.Agree S r) (hST : ∀ x ∈ S, x ∈ T) : q.Agree T r where
  error_eq := h.error_eq
  rows_eq := h.rows_eq
  nodes_eq hq := fun x hx => h.nodes_eq hq x fun hS => hx (hST x hS)

lemma of_error {e : AssemblyError} (hq : q.error = some e) (hr : r.error = some e) :
    q.Agree S r where
  error_eq := hq.trans hr.symm
  rows_eq h := by rw [hq] at h; cases h
  nodes_eq h := by rw [hq] at h; cases h

/-- Routings that agree go on to agree. -/
lemma andThen {f g : List (JoinNode ε) → Routed ε} (h : q.Agree S r)
    (hfg : q.error = none → (f q.nodes).Agree S (g r.nodes)) :
    (q.andThen f).Agree S (r.andThen g) := by
  cases hq : q.error with
  | some e =>
    have hr : r.error = some e := h.error_eq ▸ hq
    rw [andThen_of_error hq, andThen_of_error hr]
    exact of_error hq hr
  | none =>
    have hr : r.error = none := h.error_eq ▸ hq
    have hnext := hfg hq
    simp only [Routed.andThen, hq, hr]
    exact {
      error_eq := hnext.error_eq
      rows_eq := fun hf => congrArg₂ (· ++ ·) (h.rows_eq hq) (hnext.rows_eq hf)
      nodes_eq := hnext.nodes_eq }

end Agree

end Routed

/-! ### The way up -/

/-- What a stream sends upward spares some streams: it is not sent there, and from elsewhere nothing
goes on to them. -/
structure JoinTree.Spared (t : JoinTree) (c : StreamIndex) (S : List StreamIndex) : Prop where
  downward : ∀ {x p : StreamIndex}, t.parent? x = some p → p ∈ S → x ∈ S
  parent_not_mem : ∀ {p : StreamIndex}, t.parent? c = some p → p ∉ S

namespace JoinTree.Sound

variable {t : JoinTree}

lemma spared_below (h : t.Sound) (s : StreamIndex) : t.Spared s (t.below s) where
  downward hp := h.mem_below_of_parent hp s
  parent_not_mem := h.parent_not_mem_below

lemma spared_sibling (h : t.Sound) {s c d : StreamIndex} (hc : c ∈ t.childrenOf s)
    (hd : d ∈ t.childrenOf s) : t.Spared c (t.below d) where
  downward hp := h.mem_below_of_parent hp d
  parent_not_mem hp := by
    have hs : t.parent? c = some s := h.parent_of_mem_childrenOf hc
    rw [hs] at hp
    cases hp
    exact h.not_mem_below_child hd

end JoinTree.Sound

section Routing

variable [DecidableEq ε] {t : JoinTree} (m : MatchSets ε)

section Steps

variable {nodes : List (JoinNode ε)} {s : StreamIndex} {n n' : JoinNode ε} {x : Handoff ε}

lemma route_of_error (hn : nodes[s]? = some n) {e : AssemblyError}
    (hx : n.accept m x = (n', .error e)) (k : Nat) :
    route m (k + 1) nodes (.toParent s x)
      = ⟨nodes.set s n', [], [.accept s x (.error e)], some e⟩ := by
  simp only [route, hn, hx]

lemma route_of_kept (hn : nodes[s]? = some n) (hx : n.accept m x = (n', .ok none)) (k : Nat) :
    route m (k + 1) nodes (.toParent s x)
      = ⟨nodes.set s n', [], [.accept s x (.ok none)], none⟩ := by
  simp only [route, hn, hx]

lemma route_of_sent (hn : nodes[s]? = some n) {next : Delivery ε}
    (hx : n.accept m x = (n', .ok (some next))) (k : Nat) :
    route m (k + 1) nodes (.toParent s x)
      = { route m k (nodes.set s n') next with
          journal := .accept s x (.ok (some next))
            :: (route m k (nodes.set s n') next).journal } := by
  simp only [route, hn, hx]

/-- A node's answer to a row goes on to the parent stream. -/
lemma heading_of_sent (hfits : t.Fits nodes) (hn : nodes[s]? = some n) {next : Delivery ε}
    (hx : n.accept m x = (n', .ok (some next))) : next.heading = t.parent? s := by
  rw [JoinNode.heading_accept (congrArg Prod.snd hx), hfits.seat_eq hn]

end Steps

/-- Routing with enough steps makes no use of the nodes that it spares, nor of the steps left. -/
lemma route_agree (h : t.Sound) {rank : StreamIndex → Nat}
    (hrank : Ranked t.childrenOf t.size rank)
    (hS : ∀ {x p : StreamIndex}, t.parent? x = some p → p ∈ S → x ∈ S) :
    ∀ (k k' : Nat) {as bs : List (JoinNode ε)} {d : Delivery ε}, t.Fits as → t.Fits bs →
      SameBut S as bs → (∀ p, d.heading = some p → p ∉ S ∧ rank p < k ∧ rank p < k') →
      (route m k as d).Agree S (route m k' bs d) := by
  intro k
  induction k with
  | zero =>
    intro k' as bs d _ _ hab hd
    cases d with
    | complete row =>
      rw [route, route]
      exact ⟨rfl, fun _ => rfl, fun _ => hab⟩
    | toParent p x => exact absurd (hd p rfl).2.1 (Nat.not_lt_zero _)
  | succ k ih =>
    intro k' as bs d has hbs hab hd
    cases d with
    | complete row =>
      rw [route, route]
      exact ⟨rfl, fun _ => rfl, fun _ => hab⟩
    | toParent p x =>
      obtain ⟨hp, hk, hk'⟩ := hd p rfl
      cases k' with
      | zero => exact absurd hk' (Nat.not_lt_zero _)
      | succ k' =>
        cases hn : as[p]? with
        | none =>
          rw [route, route, ← hab p hp, hn]
          exact ⟨rfl, fun _ => rfl, fun _ => hab⟩
        | some n =>
          have hn' : bs[p]? = some n := (hab p hp) ▸ hn
          have hlen : as.length = bs.length := has.length_eq.trans hbs.length_eq.symm
          cases hx : n.accept m x with
          | mk n' answer =>
            have has' : t.Fits (as.set p n') := has.of_accept m hn hx
            have hbs' : t.Fits (bs.set p n') := hbs.of_accept m hn' hx
            have hset := hab.set hlen p n'
            rcases answer with e | _ | next
            · rw [route_of_error m hn hx, route_of_error m hn' hx]
              exact .of_error rfl rfl
            · rw [route_of_kept m hn hx, route_of_kept m hn' hx]
              exact ⟨rfl, fun _ => rfl, fun _ => hset⟩
            · have hheading : next.heading = t.parent? p := heading_of_sent m has hn hx
              -- The row goes on to the parent, which is ranked lower and is not spared either.
              have hnext := ih k' has' hbs' hset (d := next)
                fun q hq => by
                  have hparent : t.parent? p = some q := hheading.symm.trans hq
                  have hlt := hrank.rank_lt q p (h.mem_childrenOf.mpr hparent)
                  exact ⟨fun hqS => hp (hS hparent hqS), by omega, by omega⟩
              rw [route_of_sent m hn hx, route_of_sent m hn' hx]
              exact ⟨hnext.error_eq, hnext.rows_eq, hnext.nodes_eq⟩

/-- Routing leaves the nodes alone that it spares. -/
lemma route_spares (hS : ∀ {x p : StreamIndex}, t.parent? x = some p → p ∈ S → x ∈ S) :
    ∀ (k : Nat) {nodes : List (JoinNode ε)} {d : Delivery ε}, t.Fits nodes →
      (∀ p, d.heading = some p → p ∉ S) →
      ∀ x ∈ S, (route m k nodes d).nodes[x]? = nodes[x]? := by
  intro k
  induction k with
  | zero =>
    intro nodes d _ _ x _
    cases d <;> rw [route]
  | succ k ih =>
    intro nodes d hfits hd x hx
    cases d with
    | complete row => rw [route]
    | toParent p y =>
      cases hn : nodes[p]? with
      | none => rw [route, hn]
      | some n =>
        have hne : p ≠ x := fun he => hd p rfl (he ▸ hx)
        cases hy : n.accept m y with
        | mk n' answer =>
          have hfits' : t.Fits (nodes.set p n') := hfits.of_accept m hn hy
          rcases answer with e | _ | next
          · rw [route_of_error m hn hy]
            exact List.getElem?_set_ne hne
          · rw [route_of_kept m hn hy]
            exact List.getElem?_set_ne hne
          · have hheading : next.heading = t.parent? p := heading_of_sent m hfits hn hy
            have hnext := ih hfits' (d := next)
              (fun q hq hqS => hd p rfl (hS (hheading.symm.trans hq) hqS)) x hx
            rw [route_of_sent m hn hy]
            exact hnext.trans (List.getElem?_set_ne hne)

variable {c : StreamIndex}

lemma routeAll_agree (h : t.Sound) (hS : t.Spared c S) {ds : List (Delivery ε)}
    (hds : ∀ d ∈ ds, d.heading = t.parent? c) :
    ∀ {as bs : List (JoinNode ε)}, t.Fits as → t.Fits bs → SameBut S as bs →
      (routeAll m as ds).Agree S (routeAll m bs ds) := by
  obtain ⟨rank, hrank⟩ := h.ranked
  induction ds with
  | nil => intro as bs _ _ hab; exact ⟨rfl, fun _ => rfl, fun _ => hab⟩
  | cons d rest ih =>
    intro as bs has hbs hab
    have hfirst : (route m as.length as d).Agree S (route m bs.length bs d) := by
      apply route_agree m h hrank hS.downward as.length bs.length has hbs hab
      intro p hp
      have hparent : t.parent? c = some p := (hds d List.mem_cons_self).symm.trans hp
      have hlt := hrank.rank_lt p c (h.mem_childrenOf.mpr hparent)
      have hbound := hrank.rank_bound p c (h.mem_childrenOf.mpr hparent)
      rw [has.length_eq, hbs.length_eq]
      exact ⟨hS.parent_not_mem hparent, Nat.lt_trans hlt hbound, Nat.lt_trans hlt hbound⟩
    rw [routeAll_cons, routeAll_cons]
    apply hfirst.andThen
    intro hok
    exact ih (fun d' hd' => hds d' (List.mem_cons_of_mem _ hd'))
      (JoinTree.Fits.route m has) (JoinTree.Fits.route m hbs) (hfirst.nodes_eq hok)

lemma routeAll_spares (hS : t.Spared c S) {ds : List (Delivery ε)}
    (hds : ∀ d ∈ ds, d.heading = t.parent? c) :
    ∀ {nodes : List (JoinNode ε)}, t.Fits nodes →
      ∀ x ∈ S, (routeAll m nodes ds).nodes[x]? = nodes[x]? := by
  induction ds with
  | nil => intro nodes _ x _; rfl
  | cons d rest ih =>
    intro nodes hfits x hx
    have hfirst := route_spares m hS.downward nodes.length (d := d) hfits
      (fun p hp => hS.parent_not_mem ((hds d List.mem_cons_self).symm.trans hp)) x hx
    have hfits' : t.Fits (route m nodes.length nodes d).nodes := JoinTree.Fits.route m hfits
    have hrest := ih (fun d' hd' => hds d' (List.mem_cons_of_mem _ hd')) hfits' x hx
    rw [routeAll_cons, Routed.andThen]
    split
    · exact hfirst
    · exact hrest.trans hfirst

lemma routeEmission_agree (h : t.Sound) (hS : t.Spared c S) {e : Emission ε}
    (he : e.HeadsTo (t.parent? c)) {as bs : List (JoinNode ε)} (has : t.Fits as)
    (hbs : t.Fits bs) (hab : SameBut S as bs) :
    (routeEmission m as e).Agree S (routeEmission m bs e) := by
  have hall := routeAll_agree m h hS he has hbs hab
  apply hall.andThen
  intro hok
  exact ⟨rfl, fun _ => rfl, fun _ => hall.nodes_eq hok⟩

lemma routeEmission_spares (hS : t.Spared c S) {e : Emission ε} (he : e.HeadsTo (t.parent? c))
    {nodes : List (JoinNode ε)} (hfits : t.Fits nodes) :
    ∀ x ∈ S, (routeEmission m nodes e).nodes[x]? = nodes[x]? := by
  intro x hx
  have hall := routeAll_spares m hS he hfits x hx
  rw [routeEmission, Routed.andThen]
  split
  · exact hall
  · exact hall

/-! ### One node at work -/

/-- To all nodes not below a stream, a routing does what an emission of the stream does; the
stream's own node it leaves as given. -/
structure Amounts (t : JoinTree) (s : StreamIndex) (nodes : List (JoinNode ε)) (q : Routed ε)
    (n : JoinNode ε) (e : Emission ε) : Prop where
  agree : q.Agree (t.below s) (routeEmission m nodes e)
  fits : t.Fits q.nodes
  node_eq : q.error = none → q.nodes[s]? = some n

variable {m} {s : StreamIndex} {nodes : List (JoinNode ε)} {q : Routed ε} {n n' : JoinNode ε}
  {e e' : Emission ε}

/-- One piece of work after another. -/
lemma Amounts.andThen (h : t.Sound) (hfits : t.Fits nodes) (hq : Amounts m t s nodes q n e)
    {f : List (JoinNode ε) → Routed ε} (he' : e'.HeadsTo (t.parent? s))
    (hf : q.error = none → Amounts m t s q.nodes (f q.nodes) n' e') :
    Amounts m t s nodes (q.andThen f) n' (e.andThen e') where
  agree := by
    rw [routeEmission_andThen]
    apply hq.agree.andThen
    intro hok
    exact (hf hok).agree.trans (routeEmission_agree m h (h.spared_below s) he' hq.fits
      (JoinTree.Fits.routeEmission m hfits) (hq.agree.nodes_eq hok))
  fits := by
    cases hok : q.error with
    | some err => rw [Routed.andThen_of_error hok]; exact hq.fits
    | none => simpa [Routed.andThen, hok] using (hf hok).fits
  node_eq := by
    cases hok : q.error with
    | some err => simp [Routed.andThen_of_error hok, hok]
    | none => simpa [Routed.andThen, hok] using (hf hok).node_eq

lemma Amounts.stop (hfits : t.Fits nodes) (hn : nodes[s]? = some n)
    (error : Option AssemblyError) :
    Amounts m t s nodes (.stop nodes error) n (.stop error) :=
  ⟨.refl _ _, hfits, fun _ => hn⟩

/-- The node of a parent stream accepts a row, and the answer goes on upward. -/
lemma Amounts.route (h : t.Sound) (hc : c ∈ t.childrenOf s) (hfits : t.Fits nodes)
    (hn : nodes[s]? = some n) {x : Handoff ε} {next : Option (Delivery ε)}
    (hx : n.accept m x = (n', .ok next)) :
    Amounts m t s nodes (JoinAssembly.route m nodes.length nodes (.toParent s x)) n'
      ⟨next.toList, none⟩ := by
  obtain ⟨rank, hrank⟩ := h.ranked
  have hlt : rank s < t.size :=
    Nat.lt_trans (hrank.rank_lt s c hc) (hrank.rank_bound s c hc)
  obtain ⟨k, hk⟩ : ∃ k, nodes.length = k + 1 := by
    refine ⟨t.size - 1, ?_⟩
    rw [hfits.length_eq]
    omega
  have hset : t.Fits (nodes.set s n') := hfits.of_accept m hn hx
  have hs : s < nodes.length := (List.getElem?_eq_some_iff.mp hn).1
  rw [hk]
  cases next with
  | none =>
    rw [route_of_kept m hn hx]
    refine ⟨⟨rfl, fun _ => rfl, fun _ => .of_set (h.mem_below_self s) n'⟩, hset, fun _ => ?_⟩
    exact List.getElem?_set_self hs
  | some d =>
    have hd : d.heading = t.parent? s := heading_of_sent m hfits hn hx
    have hfirst : (JoinAssembly.route m k (nodes.set s n') d).Agree (t.below s)
        (JoinAssembly.route m nodes.length nodes d) := by
      apply route_agree m h hrank (h.spared_below s).downward k nodes.length hset hfits
        (.of_set (h.mem_below_self s) n')
      intro p hp
      have hparent : t.parent? s = some p := hd.symm.trans hp
      have hlt' := hrank.rank_lt p s (h.mem_childrenOf.mpr hparent)
      have hlen := hfits.length_eq
      exact ⟨h.parent_not_mem_below hparent, by omega, by omega⟩
    have hone : routeEmission m nodes ⟨[d], none⟩
        = JoinAssembly.route m nodes.length nodes d := by
      rw [routeEmission_of_ok, routeAll_cons]
      exact Routed.andThen_idle _
    rw [route_of_sent m hn hx, Option.toList_some]
    refine ⟨?_, .route m hset, fun _ => ?_⟩
    · rw [hone]
      exact ⟨hfirst.error_eq, hfirst.rows_eq, hfirst.nodes_eq⟩
    · refine (route_spares m (h.spared_below s).downward k hset ?_ s (h.mem_below_self s)).trans
        (List.getElem?_set_self hs)
      exact fun p hp => h.parent_not_mem_below (hd.symm.trans hp)

/-- The node of a parent stream accepts rows in order. -/
lemma Amounts.acceptAll (h : t.Sound) (hc : c ∈ t.childrenOf s) (hs : List (Handoff ε)) :
    ∀ {nodes : List (JoinNode ε)} {n : JoinNode ε}, t.Fits nodes → nodes[s]? = some n →
      Amounts m t s nodes (routeAll m nodes (hs.map (.toParent s))) (n.acceptAll m hs).1
        (n.acceptAll m hs).2 := by
  induction hs with
  | nil => intro nodes n hfits hn; exact ⟨.refl _ _, hfits, fun _ => hn⟩
  | cons x rest ih =>
    intro nodes n hfits hn
    rw [List.map_cons, routeAll_cons, JoinNode.acceptAll]
    cases hx : n.accept m x with
    | mk n' answer =>
      cases answer with
      | ok next =>
        have hfirst := Amounts.route h hc hfits hn hx
        have hseat : n'.seat = n.seat := by rw [← n.seat_accept m x, hx]
        have hparent : n'.seat.parent = t.parent? s := by rw [hseat, hfits.seat_eq hn]
        exact hfirst.andThen h hfits (hparent ▸ n'.headsTo_acceptAll m rest)
          fun hok => ih hfirst.fits (hfirst.node_eq hok)
      | error err =>
        have herror : (JoinAssembly.route m nodes.length nodes (.toParent s x)).error
            = some err := by
          obtain ⟨k, hk⟩ : ∃ k, nodes.length = k + 1 := by
            have hpos := (List.getElem?_eq_some_iff.mp hn).1
            exact ⟨nodes.length - 1, (Nat.succ_pred_eq_of_pos (Nat.zero_lt_of_lt hpos)).symm⟩
          rw [hk, route_of_error m hn hx]
        rw [Routed.andThen_of_error herror]
        refine ⟨.of_error herror rfl, .route m hfits, fun hok => ?_⟩
        cases herror.symm.trans hok

/-- The node of a parent stream accepts what a child sends. -/
lemma Amounts.relay (h : t.Sound) (hc : c ∈ t.childrenOf s) (hfits : t.Fits nodes)
    (hn : nodes[s]? = some n) (he : e.HeadsTo (some s)) :
    Amounts m t s nodes (routeEmission m nodes e) (n.relay m e).1 (n.relay m e).2 := by
  have hall := Amounts.acceptAll (m := m) h hc e.handoffs hfits hn
  rw [← he.deliveries_eq] at hall
  exact hall.andThen h hfits (.stop _) fun hok => .stop hall.fits (hall.node_eq hok) e.error

/-- Finishing a node. -/
lemma Amounts.finish (h : t.Sound) (hfits : t.Fits nodes) (hn : nodes[s]? = some n) :
    Amounts m t s nodes (finishOne m s nodes) (n.finish m).1 (n.finish m).2.settled := by
  have hset : t.Fits (nodes.set s (n.finish m).1) := hfits.set hn (n.blank_finish m)
  have hs : s < nodes.length := (List.getElem?_eq_some_iff.mp hn).1
  have hheads : (n.finish m).2.settled.HeadsTo (t.parent? s) := by
    have hsettled := (n.headsTo_finish m).settled
    rw [hfits.seat_eq hn] at hsettled
    exact hsettled
  have hagree := routeEmission_agree m h (h.spared_below s) hheads hset hfits
    (.of_set (h.mem_below_self s) _)
  have hfits' := JoinTree.Fits.finishOne m (s := s) hfits
  rw [finishOne, hn] at hfits' ⊢
  refine ⟨⟨hagree.error_eq, hagree.rows_eq, hagree.nodes_eq⟩, hfits', fun _ => ?_⟩
  exact (routeEmission_spares m (h.spared_below s) hheads hset s (h.mem_below_self s)).trans
    (List.getElem?_set_self hs)

end Routing

/-! ### All nodes below a stream -/

lemma sweep_singleton [DecidableEq ε] (m : MatchSets ε) (s : StreamIndex)
    (nodes : List (JoinNode ε)) : sweep m [s] nodes = finishOne m s nodes :=
  Routed.andThen_idle _

namespace JoinTree

variable [DecidableEq ε]

/-- What a stream of a tree sends in a pass that begins with given nodes. -/
def emissionFrom (t : JoinTree) (m : MatchSets ε) (fresh : StreamIndex → JoinNode ε)
    (s : StreamIndex) : Emission ε :=
  (t.shapeOf s).emission m fresh

variable {t : JoinTree} {m : MatchSets ε} {fresh : StreamIndex → JoinNode ε}

/-- A stream's emission is settled from those of its children. -/
lemma Sound.emissionFrom_eq (h : t.Sound) (m : MatchSets ε) (fresh : StreamIndex → JoinNode ε)
    (s : StreamIndex) : t.emissionFrom m fresh s
      = (fresh s).settle m ((t.childrenOf s).map (t.emissionFrom m fresh)) := by
  rw [emissionFrom, h.shapeOf_eq, JoinShape.emission, JoinShape.emissions_eq, List.map_map]
  rfl

/-- The nodes below a stream are as at the start of a pass. -/
def FreshBelow (t : JoinTree) (fresh : StreamIndex → JoinNode ε) (s : StreamIndex)
    (nodes : List (JoinNode ε)) : Prop :=
  ∀ x ∈ t.below s, nodes[x]? = some (fresh x)

lemma headsTo_emissionFrom (h : t.Sound) {s : StreamIndex} {nodes : List (JoinNode ε)}
    (hfits : t.Fits nodes) (hfresh : t.FreshBelow fresh s nodes) :
    (t.emissionFrom m fresh s).HeadsTo (t.parent? s) := by
  have hseat := hfits.seat_eq (hfresh s (h.mem_below_self s))
  have hheads := (fresh s).headsTo_settle m ((t.childrenOf s).map (t.emissionFrom m fresh))
  rw [← h.emissionFrom_eq, hseat] at hheads
  exact hheads

/-- A sweep below some children of a stream has the stream's node accept what they send. -/
lemma sweep_children (h : t.Sound) {s : StreamIndex} (cs : List StreamIndex)
    (hcs : ∀ c ∈ cs, c ∈ t.childrenOf s) (hnodup : cs.Nodup)
    (ih : ∀ c ∈ cs, ∀ nodes : List (JoinNode ε), t.Fits nodes → t.FreshBelow fresh c nodes →
      (sweep m (t.shapeOf c).ascending nodes).Agree (t.below c)
        (routeEmission m nodes (t.emissionFrom m fresh c))) :
    ∀ {nodes : List (JoinNode ε)} {n : JoinNode ε}, t.Fits nodes → nodes[s]? = some n →
      (∀ c ∈ cs, t.FreshBelow fresh c nodes) →
      Amounts m t s nodes (sweep m (cs.flatMap fun c => (t.shapeOf c).ascending) nodes)
        (n.relayAll m (cs.map (t.emissionFrom m fresh))).1
        (n.relayAll m (cs.map (t.emissionFrom m fresh))).2 := by
  induction cs with
  | nil => intro nodes n hfits hn _; exact ⟨.refl _ _, hfits, fun _ => hn⟩
  | cons c rest ihrest =>
    intro nodes n hfits hn hfresh
    have hc : c ∈ t.childrenOf s := hcs c List.mem_cons_self
    have hparent : t.parent? c = some s := h.parent_of_mem_childrenOf hc
    have hagree := ih c List.mem_cons_self nodes hfits (hfresh c List.mem_cons_self)
    have hheads := headsTo_emissionFrom (m := m) h hfits (hfresh c List.mem_cons_self)
    rw [hparent] at hheads
    have hrelay := Amounts.relay (m := m) h hc hfits hn hheads
    have hfirst : Amounts m t s nodes (sweep m (t.shapeOf c).ascending nodes)
        (n.relay m (t.emissionFrom m fresh c)).1 (n.relay m (t.emissionFrom m fresh c)).2 := {
      agree := (hagree.mono fun x hx => h.mem_below_of_child hc hx).trans hrelay.agree
      fits := Fits.sweep m hfits
      node_eq := fun hok => by
        rw [hagree.nodes_eq hok s (h.not_mem_below_child hc)]
        exact hrelay.node_eq (hagree.error_eq ▸ hok) }
    rw [List.flatMap_cons, sweep_append, List.map_cons, JoinNode.relayAll]
    refine hfirst.andThen h hfits ?_ fun hok => ?_
    · have hup : (n.relay m (t.emissionFrom m fresh c)).1.seat.parent = t.parent? s := by
        rw [n.seat_relay, hfits.seat_eq hn]
      rw [← hup]
      exact JoinNode.headsTo_relayAll m _ _
    · refine ihrest (fun d hd => hcs d (List.mem_cons_of_mem _ hd)) (List.nodup_cons.mp hnodup).2
        (fun d hd => ih d (List.mem_cons_of_mem _ hd)) hfirst.fits (hfirst.node_eq hok) ?_
      -- The sweep below one child has not come near the nodes below the others.
      intro d hd x hx
      have hd' : d ∈ t.childrenOf s := hcs d (List.mem_cons_of_mem _ hd)
      have hne : d ≠ c := fun he => (List.nodup_cons.mp hnodup).1 (he ▸ hd)
      rw [hagree.nodes_eq hok x (h.not_mem_below_sibling hd' hc hne hx)]
      rw [routeEmission_spares m (h.spared_sibling hc hd') (hparent ▸ hheads) hfits x hx]
      exact hfresh d (List.mem_cons_of_mem _ hd) x hx

/-- A sweep below a stream does to the other nodes what routing the stream's emission does. -/
lemma sweep_agree (h : t.Sound) (s : StreamIndex) :
    ∀ nodes : List (JoinNode ε), t.Fits nodes → t.FreshBelow fresh s nodes →
      (sweep m (t.shapeOf s).ascending nodes).Agree (t.below s)
        (routeEmission m nodes (t.emissionFrom m fresh s)) := by
  induction s using h.child_induction with
  | step s ih =>
    intro nodes hfits hfresh
    have hn := hfresh s (h.mem_below_self s)
    have hchildren := sweep_children h (t.childrenOf s) (fun _ hc => hc) (h.nodup_childrenOf s) ih
      hfits hn fun c hc x hx => hfresh x (h.mem_below_of_child hc hx)
    have hdone : Amounts m t s nodes
        ((sweep m ((t.childrenOf s).flatMap fun c => (t.shapeOf c).ascending) nodes).andThen
          (sweep m [s]))
        (((fresh s).relayAll m ((t.childrenOf s).map (t.emissionFrom m fresh))).1.finish m).1
        ((fresh s).settle m ((t.childrenOf s).map (t.emissionFrom m fresh))) := by
      refine hchildren.andThen h hfits ?_ fun hok => ?_
      · have hup : ((fresh s).relayAll m
            ((t.childrenOf s).map (t.emissionFrom m fresh))).1.seat.parent = t.parent? s := by
          rw [JoinNode.seat_relayAll, hfits.seat_eq hn]
        rw [← hup]
        exact (JoinNode.headsTo_finish _ m).settled
      · rw [sweep_singleton]
        exact .finish h hchildren.fits (hchildren.node_eq hok)
    rw [h.ascending_eq, sweep_append, h.emissionFrom_eq]
    exact hdone.agree

end JoinTree

/-! ### The answer of a pass -/

/-- The answer of a pass in which the root sends an emission. -/
def Emission.answer (e : Emission ε) : Except AssemblyError (RowCollection ε) :=
  match e.error with
  | Option.none => .ok ⟨e.deliveries.filterMap Delivery.row?⟩
  | some err => .error err

lemma routeAll_of_complete [DecidableEq ε] (m : MatchSets ε) (nodes : List (JoinNode ε))
    {ds : List (Delivery ε)} (h : ∀ d ∈ ds, d.heading = none) :
    routeAll m nodes ds = ⟨nodes, ds.filterMap Delivery.row?, [], none⟩ := by
  induction ds with
  | nil => rfl
  | cons d rest ih =>
    have hd := h d List.mem_cons_self
    cases d with
    | toParent s x => cases hd
    | complete row =>
      rw [routeAll_cons, route, Routed.andThen, ih fun d' hd' => h d' (List.mem_cons_of_mem _ hd')]
      rfl

namespace Assembler

variable [DecidableEq ε] {t : JoinTree}

/-- What a stream of a tree sends in a pass. -/
def emission (t : JoinTree) (options : AssemblyOptions) (m : MatchSets ε) (s : StreamIndex) :
    Emission ε :=
  t.emissionFrom m (fun s => (JoinNode.ofTree t s).start m options) s

/-- The answer of a pass over match sets of the right width is what the root sends. -/
lemma freshAnswer_eq (h : t.Sound) (options : AssemblyOptions) {m : MatchSets ε}
    (hm : m.width = t.size) :
    freshAnswer t options m = (emission t options m t.root).answer := by
  have hfits : t.Fits (startedNodes t options m) := (JoinTree.Fits.allOfTree t).start m options
  have hfresh : t.FreshBelow (fun s => (JoinNode.ofTree t s).start m options) t.root
      (startedNodes t options m) := by
    intro x hx
    have hlt : x < t.size := h.mem_below_root.mp hx
    simp [startedNodes, JoinNode.allOfTree, hlt]
  have hagree := JoinTree.sweep_agree (m := m) h t.root _ hfits hfresh
  have hheads := JoinTree.headsTo_emissionFrom (m := m) h hfits hfresh
  rw [h.parent_root] at hheads
  rw [← h.postorder_eq, routeEmission, routeAll_of_complete m _ hheads, Routed.andThen] at hagree
  simp only [Routed.stop, List.append_nil] at hagree
  have herror : (passSweep t options m).error = (emission t options m t.root).error :=
    hagree.error_eq
  rw [freshAnswer, if_pos hm, Emission.answer, herror]
  cases hok : (emission t options m t.root).error with
  | some err => rfl
  | none =>
    have hrows : (passSweep t options m).rows
        = (emission t options m t.root).deliveries.filterMap Delivery.row? :=
      hagree.rows_eq (herror.trans hok)
    simp only [hrows]

end Assembler

end JoinAssembly
