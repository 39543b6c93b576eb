import JoinAssembly.Proofs.Join.Emissions

/-!
# Streams that are not finished

In the middle of a pass, what a stream has sent and what its node remembers follow from what each of
its children has sent. How the rows of different children came in between one another makes no
difference.
-/

namespace JoinAssembly

variable {ε : Type} [DecidableEq ε]

namespace JoinTree

/-- The rows that a stream has handed to its parent, by what the streams have sent. -/
def handed (sent : StreamIndex → List (Delivery ε)) (c : StreamIndex) : List (Handoff ε) :=
  (sent c).filterMap Delivery.handoff?

/-- What a stream has sent that is not finished: what it has passed on for an only child. -/
def passedOn (t : JoinTree) (m : MatchSets ε) (sent : StreamIndex → List (Delivery ε))
    (s : StreamIndex) : List (Delivery ε) :=
  match t.childrenOf s with
  | [c] => (handed sent c).filterMap fun x => (JoinNode.forward (t.seatOf s) c m x).toOption
  | _ => []

/-- The node of a stream that is not finished, by what the children of the stream have sent. Nothing
depends on how the rows of different children came in between one another. -/
inductive Awaits (t : JoinTree) (m : MatchSets ε) (sent : StreamIndex → List (Delivery ε))
    (s : StreamIndex) : JoinNode ε → Prop where
  | leaf (hleaf : t.childrenOf s = []) : Awaits t m sent s ⟨t.seatOf s, .leaf⟩
  | inner {c : StreamIndex} (honly : t.childrenOf s = [c]) (hrequired : t.isOptional c = false) :
      Awaits t m sent s ⟨t.seatOf s, .inner c⟩
  | outer {c : StreamIndex} {b : OuterBranch ε} (honly : t.childrenOf s = [c])
      (hoptional : t.isOptional c = true) (hcovers : b.Covers (t.seatOf s) m c
        ((handed sent c).filterMap (JoinNode.cursor? m s)).reverse) :
      Awaits t m sent s ⟨t.seatOf s, .outer b⟩
  | product {c d : StreamIndex} {rest : List StreamIndex} {waiting : List (Arrival ε)}
      (hmany : t.childrenOf s = c :: d :: rest)
      (hwaiting : ∀ x ∈ t.childrenOf s, (waiting.filter fun a => a.sender == x)
        = (handed sent x).filterMap (JoinNode.arrival? m s)) :
      Awaits t m sent s ⟨t.seatOf s, .product ⟨Assembler.factorsOf t s, waiting⟩⟩

variable {t : JoinTree} {m : MatchSets ε} {options : AssemblyOptions} {s c : StreamIndex}
  {sent sent' : StreamIndex → List (Delivery ε)} {n : JoinNode ε} {x : Handoff ε}

lemma passedOn_one (honly : t.childrenOf s = [c]) : t.passedOn m sent s
    = (handed sent c).filterMap fun x => (JoinNode.forward (t.seatOf s) c m x).toOption := by
  rw [passedOn, honly]

lemma passedOn_many {d : StreamIndex} {rest : List StreamIndex}
    (hmany : t.childrenOf s = c :: d :: rest) : t.passedOn m sent s = [] := by
  rw [passedOn, hmany]

lemma passedOn_congr (hsame : ∀ c ∈ t.childrenOf s, sent c = sent' c) :
    t.passedOn m sent s = t.passedOn m sent' s := by
  rw [passedOn, passedOn]
  split
  · rename_i c honly
    rw [handed, handed, hsame c (honly ▸ List.mem_cons_self)]
  · rfl

lemma Awaits.congr (hn : t.Awaits m sent s n) (hsame : ∀ c ∈ t.childrenOf s, sent c = sent' c) :
    t.Awaits m sent' s n := by
  have hhanded : ∀ c ∈ t.childrenOf s, handed sent c = handed sent' c := fun c hc => by
    rw [handed, handed, hsame c hc]
  cases hn with
  | leaf hleaf => exact .leaf hleaf
  | inner honly hrequired => exact .inner honly hrequired
  | outer honly hoptional hcovers =>
    rw [hhanded _ (honly ▸ List.mem_cons_self)] at hcovers
    exact .outer honly hoptional hcovers
  | product hmany hwaiting =>
    exact .product hmany fun x hx => hhanded x hx ▸ hwaiting x hx

omit [DecidableEq ε] in
lemma handed_concat {got : StreamIndex → List (Delivery ε)}
    (hsent : sent c = got c ++ [.toParent s x]) : handed sent c = handed got c ++ [x] := by
  rw [handed, hsent, List.filterMap_append]
  rfl

/-- A stream with an only child first passes on what the child sends. -/
lemma forwardAll_emission (h : t.Sound) (honly : t.childrenOf s = [c])
    (hok : (Assembler.emission t options m s).error = none) :
    (JoinNode.forwardAll (t.seatOf s) c m (Assembler.emission t options m c).handoffs).error
        = none ∧
      (JoinNode.forwardAll (t.seatOf s) c m (Assembler.emission t options m c).handoffs).deliveries
        <+: (Assembler.emission t options m s).deliveries := by
  cases hoptional : t.isOptional c with
  | false =>
    rw [Assembler.emission_inner h honly hoptional] at hok ⊢
    exact ⟨(Emission.error_andThen.mp hok).1, Emission.prefix_andThen _ _⟩
  | true =>
    rw [Assembler.emission_outer h honly hoptional] at hok ⊢
    exact ⟨(Emission.error_andThen.mp (Emission.error_andThen.mp hok).1).1,
      (Emission.prefix_andThen _ _).trans (Emission.prefix_andThen _ _)⟩

section Sending

variable (h : t.Sound) (hok : (Assembler.emission t options m s).error = none)
include h hok

/-- What a stream has passed on is the beginning of what it sends in a pass. -/
lemma prefix_passedOn
    (hsent : ∀ c ∈ t.childrenOf s, sent c <+: (Assembler.emission t options m c).deliveries) :
    t.passedOn m sent s <+: (Assembler.emission t options m s).deliveries := by
  rcases hchildren : t.childrenOf s with _ | ⟨c, _ | ⟨d, rest⟩⟩
  · rw [passedOn, hchildren]
    exact List.nil_prefix
  · obtain ⟨hforward, hbegins⟩ := forwardAll_emission h hchildren hok
    rw [JoinNode.deliveries_forwardAll hforward] at hbegins
    rw [passedOn_one hchildren]
    have hhanded := (hsent c (hchildren ▸ List.mem_cons_self)).filterMap Delivery.handoff?
    exact (hhanded.filterMap _).trans hbegins
  · rw [passedOn_many hchildren]
    exact List.nil_prefix

/-- What an only child sends next can be passed on. -/
lemma exists_passedOn {got : StreamIndex → List (Delivery ε)} (honly : t.childrenOf s = [c])
    (hx : x ∈ (Assembler.emission t options m c).handoffs)
    (hsent : sent c = got c ++ [.toParent s x]) :
    ∃ d, JoinNode.forward (t.seatOf s) c m x = .ok d ∧
      t.passedOn m sent s = t.passedOn m got s ++ [d] := by
  obtain ⟨d, hd⟩ := JoinNode.forward_of_forwardAll (forwardAll_emission h honly hok).1 x hx
  refine ⟨d, hd, ?_⟩
  rw [passedOn_one honly, passedOn_one honly, handed_concat hsent, List.filterMap_append]
  simp [hd, Except.toOption]

/-- The node of a stream accepts what a child sends next. It keeps it, or it passes it on. -/
lemma Awaits.accept {got : StreamIndex → List (Delivery ε)} (hn : t.Awaits m got s n)
    (hc : c ∈ t.childrenOf s) (hx : x ∈ (Assembler.emission t options m c).handoffs)
    (hsent : sent c = got c ++ [.toParent s x]) (hsame : ∀ d ≠ c, sent d = got d) :
    ∃ n' next, n.accept m x = (n', .ok next) ∧ t.Awaits m sent s n' ∧
      t.passedOn m sent s = t.passedOn m got s ++ next.toList := by
  have hhanded := handed_concat hsent
  cases hn with
  | leaf hleaf =>
    rw [hleaf] at hc
    exact absurd hc List.not_mem_nil
  | inner honly hrequired =>
    cases List.mem_singleton.mp (honly ▸ hc)
    obtain ⟨y, hy, hpassed⟩ := exists_passedOn h hok honly hx hsent
    refine ⟨_, some y, ?_, .inner honly hrequired, hpassed⟩
    simp only [JoinNode.accept, hy]
    rfl
  | outer honly hoptional hcovers =>
    cases List.mem_singleton.mp (honly ▸ hc)
    obtain ⟨y, hy, hpassed⟩ := exists_passedOn h hok honly hx hsent
    obtain ⟨b', cursor, hcursor, haccept, hcovers'⟩ := JoinNode.accept_outer hcovers hy
    have hcovered : JoinNode.cursor? m s x = some cursor := hcursor
    refine ⟨_, some y, haccept, .outer honly hoptional ?_, hpassed⟩
    rw [hhanded, List.filterMap_append, List.reverse_append]
    simpa [hcovered] using hcovers'
  | product hmany hwaiting =>
    have hsender : x.sender = c := sender_of_emission h hc hx
    obtain ⟨found, hfound⟩ := (located_of_emission h hok hc).2 x hx
    obtain ⟨a, harrival, hfrom, haccept⟩ := JoinNode.accept_product m (t.seatOf s)
      (p := ⟨Assembler.factorsOf t s, _⟩) (hsender ▸ any_factorsOf hc) hfound
    refine ⟨_, none, haccept, .product hmany fun d hd => ?_, ?_⟩
    · rw [List.filter_append, hwaiting d hd]
      by_cases hdc : d = c
      · rw [hdc, hhanded, List.filterMap_append]
        have hkept : JoinNode.arrival? m s x = some a := harrival
        simp [hkept, hfrom, hsender]
      · rw [handed, handed, hsame d hdc]
        simp [hfrom, hsender, Ne.symm hdc]
    · rw [passedOn_many hmany, passedOn_many hmany]
      rfl

/-- When its child is done, an outer branch sends the rows of the events that it did not cover. -/
lemma emission_covers {b : OuterBranch ε} (honly : t.childrenOf s = [c])
    (hoptional : t.isOptional c = true) (hcovers : b.Covers (t.seatOf s) m c
      ((Assembler.emission t options m c).handoffs.filterMap (JoinNode.cursor? m s)).reverse) :
    Assembler.emission t options m s
      = (JoinNode.forwardAll (t.seatOf s) c m (Assembler.emission t options m c).handoffs).andThen
        (JoinNode.finish ⟨t.seatOf s, .outer b⟩ m).2.settled := by
  have hchild := (located_of_emission h hok (honly ▸ List.mem_cons_self)).1
  have hfinish : (JoinNode.finish ⟨t.seatOf s, .outer b⟩ m).2
      = .forEach (fun o => .ofExcept ((t.seatOf s).sendSeed o)) ((m.occurrences s).filter fun o =>
        !((Assembler.emission t options m c).handoffs.filterMap
          (JoinNode.cursor? m s)).contains o.cursor) := by
    refine hcovers.finish.trans ?_
    simp only [List.contains_reverse, stream_seatOf]
  rw [Assembler.emission_outer h honly hoptional, JoinNode.outerEmission, hchild,
    Emission.andThen_stop_none, hfinish]
  rfl

/-- When all children are done, a product sends the combinations of their rows, in whatever order
the rows of different children have come. -/
lemma emission_waiting {d : StreamIndex} {rest : List StreamIndex} {waiting : List (Arrival ε)}
    (hmany : t.childrenOf s = c :: d :: rest)
    (hwaiting : ∀ x ∈ t.childrenOf s, (waiting.filter fun a => a.sender == x)
      = (Assembler.emission t options m x).handoffs.filterMap (JoinNode.arrival? m s)) :
    Assembler.emission t options m s = (JoinNode.finish
      ⟨t.seatOf s, .product ⟨Assembler.factorsOf t s, waiting⟩⟩ m).2.settled := by
  have hfinish : (JoinNode.finish ⟨t.seatOf s, .product ⟨Assembler.factorsOf t s, waiting⟩⟩ m).2
      = .forEach (fun o => Product.emitFor (Assembler.factorsOf t s) (t.seatOf s) o
          ((((t.childrenOf s).map (Assembler.emission t options m)).flatMap fun e =>
            e.handoffs.filterMap (JoinNode.arrival? m s)).filter fun a => a.cursor == o.cursor))
          (m.occurrences s) := by
    rw [JoinNode.finish_product]
    refine Emission.forEach_congr fun o _ => Product.emitFor_congr (fun f hf => ?_) _ o
    obtain ⟨c, hc, rfl⟩ := List.mem_map.mp hf
    rw [Product.rowsOf, Product.rowsOf, List.filter_comm, hwaiting c hc, List.flatMap_map,
      List.filter_comm (l := List.flatMap _ _), filter_sender h hc]
    intro d hd a ha
    obtain ⟨x, hx, hkept⟩ := List.mem_filterMap.mp ha
    obtain ⟨cursor, -, rfl⟩ := Option.map_eq_some_iff.mp hkept
    exact sender_of_emission h hd hx
  have hsender : ∀ e ∈ (t.childrenOf s).map (Assembler.emission t options m), ∀ x ∈ e.handoffs,
      (Assembler.factorsOf t s).any fun f => f.stream == x.sender := by
    intro e he x hx
    obtain ⟨c, hc, rfl⟩ := List.mem_map.mp he
    exact sender_of_emission h hc hx ▸ any_factorsOf hc
  rw [hfinish]
  rcases JoinNode.settle_product m (t.seatOf s) _ hsender with ⟨-, hsettled⟩ | ⟨err, hstopped, -⟩
  · exact (Assembler.emission_product h hmany).trans hsettled
  · rw [Assembler.emission_product h hmany, hstopped] at hok
    cases hok

/-- What a stream has passed on and what it sends when it is finished are together what it sends in
a pass. -/
lemma Awaits.finish (hn : t.Awaits m sent s n)
    (hsent : ∀ c ∈ t.childrenOf s, sent c = (Assembler.emission t options m c).deliveries) :
    (n.finish m).2.error = none ∧ t.passedOn m sent s ++ (n.finish m).2.deliveries
      = (Assembler.emission t options m s).deliveries := by
  have hhanded : ∀ c ∈ t.childrenOf s,
      handed sent c = (Assembler.emission t options m c).handoffs := fun c hc => by
    rw [handed, hsent c hc]
    rfl
  have hpassed : ∀ {c}, t.childrenOf s = [c] → t.passedOn m sent s = (JoinNode.forwardAll
      (t.seatOf s) c m (Assembler.emission t options m c).handoffs).deliveries := by
    intro c honly
    rw [passedOn_one honly, hhanded c (honly ▸ List.mem_cons_self),
      JoinNode.deliveries_forwardAll (forwardAll_emission h honly hok).1]
  cases hn with
  | leaf hleaf =>
    have hemission : Assembler.emission t options m s
        = (JoinNode.finish ⟨t.seatOf s, .leaf⟩ m).2.settled := Assembler.emission_leaf h hleaf
    rw [hemission, Emission.error_settled] at hok
    rw [hemission, Emission.settled_of_ok hok, passedOn, hleaf]
    exact ⟨hok, rfl⟩
  | inner honly hrequired =>
    have hchild := (located_of_emission h hok (honly ▸ List.mem_cons_self)).1
    rw [hpassed honly, Assembler.emission_inner h honly hrequired, hchild,
      Emission.andThen_stop_none]
    exact ⟨rfl, List.append_nil _⟩
  | outer honly hoptional hcovers =>
    rw [hhanded _ (honly ▸ List.mem_cons_self)] at hcovers
    have hemission := emission_covers h hok honly hoptional hcovers
    rw [hemission] at hok
    obtain ⟨hforward, hsettled⟩ := Emission.error_andThen.mp hok
    rw [Emission.error_settled] at hsettled
    rw [hpassed honly, hemission, Emission.andThen, hforward, Emission.settled_of_ok hsettled]
    exact ⟨hsettled, rfl⟩
  | product hmany hwaiting =>
    have hemission := emission_waiting h hok hmany fun x hx => hhanded x hx ▸ hwaiting x hx
    rw [hemission, Emission.error_settled] at hok
    rw [hemission, Emission.settled_of_ok hok, passedOn_many hmany]
    exact ⟨hok, rfl⟩

end Sending

end JoinTree

end JoinAssembly
