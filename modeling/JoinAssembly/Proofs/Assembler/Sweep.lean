import JoinAssembly.Assembler.Pass
import Mathlib.Tactic.Lemma

/-!
# Sweeps

A pass threads the nodes through one routing after another and stops at the first error. Stripped of
the assembler and the collection around it, finishing streams in order is a sweep over the nodes.
-/

namespace JoinAssembly

variable {ε : Type}

namespace Routed

/-- Nothing done yet. -/
def idle (nodes : List (JoinNode ε)) : Routed ε := ⟨nodes, [], [], none⟩

/-- Stopped by an error, if there is one. -/
def stop (nodes : List (JoinNode ε)) (error : Option AssemblyError) : Routed ε :=
  ⟨nodes, [], [], error⟩

/-- Go on with the nodes that a routing leaves, unless it ran into an error. -/
def andThen (r : Routed ε) (next : List (JoinNode ε) → Routed ε) : Routed ε :=
  match r.error with
  | some _ => r
  | none =>
    let later := next r.nodes
    ⟨later.nodes, r.rows ++ later.rows, r.journal ++ later.journal, later.error⟩

lemma andThen_of_error {r : Routed ε} {e : AssemblyError} (h : r.error = some e)
    (next : List (JoinNode ε) → Routed ε) : r.andThen next = r := by
  simp [andThen, h]

lemma andThen_idle (r : Routed ε) : r.andThen idle = r := by
  obtain ⟨nodes, rows, journal, _ | e⟩ := r <;> simp [andThen, idle]

lemma andThen_assoc (r : Routed ε) (f g : List (JoinNode ε) → Routed ε) :
    (r.andThen f).andThen g = r.andThen fun nodes => (f nodes).andThen g := by
  obtain ⟨nodes, rows, journal, _ | e⟩ := r
  · simp only [andThen]
    cases hf : (f nodes).error with
    | none => simp
    | some e => simp [hf]
  · rfl

end Routed

variable [DecidableEq ε] (m : MatchSets ε)

/-! ### Routing in order -/

lemma routeAll_cons (nodes : List (JoinNode ε)) (d : Delivery ε) (rest : List (Delivery ε)) :
    routeAll m nodes (d :: rest)
      = (route m nodes.length nodes d).andThen fun nodes => routeAll m nodes rest := by
  cases herror : (route m nodes.length nodes d).error with
  | none => simp [routeAll, Routed.andThen, herror]
  | some e => simp [routeAll, Routed.andThen, herror]

lemma routeAll_append (ds es : List (Delivery ε)) :
    ∀ nodes : List (JoinNode ε),
      routeAll m nodes (ds ++ es)
        = (routeAll m nodes ds).andThen fun nodes => routeAll m nodes es := by
  induction ds with
  | nil => intro nodes; rfl
  | cons d rest ih =>
    intro nodes
    rw [List.cons_append, routeAll_cons, routeAll_cons, Routed.andThen_assoc]
    congr 1
    funext nodes'
    exact ih nodes'

/-- Route all deliveries of an emission; if none goes wrong, its error counts. -/
def routeEmission (nodes : List (JoinNode ε)) (emission : Emission ε) : Routed ε :=
  (routeAll m nodes emission.deliveries).andThen fun nodes => .stop nodes emission.error

lemma routeEmission_of_ok (nodes : List (JoinNode ε)) (ds : List (Delivery ε)) :
    routeEmission m nodes ⟨ds, none⟩ = routeAll m nodes ds := Routed.andThen_idle _

lemma routeEmission_andThen (nodes : List (JoinNode ε)) (a b : Emission ε) :
    routeEmission m nodes (a.andThen b)
      = (routeEmission m nodes a).andThen fun nodes => routeEmission m nodes b := by
  obtain ⟨ds, _ | e⟩ := a
  · rw [routeEmission_of_ok]
    simp only [routeEmission, Emission.andThen, routeAll_append, Routed.andThen_assoc]
  · simp only [routeEmission, Emission.andThen, Routed.andThen_assoc]
    congr 1

/-! ### Finishing in order -/

/-- The deliveries of a node are routed only if it was finished without an error. -/
def Emission.settled (e : Emission ε) : Emission ε :=
  match e.error with
  | some _ => ⟨[], e.error⟩
  | Option.none => e

/-- Finish the node of a stream, and route what it emits. -/
def finishOne (s : StreamIndex) (nodes : List (JoinNode ε)) : Routed ε :=
  match nodes[s]? with
  | none => .idle nodes
  | some node =>
    let (node', emission) := node.finish m
    let routed := routeEmission m (nodes.set s node') emission.settled
    { routed with journal := .finish s node.kind 0 emission :: routed.journal }

/-- Finish streams in order, up to the first error. -/
def sweep : List StreamIndex → List (JoinNode ε) → Routed ε
  | [], nodes => .idle nodes
  | s :: rest, nodes => (finishOne m s nodes).andThen (sweep rest)

lemma sweep_append (ss ts : List StreamIndex) (nodes : List (JoinNode ε)) :
    sweep m (ss ++ ts) nodes = (sweep m ss nodes).andThen (sweep m ts) := by
  induction ss generalizing nodes with
  | nil => rfl
  | cons s rest ih =>
    rw [List.cons_append, sweep, sweep, Routed.andThen_assoc]
    congr 1
    funext nodes'
    exact ih nodes'

/-! ### A pass is a sweep -/

/-- A state of a pass after a sweep over its nodes. -/
structure PassState.Swept (p q : PassState ε) (r : Routed ε) : Prop where
  nodes_eq : q.assembler.nodes = r.nodes
  collection_eq : q.collection = p.collection.append r.rows
  journal_eq : q.journal = p.journal ++ r.journal
  tree_eq : q.assembler.tree = p.assembler.tree
  options_eq : q.assembler.options = p.assembler.options
  passes_eq : q.assembler.passes = p.assembler.passes
  pending_eq : r.error = none → q.assembler.pending = []

omit [DecidableEq ε] in
lemma RowCollection.append_append (c : RowCollection ε) (xs ys : List (Row ε)) :
    (c.append xs).append ys = c.append (xs ++ ys) := by
  simp [RowCollection.append]

namespace PassState

omit [DecidableEq ε] in
lemma Swept.andThen {p q q' : PassState ε} {r : Routed ε}
    {next : List (JoinNode ε) → Routed ε} (h : p.Swept q r) (hr : r.error = none)
    (h' : q.Swept q' (next r.nodes)) : p.Swept q' (r.andThen next) := by
  have hthen : r.andThen next = ⟨(next r.nodes).nodes, r.rows ++ (next r.nodes).rows,
      r.journal ++ (next r.nodes).journal, (next r.nodes).error⟩ := by simp [Routed.andThen, hr]
  rw [hthen]
  exact {
    nodes_eq := h'.nodes_eq
    collection_eq := by
      rw [h'.collection_eq, h.collection_eq, RowCollection.append_append]
    journal_eq := by rw [h'.journal_eq, h.journal_eq, List.append_assoc]
    tree_eq := h'.tree_eq.trans h.tree_eq
    options_eq := h'.options_eq.trans h.options_eq
    passes_eq := h'.passes_eq.trans h.passes_eq
    pending_eq := h'.pending_eq }

/-- Finish the node of a stream and route what it emits. -/
def advance (p : PassState ε) (m : MatchSets ε) (s : StreamIndex) :
    PassState ε × Option AssemblyError :=
  match p.finish m s with
  | (q, some e) => (q, some e)
  | (q, none) => q.routePending m

lemma finishAll_cons (p : PassState ε) (s : StreamIndex) (rest : List StreamIndex) :
    finishAll m p (s :: rest) = match p.advance m s with
      | (q, some e) => (q, some e)
      | (q, none) => finishAll m q rest := by
  rw [finishAll, advance]
  rcases p.finish m s with ⟨q, _ | e⟩ <;> rfl

lemma advance_swept (p : PassState ε) (hp : p.assembler.pending = []) (s : StreamIndex) :
    p.Swept (p.advance m s).1 (finishOne m s p.assembler.nodes) ∧
      (p.advance m s).2 = (finishOne m s p.assembler.nodes).error := by
  rw [advance, finish, finishOne]
  cases hnode : p.assembler.nodes[s]? with
  | none =>
    refine ⟨⟨?_, ?_, ?_, rfl, rfl, rfl, fun _ => rfl⟩, ?_⟩
      <;> simp [routePending, hp, routeAll, Routed.idle, RowCollection.append]
  | some node =>
    simp only []
    generalize node.finish m = finished
    obtain ⟨node', ds, _ | e⟩ := finished
    · simp only [Emission.settled, routeEmission_of_ok]
      refine ⟨⟨?_, ?_, ?_, rfl, rfl, rfl, fun _ => rfl⟩, ?_⟩ <;> simp [routePending, hp]
    · refine ⟨⟨rfl, ?_, ?_, rfl, rfl, rfl, by simp [routeEmission, Emission.settled, routeAll,
        Routed.andThen, Routed.stop]⟩, rfl⟩
      · simp [routeEmission, Emission.settled, routeAll, Routed.andThen, Routed.stop,
          RowCollection.append]
      · simp [routeEmission, Emission.settled, routeAll, Routed.andThen, Routed.stop, hp]

/-- With nothing queued, finishing streams in order is a sweep. -/
lemma finishAll_swept (streams : List StreamIndex) :
    ∀ p : PassState ε, p.assembler.pending = [] →
      p.Swept (finishAll m p streams).1 (sweep m streams p.assembler.nodes) ∧
        (finishAll m p streams).2 = (sweep m streams p.assembler.nodes).error := by
  induction streams with
  | nil =>
    intro p hp
    refine ⟨⟨rfl, ?_, ?_, rfl, rfl, rfl, fun _ => hp⟩, rfl⟩
    · simp [finishAll, sweep, Routed.idle, RowCollection.append]
    · simp [finishAll, sweep, Routed.idle]
  | cons s rest ih =>
    intro p hp
    obtain ⟨hswept, herror⟩ := advance_swept m p hp s
    rw [finishAll_cons, sweep]
    cases hadv : p.advance m s with
    | mk q error =>
      rw [hadv] at hswept herror
      cases error with
      | some e =>
        rw [Routed.andThen_of_error herror.symm]
        exact ⟨hswept, herror⟩
      | none =>
        have hq := hswept.pending_eq herror.symm
        obtain ⟨hrest, herror'⟩ := ih q hq
        rw [hswept.nodes_eq] at hrest herror'
        refine ⟨hswept.andThen herror.symm hrest, ?_⟩
        rw [herror']
        simp [Routed.andThen, ← herror]

end PassState

end JoinAssembly
