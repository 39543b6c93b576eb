import JoinAssembly.Proofs.Assembler.Sweep

/-!
# Reachable assemblers

Between passes an assembler holds nothing that a pass could see: whatever a pass did, and wherever
it was aborted, starting the nodes again brings them to the state of new nodes.
-/

namespace JoinAssembly

variable {ε : Type}

/-! ### Blank nodes -/

/-- A state without what was remembered in a pass. -/
def NodeState.blank : NodeState ε → NodeState ε
  | .leaf => .leaf
  | .inner child => .inner child
  | .outer b => .outer (.new b.child)
  | .product p => .product p.start

namespace JoinNode

/-- A node without what it remembers of a pass. -/
def blank (n : JoinNode ε) : JoinNode ε := ⟨n.seat, n.state.blank⟩

@[simp] lemma seat_blank (n : JoinNode ε) : n.blank.seat = n.seat := rfl

@[simp] lemma blank_ofTree (t : JoinTree) (s : StreamIndex) :
    (ofTree t s : JoinNode ε).blank = ofTree t s := by
  have hstate : (stateFor t s : NodeState ε).blank = stateFor t s := by
    rw [stateFor]
    split
    · rfl
    · split <;> rfl
    · rfl
  simp only [blank, ofTree, hstate]

/-- Starting a node makes no use of what it remembers. -/
lemma start_blank (n : JoinNode ε) (m : MatchSets ε) (options : AssemblyOptions) :
    n.blank.start m options = n.start m options := by
  obtain ⟨seat, _ | _ | _ | _⟩ := n <;> rfl

@[simp] lemma blank_start (n : JoinNode ε) (m : MatchSets ε) (options : AssemblyOptions) :
    (n.start m options).blank = n.blank := by
  obtain ⟨seat, _ | _ | _ | _⟩ := n <;> rfl

variable [DecidableEq ε]

@[simp] lemma blank_finish (n : JoinNode ε) (m : MatchSets ε) : (n.finish m).1.blank = n.blank := by
  obtain ⟨seat, _ | _ | _ | _⟩ := n <;> rfl

@[simp] lemma blank_accept (n : JoinNode ε) (m : MatchSets ε) (h : Handoff ε) :
    (n.accept m h).1.blank = n.blank := by
  obtain ⟨seat, _ | child | b | p⟩ := n
  · rfl
  · rfl
  · simp [accept, blank, NodeState.blank]
  · simp [accept, blank, NodeState.blank, Product.start]

end JoinNode

/-! ### Nodes that fit a tree -/

/-- The nodes of a tree, in any state of a pass. -/
def JoinTree.Fits (t : JoinTree) (nodes : List (JoinNode ε)) : Prop :=
  nodes.map JoinNode.blank = JoinNode.allOfTree t

namespace JoinTree.Fits

variable {t : JoinTree} {nodes : List (JoinNode ε)}

lemma allOfTree (t : JoinTree) : t.Fits (JoinNode.allOfTree t : List (JoinNode ε)) := by
  simp [Fits, JoinNode.allOfTree, Function.comp_def]

lemma length_eq (h : t.Fits nodes) : nodes.length = t.size := by
  have hlen := congrArg List.length h
  simpa using hlen

lemma blank_eq (h : t.Fits nodes) {s : StreamIndex} {n : JoinNode ε} (hn : nodes[s]? = some n) :
    n.blank = JoinNode.ofTree t s := by
  have hget := congrArg (·[s]?) h
  have hs : s < t.size := h.length_eq ▸ (List.getElem?_eq_some_iff.mp hn).1
  simpa [JoinNode.allOfTree, hn, hs] using hget

lemma seat_eq (h : t.Fits nodes) {s : StreamIndex} {n : JoinNode ε} (hn : nodes[s]? = some n) :
    n.seat = ⟨s, t.parent? s, t.size⟩ := by
  rw [← n.seat_blank, h.blank_eq hn]
  rfl

/-- Nodes started for a pass are new nodes started for it. -/
lemma map_start (h : t.Fits nodes) (m : MatchSets ε) (options : AssemblyOptions) :
    nodes.map (fun n => n.start m options)
      = (JoinNode.allOfTree t).map fun n => n.start m options := by
  rw [← h, List.map_map]
  apply List.map_congr_left
  intro n _
  exact (n.start_blank m options).symm

lemma start (h : t.Fits nodes) (m : MatchSets ε) (options : AssemblyOptions) :
    t.Fits (nodes.map fun n => n.start m options) := by
  rw [Fits, List.map_map, ← h]
  apply List.map_congr_left
  intro n _
  exact n.blank_start m options

lemma set (h : t.Fits nodes) {s : StreamIndex} {n n' : JoinNode ε} (hn : nodes[s]? = some n)
    (hblank : n'.blank = n.blank) : t.Fits (nodes.set s n') := by
  obtain ⟨hs, hget⟩ := List.getElem?_eq_some_iff.mp hn
  have hs' : s < (nodes.map JoinNode.blank).length := by simpa using hs
  have hold : n.blank = (nodes.map JoinNode.blank)[s] := by simp [hget]
  rw [Fits, List.map_set, hblank, hold, List.set_getElem_self]
  exact h

variable [DecidableEq ε] (m : MatchSets ε)

/-- Nodes still fit after one of them has accepted a row, or failed to. -/
lemma accept (h : t.Fits nodes) {s : StreamIndex} {n : JoinNode ε} (hn : nodes[s]? = some n)
    (x : Handoff ε) : t.Fits (nodes.set s (n.accept m x).1) :=
  h.set hn (n.blank_accept m x)

lemma of_accept (h : t.Fits nodes) {s : StreamIndex} {n n' : JoinNode ε} (hn : nodes[s]? = some n)
    {x : Handoff ε} {answer : Except AssemblyError (Option (Delivery ε))}
    (hx : n.accept m x = (n', answer)) : t.Fits (nodes.set s n') := by
  simpa only [hx] using h.accept m hn x

lemma route :
    ∀ {steps : Nat} {nodes : List (JoinNode ε)} {d : Delivery ε}, t.Fits nodes →
      t.Fits (route m steps nodes d).nodes
  | 0, _, .complete _, h => h
  | 0, _, .toParent _ _, h => h
  | _ + 1, _, .complete _, h => h
  | steps + 1, nodes, .toParent s x, h => by
    rw [JoinAssembly.route]
    cases hn : nodes[s]? with
    | none => exact h
    | some n =>
      have hset : t.Fits (nodes.set s (n.accept m x).1) := h.accept m hn x
      simp only []
      split
      · exact hset
      · exact hset
      · exact route hset

lemma routeAll {ds : List (Delivery ε)} :
    ∀ {nodes : List (JoinNode ε)}, t.Fits nodes → t.Fits (routeAll m nodes ds).nodes := by
  induction ds with
  | nil => intro nodes h; exact h
  | cons d rest ih =>
    intro nodes h
    have hfirst : t.Fits (JoinAssembly.route m nodes.length nodes d).nodes := route m h
    rw [routeAll_cons, Routed.andThen]
    split
    · exact hfirst
    · exact ih hfirst

lemma routeEmission {e : Emission ε} (h : t.Fits nodes) :
    t.Fits (routeEmission m nodes e).nodes := by
  have hall : t.Fits (JoinAssembly.routeAll m nodes e.deliveries).nodes := routeAll m h
  rw [JoinAssembly.routeEmission, Routed.andThen]
  split
  · exact hall
  · exact hall

lemma finishOne {s : StreamIndex} (h : t.Fits nodes) : t.Fits (finishOne m s nodes).nodes := by
  rw [JoinAssembly.finishOne]
  cases hn : nodes[s]? with
  | none => exact h
  | some n => exact routeEmission m (h.set hn (n.blank_finish m))

lemma sweep {streams : List StreamIndex} :
    ∀ {nodes : List (JoinNode ε)}, t.Fits nodes → t.Fits (sweep m streams nodes).nodes := by
  induction streams with
  | nil => intro nodes h; exact h
  | cons s rest ih =>
    intro nodes h
    have hfirst := finishOne m (s := s) h
    rw [JoinAssembly.sweep, Routed.andThen]
    split
    · exact hfirst
    · exact ih hfirst

end JoinTree.Fits

/-! ### Between passes -/

namespace Assembler

variable [DecidableEq ε]

/-- The assemblers over a tree that passes can lead to, whether they succeed or not. -/
inductive Reachable (t : JoinTree) : Assembler ε → Prop where
  | new (options : AssemblyOptions) : Reachable t (.new t options)
  | runInto {a : Assembler ε} (m : MatchSets ε) (c : RowCollection ε) :
      Reachable t a → Reachable t (a.runInto m c).assembler

/-- What an assembler over a tree satisfies between passes. -/
structure Ready (t : JoinTree) (a : Assembler ε) : Prop where
  tree_eq : a.tree = t
  fits : t.Fits a.nodes
  pending_eq : a.pending = []

/-- The nodes of a tree at the start of a pass. -/
def startedNodes (t : JoinTree) (options : AssemblyOptions) (m : MatchSets ε) :
    List (JoinNode ε) :=
  (JoinNode.allOfTree t).map fun n => n.start m options

/-- A pass over match sets of the right width, as a sweep over new nodes. -/
def passSweep (t : JoinTree) (options : AssemblyOptions) (m : MatchSets ε) : Routed ε :=
  sweep m t.postorder (startedNodes t options m)

/-- What a pass over match sets of the right width leaves. -/
structure Passed (a : Assembler ε) (m : MatchSets ε) (c : RowCollection ε) (r : Routed ε) :
    Prop where
  error_eq : (a.runInto m c).error = r.error
  collection_eq : (a.runInto m c).collection = if r.error = none then c.append r.rows else c
  journal_eq : (a.runInto m c).journal = (a.nodes.map fun n => .start n.stream) ++ r.journal
  nodes_eq : (a.runInto m c).assembler.nodes = r.nodes
  tree_eq : (a.runInto m c).assembler.tree = a.tree
  options_eq : (a.runInto m c).assembler.options = a.options
  pending_eq : (a.runInto m c).assembler.pending = []
  passes_eq : (a.runInto m c).assembler.passes
    = if r.error = none then a.passes + 1 else a.passes

omit [DecidableEq ε] in
lemma truncate_append (c : RowCollection ε) (rows : List (Row ε)) :
    (c.append rows).truncate c.size = c := by
  simp [RowCollection.append, RowCollection.truncate, RowCollection.size]

variable {t : JoinTree} {a : Assembler ε}

lemma runInto_of_width_ne (h : a.Ready t) {m : MatchSets ε} (hm : m.width ≠ t.size)
    (c : RowCollection ε) :
    a.runInto m c = ⟨a, c, [], some (.widthMismatch t.size m.width)⟩ := by
  have hlen := h.fits.length_eq
  have htrunc : c.truncate c.size = c := by
    simp [RowCollection.truncate, RowCollection.size]
  have hrows : PassState.assembleRows ⟨a, c, []⟩ m
      = (⟨a, c, []⟩, some (.widthMismatch t.size m.width)) := by
    rw [PassState.assembleRows, ← hlen, if_pos (by simpa [hlen] using hm)]
  rw [runInto, hrows]
  simp only [htrunc]
  congr 1
  obtain ⟨tree, options, nodes, pending, passes⟩ := a
  have hpending : pending = [] := h.pending_eq
  rw [hpending]

lemma passed (h : a.Ready t) {m : MatchSets ε} (hm : m.width = t.size) (c : RowCollection ε) :
    a.Passed m c (passSweep t a.options m) := by
  have hrows : PassState.assembleRows ⟨a, c, []⟩ m
      = PassState.finishAll m (PassState.startAll ⟨a, c, []⟩ m) t.postorder := by
    rw [PassState.assembleRows, if_neg (by simpa [h.fits.length_eq] using hm), h.tree_eq]
  have hnodes : (PassState.startAll ⟨a, c, []⟩ m).assembler.nodes = startedNodes t a.options m :=
    h.fits.map_start m a.options
  obtain ⟨hswept, herror⟩ := PassState.finishAll_swept m t.postorder
    (PassState.startAll ⟨a, c, []⟩ m) h.pending_eq
  rw [hnodes] at hswept herror
  rw [← hrows] at hswept herror
  cases hpair : PassState.assembleRows ⟨a, c, []⟩ m with
  | mk p error =>
    rw [hpair] at hswept herror
    have hcollection : p.collection = c.append (passSweep t a.options m).rows :=
      hswept.collection_eq
    cases error with
    | none =>
      have hok : (passSweep t a.options m).error = none := herror.symm
      have hrun : a.runInto m c = ⟨{ p.assembler with passes := p.assembler.passes + 1 },
          p.collection, p.journal, none⟩ := by rw [runInto, hpair]
      constructor <;> rw [hrun]
      · exact herror
      · rw [if_pos hok]
        exact hcollection
      · exact hswept.journal_eq
      · exact hswept.nodes_eq
      · exact hswept.tree_eq
      · exact hswept.options_eq
      · exact hswept.pending_eq hok
      · rw [if_pos hok]
        exact congrArg (· + 1) hswept.passes_eq
    | some e =>
      have hbad : (passSweep t a.options m).error = some e := herror.symm
      have hrun : a.runInto m c = ⟨{ p.assembler with pending := [] },
          p.collection.truncate c.size, p.journal, some e⟩ := by rw [runInto, hpair]
      constructor <;> rw [hrun]
      · exact herror
      · rw [if_neg (by simp [hbad]), hcollection, truncate_append]
      · exact hswept.journal_eq
      · exact hswept.nodes_eq
      · exact hswept.tree_eq
      · exact hswept.options_eq
      · rw [if_neg (by simp [hbad])]
        exact hswept.passes_eq

/-- A pass leads from between passes to between passes. -/
lemma Ready.runInto (h : a.Ready t) (m : MatchSets ε) (c : RowCollection ε) :
    (a.runInto m c).assembler.Ready t := by
  by_cases hm : m.width = t.size
  · have hp := passed h hm c
    exact {
      tree_eq := hp.tree_eq.trans h.tree_eq
      fits := by
        rw [hp.nodes_eq]
        exact JoinTree.Fits.sweep m ((JoinTree.Fits.allOfTree t).start m a.options)
      pending_eq := hp.pending_eq }
  · rw [runInto_of_width_ne h hm c]
    exact h

lemma Reachable.ready (h : Reachable t a) : a.Ready t := by
  induction h with
  | new options => exact ⟨rfl, .allOfTree t, rfl⟩
  | runInto m c _ ih => exact ih.runInto m c

/-! ### Answers -/

/-- The answer of a pass by a new assembler. -/
def freshAnswer (t : JoinTree) (options : AssemblyOptions) (m : MatchSets ε) :
    Except AssemblyError (RowCollection ε) :=
  if m.width = t.size then
    match (passSweep t options m).error with
    | none => .ok ⟨(passSweep t options m).rows⟩
    | some e => .error e
  else .error (.widthMismatch t.size m.width)

/-- A pass appends all rows of its answer and is counted, or it leaves the collection and the count
as they were. -/
lemma runInto_cases (h : a.Ready t) (m : MatchSets ε) (c : RowCollection ε) :
    (∃ rows, freshAnswer t a.options m = .ok rows ∧ (a.runInto m c).error = none ∧
        (a.runInto m c).collection = c.append rows.rows ∧
        (a.runInto m c).assembler.passes = a.passes + 1) ∨
      ∃ e, freshAnswer t a.options m = .error e ∧ (a.runInto m c).error = some e ∧
        (a.runInto m c).collection = c ∧ (a.runInto m c).assembler.passes = a.passes := by
  by_cases hm : m.width = t.size
  · have hp := passed h hm c
    have herror := hp.error_eq
    have hcollection := hp.collection_eq
    have hpasses := hp.passes_eq
    rw [freshAnswer, if_pos hm]
    cases hsweep : (passSweep t a.options m).error with
    | none =>
      rw [hsweep] at herror hcollection hpasses
      exact .inl ⟨_, rfl, herror, hcollection, hpasses⟩
    | some e =>
      rw [hsweep] at herror hcollection hpasses
      exact .inr ⟨e, rfl, herror, hcollection, hpasses⟩
  · rw [freshAnswer, if_neg hm, runInto_of_width_ne h hm]
    exact .inr ⟨_, rfl, rfl, rfl, rfl⟩

/-- The answer of a pass depends on the tree, the options and the match sets only. -/
lemma rows_run (h : a.Ready t) (m : MatchSets ε) :
    (a.run m).rows = freshAnswer t a.options m := by
  rcases runInto_cases h m .empty with ⟨rows, hanswer, herror, hcollection, -⟩ |
    ⟨e, hanswer, herror, -, -⟩
  · rw [run, PassOutcome.rows, herror, hcollection, hanswer]
    rfl
  · rw [run, PassOutcome.rows, herror, hanswer]

/-- No pass changes the options. -/
lemma options_runInto (h : a.Ready t) (m : MatchSets ε) (c : RowCollection ε) :
    (a.runInto m c).assembler.options = a.options := by
  by_cases hm : m.width = t.size
  · exact (passed h hm c).options_eq
  · rw [runInto_of_width_ne h hm]

end Assembler

end JoinAssembly
