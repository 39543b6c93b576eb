import JoinAssembly.Proofs.Assembler.Options
import JoinAssembly.Proofs.JoinNode.Renamed

/-!
# Passes over renamed events

A pass over renamed match sets makes the same calls in the same order and stops at the same error.
Everything it holds, emits and collects on the way is renamed.
-/

namespace JoinAssembly

variable {ε δ : Type}

/-! ### Routing -/

/-- Rename the events of a call. -/
def NodeCall.rename (f : ε → δ) : NodeCall ε → NodeCall δ
  | .start s => .start s
  | .finish s kind queued emission => .finish s kind queued (emission.rename f)
  | .accept s h answer => .accept s (h.rename f) (answer.map (Option.map (·.rename f)))

namespace Routed

/-- Rename the events of what routing comes to. -/
def rename (f : ε → δ) (r : Routed ε) : Routed δ :=
  ⟨r.nodes.map (·.rename f), r.rows.map (·.rename f), r.journal.map (·.rename f), r.error⟩

lemma rename_andThen {f : ε → δ} {next : List (JoinNode ε) → Routed ε}
    {next' : List (JoinNode δ) → Routed δ}
    (h : ∀ nodes, next' (nodes.map (·.rename f)) = (next nodes).rename f) (r : Routed ε) :
    (r.andThen next).rename f = (r.rename f).andThen next' := by
  obtain ⟨nodes, rows, journal, _ | e⟩ := r
  · simp [andThen, rename, h]
  · rfl

end Routed

section Routing

variable [DecidableEq ε] [DecidableEq δ] (f : ε ↪ δ) (m : MatchSets ε)

lemma route_rename (steps : Nat) : ∀ (nodes : List (JoinNode ε)) (d : Delivery ε),
    route (m.rename f) steps (nodes.map (·.rename f)) (d.rename f)
      = (route m steps nodes d).rename f := by
  induction steps with
  | zero => rintro nodes (row | ⟨s, h⟩) <;> rfl
  | succ steps ih =>
    rintro nodes (row | ⟨s, h⟩)
    · rfl
    · rw [Delivery.rename, route, route, List.getElem?_map]
      cases nodes[s]? with
      | none => rfl
      | some node =>
        simp only [Option.map_some, JoinNode.accept_rename, ← List.map_set]
        generalize nodes.set s (node.accept m h).1 = nodes'
        generalize hanswer : (node.accept m h).2 = answer
        rcases answer with e | _ | next
        · rfl
        · rfl
        · simp only [Except.map, Option.map_some, ih]
          rfl

lemma routeAll_rename (ds : List (Delivery ε)) : ∀ nodes : List (JoinNode ε),
    routeAll (m.rename f) (nodes.map (·.rename f)) (ds.map (·.rename f))
      = (routeAll m nodes ds).rename f := by
  induction ds with
  | nil => intro nodes; rfl
  | cons d rest ih =>
    intro nodes
    rw [List.map_cons, routeAll_cons, routeAll_cons, List.length_map, route_rename]
    exact (Routed.rename_andThen ih _).symm

end Routing

/-! ### The course of a pass -/

namespace RowCollection

/-- Rename the events of rows that were collected. -/
def rename (f : ε → δ) (c : RowCollection ε) : RowCollection δ := ⟨c.rows.map (·.rename f)⟩

lemma rename_rename {γ : Type} (f : ε → δ) (g : δ → γ) (c : RowCollection ε) :
    (c.rename f).rename g = c.rename (g ∘ f) := by
  simp [rename, Row.rename_rename, Function.comp_def]

/-- The texts of rows with their events renamed. -/
lemma map_text_rename (display : δ → String) (f : ε → δ) (c : RowCollection ε) :
    (c.rename f).rows.map (·.text display) = c.rows.map (·.text (display ∘ f)) := by
  simp [rename, Row.text_rename, Function.comp_def]

end RowCollection

/-- Rename the events that an assembler holds. -/
def Assembler.rename (f : ε → δ) (a : Assembler ε) : Assembler δ :=
  ⟨a.tree, a.options, a.nodes.map (·.rename f), a.pending.map (·.rename f), a.passes⟩

namespace PassState

/-- Rename all events of a pass. -/
def rename (f : ε → δ) (p : PassState ε) : PassState δ :=
  ⟨p.assembler.rename f, p.collection.rename f, p.journal.map (·.rename f)⟩

variable (f : ε ↪ δ) (p : PassState ε) (m : MatchSets ε)

lemma startAll_rename : (p.rename f).startAll (m.rename f) = (p.startAll m).rename f := by
  have hstream (n : JoinNode ε) : (n.rename f).stream = n.stream := rfl
  simp [startAll, rename, Assembler.rename, Function.comp_def, JoinNode.start_rename,
    NodeCall.rename, hstream]

variable [DecidableEq ε] [DecidableEq δ]

lemma finish_rename (s : StreamIndex) : (p.rename f).finish (m.rename f) s
    = ((p.finish m s).1.rename f, (p.finish m s).2) := by
  have hnode : (p.rename f).assembler.nodes[s]? = p.assembler.nodes[s]?.map (·.rename f) :=
    List.getElem?_map
  rw [finish, finish, hnode]
  cases p.assembler.nodes[s]? with
  | none => rfl
  | some node =>
    simp [rename, Assembler.rename, JoinNode.finish_rename, Emission.rename, NodeCall.rename]

lemma routePending_rename : (p.rename f).routePending (m.rename f)
    = ((p.routePending m).1.rename f, (p.routePending m).2) := by
  have hrouted : routeAll (m.rename f) (p.rename f).assembler.nodes (p.rename f).assembler.pending
      = (routeAll m p.assembler.nodes p.assembler.pending).rename f := routeAll_rename f m _ _
  rw [routePending, routePending, hrouted]
  simp [rename, Assembler.rename, Routed.rename, RowCollection.append, RowCollection.rename]

lemma finishAll_rename (streams : List StreamIndex) : ∀ p : PassState ε,
    finishAll (m.rename f) (p.rename f) streams
      = ((finishAll m p streams).1.rename f, (finishAll m p streams).2) := by
  induction streams with
  | nil => intro p; rfl
  | cons s rest ih =>
    intro p
    rw [finishAll, finishAll, finish_rename]
    rcases p.finish m s with ⟨p', _ | e⟩
    · simp only [routePending_rename]
      rcases p'.routePending m with ⟨p'', _ | e⟩
      · exact ih p''
      · rfl
    · rfl

/-- What a pass comes to over renamed match sets, errors included. -/
lemma assembleRows_rename : (p.rename f).assembleRows (m.rename f)
    = ((p.assembleRows m).1.rename f, (p.assembleRows m).2) := by
  have hlength : (p.rename f).assembler.nodes.length = p.assembler.nodes.length :=
    List.length_map _
  rw [assembleRows, assembleRows, MatchSets.width_rename, hlength, startAll_rename]
  split
  · rfl
  · exact finishAll_rename f m p.assembler.tree.postorder (p.startAll m)

end PassState

/-! ### Whole passes -/

/-- Rename all events of what a pass leaves. -/
def PassOutcome.rename (f : ε → δ) (o : PassOutcome ε) : PassOutcome δ :=
  ⟨o.assembler.rename f, o.collection.rename f, o.journal.map (·.rename f), o.error⟩

lemma PassOutcome.rows_rename (f : ε → δ) (o : PassOutcome ε) :
    (o.rename f).rows = o.rows.map (·.rename f) := by
  obtain ⟨assembler, collection, journal, _ | e⟩ := o <;> rfl

namespace Assembler

/-- A new assembler holds no events. -/
lemma rename_new (f : ε → δ) (t : JoinTree) (options : AssemblyOptions) :
    (new t options).rename f = new t options := by
  simp [rename, new, JoinNode.allOfTree, JoinNode.rename_ofTree, Function.comp_def]

variable [DecidableEq ε] [DecidableEq δ] (f : ε ↪ δ) {t : JoinTree} (m : MatchSets ε)

/-- A pass does with renamed events what it does with the events. -/
lemma runInto_rename (a : Assembler ε) (c : RowCollection ε) :
    (a.rename f).runInto (m.rename f) (c.rename f) = (a.runInto m c).rename f := by
  have hstart : PassState.assembleRows ⟨a.rename f, c.rename f, []⟩ (m.rename f)
      = ((PassState.assembleRows ⟨a, c, []⟩ m).1.rename f,
        (PassState.assembleRows ⟨a, c, []⟩ m).2) := PassState.assembleRows_rename f ⟨a, c, []⟩ m
  rw [runInto, runInto, hstart]
  rcases PassState.assembleRows ⟨a, c, []⟩ m with ⟨p, _ | e⟩
  · rfl
  · simp [PassOutcome.rename, PassState.rename, Assembler.rename, RowCollection.truncate,
      RowCollection.rename, RowCollection.size]

/-- The answer of a tree over renamed match sets. -/
lemma rows_new_rename (options : AssemblyOptions) :
    ((new t options).run (m.rename f)).rows
      = ((new t options).run m).rows.map (·.rename f) := by
  have hrun := runInto_rename f m (new t options) .empty
  rw [rename_new] at hrun
  rw [run, run, ← PassOutcome.rows_rename, ← hrun]
  rfl

/-- Any assemblers over one tree give renamed answers over renamed match sets, whatever they have
run before and with which options. -/
lemma rows_run_rename (h : t.Sound) {a : Assembler ε} {a' : Assembler δ} (ha : a.Ready t)
    (ha' : a'.Ready t) : (a'.run (m.rename f)).rows = (a.run m).rows.map (·.rename f) := by
  have hnew : (new t a.options : Assembler ε).Ready t := (Reachable.new a.options).ready
  have hnew' : (new t a.options : Assembler δ).Ready t := (Reachable.new a.options).ready
  have hfresh := rows_new_rename f m (t := t) a.options
  rw [rows_run hnew, rows_run hnew'] at hfresh
  rw [rows_run ha, rows_run ha', freshAnswer_options h a'.options a.options]
  exact hfresh

end Assembler

end JoinAssembly
