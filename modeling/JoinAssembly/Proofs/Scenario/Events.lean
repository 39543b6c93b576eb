import JoinAssembly.Proofs.Assembler.Renamed
import JoinAssembly.Proofs.Scenario.Lines

/-!
# Events are what their names are

Only the equality of events matters to an assembler, and a runner gives each name one event,
whatever it does in between and whichever passes fail. So what a runner answers is what it would
answer with the names themselves as events.
-/

namespace JoinAssembly

/-! ### Names of events -/

namespace Interner

variable {i j : Interner}

/-- The name of an event, read off from what the event stands for. -/
lemma name?_eq_elim (i : Interner) (e : EventRef) :
    i.name? e = Sum.elim some (fun _ => none) (i.naming e) := by
  rw [naming_apply]
  cases i.name? e <;> rfl

lemma Extends.name?_event {name : String} (h : j.Extends (i.event name).2) :
    j.name? (i.event name).1 = some name := by
  rw [name?_eq_elim, naming_event h]
  rfl

end Interner

/-- Assembling match sets of events comes to the rows, or to the error, that assembling the match
sets of their names does. -/
lemma Assembler.rows_new_named {j : Interner} {sets : MatchSets EventRef} {m : MatchSets String}
    (hsets : sets.rename j.naming = m.rename .inl) (t : JoinTree) (options : AssemblyOptions) :
    ((new t options).run sets).rows.map (·.rename j.name?)
      = ((new t options).run m).rows.map (·.rename some) := by
  -- References and names are both renamed to one type of events, where the match sets agree.
  have hrenamed : ((new t options).run sets).rows.map (·.rename j.naming)
      = ((new t options).run m).rows.map (·.rename (.inl : String → String ⊕ Nat)) := by
    have hleft := rows_new_rename j.naming (t := t) sets options
    rw [hsets] at hleft
    exact hleft.symm.trans (rows_new_rename .inl m options)
  have hread := congrArg
    (RowCollection.rename (Sum.elim some fun _ : Nat => none) <$> ·) hrenamed
  change _ <$> (_ <$> _) = _ <$> (_ <$> _) at hread
  simp only [Functor.map_map, RowCollection.rename_rename] at hread
  have hname : j.name? = Sum.elim some (fun _ => none) ∘ j.naming := funext j.name?_eq_elim
  rw [hname]
  exact hread

/-! ### Calls of a runner -/

/-- Assemble a pass with the names themselves as events. -/
def JoinTree.assemblePass (t : JoinTree) (options : AssemblyOptions) (number : Nat)
    (pass : PassEntry) : Except ScenarioError (RowCollection String) :=
  (t.resolvePass number pass).bind fun m =>
    ((Assembler.new t options).run m).rows.mapError (.assembly number)

/-- A call of a runner. -/
inductive RunnerCall where
  | event (name : String)
  | resolve (number : Nat) (pass : PassEntry)
  | run (number : Nat) (pass : PassEntry)

/-- What a call is answered with. -/
inductive RunnerAnswer where
  | event (e : EventRef)
  | sets (result : Except ScenarioError (MatchSets EventRef))
  | rows (result : Except ScenarioError (RowCollection EventRef))

/-- With events read as their names, an answer is what the names themselves would give. -/
def RunnerCall.AnsweredByName (t : JoinTree) (options : AssemblyOptions) (names : Interner) :
    RunnerCall → RunnerAnswer → Prop
  | .event name, .event e => names.name? e = some name
  | .resolve number pass, .sets result =>
    result.map (·.rename names.naming) = (t.resolvePass number pass).map (·.rename .inl)
  | .run number pass, .rows result =>
    result.map (·.rename names.name?)
      = (t.assemblePass options number pass).map (·.rename some)
  | _, _ => False

namespace Runner

/-- Make a call. -/
def perform (r : Runner) : RunnerCall → RunnerAnswer × Runner
  | .event name => (.event (r.names.event name).1, { r with names := (r.names.event name).2 })
  | .resolve number pass => (.sets (r.resolve number pass).result, (r.resolve number pass).runner)
  | .run number pass => (.rows (r.run number pass).result, (r.run number pass).runner)

/-- Calls made in order, each with its answer. -/
def history (r : Runner) : List RunnerCall → List (RunnerCall × RunnerAnswer)
  | [] => []
  | c :: rest => (c, (r.perform c).1) :: (r.perform c).2.history rest

/-- What calls made in order leave. -/
def after (r : Runner) : List RunnerCall → Runner
  | [] => r
  | c :: rest => (r.perform c).2.after rest

variable {s : Scenario} {t : JoinTree} {r : Runner} {b : TreeBuilder}

lemma Over.perform (hr : Over s t r) (hb : b.build = .ok t) (c : RunnerCall) :
    Over s t (r.perform c).2 := by
  cases c with
  | event name => exact ⟨hr.tree_eq, hr.partitions⟩
  | resolve number pass => exact hr.resolve number pass
  | run number pass => exact hr.run hb number pass

/-- No call takes a name from an event, not even one that fails. -/
lemma Over.extends_perform (hr : Over s t r) (hb : b.build = .ok t) (c : RunnerCall) :
    (r.perform c).2.names.Extends r.names := by
  cases c with
  | event name => exact r.names.extends_event name
  | resolve number pass => exact r.extends_resolve number pass
  | run number pass =>
    rw [Runner.perform, hr.names_run hb]
    exact r.extends_resolve number pass

lemma Over.extends_after (hb : b.build = .ok t) (calls : List RunnerCall) :
    ∀ {r : Runner}, Over s t r → (r.after calls).names.Extends r.names := by
  induction calls with
  | nil => intro r _; exact .refl _
  | cons c rest ih =>
    intro r hr
    exact (ih (hr.perform hb c)).trans (hr.extends_perform hb c)

/-- The rows of a pass are those of a new assembler. -/
lemma Over.result_run (hr : Over s t r) (number : Nat) (pass : PassEntry) :
    (r.run number pass).result = (r.resolve number pass).result.bind fun sets =>
      ((Assembler.new t s.options).run sets).rows.mapError (.assembly number) := by
  have hpartitions : (r.resolve number pass).runner.partitions = r.partitions := by
    rw [resolve_eq]
  cases hresolved : (r.resolve number pass).result with
  | error e =>
    rw [run_of_error hresolved]
    rfl
  | ok sets =>
    simp only [Runner.run, hresolved, hpartitions, hr.partitions.rows_run, Except.bind]
    cases ((Assembler.new t s.options).run sets).rows <;> rfl

/-- A call is answered as by names, whatever names are met later. -/
lemma Over.answered_perform (hr : Over s t r) (hb : b.build = .ok t) (c : RunnerCall)
    {j : Interner} (hj : j.Extends (r.perform c).2.names) :
    c.AnsweredByName t s.options j (r.perform c).1 := by
  cases c with
  | event name => exact hj.name?_event
  | resolve number pass =>
    rcases hr.resolve_named number pass with ⟨e, herror, he⟩ | ⟨sets, m, hok, hm, hnames⟩
    · simp only [Runner.perform, RunnerCall.AnsweredByName, herror, he]
      rfl
    · simp only [Runner.perform, RunnerCall.AnsweredByName, hok, hm]
      exact congrArg Except.ok (hnames j hj)
  | run number pass =>
    rw [Runner.perform, hr.names_run hb] at hj
    simp only [Runner.perform, RunnerCall.AnsweredByName, JoinTree.assemblePass, hr.result_run]
    rcases hr.resolve_named number pass with ⟨e, herror, he⟩ | ⟨sets, m, hok, hm, hnames⟩
    · rw [herror, he]
      rfl
    · have hrows := Assembler.rows_new_named (hnames j hj) t s.options
      rw [hok, hm]
      simp only [Except.bind, map_mapError, hrows]

lemma Over.answered_history (hb : b.build = .ok t) (calls : List RunnerCall) :
    ∀ {r : Runner}, Over s t r → ∀ x ∈ r.history calls,
      x.1.AnsweredByName t s.options (r.after calls).names x.2 := by
  induction calls with
  | nil => intro r _ x hx; cases hx
  | cons c rest ih =>
    intro r hr
    have hnext := hr.perform hb c
    rw [history, List.forall_mem_cons]
    -- The names at the end extend those after the first call.
    exact ⟨hr.answered_perform hb c (Over.extends_after hb rest hnext), ih hnext⟩

lemma map_fst_history (calls : List RunnerCall) :
    ∀ r : Runner, (r.history calls).map (·.1) = calls := by
  induction calls with
  | nil => intro r; rfl
  | cons c rest ih => intro r; rw [history, List.map_cons, ih]

/-- Only the equality of events matters. An assembler answers match sets whose events are renamed
with its rows, or its error, for the match sets themselves, renamed. And whatever a runner is asked,
it gives two names the same event just when they are equal, the event bears the name, and so every
pass has the error, or the texts of the rows, that it has with the names themselves as events. -/
theorem answered_by_name :
    (∀ {ε δ : Type} [DecidableEq ε] [DecidableEq δ] (b : TreeBuilder) (t : JoinTree) (f : ε ↪ δ)
        (a : Assembler ε) (a' : Assembler δ) (m : MatchSets ε), b.build = .ok t →
        Assembler.Reachable t a → Assembler.Reachable t a' →
          (a'.run (m.rename f)).rows = (a.run m).rows.map (·.rename f)) ∧
      ∀ (s : Scenario) (t : JoinTree) (r : Runner) (calls : List RunnerCall),
        s.tree = .ok t → ofScenario s = .ok r →
        (r.history calls).map (·.1) = calls ∧
        (∀ x ∈ r.history calls, x.1.AnsweredByName t s.options (r.after calls).names x.2) ∧
        (∀ name name' e e', (.event name, .event e) ∈ r.history calls →
          (.event name', .event e') ∈ r.history calls → (e = e' ↔ name = name')) ∧
        ∀ number pass result, (.run number pass, .rows result) ∈ r.history calls →
          result.map (fun c => c.rows.map (·.text (r.after calls).names.display))
            = (t.assemblePass s.options number pass).map fun c => c.rows.map (·.text id) := by
  refine ⟨fun b t f a a' m hb ha ha' =>
    Assembler.rows_run_rename f m (TreeBuilder.sound_of_build hb) ha.ready ha'.ready,
    fun s t r calls ht hr => ?_⟩
  obtain ⟨b, hb⟩ := s.build_of_tree ht
  have hanswered := Over.answered_history hb calls (.ofScenario ht hr)
  refine ⟨map_fst_history calls r, hanswered, ?_, ?_⟩
  · intro name name' e e' he he'
    have hname : (r.after calls).names.name? e = some name := hanswered _ he
    have hname' : (r.after calls).names.name? e' = some name' := hanswered _ he'
    constructor
    · rintro rfl
      exact Option.some.inj (hname.symm.trans hname')
    · rintro rfl
      exact Interner.eq_of_name? hname hname'
  · intro number pass result hresult
    have hrows : result.map (·.rename (r.after calls).names.name?)
        = (t.assemblePass s.options number pass).map (·.rename some) := hanswered _ hresult
    have htexts := congrArg
      ((fun c : RowCollection (Option String) => c.rows.map (·.text (·.getD ""))) <$> ·) hrows
    change _ <$> (_ <$> _) = _ <$> (_ <$> _) at htexts
    simp only [Functor.map_map, RowCollection.map_text_rename] at htexts
    exact htexts

/-- A runner is asked for an event before and after a pass that fails and one that succeeds. -/
def chainCalls : List RunnerCall :=
  [.event "a", .run 1 chain.passes[0], .resolve 2 chain.passes[1], .run 2 chain.passes[1],
    .event "b", .event "a"]

theorem chain_answered_by_name :
    ((Assembler.new sampleTree {}).run (faultySets.rename ⟨Nat.succ, Nat.succ_injective⟩)).rows
        = .error (.noMatchNode 0 7) ∧
      ∃ e e' rows, (.event "a", .event e) ∈ (chainRunner []).history chainCalls ∧
        (.event "b", .event e') ∈ (chainRunner []).history chainCalls ∧ e ≠ e' ∧
        (.run 2 chain.passes[1], .rows (.ok rows)) ∈ (chainRunner []).history chainCalls ∧
        rows.rows.map (·.text ((chainRunner []).after chainCalls).names.display)
          = ["[s, a, b]", "[r, a, null]"] := by
  obtain ⟨hrenamed, hrunner⟩ := answered_by_name
  obtain ⟨-, -, hevents, htexts⟩ := hrunner chain chainTree (chainRunner []) chainCalls rfl rfl
  have hfaulty : ((sampleAssembler {}).run faultySets).rows = .error (.noMatchNode 0 7) := by decide
  have hshown : (chainTree.assemblePass {} 2 chain.passes[1]).map (fun c => c.rows.map (·.text id))
      = .ok ["[s, a, b]", "[r, a, null]"] := by rfl
  have hfirst : (.event "a", .event ⟨0⟩) ∈ (chainRunner []).history chainCalls := .head _
  have hlast : (.event "b", .event ⟨3⟩) ∈ (chainRunner []).history chainCalls :=
    .tail _ (.tail _ (.tail _ (.tail _ (.head _))))
  have hrun : (.run 2 chain.passes[1], .rows (.ok _)) ∈ (chainRunner []).history chainCalls :=
    .tail _ (.tail _ (.tail _ (.head _)))
  refine ⟨?_, ⟨0⟩, ⟨3⟩, _, hfirst, hlast, ?_, hrun, ?_⟩
  · rw [hrenamed sampleBuilder sampleTree _ (sampleAssembler {}) _ _ (by decide)
      (Assembler.reachable_sample {}) (.new {}), hfaulty]
    rfl
  · exact mt (hevents _ _ _ _ hfirst hlast).mp (by decide)
  · exact Except.ok.inj ((htexts _ _ _ hrun).trans hshown)

end Runner

end JoinAssembly
