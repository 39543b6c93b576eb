import JoinAssembly.Proofs.Partitions
import JoinAssembly.Proofs.Results
import JoinAssembly.Proofs.Scenario.Resolved
import JoinAssembly.Scenario.Runner

/-!
# Runs of passes

A runner gives its partitions resolved passes only. None of them fails, so what is wrong with a pass
is wrong with one of its entries, and is told before the pass is run.
-/

namespace JoinAssembly

/-! ### Trees of scenarios -/

/-- The tree of named streams comes from a builder. -/
lemma JoinTree.build_of_ofEntries {entries : List StreamEntry} {t : JoinTree}
    (h : ofEntries entries = .ok t) : ∃ b : TreeBuilder, b.build = .ok t := by
  rw [ofEntries] at h
  split at h
  · cases h
  · cases hplaced : StreamEntry.placeAll entries (.new entries.length) 0 entries with
    | error e =>
      rw [hplaced] at h
      cases h
    | ok b =>
      rw [hplaced] at h
      exact ⟨b, h⟩

lemma Scenario.build_of_tree {s : Scenario} {t : JoinTree} (ht : s.tree = .ok t) :
    ∃ b : TreeBuilder, b.build = .ok t := by
  rw [tree] at ht
  cases hentries : JoinTree.ofEntries s.streams with
  | error e =>
    rw [hentries] at ht
    cases ht
  | ok t' =>
    rw [hentries] at ht
    cases ht
    exact JoinTree.build_of_ofEntries hentries

namespace Runner

/-- A runner for the join of a scenario, after some passes. -/
structure Over (s : Scenario) (t : JoinTree) (r : Runner) : Prop where
  tree_eq : r.tree = t
  partitions : Partitions.Over t s.options r.partitions

/-- What passes lead a new runner to, whether they fail or not. -/
inductive Reachable (s : Scenario) : Runner → Prop where
  | ofScenario {r : Runner} (hr : ofScenario s = .ok r) : Reachable s r
  | resolve {r : Runner} (number : Nat) (pass : PassEntry) (hr : Reachable s r) :
      Reachable s (r.resolve number pass).runner
  | run {r : Runner} (number : Nat) (pass : PassEntry) (hr : Reachable s r) :
      Reachable s (r.run number pass).runner

variable {s : Scenario} {t : JoinTree} {r : Runner} {number : Nat} {pass : PassEntry}
  {b : TreeBuilder}

lemma ofScenario_eq (ht : s.tree = .ok t) : ofScenario s = .ok ⟨t, .new t s.options, .empty⟩ := by
  rw [ofScenario, ht]
  rfl

lemma Over.ofScenario (ht : s.tree = .ok t) (hr : Runner.ofScenario s = .ok r) : Over s t r := by
  rw [ofScenario_eq ht] at hr
  cases hr
  exact ⟨rfl, .new t s.options⟩

/-- For a scenario with a valid join there is a new runner. -/
lemma exists_ofScenario (ht : s.tree = .ok t) :
    ∃ b r, TreeBuilder.build b = .ok t ∧ Runner.ofScenario s = .ok r ∧ Over s t r := by
  obtain ⟨b, hb⟩ := s.build_of_tree ht
  exact ⟨b, _, hb, ofScenario_eq ht, .ofScenario ht (ofScenario_eq ht)⟩

/-! ### Resolving -/

lemma resolve_eq (r : Runner) (number : Nat) (pass : PassEntry) :
    r.resolve number pass =
      ⟨{ r with names := (Resolution.ofPass r.tree r.names number pass).1.names },
        match (Resolution.ofPass r.tree r.names number pass).2 with
        | none => .ok (Resolution.ofPass r.tree r.names number pass).1.sets
        | some e => .error e, []⟩ := by
  rw [resolve]
  rcases Resolution.ofPass r.tree r.names number pass with ⟨resolution, _ | e⟩ <;> rfl

lemma Over.resolve (hr : Over s t r) (number : Nat) (pass : PassEntry) :
    Over s t (r.resolve number pass).runner := by
  rw [resolve_eq]
  exact ⟨hr.tree_eq, hr.partitions⟩

/-- Resolved match sets have the width of the tree, and no link of theirs is faulty. -/
lemma Over.sound_of_resolve (hr : Over s t r) (h : t.Sound) {sets : MatchSets EventRef}
    (hsets : (r.resolve number pass).result = .ok sets) :
    sets.width = t.size ∧ t.WellLinked sets := by
  have hsound := Resolution.sound_ofPass h r.names number pass
  rw [resolve_eq, hr.tree_eq] at hsets
  split at hsets
  · cases hsets
    exact ⟨hsound.width_eq, hsound.wellLinked⟩
  · cases hsets

lemma isEntryOf_resolve {e : ScenarioError} (he : (r.resolve number pass).result = .error e) :
    e.IsEntryOf number := by
  rw [resolve_eq] at he
  split at he
  · cases he
  · rename_i herror
    cases he
    exact Resolution.isEntryOf_ofPass herror

/-! ### Running -/

/-- A pass that cannot be resolved is not run. -/
lemma run_of_error {e : ScenarioError} (he : (r.resolve number pass).result = .error e) :
    r.run number pass = ⟨(r.resolve number pass).runner, .error e, []⟩ := by
  simp only [run, he]

/-- The runner and the rows after a pass that is run. -/
lemma run_of_ok (hr : Over s t r) (hb : b.build = .ok t)
    {sets : MatchSets EventRef} (hsets : (r.resolve number pass).result = .ok sets) :
    (r.run number pass).runner = { (r.resolve number pass).runner with
        partitions := (r.partitions.run (pass.partition.getD defaultPartition) sets).partitions } ∧
      (r.run number pass).result = .ok ⟨(t.entries sets t.root).map (·.row)⟩ := by
  have h := TreeBuilder.sound_of_build hb
  obtain ⟨hwidth, hlinks⟩ := hr.sound_of_resolve h hsets
  have hpartitions : (r.resolve number pass).runner.partitions = r.partitions := by
    rw [resolve_eq]
  have hrows : (r.partitions.run (pass.partition.getD defaultPartition) sets).rows
      = .ok ⟨(t.entries sets t.root).map (·.row)⟩ := by
    rw [hr.partitions.rows_run, Assembler.rows_run_of_width hb (.new s.options) hwidth]
    exact hlinks.answer_eq h hwidth s.options
  simp only [run, hsets, hpartitions, hrows, and_self]

lemma Over.run (hr : Over s t r) (hb : b.build = .ok t) (number : Nat)
    (pass : PassEntry) : Over s t (r.run number pass).runner := by
  cases hresolved : (r.resolve number pass).result with
  | error e =>
    rw [run_of_error hresolved]
    exact hr.resolve number pass
  | ok sets =>
    rw [(run_of_ok hr hb hresolved).1]
    exact ⟨(hr.resolve number pass).tree_eq, hr.partitions.run _ sets⟩

lemma Reachable.over (ht : s.tree = .ok t) (hb : b.build = .ok t)
    (hr : Reachable s r) : Over s t r := by
  induction hr with
  | ofScenario hr => exact .ofScenario ht hr
  | resolve number pass _ ih => exact ih.resolve number pass
  | run number pass _ ih => exact ih.run hb number pass

/-- What is wrong with a pass is wrong with one of its entries. -/
lemma Over.isEntryOf_run (hr : Over s t r) (hb : b.build = .ok t)
    {e : ScenarioError} (he : (r.run number pass).result = .error e) : e.IsEntryOf number := by
  cases hresolved : (r.resolve number pass).result with
  | error e' =>
    rw [run_of_error hresolved] at he
    cases he
    exact isEntryOf_resolve hresolved
  | ok sets => cases (run_of_ok hr hb hresolved).2.symm.trans he

/-! ### Passes in order -/

lemma runFrom_cons_of_error {e : ScenarioError} (he : (r.run number pass).result = .error e)
    (rest : List PassEntry) : r.runFrom number (pass :: rest)
      = ⟨(r.run number pass).runner, .error e, (r.run number pass).log⟩ := by
  simp only [runFrom, he]

lemma runFrom_cons_of_ok {rows : RowCollection EventRef}
    (hrows : (r.run number pass).result = .ok rows) (rest : List PassEntry) :
    (r.runFrom number (pass :: rest)).runner
        = ((r.run number pass).runner.runFrom (number + 1) rest).runner ∧
      (r.runFrom number (pass :: rest)).result
        = (rows :: ·) <$> ((r.run number pass).runner.runFrom (number + 1) rest).result := by
  simp only [runFrom, hrows, and_self]

lemma Over.runFrom (hb : b.build = .ok t) (passes : List PassEntry) :
    ∀ (number : Nat) {r : Runner}, Over s t r → Over s t (r.runFrom number passes).runner := by
  induction passes with
  | nil => intro number r hr; exact hr
  | cons pass rest ih =>
    intro number r hr
    have hfirst := hr.run hb number pass
    cases hresult : (r.run number pass).result with
    | error e =>
      rw [runFrom_cons_of_error hresult]
      exact hfirst
    | ok rows =>
      rw [(runFrom_cons_of_ok hresult rest).1]
      exact ih (number + 1) hfirst

lemma isEntryOf_runFrom (hb : b.build = .ok t) {e : ScenarioError} (passes : List PassEntry) :
    ∀ (number : Nat) {r : Runner}, Over s t r → (r.runFrom number passes).result = .error e →
      ∃ n, e.IsEntryOf n := by
  induction passes with
  | nil => intro number r _ he; cases he
  | cons pass rest ih =>
    intro number r hr he
    cases hresult : (r.run number pass).result with
    | error e' =>
      rw [runFrom_cons_of_error hresult] at he
      cases he
      exact ⟨number, hr.isEntryOf_run hb hresult⟩
    | ok rows =>
      rw [(runFrom_cons_of_ok hresult rest).2, map_eq_error_iff] at he
      exact ih (number + 1) (hr.run hb number pass) he

lemma result_runPasses (r : Runner) (passes : List PassEntry) :
    (r.runPasses passes).result = (r.runFrom 1 passes).result := by
  rw [runPasses]
  split <;> rfl

lemma runner_runPasses (r : Runner) (passes : List PassEntry) :
    (r.runPasses passes).runner = (r.runFrom 1 passes).runner := by
  rw [runPasses]
  split <;> rfl

/-! ### Partitions in use -/

/-- A pass that succeeds leaves its partition live, and the others as they were. -/
lemma Over.contains_run (hr : Over s t r) (hb : b.build = .ok t)
    {rows : RowCollection EventRef} (hrows : (r.run number pass).result = .ok rows) (key : String) :
    (r.run number pass).runner.partitions.contains key ↔
      key = pass.partition.getD defaultPartition ∨ r.partitions.contains key := by
  cases hresolved : (r.resolve number pass).result with
  | error e =>
    rw [run_of_error hresolved] at hrows
    cases hrows
  | ok sets =>
    rw [(run_of_ok hr hb hresolved).1, Partitions.contains, Partitions.run,
      Partitions.assembler?_put]
    by_cases hkey : key = pass.partition.getD defaultPartition
    · simp [hkey]
    · simp [hkey, Partitions.contains]

lemma contains_runFrom (hb : b.build = .ok t) (key : String) (passes : List PassEntry) :
    ∀ (number : Nat) {r : Runner} {results : List (RowCollection EventRef)}, Over s t r →
      (r.runFrom number passes).result = .ok results →
        ((r.runFrom number passes).runner.partitions.contains key ↔
          key ∈ passes.map (fun pass => pass.partition.getD defaultPartition) ∨
            r.partitions.contains key) := by
  induction passes with
  | nil => intro number r results _ _; simp [runFrom]
  | cons pass rest ih =>
    intro number r results hr hresults
    cases hresult : (r.run number pass).result with
    | error e =>
      rw [runFrom_cons_of_error hresult] at hresults
      cases hresults
    | ok rows =>
      obtain ⟨hrunner, hlater⟩ := runFrom_cons_of_ok hresult rest
      rw [hlater] at hresults
      obtain ⟨later, hok, -⟩ := map_eq_ok_iff.mp hresults
      rw [hrunner, ih (number + 1) (hr.run hb number pass) hok, hr.contains_run hb hresult,
        List.map_cons, List.mem_cons]
      exact or_left_comm.trans or_assoc.symm

/-- After passes that all succeed, a new runner has the partitions that the passes name. -/
lemma size_runPasses (ht : s.tree = .ok t) (hr : Runner.ofScenario s = .ok r)
    {passes : List PassEntry} {results : List (RowCollection EventRef)}
    (hresults : (r.runPasses passes).result = .ok results) :
    (r.runPasses passes).runner.partitions.size
      = (passes.map fun pass => pass.partition.getD defaultPartition).dedup.length := by
  obtain ⟨b, hb⟩ := s.build_of_tree ht
  have hover := Over.ofScenario ht hr
  have hnone : ∀ key, r.partitions.contains key = false := by
    rw [ofScenario_eq ht] at hr
    cases hr
    exact fun key => rfl
  rw [result_runPasses] at hresults
  rw [runner_runPasses]
  have hafter := (Over.runFrom hb passes 1 hover).partitions
  refine hafter.size_eq_length (List.nodup_dedup _) fun key => ?_
  rw [contains_runFrom hb key passes 1 hover hresults, hnone, List.mem_dedup]
  simp

/-! ### No pass fails in an assembler -/

lemma lines_run (hr : Runner.ofScenario s = .ok r) :
    s.run.lines = (r.runPasses s.passes).runner.render <$> (r.runPasses s.passes).result := by
  simp only [Scenario.run, hr]

/-- For a scenario with a valid join, whatever passes were run: a pass that can be resolved has
match sets of the right width without faulty links, and running it succeeds. So no pass, no series
of passes and no run of the scenario ends with an error of an assembler. -/
theorem resolved_pass_succeeds (ht : s.tree = .ok t) (hr : Reachable s r) :
    (∀ number pass sets, (r.resolve number pass).result = .ok sets →
        sets.width = t.size ∧ t.WellLinked sets ∧ ∃ rows, (r.run number pass).result = .ok rows) ∧
      (∀ number pass n e, (r.run number pass).result ≠ .error (.assembly n e)) ∧
      (∀ passes n e, (r.runPasses passes).result ≠ .error (.assembly n e)) ∧
      ∀ n e, s.run.lines ≠ .error (.assembly n e) := by
  obtain ⟨b, hb⟩ := s.build_of_tree ht
  have hover := hr.over ht hb
  have hpasses : ∀ {r : Runner}, Over s t r → ∀ passes n e,
      (r.runPasses passes).result ≠ .error (.assembly n e) := by
    intro r hr passes n e he
    rw [result_runPasses] at he
    obtain ⟨_, hentry⟩ := isEntryOf_runFrom hb passes 1 hr he
    cases hentry
  refine ⟨?_, ?_, hpasses hover, ?_⟩
  · intro number pass sets hsets
    obtain ⟨hwidth, hlinks⟩ := hover.sound_of_resolve (TreeBuilder.sound_of_build hb) hsets
    exact ⟨hwidth, hlinks, _, (run_of_ok hover hb hsets).2⟩
  · intro number pass n e he
    cases hover.isEntryOf_run hb he
  · intro n e he
    obtain ⟨_, new, -, hnew, hfirst⟩ := exists_ofScenario ht
    rw [lines_run hnew, map_eq_error_iff] at he
    exact hpasses hfirst s.passes n e he

/-- A chain of three streams with two passes. The first names an event that its parent stream has
not matched; the second has an event twice in its parent stream, and means the second time. -/
def chain : Scenario where
  streams := [⟨"R", none, false⟩, ⟨"A", some "R", false⟩, ⟨"B", some "A", true⟩]
  passes := [
    { root := ["r"], matched := [⟨"B", "a", none, ["b"]⟩] },
    { root := ["r", "s"], matched := [⟨"A", "r", none, ["a"]⟩, ⟨"A", "s", none, ["a"]⟩,
        ⟨"B", "a", some 1, ["b"]⟩] }]

def chainTree : JoinTree where
  nodes := [⟨0, none, false, [1], some "R"⟩, ⟨1, some 0, false, [2], some "A"⟩,
    ⟨2, some 1, true, [], some "B"⟩]
  root := 0
  preorder := [0, 1, 2]
  postorder := [2, 1, 0]
  subtrees := [[0, 1, 2], [1, 2], [2]]

/-- A runner after passes of the chain, whether they fail or not. -/
def chainRunner (passes : List PassEntry) : Runner :=
  passes.foldl (fun r pass => (r.run 1 pass).runner) ⟨chainTree, .new chainTree {}, .empty⟩

lemma reachable_chain (passes : List PassEntry) : Reachable chain (chainRunner passes) := by
  have hfold : ∀ {r : Runner}, Reachable chain r →
      Reachable chain (passes.foldl (fun r pass => (r.run 1 pass).runner) r) := by
    induction passes with
    | nil => intro r hr; exact hr
    | cons pass rest ih => intro r hr; exact ih (hr.run 1 pass)
  exact hfold (.ofScenario (ofScenario_eq rfl))

theorem chain_pass_succeeds : chain.tree = .ok chainTree ∧
    ((chainRunner []).run 1 chain.passes[0]).result = .error (.parentNotHeld 1 "B" "a") ∧
    ∃ sets, ((chainRunner [chain.passes[0]]).resolve 2 chain.passes[1]).result = .ok sets ∧
      sets.width = 3 ∧ chainTree.WellLinked sets ∧
        ∃ rows, ((chainRunner [chain.passes[0]]).run 2 chain.passes[1]).result = .ok rows :=
  ⟨rfl, rfl, _, rfl, (resolved_pass_succeeds rfl (reachable_chain _)).1 2 _ _ rfl⟩

end Runner

end JoinAssembly
