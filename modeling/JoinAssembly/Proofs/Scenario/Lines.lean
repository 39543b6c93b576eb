import JoinAssembly.CommandLine.Execute
import JoinAssembly.Proofs.Join.Renamed
import JoinAssembly.Proofs.Scenario.Named
import JoinAssembly.Proofs.Scenario.Runs

/-!
# The lines of a scenario

What a pass shows follows from its names alone. It does not matter which passes were run before it,
in which partition it is run and with which options, so a scenario shows one pass after another what
each shows alone.
-/

namespace JoinAssembly

/-- The rows of a pass as texts, with the names themselves as events. -/
def JoinTree.passLines (t : JoinTree) (number : Nat) (pass : PassEntry) :
    Except ScenarioError (List String) :=
  (t.resolvePass number pass).map fun m => (t.entries m t.root).map fun y => y.row.text id

/-- The rows of passes in order as texts. The passes are numbered from a given number on, and the
first that fails ends them. -/
def JoinTree.linesFrom (t : JoinTree) (number : Nat) :
    List PassEntry → Except ScenarioError (List String)
  | [] => .ok []
  | pass :: rest => do
    let lines ← t.passLines number pass
    let later ← t.linesFrom (number + 1) rest
    return lines ++ later

namespace JoinTree

variable {t : JoinTree} {number : Nat} {pass : PassEntry}

lemma linesFrom_cons_of_error {e : ScenarioError} (he : t.passLines number pass = .error e)
    (rest : List PassEntry) : t.linesFrom number (pass :: rest) = .error e := by
  rw [linesFrom, he]
  rfl

lemma linesFrom_cons_of_ok {lines : List String} (hlines : t.passLines number pass = .ok lines)
    (rest : List PassEntry) :
    t.linesFrom number (pass :: rest) = (lines ++ ·) <$> t.linesFrom (number + 1) rest := by
  rw [linesFrom, hlines]
  rfl

/-- Passes show what each of them shows, if all of them do. -/
lemma linesFrom_eq_ok_iff (passes : List PassEntry) :
    ∀ {number : Nat} {lines : List String}, t.linesFrom number passes = .ok lines ↔
      ∃ parts : List (List String),
        (passes.zipIdx number).map (fun x => t.passLines x.2 x.1) = parts.map .ok ∧
          lines = parts.flatten := by
  induction passes with
  | nil =>
    intro number lines
    simp [linesFrom, eq_comm]
  | cons pass rest ih =>
    intro number lines
    rw [List.zipIdx_cons, List.map_cons]
    cases hfirst : t.passLines number pass with
    | error e =>
      rw [linesFrom_cons_of_error hfirst]
      constructor
      · intro h
        cases h
      · rintro ⟨_ | ⟨part, parts⟩, hparts, -⟩
        · cases hparts
        · cases (List.cons.inj hparts).1
    | ok first =>
      rw [linesFrom_cons_of_ok hfirst]
      constructor
      · intro h
        obtain ⟨later, hlater, rfl⟩ := map_eq_ok_iff.mp h
        obtain ⟨parts, hparts, rfl⟩ := ih.mp hlater
        exact ⟨first :: parts, by rw [hparts, List.map_cons], List.flatten_cons.symm⟩
      · rintro ⟨_ | ⟨part, parts⟩, hparts, rfl⟩
        · cases hparts
        · obtain ⟨hpart, hrest⟩ := List.cons.inj hparts
          cases hpart
          rw [ih.mpr ⟨parts, hrest, rfl⟩]
          rfl

/-- Passes fail as the first of them that does. -/
lemma linesFrom_eq_error_iff {e : ScenarioError} (passes : List PassEntry) :
    ∀ {number : Nat}, t.linesFrom number passes = .error e ↔
      ∃ before pass after, passes = before ++ pass :: after ∧
        (∀ x ∈ before.zipIdx number, ∃ part, t.passLines x.2 x.1 = .ok part) ∧
        t.passLines (number + before.length) pass = .error e := by
  induction passes with
  | nil =>
    intro number
    simp [linesFrom]
  | cons pass rest ih =>
    intro number
    cases hfirst : t.passLines number pass with
    | error e' =>
      rw [linesFrom_cons_of_error hfirst]
      constructor
      · intro h
        cases h
        exact ⟨[], pass, rest, rfl, by simp, hfirst⟩
      · rintro ⟨_ | ⟨first, before⟩, failing, after, hpasses, hbefore, he⟩
        · cases hpasses
          exact hfirst.symm.trans he
        · cases hpasses
          obtain ⟨part, hpart⟩ := hbefore _ List.mem_cons_self
          cases hfirst.symm.trans hpart
    | ok lines =>
      rw [linesFrom_cons_of_ok hfirst, map_eq_error_iff, ih]
      constructor
      · rintro ⟨before, failing, after, rfl, hbefore, he⟩
        refine ⟨pass :: before, failing, after, rfl, ?_, ?_⟩
        · rw [List.zipIdx_cons, List.forall_mem_cons]
          exact ⟨⟨lines, hfirst⟩, hbefore⟩
        · rw [List.length_cons, Nat.add_comm before.length, ← Nat.add_assoc]
          exact he
      · rintro ⟨_ | ⟨first, before⟩, failing, after, hpasses, hbefore, he⟩
        · cases hpasses
          cases hfirst.symm.trans he
        · cases hpasses
          rw [List.zipIdx_cons, List.forall_mem_cons] at hbefore
          rw [List.length_cons, Nat.add_comm before.length, ← Nat.add_assoc] at he
          exact ⟨before, failing, after, rfl, hbefore.2, he⟩

/-- What passes show follows from the events of their root and of their entries. -/
lemma linesFrom_congr (passes : List PassEntry) :
    ∀ {passes' : List PassEntry} {number : Nat},
      passes.map (fun pass => (pass.root, pass.matched))
          = passes'.map (fun pass => (pass.root, pass.matched)) →
        t.linesFrom number passes = t.linesFrom number passes' := by
  induction passes with
  | nil =>
    intro passes' number h
    rw [List.map_eq_nil_iff.mp h.symm]
  | cons pass rest ih =>
    rintro (_ | ⟨pass', rest'⟩) number h
    · cases h
    · obtain ⟨hpass, hrest⟩ := List.cons.inj h
      obtain ⟨hroot, hmatched⟩ := Prod.mk.inj hpass
      have hlines : t.passLines number pass = t.passLines number pass' := by
        rw [passLines, passLines, resolvePass, resolvePass, hroot, hmatched]
      rw [linesFrom, linesFrom, hlines, ih hrest]

end JoinTree

/-- The texts of the rows of match sets do not depend on the references of events. -/
lemma JoinTree.Sound.map_text_entries {t : JoinTree} (h : t.Sound) {j : Interner}
    {sets : MatchSets EventRef} {m : MatchSets String} (hm : sets.rename j.naming = m.rename .inl) :
    (t.entries sets t.root).map (fun y => y.row.text j.display)
      = (t.entries m t.root).map fun y => y.row.text id := by
  have hentries : (t.entries sets t.root).map (·.rename j.naming)
      = (t.entries m t.root).map (·.rename .inl) := by
    rw [← h.entries_rename, ← h.entries_rename, hm]
  have htexts := congrArg (List.map fun y => y.row.text (Sum.elim id fun _ => "")) hentries
  simp only [List.map_map, Function.comp_def, Entry.rename, Row.text_rename] at htexts
  rw [Interner.display_eq]
  exact htexts

namespace Runner

variable {s : Scenario} {t : JoinTree} {r : Runner} {number : Nat} {pass : PassEntry}
  {b : TreeBuilder}

/-! ### One pass -/

lemma extends_resolve (r : Runner) (number : Nat) (pass : PassEntry) :
    (r.resolve number pass).runner.names.Extends r.names := by
  rw [resolve_eq]
  exact Resolution.extends_ofPass r.tree r.names number pass

lemma Over.names_run (hr : Over s t r) (hb : b.build = .ok t) :
    (r.run number pass).runner.names = (r.resolve number pass).runner.names := by
  cases hresolved : (r.resolve number pass).result with
  | error e => rw [run_of_error hresolved]
  | ok sets => rw [(run_of_ok hr hb hresolved).1]

/-- A pass is resolved as it would be by names, whatever names are met before and later. -/
lemma Over.resolve_named (hr : Over s t r) (number : Nat) (pass : PassEntry) :
    (∃ e, (r.resolve number pass).result = .error e ∧ t.resolvePass number pass = .error e) ∨
      ∃ sets m, (r.resolve number pass).result = .ok sets ∧ t.resolvePass number pass = .ok m ∧
        ∀ j : Interner, j.Extends (r.resolve number pass).runner.names →
          sets.rename j.naming = m.rename .inl := by
  rw [resolve_eq, hr.tree_eq]
  rcases Resolution.names_ofPass t r.names number pass with ⟨e, herror, he⟩ | ⟨m, hok, hm, hnames⟩
  · exact .inl ⟨e, by rw [herror], he⟩
  · exact .inr ⟨_, m, by rw [hok], hm, hnames⟩

/-- A pass fails as it would by names, or its rows are shown as they would be by names, whatever
names are met later. -/
lemma Over.run_lines (hr : Over s t r) (hb : b.build = .ok t) (number : Nat) (pass : PassEntry) :
    (∃ e, (r.run number pass).result = .error e ∧ t.passLines number pass = .error e) ∨
      ∃ rows, (r.run number pass).result = .ok rows ∧
        ∀ j : Interner, j.Extends (r.run number pass).runner.names →
          t.passLines number pass = .ok (rows.rows.map (·.text j.display)) := by
  rw [JoinTree.passLines, hr.names_run hb]
  rcases hr.resolve_named number pass with ⟨e, hresolved, he⟩ | ⟨sets, m, hresolved, hm, hnames⟩
  · exact .inl ⟨e, by rw [run_of_error hresolved], by rw [he]; rfl⟩
  · refine .inr ⟨_, (run_of_ok hr hb hresolved).2, fun j hj => ?_⟩
    rw [hm, List.map_map]
    exact congrArg Except.ok
      ((TreeBuilder.sound_of_build hb).map_text_entries (hnames j hj)).symm

/-! ### Passes in order -/

lemma Over.extends_runFrom (hb : b.build = .ok t) (passes : List PassEntry) :
    ∀ (number : Nat) {r : Runner}, Over s t r →
      (r.runFrom number passes).runner.names.Extends r.names := by
  induction passes with
  | nil => intro number r _; exact .refl _
  | cons pass rest ih =>
    intro number r hr
    have hfirst : (r.run number pass).runner.names.Extends r.names := by
      rw [hr.names_run hb]
      exact r.extends_resolve number pass
    cases hresult : (r.run number pass).result with
    | error e =>
      rw [runFrom_cons_of_error hresult]
      exact hfirst
    | ok rows =>
      rw [(runFrom_cons_of_ok hresult rest).1]
      exact (ih (number + 1) (hr.run hb number pass)).trans hfirst

/-- Passes fail as they would by names, or their rows are shown as they would be by names. -/
lemma Over.runFrom_lines (hb : b.build = .ok t) (passes : List PassEntry) :
    ∀ (number : Nat) {r : Runner}, Over s t r →
      (∃ e, (r.runFrom number passes).result = .error e ∧ t.linesFrom number passes = .error e) ∨
        ∃ results, (r.runFrom number passes).result = .ok results ∧
          ∀ j : Interner, j.Extends (r.runFrom number passes).runner.names →
            t.linesFrom number passes
              = .ok (results.flatMap fun c => c.rows.map (·.text j.display)) := by
  induction passes with
  | nil => intro number r _; exact .inr ⟨[], rfl, fun j _ => rfl⟩
  | cons pass rest ih =>
    intro number r hr
    rcases hr.run_lines hb number pass with ⟨e, herror, he⟩ | ⟨rows, hrows, hlines⟩
    · left
      exact ⟨e, by rw [runFrom_cons_of_error herror], JoinTree.linesFrom_cons_of_error he rest⟩
    · obtain ⟨hrunner, hresult⟩ := runFrom_cons_of_ok hrows rest
      have hnext := hr.run hb number pass
      rw [hrunner, hresult]
      rcases ih (number + 1) hnext with ⟨e, herror, he⟩ | ⟨results, hresults, hlater⟩
      · left
        refine ⟨e, map_eq_error_iff.mpr herror, ?_⟩
        rw [JoinTree.linesFrom_cons_of_ok (hlines _ (.refl _)), map_eq_error_iff]
        exact he
      · right
        refine ⟨rows :: results, map_eq_ok_iff.mpr ⟨results, hresults, rfl⟩, fun j hj => ?_⟩
        -- Names met by the later passes leave those of this pass as they are.
        have hfirst := hlines j (hj.trans (Over.extends_runFrom hb rest _ hnext))
        rw [JoinTree.linesFrom_cons_of_ok hfirst, hlater j hj]
        rfl

end Runner

namespace Scenario

variable {s : Scenario} {t : JoinTree}

/-- Run a pass alone, by a new runner, under a number. -/
def runAlone (s : Scenario) (number : Nat) (pass : PassEntry) :
    Except ScenarioError (List String) := do
  let r ← Runner.ofScenario s
  let first := r.run number pass
  let rows ← first.result
  return first.runner.render [rows]

/-- A pass alone shows what its names tell. -/
lemma runAlone_eq (ht : s.tree = .ok t) : s.runAlone = t.passLines := by
  funext number pass
  obtain ⟨b, r, hb, hnew, hr⟩ := Runner.exists_ofScenario ht
  rw [runAlone, hnew]
  rcases hr.run_lines hb number pass with ⟨e, herror, he⟩ | ⟨rows, hrows, hlines⟩
  · rw [he]
    simp only [bind, Except.bind, herror]
  · rw [hlines _ (.refl _)]
    simp only [bind, Except.bind, hrows, Runner.render, List.flatMap_singleton]
    rfl

/-- What a scenario shows follows from the names in its passes. -/
lemma lines_run_eq (ht : s.tree = .ok t) : s.run.lines = t.linesFrom 1 s.passes := by
  obtain ⟨b, r, hb, hnew, hr⟩ := Runner.exists_ofScenario ht
  rw [Runner.lines_run hnew, Runner.result_runPasses, Runner.runner_runPasses]
  rcases Runner.Over.runFrom_lines hb s.passes 1 hr with
    ⟨e, herror, he⟩ | ⟨results, hresults, hlines⟩
  · rw [herror, he]
    rfl
  · rw [hresults, hlines _ (.refl _)]
    rfl

/-- What is wrong with a pass alone has the number of the pass. -/
lemma isEntryOf_runAlone (ht : s.tree = .ok t) {number : Nat} {pass : PassEntry}
    {e : ScenarioError} (he : s.runAlone number pass = .error e) : e.IsEntryOf number := by
  obtain ⟨b, r, hb, -, hr⟩ := Runner.exists_ofScenario ht
  rw [runAlone_eq ht] at he
  rcases hr.run_lines hb number pass with ⟨e', herror, he'⟩ | ⟨rows, hrows, hlines⟩
  · cases he'.symm.trans he
    exact hr.isEntryOf_run hb herror
  · cases (hlines _ (.refl _)).symm.trans he

/-- Run alone, each pass of a scenario with a valid join fails or shows its rows. The scenario shows
what its passes show, in order. If any fails, the first of them tells its error with its number, and
no row is shown or printed. Which partitions the passes name and which options are set makes no
difference to that; after passes that all succeed, the partitions are those that they name. -/
theorem run_eq_runAlone (ht : s.tree = .ok t) :
    (∀ lines, s.run.lines = .ok lines ↔
        ∃ parts : List (List String),
          (s.passes.zipIdx 1).map (fun x => s.runAlone x.2 x.1) = parts.map .ok ∧
            lines = parts.flatten) ∧
      (∀ e, s.run.lines = .error e ↔
        ∃ before pass after, s.passes = before ++ pass :: after ∧
          (∀ x ∈ before.zipIdx 1, ∃ part, s.runAlone x.2 x.1 = .ok part) ∧
          s.runAlone (before.length + 1) pass = .error e) ∧
      (∀ number pass e, s.runAlone number pass = .error e → e.IsEntryOf number) ∧
      (∀ level e, s.run.lines = .error e →
        (CommandLine.executeScenario .run level s).output = "") ∧
      (∀ s' : Scenario, s'.streams = s.streams →
        s'.passes.map (fun pass => (pass.root, pass.matched))
            = s.passes.map (fun pass => (pass.root, pass.matched)) →
          s'.run.lines = s.run.lines) ∧
      ∀ r passes results, Runner.ofScenario s = .ok r → (r.runPasses passes).result = .ok results →
        (r.runPasses passes).runner.partitions.size
          = (passes.map fun pass => pass.partition.getD defaultPartition).dedup.length := by
  rw [runAlone_eq ht, lines_run_eq ht]
  refine ⟨fun lines => JoinTree.linesFrom_eq_ok_iff s.passes, fun e => ?_,
    fun number pass e he => ?_, fun level e he => ?_, fun s' hstreams hpasses => ?_,
    fun r passes results hr hresults => Runner.size_runPasses ht hr hresults⟩
  · rw [JoinTree.linesFrom_eq_error_iff]
    simp only [Nat.add_comm 1]
  · rw [← runAlone_eq ht] at he
    exact isEntryOf_runAlone ht he
  · rw [← lines_run_eq ht] at he
    simp only [CommandLine.executeScenario, he]
    rfl
  · have ht' : s'.tree = .ok t := by rw [tree, hstreams]; exact ht
    rw [lines_run_eq ht', JoinTree.linesFrom_congr _ hpasses]

/-- The chain with two passes in different partitions that share events. -/
def chainPair : Scenario :=
  { Runner.chain with passes := [
    { root := ["r", "s"], matched := [⟨"A", "r", none, ["a"]⟩, ⟨"A", "s", none, ["a"]⟩,
        ⟨"B", "a", some 1, ["b"]⟩] },
    { partition := some "other", root := ["b", "r"], matched := [⟨"A", "r", none, ["a"]⟩] }] }

theorem chainPair_lines : chainPair.tree = .ok Runner.chainTree ∧
    chainPair.run.lines = .ok ["[s, a, b]", "[r, a, null]", "[r, a, null]"] ∧
    ∃ parts : List (List String),
      (chainPair.passes.zipIdx 1).map (fun x => chainPair.runAlone x.2 x.1) = parts.map .ok ∧
        ["[s, a, b]", "[r, a, null]", "[r, a, null]"] = parts.flatten := by
  have hlines : chainPair.run.lines = .ok ["[s, a, b]", "[r, a, null]", "[r, a, null]"] := by rfl
  exact ⟨rfl, hlines, ((run_eq_runAlone rfl).1 _).mp hlines⟩

end Scenario

end JoinAssembly
