import JoinAssembly.Proofs.Assembler.Answers

/-!
# Options

The options of an assembler reach its nodes at the start of a pass only, and there they choose how
an outer branch keeps track of its events. No answer depends on them.
-/

namespace JoinAssembly.Assembler

variable {ε : Type} [DecidableEq ε] {t : JoinTree}

/-- What a stream sends in a pass does not depend on the options. -/
lemma emission_options (h : t.Sound) (o₁ o₂ : AssemblyOptions) (m : MatchSets ε)
    (s : StreamIndex) : emission t o₁ m s = emission t o₂ m s := by
  induction s using h.child_induction with
  | step s ih =>
    rcases t.children_cases s with hleaf | ⟨c, hone, hrequired⟩ | ⟨c, hone, hoptional⟩ |
      ⟨c, d, rest, hmany⟩
    · rw [emission_leaf h hleaf, emission_leaf h hleaf]
    · have hc : c ∈ t.childrenOf s := by simp [hone]
      rw [emission_inner h hone hrequired, emission_inner h hone hrequired, ih c hc]
    · have hc : c ∈ t.childrenOf s := by simp [hone]
      rw [emission_outer h hone hoptional, emission_outer h hone hoptional, ih c hc]
    · rw [emission_product h hmany, emission_product h hmany, List.map_congr_left ih]

lemma freshAnswer_options (h : t.Sound) (o₁ o₂ : AssemblyOptions) (m : MatchSets ε) :
    freshAnswer t o₁ m = freshAnswer t o₂ m := by
  by_cases hm : m.width = t.size
  · rw [freshAnswer_eq h o₁ hm, freshAnswer_eq h o₂ hm, emission_options h o₁ o₂]
  · rw [freshAnswer, freshAnswer, if_neg hm, if_neg hm]

/-- A pass is counted if its answer is not an error. -/
lemma passes_run {a : Assembler ε} (ha : a.Ready t) (m : MatchSets ε) :
    (a.run m).assembler.passes
      = a.passes + if (freshAnswer t a.options m).toBool then 1 else 0 := by
  rcases runInto_cases ha m .empty with ⟨rows, hanswer, -, -, hpasses⟩ | ⟨e, hanswer, -, -, hpasses⟩
  · rw [run, hpasses, hanswer]
    rfl
  · rw [run, hpasses, hanswer]
    rfl

/-- The answers of an assembler to match sets in order, each with the number of passes counted
then. -/
def answers (a : Assembler ε) :
    List (MatchSets ε) → List (Except AssemblyError (RowCollection ε) × Nat)
  | [] => []
  | m :: rest =>
    let outcome := a.run m
    (outcome.rows, outcome.assembler.passes) :: answers outcome.assembler rest

lemma answers_eq_of_ready (h : t.Sound) (ms : List (MatchSets ε)) :
    ∀ {a a' : Assembler ε}, a.Ready t → a'.Ready t → a.passes = a'.passes →
      a.answers ms = a'.answers ms := by
  induction ms with
  | nil => intro a a' _ _ _; rfl
  | cons m rest ih =>
    intro a a' ha ha' hpasses
    have hrows : (a.run m).rows = (a'.run m).rows := by
      rw [rows_run ha, rows_run ha', freshAnswer_options h]
    have hcount : (a.run m).assembler.passes = (a'.run m).assembler.passes := by
      rw [passes_run ha, passes_run ha', freshAnswer_options h a.options a'.options, hpasses]
    have hrest : (a.run m).assembler.answers rest = (a'.run m).assembler.answers rest :=
      ih (ha.runInto m .empty) (ha'.runInto m .empty) hcount
    simp only [answers, hrows, hcount, hrest]

/-- Whatever match sets two assemblers over one tree are given in turn, they answer alike and count
alike, with any options. -/
theorem answers_options {b : TreeBuilder} (hb : b.build = .ok t) (o₁ o₂ : AssemblyOptions)
    (ms : List (MatchSets ε)) : (new t o₁).answers ms = (new t o₂).answers ms :=
  answers_eq_of_ready (TreeBuilder.sound_of_build hb) ms (Reachable.new o₁).ready
    (Reachable.new o₂).ready rfl

/-- One event at the root and one at the outer branch below it, with some events under that. -/
def singleSets (below : List Nat) : MatchSets Nat :=
  let m := ((MatchSets.empty 4).pushRoot 0 [10]).2
  let m := (m.pushMatch 2 ⟨0, 0⟩ 10 [20]).2
  (m.pushMatch 3 ⟨2, 0⟩ 20 below).2

theorem sample_answers :
    Tracking.choose true 2 ((singleSets [30]).nodesOf 2) = .single ⟨2, 0⟩ 20 ∧
    (new sampleTree { fastPath := true }).answers [singleSets [30], faultySets, singleSets []]
      = [(.ok ⟨[⟨[some 10, none, some 20, some 30]⟩]⟩, 1), (.error (.noMatchNode 0 7), 1),
        (.ok ⟨[⟨[some 10, none, some 20, none]⟩]⟩, 2)] ∧
    (new sampleTree { fastPath := true }).answers [singleSets [30], faultySets, singleSets []]
      = (new sampleTree { fastPath := false, rowCapacity := 0 }).answers
        [singleSets [30], faultySets, singleSets []] :=
  ⟨by decide, by decide, answers_options (by decide : sampleBuilder.build = .ok sampleTree) _ _ _⟩

end JoinAssembly.Assembler
