import JoinAssembly.Proofs.Assembler.Answers

/-!
# Histories

Calls of an assembler follow one another, each on the assembler that the one before leaves. No pass
shows what was there before: its answer is that of a new assembler, and a collection that it was
given takes all rows of the answer or none.
-/

namespace JoinAssembly

/-- A call of an assembler: for the rows of a pass, or to append them to a collection. -/
inductive PassCall (ε : Type) where
  | run (m : MatchSets ε)
  | runInto (m : MatchSets ε) (c : RowCollection ε)

namespace Assembler

variable {ε : Type} [DecidableEq ε] {t : JoinTree} {a : Assembler ε}

/-- Make a call. -/
def perform (a : Assembler ε) : PassCall ε → PassOutcome ε
  | .run m => a.run m
  | .runInto m c => a.runInto m c

/-- The outcomes of calls made in order. -/
def outcomes (a : Assembler ε) : List (PassCall ε) → List (PassOutcome ε)
  | [] => []
  | call :: rest => a.perform call :: (a.perform call).assembler.outcomes rest

/-- What calls made in order leave. -/
def after (a : Assembler ε) : List (PassCall ε) → Assembler ε
  | [] => a
  | call :: rest => (a.perform call).assembler.after rest

/-! ### One call -/

lemma Reachable.perform (h : Reachable t a) (call : PassCall ε) :
    Reachable t (a.perform call).assembler := by
  cases call with
  | run m => exact h.runInto m .empty
  | runInto m c => exact h.runInto m c

lemma options_perform (h : Reachable t a) (call : PassCall ε) :
    (a.perform call).assembler.options = a.options := by
  cases call with
  | run m => exact options_runInto h.ready m .empty
  | runInto m c => exact options_runInto h.ready m c

lemma passes_runInto (h : Reachable t a) (m : MatchSets ε) (c : RowCollection ε) :
    (a.runInto m c).assembler.passes
      = a.passes + if (a.runInto m c).error.isNone then 1 else 0 := by
  rcases runInto_cases h.ready m c with ⟨_, -, herror, -, hpasses⟩ | ⟨_, -, herror, -, hpasses⟩
  · simp [herror, hpasses]
  · simp [herror, hpasses]

/-- A call is counted if it was not aborted. -/
lemma passes_perform (h : Reachable t a) (call : PassCall ε) :
    (a.perform call).assembler.passes
      = a.passes + if (a.perform call).error.isNone then 1 else 0 := by
  cases call with
  | run m => exact passes_runInto h m .empty
  | runInto m c => exact passes_runInto h m c

/-! ### Calls in order -/

lemma Reachable.after (calls : List (PassCall ε)) :
    ∀ {a : Assembler ε}, Reachable t a → Reachable t (a.after calls) := by
  induction calls with
  | nil => intro a h; exact h
  | cons call rest ih => intro a h; exact ih (h.perform call)

lemma options_after (calls : List (PassCall ε)) :
    ∀ {a : Assembler ε}, Reachable t a → (a.after calls).options = a.options := by
  induction calls with
  | nil => intro a _; rfl
  | cons call rest ih =>
    intro a h
    rw [Assembler.after, ih (h.perform call), options_perform h]

/-- The calls that were not aborted are counted, all of them and no others. -/
lemma passes_after (calls : List (PassCall ε)) :
    ∀ {a : Assembler ε}, Reachable t a →
      (a.after calls).passes = a.passes + (a.outcomes calls).countP fun o => o.error.isNone := by
  induction calls with
  | nil => intro a _; rfl
  | cons call rest ih =>
    intro a h
    rw [Assembler.after, ih (h.perform call), passes_perform h, outcomes, List.countP_cons,
      Nat.add_assoc, Nat.add_comm (List.countP _ _)]

/-- Whatever calls were made of an assembler, successful or aborted, it answers match sets as a new
one with the same tree and options does, and it has counted the calls that succeeded. -/
theorem rows_run_after (t : JoinTree) (options : AssemblyOptions) (calls : List (PassCall ε))
    (m : MatchSets ε) :
    (((new t options).after calls).run m).rows = ((new t options).run m).rows ∧
      ((new t options).after calls).passes
        = ((new t options).outcomes calls).countP fun o => o.error.isNone := by
  have hnew : Reachable t (new t options : Assembler ε) := .new options
  constructor
  · rw [rows_run (hnew.after calls).ready, rows_run hnew.ready, options_after calls hnew]
  · have hcount := passes_after calls hnew
    rwa [show (new t options : Assembler ε).passes = 0 from rfl, Nat.zero_add] at hcount

/-- A pass that appends to a collection publishes all or nothing. If it is aborted, the collection
and the count are what they were and nothing is left in the queue. If it succeeds, the rows that the
pass would answer on its own follow the old ones, and the pass is counted. -/
theorem runInto_all_or_nothing (ha : Reachable t a) (m : MatchSets ε) (c : RowCollection ε) :
    (∀ e, (a.runInto m c).error = some e →
        (a.runInto m c).collection = c ∧ (a.runInto m c).assembler.passes = a.passes ∧
          (a.runInto m c).assembler.pending = []) ∧
      ((a.runInto m c).error = none →
        ∃ answer, (a.run m).rows = .ok answer ∧
          (a.runInto m c).collection.rows = c.rows ++ answer.rows ∧
          (a.runInto m c).assembler.passes = a.passes + 1) := by
  have hpending := (ha.ready.runInto m c).pending_eq
  rcases runInto_cases ha.ready m c with ⟨answer, hanswer, herror, hcollection, hpasses⟩ |
    ⟨e, -, herror, hcollection, hpasses⟩
  · constructor
    · intro e he
      cases herror.symm.trans he
    · intro _
      exact ⟨answer, (rows_run ha.ready m).trans hanswer, congrArg RowCollection.rows hcollection,
        hpasses⟩
  · constructor
    · intro _ _
      exact ⟨hcollection, hpasses, hpending⟩
    · intro hnone
      cases herror.symm.trans hnone

/-- A root with one optional leaf, whose rows are complete as soon as they come. -/
def outerPair : JoinTree where
  nodes := [⟨0, none, false, [1], none⟩, ⟨1, some 0, true, [], none⟩]
  root := 0
  preorder := [0, 1]
  postorder := [1, 0]
  subtrees := [[0, 1], [1]]

def linkedSets : MatchSets Nat :=
  ((MatchSets.ofRoot 2 0 [10]).pushMatch 1 ⟨0, 0⟩ 10 [20]).2

/-- Another row of the leaf is linked to a match node that the root does not have. -/
def halfLinkedSets : MatchSets Nat := (linkedSets.pushMatch 1 ⟨0, 7⟩ 10 [21]).2

/-- After an earlier row, the row of a pass is appended, and the one of an aborted pass is not. -/
theorem outerPair_rolls_back :
    (TreeBuilder.ofCalls 2 [.root 0, .optional 1 0]).build = .ok outerPair ∧
      ((new outerPair {}).runInto halfLinkedSets ⟨[⟨[some 1, none]⟩]⟩).error
        = some (.noMatchNode 0 7) ∧
      ((new outerPair {}).runInto halfLinkedSets ⟨[⟨[some 1, none]⟩]⟩).collection
        = ⟨[⟨[some 1, none]⟩]⟩ ∧
      ((new outerPair {}).runInto linkedSets ⟨[⟨[some 1, none]⟩]⟩).error = none ∧
      ((new outerPair {}).run linkedSets).rows = .ok ⟨[⟨[some 10, some 20]⟩]⟩ ∧
      ((new outerPair {}).runInto linkedSets ⟨[⟨[some 1, none]⟩]⟩).collection.rows
        = [⟨[some 1, none]⟩, ⟨[some 10, some 20]⟩] := by
  have herror : ((new outerPair {}).runInto halfLinkedSets ⟨[⟨[some 1, none]⟩]⟩).error
      = some (.noMatchNode 0 7) := by decide
  have hok : ((new outerPair {}).runInto linkedSets ⟨[⟨[some 1, none]⟩]⟩).error = none := by decide
  have hrows : ((new outerPair {}).run linkedSets).rows = .ok ⟨[⟨[some 10, some 20]⟩]⟩ := by decide
  obtain ⟨answer, hanswer, happended, -⟩ := (runInto_all_or_nothing (.new {}) _ _).2 hok
  cases hrows.symm.trans hanswer
  exact ⟨by decide, herror, ((runInto_all_or_nothing (.new {}) _ _).1 _ herror).1, hok, hrows,
    happended⟩

end Assembler

end JoinAssembly
