import JoinAssembly.Proofs.Assembler.Answers
import JoinAssembly.Proofs.Join.Relaxed

/-!
# Inner joins within outer joins

A stream that must have a match differs from one that may have none in the rows without a match, and
in nothing else.
-/

namespace JoinAssembly

variable {ε : Type} [DecidableEq ε]

omit [DecidableEq ε] in
lemma JoinTree.WellLinked.relaxed {t : JoinTree} {m : MatchSets ε} (hlinks : t.WellLinked m)
    (c : StreamIndex) : (t.relaxed c).WellLinked m where
  root_unlinked := hlinks.root_unlinked
  linked s hs hroot := by
    rw [t.parent?_relaxed]
    exact hlinks.linked s (by simpa using hs) hroot

namespace Assembler

/-- Let a stream be required, as are all streams above it but the root. Over match sets without
faults, a pass then has the rows that it would have with the stream optional, in the same order,
without those in which the stream is null. -/
theorem rows_run_relaxed {b b' : TreeBuilder} {t : JoinTree} {c : StreamIndex}
    (hb : b.build = .ok t) (hb' : b'.build = .ok (t.relaxed c)) (hc : c < t.size)
    (hrequired : t.isOptional c = false)
    (habove : ∀ s < t.size, s ≠ t.root → s ≠ c → c ∈ t.subtree s → t.isOptional s = false)
    {a a' : Assembler ε} (ha : Reachable t a) (ha' : Reachable (t.relaxed c) a')
    {m : MatchSets ε} (hm : m.width = t.size) (hlinks : t.WellLinked m) :
    ∃ rows, (a'.run m).rows = .ok ⟨rows⟩ ∧
      (a.run m).rows = .ok ⟨rows.filter fun row => !row.isNull c⟩ := by
  have h := TreeBuilder.sound_of_build hb
  have h' := TreeBuilder.sound_of_build hb'
  have hm' : m.width = (t.relaxed c).size := hm.trans (t.size_relaxed c).symm
  have hpath : ∀ s, s ≠ t.root → c ∈ t.below s → t.isOptional s = false := by
    intro s hroot hcs
    by_cases hs : s < t.size
    · by_cases heq : s = c
      · exact heq ▸ hrequired
      · exact habove s hs hroot heq (h.subtree_eq s hs ▸ hcs)
    · simp [JoinTree.isOptional, JoinTree.node?, List.getElem?_eq_none (Nat.le_of_not_lt hs)]
  refine ⟨((t.relaxed c).entries m t.root).map (·.row), ?_, ?_⟩
  · rw [rows_run_of_width hb' ha' hm']
    exact (hlinks.relaxed c).answer_eq h' hm' a'.options
  · rw [rows_run_of_width hb ha hm, hlinks.answer_eq h hm, List.filter_map,
      h.entries_relaxed h' hc hpath t.root (h.mem_below_root.mpr hc)]
    rfl

/-- The join of the sample with its lower leaf required. -/
def strictTree : JoinTree :=
  { sampleTree with nodes := sampleTree.nodes.modify 3 fun n => { n with optional := false } }

set_option synthInstance.maxSize 2000 in
theorem strict_rows_run :
    (TreeBuilder.ofCalls 4 [.root 0, .optional 1 0, .required 2 0, .required 3 2]).build
        = .ok strictTree ∧
      ((new sampleTree {}).run sampleSets).rows
        = .ok ⟨[⟨[some 10, none, some 20, some 30]⟩, ⟨[some 10, none, some 21, none]⟩]⟩ ∧
      ((new strictTree {}).run sampleSets).rows
        = .ok ⟨[⟨[some 10, none, some 20, some 30]⟩]⟩ := by
  have hb : (TreeBuilder.ofCalls 4
      [.root 0, .optional 1 0, .required 2 0, .required 3 2]).build = .ok strictTree := by decide
  have hb' : sampleBuilder.build = .ok (strictTree.relaxed 3) := by decide
  have hrows : ((new (strictTree.relaxed 3) {}).run sampleSets).rows
      = .ok ⟨[⟨[some 10, none, some 20, some 30]⟩, ⟨[some 10, none, some 21, none]⟩]⟩ := by decide
  obtain ⟨rows, hrelaxed, hstrict⟩ := rows_run_relaxed hb hb' (by decide) (by decide) (by decide)
    (.new {}) (.new {}) (m := sampleSets) (by decide) ⟨by decide, by decide⟩
  cases hrelaxed.symm.trans hrows
  exact ⟨hb, hrows, hstrict⟩

end Assembler

end JoinAssembly
