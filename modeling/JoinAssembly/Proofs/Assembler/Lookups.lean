import JoinAssembly.Proofs.Assembler.Answers
import JoinAssembly.Proofs.Join.Lookups

/-!
# Passes over filled match sets

Match sets filled by a lookup have no faulty links, so a pass over them succeeds, and its rows are
those of the outer join by the lookup. Whatever the lookup answers, no row comes twice.
-/

namespace JoinAssembly

variable {ε : Type} [DecidableEq ε]

/-- A filling links every match node to the event that it was looked up for. -/
lemma JoinTree.Sound.wellLinked_fillWith {σ : Type} {t : JoinTree} (h : t.Sound)
    (m : MatchSets ε) (rootEvents : List ε) (lookup : Lookup ε σ) (state : σ) :
    t.WellLinked (m.fillWith t rootEvents lookup state).1 where
  root_unlinked node hnode := by
    rw [(MatchSets.filled_fillWith h m rootEvents lookup state).1] at hnode
    obtain ⟨-, rfl⟩ := mem_recorded.mp hnode
    rfl
  linked s hs hroot node hnode := by
    obtain ⟨p, hp⟩ := h.exists_parent hs hroot
    obtain ⟨before, hnodes⟩ := MatchSets.nodesOf_fillWith h m rootEvents lookup state hp
    rw [hnodes] at hnode
    obtain ⟨x, hx, -, rfl⟩ := mem_recordedAll.mp hnode
    have hlink := List.mem_map_of_mem (f := Finding.link) hx
    rw [map_link_findings, MatchSets.cursors, List.map_map] at hlink
    obtain ⟨o, ho, hlink⟩ := List.mem_map.mp hlink
    obtain ⟨hnode, hevent⟩ := MatchSets.mem_occurrences.mp ho
    refine ⟨x.link, rfl, ?_, ?_⟩
    · rw [hp, ← hlink]
      rfl
    · rw [← hlink]
      exact ⟨o.node, hnode, List.mem_of_getElem? hevent⟩

namespace Assembler

variable {b : TreeBuilder} {t : JoinTree} {a : Assembler ε}

/-- After match sets are filled by a lookup, whatever they held before, a pass over them succeeds,
and its rows are those of the outer join by the lookup, each as often as it is there. -/
theorem rows_run_fill (hb : b.build = .ok t) (ha : Reachable t a) (m : MatchSets ε)
    (rootEvents : List ε) (lookup : StreamIndex → StreamIndex → ε → List ε) :
    ∃ c, (a.run (m.fill t rootEvents lookup)).rows = .ok c ∧
      c.rows.Perm (t.lookupJoin lookup rootEvents) := by
  have h := TreeBuilder.sound_of_build hb
  have hwidth : (m.fill t rootEvents lookup).width = t.size := MatchSets.width_fillWith ..
  have hlinks : t.WellLinked (m.fill t rootEvents lookup) :=
    h.wellLinked_fillWith m rootEvents (.steady lookup) ()
  refine ⟨_, (rows_run_of_width hb ha hwidth).trans (hlinks.answer_eq h hwidth a.options), ?_⟩
  exact h.entries_perm_outerJoin.trans (h.outerJoin_fill_perm m rootEvents lookup)

/-- Two events of the root for which the same event is found, in one case twice. -/
def sampleLookup (s _parent : StreamIndex) (e : Nat) : List Nat :=
  if s = 2 ∧ e = 10 then [20, 20]
  else if s = 2 ∧ e = 11 then [20, 21]
  else if s = 3 ∧ e = 20 then [30]
  else []

theorem sample_rows_fill : sampleBuilder.build = .ok sampleTree ∧
    sampleTree.lookupJoin sampleLookup [10, 11, 10]
      = [⟨[some 11, none, some 20, some 30]⟩, ⟨[some 11, none, some 21, none]⟩,
        ⟨[some 10, none, some 20, some 30]⟩] ∧
    ∃ c, ((sampleAssembler {}).run (faultySets.fill sampleTree [10, 11, 10] sampleLookup)).rows
        = .ok c ∧
      c.rows.Perm (sampleTree.lookupJoin sampleLookup [10, 11, 10]) :=
  ⟨by decide, by decide, rows_run_fill (by decide : sampleBuilder.build = .ok sampleTree)
    (reachable_sample {}) faultySets [10, 11, 10] sampleLookup⟩

/-- If no event is in two match nodes of the root or in two match nodes that link to the same event,
the rows of a pass that succeeds are pairwise different. Every filling leads to such match sets, even
by a lookup that does not always answer alike. -/
theorem nodup_rows_run (hb : b.build = .ok t) (ha : Reachable t a) :
    (∀ (m : MatchSets ε) (c : RowCollection ε), t.Apart m → (a.run m).rows = .ok c →
        c.rows.Nodup) ∧
      ∀ (σ : Type) (m : MatchSets ε) (rootEvents : List ε) (lookup : Lookup ε σ) (state : σ),
        t.Apart (m.fillWith t rootEvents lookup state).1 := by
  have h := TreeBuilder.sound_of_build hb
  constructor
  · intro m c hapart hc
    by_cases hm : m.width = t.size
    · rw [rows_run_of_width hb ha hm] at hc
      rcases JoinTree.answer_cases (m := m) h a.options with ⟨hok, -⟩ | ⟨e, herror, -⟩
      · cases hok.symm.trans hc
        exact h.entries_perm_outerJoin.nodup_iff.mpr (h.nodup_outerJoin hapart)
      · cases herror.symm.trans hc
    · rw [rows_run_of_width_ne ha hm] at hc
      cases hc
  · intro σ m rootEvents lookup state
    exact h.apart_fillWith m rootEvents lookup state

/-- One event under two events of the root, and so is the event found for it. -/
def sharedSets : MatchSets Nat :=
  let m := ((MatchSets.empty 4).pushRoot 0 [10, 11]).2
  let m := (m.pushMatch 2 ⟨0, 0⟩ 10 [20]).2
  let m := (m.pushMatch 2 ⟨0, 0⟩ 11 [20]).2
  let m := (m.pushMatch 3 ⟨2, 0⟩ 20 [30]).2
  (m.pushMatch 3 ⟨2, 1⟩ 20 [30]).2

set_option synthInstance.maxSize 2000 in
theorem shared_rows_nodup : sampleBuilder.build = .ok sampleTree ∧ sampleTree.Apart sharedSets ∧
    ((sampleAssembler {}).run sharedSets).rows
      = .ok ⟨[⟨[some 10, none, some 20, some 30]⟩, ⟨[some 11, none, some 20, some 30]⟩]⟩ ∧
    [(⟨[some 10, none, some 20, some 30]⟩ : Row Nat), ⟨[some 11, none, some 20, some 30]⟩].Nodup := by
  have hapart : sampleTree.Apart sharedSets := ⟨by decide, by decide⟩
  exact ⟨by decide, hapart, by decide,
    (nodup_rows_run (by decide : sampleBuilder.build = .ok sampleTree) (reachable_sample {})).1
      sharedSets _ hapart (by decide)⟩

end Assembler

end JoinAssembly
