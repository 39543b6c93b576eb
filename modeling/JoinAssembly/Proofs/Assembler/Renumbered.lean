import JoinAssembly.Proofs.Assembler.Lookups
import JoinAssembly.Proofs.Join.Renumbered

/-!
# Passes under other numbers

Over match sets without faults, the rows of a pass do not depend on how streams and match nodes are
numbered, nor on the order in which events were added to a match node.
-/

namespace JoinAssembly

variable {ε : Type} [DecidableEq ε] {r : Renumbering} {t t' : JoinTree} {m m' : MatchSets ε}

omit [DecidableEq ε] in
/-- Links that follow the new numbers stay without faults. -/
lemma JoinTree.WellLinked.renumbered (hlinks : t.WellLinked m) (ht : t.Renumbered r.stream t')
    (h : t.Sound) (h' : t'.Sound) (hm : m.Renumbered r m') (hwidth : m.width = t.size) :
    t'.WellLinked m' where
  root_unlinked node hnode := by
    rw [ht.root_eq h h'] at hnode
    obtain ⟨j, hj⟩ := List.getElem?_of_mem hnode
    obtain ⟨i, x, -, hx, hren⟩ := hm.exists_old (hwidth ▸ h.root_lt) hj
    rw [hren.parent_eq, hlinks.root_unlinked x (List.mem_of_getElem? hx), Option.map_none]
  linked s' hs' hroot node hnode := by
    obtain ⟨s, hs, rfl⟩ := ht.exists_stream (ht.size_eq ▸ hs')
    rw [ht.root_eq h h', r.stream.injective.ne_iff] at hroot
    obtain ⟨j, hj⟩ := List.getElem?_of_mem hnode
    obtain ⟨i, x, -, hx, hren⟩ := hm.exists_old (hwidth ▸ hs) hj
    obtain ⟨link, hlink, hparent, target, htarget, hheld⟩ :=
      hlinks.linked s hs hroot x (List.mem_of_getElem? hx)
    obtain ⟨target', htarget', hren'⟩ := hm.exists_node htarget
    refine ⟨r.link link, ?_, ?_, target', htarget', hren'.events_perm.mem_iff.mpr hheld⟩
    · rw [hren.parent_eq, hlink]
      rfl
    · rw [ht.parent_eq s hs, hparent]
      rfl

namespace Assembler

/-- The streams of a tree can be given any other numbers. If match nodes and the events in them are
reordered as well, a pass succeeds all the same, and its rows are, up to order, the rows from before
with every slot at the new number of its stream. -/
theorem rows_run_renumbered {b : TreeBuilder} (hb : b.build = .ok t) (r : Renumbering)
    (hr : ∀ s < t.size, r.stream s < t.size) :
    (∃ t', (TreeBuilder.ofCalls t.size (t.renumberedCalls r.stream)).build = .ok t' ∧
        t.Renumbered r.stream t') ∧
      ∀ (b' : TreeBuilder) (t' : JoinTree), b'.build = .ok t' → t.Renumbered r.stream t' →
        ∀ (a a' : Assembler ε) (m m' : MatchSets ε), Reachable t a → Reachable t' a' →
          m.width = t.size → t.WellLinked m → m.Renumbered r m' →
          ∃ c c', (a.run m).rows = .ok c ∧ (a'.run m').rows = .ok c' ∧
            c'.rows.Perm (c.rows.map (·.renumber r.stream)) := by
  refine ⟨JoinTree.exists_renumbered hb hr, ?_⟩
  intro b' t' hb' ht a a' m m' ha ha' hwidth hlinks hm
  have h := TreeBuilder.sound_of_build hb
  have h' := TreeBuilder.sound_of_build hb'
  have hwidth' : m'.width = t'.size := by rw [hm.width_eq, hwidth, ht.size_eq]
  have hlinks' := hlinks.renumbered ht h h' hm hwidth
  refine ⟨_, _, (rows_run_of_width hb ha hwidth).trans (hlinks.answer_eq h hwidth a.options),
    (rows_run_of_width hb' ha' hwidth').trans (hlinks'.answer_eq h' hwidth' a'.options), ?_⟩
  have hbefore := h.entries_perm_outerJoin (m := m)
  have hafter := h'.entries_perm_outerJoin (m := m')
  exact hafter.trans ((ht.outerJoin_perm h h' hm hwidth).trans (hbefore.map _).symm)

/-- The root changes numbers with the last leaf, and so do the match nodes of two streams. -/
def sampleRenumbering : Renumbering where
  stream := Equiv.swap 0 3
  node s := if s = 2 ∨ s = 3 then Equiv.swap 0 1 else Equiv.refl Nat

/-- The match sets with shared events under these numbers, the events of the root in reverse. -/
def sharedSetsRenumbered : MatchSets Nat :=
  let m := ((MatchSets.empty 4).pushRoot 3 [11, 10]).2
  let m := (m.pushMatch 2 ⟨3, 0⟩ 11 [20]).2
  let m := (m.pushMatch 2 ⟨3, 0⟩ 10 [20]).2
  let m := (m.pushMatch 0 ⟨2, 0⟩ 20 [30]).2
  (m.pushMatch 0 ⟨2, 1⟩ 20 [30]).2

theorem shared_rows_renumbered : ∃ t' c',
    (TreeBuilder.ofCalls 4 (sampleTree.renumberedCalls sampleRenumbering.stream)).build = .ok t' ∧
      ((Assembler.new t' {}).run sharedSetsRenumbered).rows = .ok c' ∧
      c'.rows.Perm [⟨[some 30, none, some 20, some 10]⟩, ⟨[some 30, none, some 20, some 11]⟩] := by
  have hr : ∀ s < sampleTree.size, sampleRenumbering.stream s < sampleTree.size := by decide
  have hm : sharedSets.Renumbered sampleRenumbering sharedSetsRenumbered := by
    refine ⟨by decide, by decide, by decide, ?_⟩
    rintro ⟨s, i⟩ x hx
    match s, i, hx with
    | 0, 0, hx => cases hx; exact ⟨_, rfl, rfl, rfl, by decide⟩
    | 2, 0, hx => cases hx; exact ⟨_, rfl, rfl, rfl, by decide⟩
    | 2, 1, hx => cases hx; exact ⟨_, rfl, rfl, rfl, by decide⟩
    | 3, 0, hx => cases hx; exact ⟨_, rfl, rfl, rfl, by decide⟩
    | 3, 1, hx => cases hx; exact ⟨_, rfl, rfl, rfl, by decide⟩
    | 0, _ + 1, hx | 1, _, hx | 2, _ + 2, hx | 3, _ + 2, hx | _ + 4, _, hx => cases hx
  obtain ⟨⟨t', hb', ht⟩, hrows⟩ :=
    rows_run_renumbered (ε := Nat) (by decide : sampleBuilder.build = .ok sampleTree) _ hr
  obtain ⟨c, c', hc, hc', hperm⟩ := hrows _ t' hb' ht _ _ sharedSets sharedSetsRenumbered
    (reachable_sample {}) (.new {}) (by decide) ⟨by decide, by decide⟩ hm
  have hcollected : ((sampleAssembler {}).run sharedSets).rows
      = .ok ⟨[⟨[some 10, none, some 20, some 30]⟩, ⟨[some 11, none, some 20, some 30]⟩]⟩ := by decide
  cases hcollected.symm.trans hc
  exact ⟨t', c', hb', hc', hperm⟩

end Assembler

end JoinAssembly
