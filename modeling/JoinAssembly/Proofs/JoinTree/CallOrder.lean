import JoinAssembly.Proofs.JoinTree.Rooted
import Mathlib.Data.List.Perm.Subperm

/-!
# The order of calls

The first placement of a stream stands and the last name, so the order of calls matters to a builder
as soon as a stream is placed or named twice. Placing a stream twice is an error in any order.
Therefore calls that name no stream twice form the same tree in any order, or none in any order;
which error is told may depend on the order.
-/

namespace JoinAssembly.TreeBuilder

open BuilderCall

variable {n : Nat} {calls calls' : List BuilderCall} {placements : List Placement}

/-- In any order, calls give a stream the same things. -/
lemma given_perm {α : Type} (what : BuilderCall → Option α) (h : calls.Perm calls')
    (s : StreamIndex) : (given what calls s).Perm (given what calls' s) :=
  h.filterMap _

lemma Declares.perm (hdecl : Declares n calls placements) (h : calls.Perm calls') :
    Declares n calls' placements where
  length_eq := hdecl.length_eq
  stream_lt c hc := hdecl.stream_lt c (h.mem_iff.mpr hc)
  placementsOf_eq {s p} hs := by
    have hone := given_perm placement? h.symm s
    rw [← placementsOf, ← placementsOf, hdecl.placementsOf_eq hs] at hone
    exact List.perm_singleton.mp hone

/-- If no stream is named twice, the order of calls does not matter to the names. -/
lemma names_perm (h : calls.Perm calls') (hnames : ∀ s < n, (namesOf calls s).length ≤ 1) :
    (ofCalls n calls).names = (ofCalls n calls').names := by
  apply List.ext_getElem?
  intro s
  rw [getElem?_names_ofCalls, getElem?_names_ofCalls]
  by_cases hs : s < n
  · have hperm := given_perm name? h s
    rw [← namesOf, ← namesOf] at hperm
    have hgiven : namesOf calls s = namesOf calls' s := by
      rcases Nat.le_one_iff_eq_zero_or_eq_one.mp (hnames s hs) with hnone | hone
      · rw [List.length_eq_zero_iff.mp hnone] at hperm ⊢
        exact hperm.nil_eq
      · obtain ⟨name, hname⟩ := List.length_eq_one_iff.mp hone
        rw [hname] at hperm ⊢
        exact (List.perm_singleton.mp hperm.symm).symm
    rw [hgiven]
  · rw [if_neg hs, if_neg hs]

lemma build_eq_ok_of_perm {t : JoinTree} (h : calls.Perm calls')
    (hnames : ∀ s < n, (namesOf calls s).length ≤ 1) (ht : (ofCalls n calls).build = .ok t) :
    (ofCalls n calls').build = .ok t := by
  obtain ⟨-, placements, hdecl, hrooted, heq⟩ := rooted_of_build ht
  rw [build_of_rooted (hdecl.perm h) hrooted, ← names_perm h hnames, ← heq]

/-- Two orderings of calls that name no stream twice form the same tree, with the same nodes, names
and walks, or neither forms a tree. -/
theorem build_of_perm (n : Nat) (h : calls.Perm calls')
    (hnames : ∀ s < n, (namesOf calls s).length ≤ 1) :
    (∃ t, (ofCalls n calls).build = .ok t ∧ (ofCalls n calls').build = .ok t) ∨
      ∃ e e', (ofCalls n calls).build = .error e ∧ (ofCalls n calls').build = .error e' := by
  have hnames' : ∀ s < n, (namesOf calls' s).length ≤ 1 := by
    intro s hs
    rw [namesOf, ← (given_perm name? h s).length_eq]
    exact hnames s hs
  cases ht : (ofCalls n calls).build with
  | ok t => exact .inl ⟨t, rfl, build_eq_ok_of_perm h hnames ht⟩
  | error e =>
    cases ht' : (ofCalls n calls').build with
    | error e' => exact .inr ⟨e, e', rfl, rfl⟩
    | ok t' =>
      have hok := build_eq_ok_of_perm h.symm hnames' ht'
      cases ht.symm.trans hok

theorem build_of_perm_shuffled :
    (∃ t, (ofCalls 3 [.root 1, .name 2 "leaf", .optional 0 1, .required 2 0]).build = .ok t ∧
      (ofCalls 3 [.required 2 0, .optional 0 1, .name 2 "leaf", .root 1]).build = .ok t) ∧
    ∃ e e', e ≠ e' ∧ (ofCalls 2 [.root 0, .root 7, .root 0]).build = .error e ∧
      (ofCalls 2 [.root 0, .root 0, .root 7]).build = .error e' := by
  constructor
  · have hperm : [BuilderCall.root 1, .name 2 "leaf", .optional 0 1, .required 2 0].Perm
        [.required 2 0, .optional 0 1, .name 2 "leaf", .root 1] := by decide
    have hnames : ∀ s < 3, (namesOf
        [.root 1, .name 2 "leaf", .optional 0 1, .required 2 0] s).length ≤ 1 := by
      intro s _
      have hnil : given BuilderCall.name? [] s = [] := rfl
      simp only [namesOf, given_cons, hnil, BuilderCall.name?, Option.toList_none, ite_self]
      split <;> simp
    rcases build_of_perm 3 hperm hnames with htree | ⟨e, -, he, -⟩
    · exact htree
    · have hok : (ofCalls 3 [.root 1, .name 2 "leaf", .optional 0 1, .required 2 0]).build.isOk := by
        decide
      rw [he] at hok
      cases hok
  · exact ⟨.outOfRange 7 2, .placedTwice 0, by decide, by decide, by decide⟩

end JoinAssembly.TreeBuilder
