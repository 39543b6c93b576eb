import JoinAssembly.Proofs.JoinTree.Rooted
import Mathlib.Data.Fintype.Card
import Mathlib.Data.Set.Finite.Basic

/-!
# Cycles

A builder that tells of a cycle names a stream that does not lead to the root. Such a stream hangs
off a cycle: following the parents from it never ends, and as there are finitely many streams, it
goes round in the end. The stream itself need not be on the cycle.
-/

namespace JoinAssembly.TreeBuilder

open BuilderCall

variable {n : Nat} {calls : List BuilderCall} {placements : List Placement}
  {root s x : StreamIndex}

/-- A stream is its own ancestor: following the parents a positive number of steps leads back. -/
def OnCycle (placements : List Placement) (s : StreamIndex) : Prop :=
  Relation.TransGen (fun c p => parentIn placements c = some p) s s

/-- Following the parents from a stream never comes to a stream without parent. -/
def Endless (placements : List Placement) (s : StreamIndex) : Prop :=
  ∀ x, Leads placements s x → ∃ p, parentIn placements x = some p

lemma lt_of_parentIn {c p : StreamIndex} (h : parentIn placements c = some p) :
    c < placements.length := by
  obtain ⟨_, hc, -⟩ := Option.bind_eq_some_iff.mp h
  exact (List.getElem?_eq_some_iff.mp hc).1

/-- An endless way up goes round in the end. -/
lemma Endless.exists_onCycle (h : Endless placements s) :
    ∃ x, Leads placements s x ∧ OnCycle placements x := by
  by_contra hnone
  push Not at hnone
  -- Among the finitely many streams above `s` one would have none above it.
  have hfinite : Finite {x // Leads placements s x} :=
    (Set.finite_lt_nat placements.length).subset fun x hx => lt_of_parentIn (h x hx).choose_spec
  let above : {x // Leads placements s x} → {x // Leads placements s x} → Prop :=
    fun y x => Relation.TransGen (fun c p => parentIn placements c = some p) x y
  have : IsTrans _ above := ⟨fun _ _ _ hyz hxy => hxy.trans hyz⟩
  have : Std.Irrefl above := ⟨fun x => hnone x x.property⟩
  refine (Finite.wellFounded_of_trans_of_irrefl above).induction (C := fun _ => False) ⟨s, .refl⟩ ?_
  intro ⟨x, hx⟩ ih
  obtain ⟨p, hp⟩ := h x hx
  exact ih ⟨p, hx.tail hp⟩ (.single hp)

/-- What a stream on a cycle leads to leads back to it. -/
lemma OnCycle.leads_back (h : OnCycle placements s) (hx : Leads placements s x) :
    Leads placements x s := by
  induction hx with
  | refl => exact .refl
  | @tail y x _ hstep ih =>
    have hround : Relation.TransGen (fun c p => parentIn placements c = some p) y s := by
      rcases Relation.reflTransGen_iff_eq_or_transGen.mp ih with heq | hlong
      · exact heq ▸ h
      · exact hlong
    obtain ⟨z, hz, hback⟩ := Relation.TransGen.head'_iff.mp hround
    cases hstep.symm.trans hz
    exact hback

/-- A stream that does not lead to the only root leads to none. -/
lemma Checked.endless (h : Checked placements root) (hs : s < placements.length)
    (hlost : ¬ Leads placements s root) : Endless placements s := by
  intro x hx
  have hlt : x < placements.length := by
    cases hx with
    | refl => exact hs
    | tail _ hstep => exact h.parent_lt hstep
  cases hparent : parentIn placements x with
  | some p => exact ⟨p, rfl⟩
  | none => exact absurd (h.eq_root x hlt hparent ▸ hx) hlost

/-- The stream that is named leads to no stream before it, and to no end. -/
lemma endless_of_build (h : (ofCalls n calls).build = .error (.cycle s)) :
    ∃ placements, Declares n calls placements ∧ Endless placements s ∧
      ∀ x, Leads placements s x → s ≤ x := by
  cases fault_of_build h with
  | call _ hcall =>
    obtain ⟨_, _, _, _, _, hfault⟩ := hcall
    cases hfault
  | @placement placements _ _ hdecl hfault =>
    obtain ⟨before, p, after, rfl, -, hfault⟩ := hfault
    cases hfault with
    | ownParent hp _ =>
      have hown : parentIn (before ++ p :: after) before.length = some before.length := by
        simp [parentIn, hp]
      refine ⟨_, hdecl, fun x hx => ?_, fun x hx => (hx.eq_of_ownParent hown).ge⟩
      exact hx.eq_of_ownParent hown ▸ ⟨_, hown⟩
  | @cycle placements root _ hdecl hfree hroot hs hlost hfirst =>
    obtain rfl := hdecl.length_eq
    have hchecked := (requireRoot_of_faultless hfree hroot).2
    refine ⟨placements, hdecl, hchecked.endless hs hlost, fun x hx => ?_⟩
    by_contra hlt
    exact hlost (hx.trans (hfirst x (Nat.lt_of_not_le hlt)))

/-- If a builder tells of a cycle, every stream is declared once, and following the parents from the
stream that is named never comes to a root, but in the end to a cycle. The stream is on the cycle
itself if and only if not all streams of the cycle come after it. -/
theorem leads_to_cycle (h : (ofCalls n calls).build = .error (.cycle s)) :
    ∃ placements, Declares n calls placements ∧ Endless placements s ∧
      ∃ x, Leads placements s x ∧ OnCycle placements x ∧
        (OnCycle placements s ↔ ∃ y ≤ s, Leads placements x y) := by
  obtain ⟨placements, hdecl, hendless, hfirst⟩ := endless_of_build h
  obtain ⟨x, hx, hcycle⟩ := hendless.exists_onCycle
  refine ⟨placements, hdecl, hendless, x, hx, hcycle, ?_, ?_⟩
  · intro hs
    exact ⟨s, Nat.le_refl s, hs.leads_back hx⟩
  · rintro ⟨y, hle, hy⟩
    obtain rfl := Nat.le_antisymm hle (hfirst y (hx.trans hy))
    exact (Relation.TransGen.trans_right hx hcycle).trans_left hy

/-- A stream below two that name each other. -/
def hangingCalls : List BuilderCall := [.root 0, .required 1 2, .required 2 3, .required 3 2]

theorem hanging_leads_to_cycle :
    (ofCalls 4 hangingCalls).build = .error (.cycle 1) ∧
      ∃ placements, Declares 4 hangingCalls placements ∧ Endless placements 1 ∧
        ∃ x, Leads placements 1 x ∧ OnCycle placements x ∧
          (OnCycle placements 1 ↔ ∃ y ≤ 1, Leads placements x y) := by
  have hbuild : (ofCalls 4 hangingCalls).build = .error (.cycle 1) := by decide
  exact ⟨hbuild, leads_to_cycle hbuild⟩

/-- The stream that is named need not be on a cycle: it may hang below one. -/
theorem not_onCycle_of_build : ¬ ∀ (n : Nat) (calls : List BuilderCall) (s : StreamIndex),
    (ofCalls n calls).build = .error (.cycle s) →
      ∃ placements, Declares n calls placements ∧ OnCycle placements s ∧ Endless placements s := by
  intro h
  obtain ⟨placements, hdecl, hcycle, -⟩ := h 4 hangingCalls 1 (by decide)
  have hplacements : placements
      = [⟨none, false⟩, ⟨some 2, false⟩, ⟨some 3, false⟩, ⟨some 2, false⟩] :=
    List.map_injective_iff.mpr (fun _ _ => Option.some.inj) (hdecl.placed_eq.symm.trans (by decide))
  subst hplacements
  have habove : ∀ x, Relation.TransGen (fun c p => parentIn
      [⟨none, false⟩, ⟨some 2, false⟩, ⟨some 3, false⟩, ⟨some 2, false⟩] c = some p) 1 x →
        x = 2 ∨ x = 3 := by
    intro x hx
    induction hx with
    | single hstep => exact .inl (Option.some.inj hstep).symm
    | tail _ hstep ih =>
      rcases ih with rfl | rfl
      · exact .inr (Option.some.inj hstep).symm
      · exact .inl (Option.some.inj hstep).symm
  rcases habove 1 hcycle with h | h <;> cases h

end JoinAssembly.TreeBuilder
