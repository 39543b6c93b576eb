import Mathlib.Data.List.Induction
import Mathlib.Tactic.Lemma

/-!
# First faults

A list is checked member by member, each against the members before it. What is told is what is
wrong with the first member that something is wrong with.
-/

namespace JoinAssembly

variable {α ε : Type}

/-- Nothing is wrong with any member of a list after those before it. -/
def Faultless (fault : List α → α → ε → Prop) (l : List α) : Prop :=
  ∀ before a after, l = before ++ a :: after → ∀ e, ¬ fault before a e

/-- What is wrong with the first member of a list that something is wrong with. -/
def FirstFault (fault : List α → α → ε → Prop) (l : List α) (e : ε) : Prop :=
  ∃ before a after, l = before ++ a :: after ∧ Faultless fault before ∧ fault before a e

variable {fault : List α → α → ε → Prop} {l : List α} {a : α}

lemma faultless_nil : Faultless fault [] := by
  intro before a after h
  simp at h

/-- If something is wrong with a first member, something is wrong. -/
lemma FirstFault.not_faultless {e : ε} (h : FirstFault fault l e) : ¬ Faultless fault l := by
  obtain ⟨before, a, after, hl, -, ha⟩ := h
  exact fun hnone => hnone before a after hl e ha

/-- If there is one thing wrong with a member at most, one thing at most is wrong with the first. -/
lemma FirstFault.unique {e e' : ε} (hfault : ∀ before a e e', fault before a e →
    fault before a e' → e = e') (h : FirstFault fault l e) (h' : FirstFault fault l e') : e = e' := by
  obtain ⟨before, a, after, rfl, hnone, ha⟩ := h
  obtain ⟨before', a', after', heq, hnone', ha'⟩ := h'
  rcases List.append_eq_append_iff.mp heq with ⟨l, rfl, hl⟩ | ⟨l, rfl, hl⟩
  · cases l with
    | nil =>
      cases hl
      rw [List.append_nil] at ha'
      exact hfault before a e e' ha ha'
    | cons b l =>
      cases hl
      exact absurd ha (hnone' before a l rfl e)
  · cases l with
    | nil =>
      cases hl
      rw [List.append_nil] at ha
      exact hfault before' a e e' ha ha'
    | cons b l =>
      cases hl
      exact absurd ha' (hnone before' a' l rfl e')

/-- No member is at fault after those before its place. -/
lemma Faultless.not_fault_take (h : Faultless fault l) {i : Nat} (hi : l[i]? = some a) (e : ε) :
    ¬ fault (l.take i) a e := by
  obtain ⟨hlt, rfl⟩ := List.getElem?_eq_some_iff.mp hi
  refine h _ _ (l.drop (i + 1)) ?_ e
  rw [← List.drop_eq_getElem_cons hlt, List.take_append_drop]

lemma faultless_concat : Faultless fault (l ++ [a]) ↔ Faultless fault l ∧ ∀ e, ¬ fault l a e := by
  constructor
  · intro h
    refine ⟨?_, h l a [] rfl⟩
    rintro before b after rfl
    exact h before b (after ++ [a]) (by simp)
  · rintro ⟨hl, ha⟩ before b after heq
    induction after using List.reverseRecOn with
    | nil =>
      obtain ⟨rfl, hsame⟩ := List.append_inj' heq rfl
      cases hsame
      exact ha
    | append_singleton after c _ =>
      rw [← List.cons_append, ← List.append_assoc] at heq
      exact hl before b after (List.append_inj' heq rfl).1

/-- Either nothing is wrong with a list, or something is wrong with a first member. -/
lemma faultless_or_firstFault (fault : List α → α → ε → Prop) (l : List α) :
    Faultless fault l ∨ ∃ e, FirstFault fault l e := by
  induction l using List.reverseRecOn with
  | nil => exact .inl faultless_nil
  | append_singleton l a ih =>
    rcases ih with hl | ⟨e, before, b, after, rfl, hbefore, hb⟩
    · by_cases ha : ∃ e, fault l a e
      · obtain ⟨e, he⟩ := ha
        exact .inr ⟨e, l, a, [], rfl, hl, he⟩
      · exact .inl (faultless_concat.mpr ⟨hl, fun e he => ha ⟨e, he⟩⟩)
    · exact .inr ⟨e, before, b, after ++ [a], by simp, hbefore, hb⟩

/-! ### The longest prefix without fault -/

lemma Faultless.of_prefix {l' : List α} (h : Faultless fault l) (hl : l' <+: l) :
    Faultless fault l' := by
  obtain ⟨rest, rfl⟩ := hl
  rintro before a after rfl
  exact h before a (after ++ rest) (by simp)

/-- A list is without fault up to its end, or up to a first member that something is wrong with. -/
lemma exists_longest_faultless (fault : List α → α → ε → Prop) (l : List α) :
    ∃ free rest, l = free ++ rest ∧ Faultless fault free ∧
      ∀ a after, rest = a :: after → ∃ e, fault free a e := by
  rcases faultless_or_firstFault fault l with hl | ⟨e, free, a, after, hl, hfree, ha⟩
  · exact ⟨l, [], (List.append_nil l).symm, hl, fun _ _ h => by cases h⟩
  · exact ⟨free, a :: after, hl, hfree, fun _ _ h => by cases h; exact ⟨e, ha⟩⟩

/-- The prefixes without fault are those that do not reach the first fault. -/
lemma faultless_prefix_iff {free rest before : List α} (hfree : Faultless fault free)
    (hrest : ∀ a after, rest = a :: after → ∃ e, fault free a e)
    (hbefore : before <+: free ++ rest) : Faultless fault before ↔ before <+: free := by
  refine ⟨fun h => ?_, hfree.of_prefix⟩
  rcases List.prefix_or_prefix_of_prefix hbefore (List.prefix_append free rest) with
    hshort | ⟨more, rfl⟩
  · exact hshort
  · cases more with
    | nil => exact (List.append_nil free).symm ▸ List.prefix_rfl
    | cons a more =>
      obtain ⟨after, hafter⟩ := (List.prefix_append_right_inj free).mp hbefore
      obtain ⟨e, ha⟩ := hrest a (more ++ after) hafter.symm
      exact absurd ha (h free a more rfl e)

end JoinAssembly
