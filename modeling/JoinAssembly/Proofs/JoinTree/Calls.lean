import JoinAssembly.JoinTree.Builder
import JoinAssembly.Proofs.FirstFault
import Mathlib.Data.List.Infix

/-!
# What calls leave in a builder

A stream keeps the first placement that it is given and the last name. A call for a stream outside
the join, or one that places a stream again, leaves a mistake and nothing else.
-/

namespace JoinAssembly

namespace BuilderCall

/-- The stream that a call is about. -/
def stream : BuilderCall → StreamIndex
  | .root s => s
  | .required s _ => s
  | .optional s _ => s
  | .place s _ => s
  | .name s _ => s

/-- The placement that a call gives its stream; a call that names a stream gives none. -/
def placement? : BuilderCall → Option Placement
  | .root _ => some ⟨none, false⟩
  | .required _ parent => some ⟨some parent, false⟩
  | .optional _ parent => some ⟨some parent, true⟩
  | .place _ p => some p
  | .name _ _ => none

/-- The name that a call gives its stream. -/
def name? : BuilderCall → Option String
  | .name _ text => some text
  | _ => none

/-- What calls give a stream, in call order. -/
def given {α : Type} (what : BuilderCall → Option α) (calls : List BuilderCall) (s : StreamIndex) :
    List α :=
  calls.filterMap fun c => if c.stream = s then what c else none

/-- The placements that calls give a stream. -/
def placementsOf (calls : List BuilderCall) (s : StreamIndex) : List Placement :=
  given placement? calls s

/-- The names that calls give a stream. -/
def namesOf (calls : List BuilderCall) (s : StreamIndex) : List String := given name? calls s

lemma given_cons {α : Type} (what : BuilderCall → Option α) (c : BuilderCall)
    (calls : List BuilderCall) (s : StreamIndex) : given what (c :: calls) s
      = (if c.stream = s then (what c).toList else []) ++ given what calls s := by
  rw [given, List.filterMap_cons, ← given]
  by_cases hs : c.stream = s
  · cases what c <;> simp [hs]
  · simp [hs]

lemma given_concat {α : Type} (what : BuilderCall → Option α) (calls : List BuilderCall)
    (c : BuilderCall) (s : StreamIndex) : given what (calls ++ [c]) s
      = given what calls s ++ if c.stream = s then (what c).toList else [] := by
  rw [given, given, List.filterMap_append]
  congr 1
  by_cases hs : c.stream = s
  · cases hc : what c <;> simp [hs, hc]
  · simp [hs]

end BuilderCall

namespace TreeBuilder

open BuilderCall

/-- A call places its stream, or it names it. -/
lemma apply_cases (b : TreeBuilder) (c : BuilderCall) :
    (∃ p, c.placement? = some p ∧ c.name? = none ∧ b.apply c = b.place c.stream p) ∨
      ∃ name, c.placement? = none ∧ c.name? = some name ∧ b.apply c = b.name c.stream name := by
  cases c with
  | name s name => exact .inr ⟨name, rfl, rfl, rfl⟩
  | root s => exact .inl ⟨_, rfl, rfl, rfl⟩
  | required s parent => exact .inl ⟨_, rfl, rfl, rfl⟩
  | optional s parent => exact .inl ⟨_, rfl, rfl, rfl⟩
  | place s p => exact .inl ⟨p, rfl, rfl, rfl⟩

/-- What becomes of a placement. -/
lemma place_cases (b : TreeBuilder) (s : StreamIndex) (p : Placement) :
    (b.placed[s]? = none ∧ b.place s p = b.addMistake (.outOfRange s b.names.length)) ∨
      (∃ q, b.placed[s]? = some (some q) ∧ b.place s p = b.addMistake (.placedTwice s)) ∨
      (b.placed[s]? = some none ∧ b.place s p = { b with placed := b.placed.set s (some p) }) := by
  rw [place]
  cases hs : b.placed[s]? with
  | none => exact .inl ⟨rfl, rfl⟩
  | some slot =>
    cases slot with
    | none => exact .inr (.inr ⟨rfl, rfl⟩)
    | some q => exact .inr (.inl ⟨q, rfl, rfl⟩)

/-! ### One call -/

/-- A call leaves a placement where there was none. -/
lemma getElem?_placed_apply (b : TreeBuilder) (c : BuilderCall) (s : StreamIndex) :
    (b.apply c).placed[s]? = b.placed[s]?.map fun slot =>
      slot.or (if c.stream = s then c.placement? else none) := by
  rcases b.apply_cases c with ⟨p, hp, -, happly⟩ | ⟨name, hp, -, happly⟩
  · rw [happly, hp]
    by_cases heq : c.stream = s
    · subst heq
      rcases b.place_cases c.stream p with ⟨hs, hplace⟩ | ⟨q, hs, hplace⟩ | ⟨hs, hplace⟩
      · simp [hplace, addMistake, hs]
      · simp [hplace, addMistake, hs]
      · rw [hplace, List.getElem?_set_self (List.getElem?_eq_some_iff.mp hs).1, hs]
        simp
    · rcases b.place_cases c.stream p with ⟨-, hplace⟩ | ⟨-, -, hplace⟩ | ⟨-, hplace⟩ <;>
        simp [hplace, addMistake, heq]
  · rw [happly, hp, TreeBuilder.name]
    split <;> simp [addMistake]

/-- A call leaves a name in place of the one before. -/
lemma getElem?_names_apply (b : TreeBuilder) (c : BuilderCall) (s : StreamIndex) :
    (b.apply c).names[s]? = b.names[s]?.map fun slot =>
      (if c.stream = s then c.name? else none).or slot := by
  rcases b.apply_cases c with ⟨p, -, hname, happly⟩ | ⟨name, -, hname, happly⟩
  · rw [happly, hname]
    rcases b.place_cases c.stream p with ⟨-, hplace⟩ | ⟨-, -, hplace⟩ | ⟨-, hplace⟩ <;>
      simp [hplace, addMistake]
  · rw [happly, hname, TreeBuilder.name]
    by_cases heq : c.stream = s
    · subst heq
      split
      · rename_i hlt
        simp [hlt]
      · rename_i hlt
        simp [addMistake, hlt]
    · split <;> simp [addMistake, heq]

@[simp] lemma length_names_apply (b : TreeBuilder) (c : BuilderCall) :
    (b.apply c).names.length = b.names.length := by
  rcases b.apply_cases c with ⟨p, -, -, happly⟩ | ⟨name, -, -, happly⟩
  · rw [happly]
    rcases b.place_cases c.stream p with ⟨-, hplace⟩ | ⟨-, -, hplace⟩ | ⟨-, hplace⟩ <;>
      simp [hplace, addMistake]
  · rw [happly, TreeBuilder.name]
    split <;> simp [addMistake]

/-! ### Calls in order -/

lemma ofCalls_concat (n : Nat) (calls : List BuilderCall) (c : BuilderCall) :
    ofCalls n (calls ++ [c]) = (ofCalls n calls).apply c := by
  simp [ofCalls]

/-- A stream keeps its first placement. -/
lemma getElem?_placed_ofCalls (n : Nat) (calls : List BuilderCall) (s : StreamIndex) :
    (ofCalls n calls).placed[s]? = if s < n then some (placementsOf calls s).head? else none := by
  induction calls using List.reverseRecOn with
  | nil => simp [ofCalls, new, placementsOf, given, List.getElem?_replicate]
  | append_singleton calls c ih =>
    rw [ofCalls_concat, getElem?_placed_apply, ih, placementsOf, placementsOf, given_concat,
      List.head?_append]
    by_cases hs : s < n
    · rw [if_pos hs, if_pos hs, Option.map_some]
      split
      · cases (given placement? calls s).head? <;> cases c.placement? <;> rfl
      · cases (given placement? calls s).head? <;> rfl
    · rw [if_neg hs, if_neg hs, Option.map_none]

/-- A stream keeps its last name. -/
lemma getElem?_names_ofCalls (n : Nat) (calls : List BuilderCall) (s : StreamIndex) :
    (ofCalls n calls).names[s]? = if s < n then some (namesOf calls s).getLast? else none := by
  induction calls using List.reverseRecOn with
  | nil => simp [ofCalls, new, namesOf, given, List.getElem?_replicate]
  | append_singleton calls c ih =>
    rw [ofCalls_concat, getElem?_names_apply, ih, namesOf, namesOf, given_concat,
      List.getLast?_append]
    by_cases hs : s < n
    · rw [if_pos hs, if_pos hs, Option.map_some]
      split
      · cases c.name? <;> rfl
      · rfl
    · rw [if_neg hs, if_neg hs, Option.map_none]

@[simp] lemma size_ofCalls (n : Nat) (calls : List BuilderCall) : (ofCalls n calls).size = n := by
  induction calls using List.reverseRecOn with
  | nil => exact size_new n
  | append_singleton calls c ih => rw [ofCalls_concat, size_apply, ih]

@[simp] lemma length_names_ofCalls (n : Nat) (calls : List BuilderCall) :
    (ofCalls n calls).names.length = n := by
  induction calls using List.reverseRecOn with
  | nil => simp [ofCalls, new]
  | append_singleton calls c ih => rw [ofCalls_concat, length_names_apply, ih]

/-! ### Mistakes -/

/-- A call for a join of a given size is a mistake after the calls before it. -/
inductive CallFault (n : Nat) (before : List BuilderCall) (c : BuilderCall) : TreeError → Prop where
  | outOfRange (hs : n ≤ c.stream) : CallFault n before c (.outOfRange c.stream n)
  | placedTwice (hs : c.stream < n) (hplaces : c.placement? ≠ none)
      (hbefore : placementsOf before c.stream ≠ []) : CallFault n before c (.placedTwice c.stream)

/-- A call that is a mistake leaves it behind those before. -/
lemma mistakes_apply_of_fault {n : Nat} {before : List BuilderCall} {c : BuilderCall}
    {e : TreeError} (h : CallFault n before c e) :
    ((ofCalls n before).apply c).mistakes = (ofCalls n before).mistakes ++ [e] := by
  have hplaced := getElem?_placed_ofCalls n before c.stream
  cases h with
  | outOfRange hs =>
    rw [if_neg (Nat.not_lt.mpr hs)] at hplaced
    rcases (ofCalls n before).apply_cases c with ⟨p, -, -, heq⟩ | ⟨name, -, -, heq⟩
    · rw [heq, place, hplaced]
      simp [addMistake]
    · rw [heq, TreeBuilder.name, if_neg (by simpa using hs)]
      simp [addMistake]
  | placedTwice hs hplaces hbefore =>
    obtain ⟨p, rest, hp⟩ := List.exists_cons_of_ne_nil hbefore
    rw [if_pos hs, hp, List.head?_cons] at hplaced
    rcases (ofCalls n before).apply_cases c with ⟨q, -, -, heq⟩ | ⟨name, hnone, -, -⟩
    · rw [heq, place, hplaced]
      rfl
    · exact absurd hnone hplaces

lemma mistakes_apply_of_not_fault {n : Nat} {before : List BuilderCall} {c : BuilderCall}
    (h : ∀ e, ¬ CallFault n before c e) :
    ((ofCalls n before).apply c).mistakes = (ofCalls n before).mistakes := by
  have hs : c.stream < n := Nat.lt_of_not_le fun hs => h _ (.outOfRange hs)
  rcases (ofCalls n before).apply_cases c with ⟨p, hp, -, heq⟩ | ⟨name, -, -, heq⟩
  · have hnone : placementsOf before c.stream = [] := by
      by_contra hbefore
      exact h _ (.placedTwice hs (by simp [hp]) hbefore)
    have hplaced := getElem?_placed_ofCalls n before c.stream
    rw [if_pos hs, hnone, List.head?_nil] at hplaced
    rw [heq, place, hplaced]
  · rw [heq, TreeBuilder.name, if_pos (by simpa using hs)]

/-- Calls that are no mistakes leave none. -/
lemma mistakes_of_faultless {n : Nat} {calls : List BuilderCall}
    (h : Faultless (CallFault n) calls) : (ofCalls n calls).mistakes = [] := by
  induction calls using List.reverseRecOn with
  | nil => rfl
  | append_singleton calls c ih =>
    obtain ⟨hcalls, hc⟩ := faultless_concat.mp h
    rw [ofCalls_concat, mistakes_apply_of_not_fault hc, ih hcalls]

lemma mistakes_apply_prefix (b : TreeBuilder) (c : BuilderCall) :
    b.mistakes <+: (b.apply c).mistakes := by
  rcases b.apply_cases c with ⟨p, -, -, happly⟩ | ⟨name, -, -, happly⟩
  · rw [happly]
    rcases b.place_cases c.stream p with ⟨-, hplace⟩ | ⟨-, -, hplace⟩ | ⟨-, hplace⟩ <;>
      simp [hplace, addMistake]
  · rw [happly, TreeBuilder.name]
    split <;> simp [addMistake]

/-- A mistake stays, whatever calls follow. -/
lemma mistakes_foldl_prefix (calls : List BuilderCall) :
    ∀ b : TreeBuilder, b.mistakes <+: (calls.foldl apply b).mistakes := by
  induction calls with
  | nil => intro b; exact List.prefix_rfl
  | cons c rest ih => intro b; exact (b.mistakes_apply_prefix c).trans (ih _)

/-- The first call that is a mistake leaves the first mistake. -/
lemma head?_mistakes_of_fault {n : Nat} {calls : List BuilderCall} {e : TreeError}
    (h : FirstFault (CallFault n) calls e) : (ofCalls n calls).mistakes.head? = some e := by
  obtain ⟨before, c, after, rfl, hbefore, hc⟩ := h
  have hfirst : ((ofCalls n before).apply c).mistakes = [e] := by
    rw [mistakes_apply_of_fault hc, mistakes_of_faultless hbefore, List.nil_append]
  obtain ⟨later, hlater⟩ := mistakes_foldl_prefix after ((ofCalls n before).apply c)
  have hcalls : ofCalls n (before ++ c :: after)
      = after.foldl apply ((ofCalls n before).apply c) := by
    simp [ofCalls]
  rw [hcalls, ← hlater, hfirst, List.singleton_append, List.head?_cons]

end TreeBuilder

end JoinAssembly
