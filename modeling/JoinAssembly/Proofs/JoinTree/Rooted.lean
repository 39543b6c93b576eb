import JoinAssembly.Proofs.JoinTree.Calls
import JoinAssembly.Proofs.JoinTree.Sound
import Mathlib.Data.Nat.Find

/-!
# Rooted trees

A builder accepts the calls that declare every stream once and lead from every stream to one root
that is not optional. Everything else is an error, and which one is told does not depend on what
else is wrong.
-/

namespace JoinAssembly.TreeBuilder

open BuilderCall

variable {n : Nat} {calls : List BuilderCall} {placements : List Placement} {root : StreamIndex}

/-! ### Streams that lead to the root -/

/-- Following the parents from a stream leads to another. -/
def Leads (placements : List Placement) : StreamIndex → StreamIndex → Prop :=
  Relation.ReflTransGen fun c p => parentIn placements c = some p

/-- The walk from the root meets the streams that lead to it. -/
lemma Checked.mem_walk (h : Checked placements root) {s : StreamIndex} :
    s ∈ preorderWalk (childTable placements) placements.length root ↔ Leads placements s root :=
  h.forest.mem_preorderWalk

lemma firstMissed_eq_some {size : Nat} {walk : List StreamIndex} {s : StreamIndex} (hs : s < size)
    (hmissed : s ∉ walk) (hfirst : ∀ x < s, x ∈ walk) : firstMissed size walk = some s := by
  rw [firstMissed, List.find?_range_eq_some]
  refine ⟨by simpa using hmissed, by simpa using hs, fun x hx => by simpa using hfirst x hx⟩

/-- The smallest stream that does not lead to the root is told. -/
lemma growTree_of_lost {s : StreamIndex} (h : Checked placements root)
    (names : List (Option String)) (hs : s < placements.length) (hlost : ¬ Leads placements s root)
    (hfirst : ∀ x < s, Leads placements x root) :
    growTree placements names root = .error (.cycle s) := by
  have hmissed : s ∉ preorderWalk (childTable placements) placements.length root :=
    fun hmem => hlost (h.mem_walk.mp hmem)
  have hlen : (preorderWalk (childTable placements) placements.length root).length
      < placements.length := by
    by_contra hle
    have hperm := h.forest.preorderWalk_perm (Nat.le_of_not_lt hle)
    exact hmissed (hperm.mem_iff.mpr (List.mem_range.mpr hs))
  rw [growTree_eq, if_pos hlen,
    firstMissed_eq_some hs hmissed fun x hx => h.mem_walk.mpr (hfirst x hx), Option.getD_some]

/-- If all streams lead to the root, the tree is grown. -/
lemma growTree_of_leads (h : Checked placements root)
    (names : List (Option String)) (hleads : ∀ s < placements.length, Leads placements s root) :
    growTree placements names root = .ok (grown placements names root) := by
  refine growTree_eq_ok_iff.mpr ⟨?_, rfl⟩
  have hsub : (List.range placements.length).Subperm
      (preorderWalk (childTable placements) placements.length root) :=
    List.nodup_range.subperm fun s hs => h.mem_walk.mpr (hleads s (List.mem_range.mp hs))
  simpa using hsub.length_le

/-! ### Trees and faults -/

/-- Calls for streams of the join only that place every stream once. -/
structure Declares (n : Nat) (calls : List BuilderCall) (placements : List Placement) : Prop where
  length_eq : placements.length = n
  stream_lt : ∀ c ∈ calls, c.stream < n
  placementsOf_eq : ∀ {s p}, placements[s]? = some p → placementsOf calls s = [p]

/-- Placements that form a tree: one stream has no parent and is not optional, and following the
parents leads from every stream to it. -/
structure Rooted (placements : List Placement) (root : StreamIndex) : Prop where
  getElem?_root : placements[root]? = some ⟨none, false⟩
  eq_root : ∀ s < placements.length, parentIn placements s = none → s = root
  parent_lt : ∀ {c p}, parentIn placements c = some p → p < placements.length
  leads : ∀ s < placements.length, Leads placements s root

/-- What is wrong with the calls for a join of a given size. Each error presupposes that the checks
before it find nothing. -/
inductive BuildFault (n : Nat) (calls : List BuilderCall) : TreeError → Prop where
  | empty (hn : n = 0) : BuildFault n calls .empty
  | call {e : TreeError} (hn : 0 < n) (hcall : FirstFault (CallFault n) calls e) :
      BuildFault n calls e
  | missing {s : StreamIndex} (hcalls : Faultless (CallFault n) calls) (hs : s < n)
      (hnone : placementsOf calls s = []) (hfirst : ∀ x < s, placementsOf calls x ≠ []) :
      BuildFault n calls (.missing s)
  | placement {placements : List Placement} {e : TreeError} (hn : 0 < n)
      (hdecl : Declares n calls placements) (hfault : FirstFault (PlacementFault n) placements e) :
      BuildFault n calls e
  | noRoot {placements : List Placement} (hn : 0 < n) (hdecl : Declares n calls placements)
      (hfree : Faultless (PlacementFault n) placements)
      (hroot : ∀ p ∈ placements, p.parent ≠ none) : BuildFault n calls .noRoot
  | optionalRoot {placements : List Placement} {root : StreamIndex}
      (hdecl : Declares n calls placements) (hfree : Faultless (PlacementFault n) placements)
      (hroot : placements[root]? = some ⟨none, true⟩) : BuildFault n calls (.optionalRoot root)
  | cycle {placements : List Placement} {root s : StreamIndex}
      (hdecl : Declares n calls placements) (hfree : Faultless (PlacementFault n) placements)
      (hroot : placements[root]? = some ⟨none, false⟩) (hs : s < n)
      (hlost : ¬ Leads placements s root) (hfirst : ∀ x < s, Leads placements x root) :
      BuildFault n calls (.cycle s)

/-! ### Placements of every stream -/

lemma Declares.faultless (h : Declares n calls placements) : Faultless (CallFault n) calls := by
  rintro before c after rfl e hfault
  have hs : c.stream < n := h.stream_lt c (List.mem_append_right _ List.mem_cons_self)
  cases hfault with
  | outOfRange hge => exact absurd hs (Nat.not_lt.mpr hge)
  | placedTwice _ hplaces hbefore =>
    obtain ⟨p, hp⟩ := Option.ne_none_iff_exists'.mp hplaces
    have hlt : c.stream < placements.length := h.length_eq ▸ hs
    have hone := h.placementsOf_eq (List.getElem?_eq_getElem hlt)
    rw [placementsOf, given, List.filterMap_append, List.filterMap_cons_some
      (b := p) (by rw [if_pos rfl, hp])] at hone
    have hlen := congrArg List.length hone
    have hpos : 0 < (placementsOf before c.stream).length := List.length_pos_of_ne_nil hbefore
    rw [placementsOf, given] at hpos
    simp only [List.length_append, List.length_cons, List.length_nil] at hlen
    omega

/-- The placements stand in the builder as they are given. -/
lemma Declares.placed_eq (h : Declares n calls placements) :
    (ofCalls n calls).placed = placements.map some := by
  apply List.ext_getElem?
  intro s
  rw [getElem?_placed_ofCalls, List.getElem?_map]
  by_cases hs : s < n
  · have hget := List.getElem?_eq_getElem (h.length_eq.symm ▸ hs)
    rw [if_pos hs, hget, h.placementsOf_eq hget]
    rfl
  · rw [if_neg hs, List.getElem?_eq_none (h.length_eq.symm ▸ Nat.le_of_not_lt hs)]
    rfl

lemma Declares.unique {placements' : List Placement} (h : Declares n calls placements)
    (h' : Declares n calls placements') : placements = placements' :=
  List.map_injective_iff.mpr (fun _ _ => Option.some.inj) (h.placed_eq.symm.trans h'.placed_eq)

/-- Calls without mistake place no stream twice. -/
lemma length_placementsOf_le (h : Faultless (CallFault n) calls) (s : StreamIndex) :
    (placementsOf calls s).length ≤ 1 := by
  induction calls using List.reverseRecOn with
  | nil => simp [placementsOf, given]
  | append_singleton calls c ih =>
    obtain ⟨hcalls, hc⟩ := faultless_concat.mp h
    have hle := ih hcalls
    rw [placementsOf, given_concat, List.length_append]
    rw [placementsOf] at hle
    split
    · rename_i hs
      cases hp : c.placement? with
      | none => simpa using hle
      | some p =>
        have hlt : c.stream < n := Nat.lt_of_not_le fun hge => hc _ (.outOfRange hge)
        have hnil : placementsOf calls c.stream = [] := by
          by_contra hbefore
          exact hc _ (.placedTwice hlt (by simp [hp]) hbefore)
        rw [placementsOf, hs] at hnil
        simp [hnil]
    · simpa using hle

/-- Calls without mistake that place every stream declare it. -/
lemma exists_declares (hcalls : Faultless (CallFault n) calls)
    (hall : ∀ s < n, placementsOf calls s ≠ []) : ∃ placements, Declares n calls placements := by
  have hone : ∀ s < n, ∃ p, placementsOf calls s = [p] := by
    intro s hs
    have hle := length_placementsOf_le hcalls s
    have hpos := List.length_pos_of_ne_nil (hall s hs)
    exact List.length_eq_one_iff.mp (by omega)
  choose p hp using hone
  refine ⟨List.ofFn fun s : Fin n => p s s.isLt, List.length_ofFn, ?_, ?_⟩
  · intro c hc
    obtain ⟨before, after, rfl⟩ := List.append_of_mem hc
    exact Nat.lt_of_not_le fun hge => hcalls _ _ _ rfl _ (.outOfRange hge)
  · intro s q hq
    rw [List.getElem?_ofFn] at hq
    split at hq
    · rename_i hs
      rw [← Option.some.inj hq]
      exact hp s hs
    · cases hq

/-! ### Placements that form a tree -/

/-- A stream that names itself leads nowhere else. -/
lemma Leads.eq_of_ownParent {s x : StreamIndex} (h : Leads placements s x)
    (hs : parentIn placements s = some s) : x = s := by
  induction h with
  | refl => rfl
  | tail _ hstep ih =>
    subst ih
    exact Option.some.inj (hstep.symm.trans hs)

lemma Rooted.checked (h : Rooted placements root) : Checked placements root where
  root_lt := (List.getElem?_eq_some_iff.mp h.getElem?_root).1
  parent_root := parentIn_eq_none h.getElem?_root rfl
  eq_root := h.eq_root
  parent_lt := h.parent_lt

lemma Rooted.faultless (h : Rooted placements root) :
    Faultless (PlacementFault placements.length) placements := by
  rintro before p after hsplit e hfault
  have hlt : before.length < placements.length := by
    rw [hsplit, List.length_append, List.length_cons]
    omega
  have hget : placements[before.length]? = some p := by
    rw [hsplit, List.getElem?_append_right (Nat.le_refl _), Nat.sub_self]
    rfl
  have hparent : parentIn placements before.length = p.parent := by
    rw [parentIn, hget, Option.bind_some]
  cases hfault with
  | @severalRoots first hp hfirst =>
    obtain ⟨hfirst, hnone, -⟩ := List.findIdx?_eq_some_iff_getElem.mp hfirst
    have hget' : placements[first]? = some before[first] := by
      rw [hsplit, List.getElem?_append_left hfirst, List.getElem?_eq_getElem hfirst]
    have hsame : first = before.length := by
      rw [h.eq_root first (Nat.lt_trans hfirst hlt)
          (parentIn_eq_none hget' (Option.isNone_iff_eq_none.mp hnone)),
        h.eq_root before.length hlt (parentIn_eq_none hget hp)]
    exact absurd hsame (Nat.ne_of_lt hfirst)
  | parentOutOfRange hp hge =>
    exact absurd (h.parent_lt (hparent.trans hp)) (Nat.not_lt.mpr hge)
  | ownParent hp _ =>
    have heq := (h.leads before.length hlt).eq_of_ownParent (hparent.trans hp)
    have hroot := h.checked.parent_root
    rw [heq, hparent, hp] at hroot
    cases hroot

/-- Placements without fault pass the checks, if their root is not optional. -/
lemma requireRoot_of_faultless (hfree : Faultless (PlacementFault placements.length) placements)
    (hroot : placements[root]? = some ⟨none, false⟩) :
    requireRoot placements = .ok root ∧ Checked placements root := by
  have hok : requireRoot placements = .ok root := by
    rw [requireRoot_of_root hfree (firstRoot?_of_faultless hfree hroot rfl), hroot]
    rfl
  exact ⟨hok, checked_of_faultless hfree hroot rfl⟩

/-! ### What a builder answers -/

/-- Without mistakes in single calls the placements are checked. -/
lemma build_of_faultless (hn : 0 < n) (hcalls : Faultless (CallFault n) calls) :
    (ofCalls n calls).build = requirePlaced 0 (ofCalls n calls).placed >>= fun placements =>
      requireRoot placements >>= fun root =>
        growTree placements (ofCalls n calls).names root := by
  rw [build, size_ofCalls, if_neg (Nat.ne_of_gt hn), mistakes_of_faultless hcalls]
  rfl

lemma build_of_declares (hn : 0 < n) (hdecl : Declares n calls placements) :
    (ofCalls n calls).build = requireRoot placements >>= fun root =>
      growTree placements (ofCalls n calls).names root := by
  rw [build_of_faultless hn hdecl.faultless, hdecl.placed_eq, requirePlaced_map_some]
  rfl

lemma allSome_or_firstNone {α : Type} (l : List (Option α)) :
    (∃ xs : List α, l = xs.map some) ∨
      ∃ (before : List α) (after : List (Option α)), l = before.map some ++ none :: after := by
  induction l with
  | nil => exact .inl ⟨[], rfl⟩
  | cons o rest ih =>
    cases o with
    | none => exact .inr ⟨[], rest, rfl⟩
    | some x =>
      rcases ih with ⟨xs, rfl⟩ | ⟨before, after, rfl⟩
      · exact .inl ⟨x :: xs, rfl⟩
      · exact .inr ⟨x :: before, after, rfl⟩

/-- The smallest stream that is not placed is told. -/
lemma build_of_missing (hcalls : Faultless (CallFault n) calls) {s : StreamIndex} (hs : s < n)
    (hnone : placementsOf calls s = []) (hfirst : ∀ x < s, placementsOf calls x ≠ []) :
    (ofCalls n calls).build = .error (.missing s) := by
  have hslot : (ofCalls n calls).placed[s]? = some none := by
    rw [getElem?_placed_ofCalls, if_pos hs, hnone]
    rfl
  rw [build_of_faultless (Nat.zero_lt_of_lt hs) hcalls]
  rcases allSome_or_firstNone (ofCalls n calls).placed with ⟨ps, hps⟩ | ⟨before, after, hsplit⟩
  · rw [hps, List.getElem?_map] at hslot
    obtain ⟨p, -, hp⟩ := Option.map_eq_some_iff.mp hslot
    cases hp
  · -- The first slot without placement is that of `s`.
    have hgap : (ofCalls n calls).placed[before.length]? = some none := by
      rw [hsplit, List.getElem?_append_right (by simp)]
      simp
    have hlen : before.length = s := by
      rcases Nat.lt_trichotomy before.length s with hlt | heq | hgt
      · rw [getElem?_placed_ofCalls, if_pos (Nat.lt_trans hlt hs)] at hgap
        exact absurd (List.head?_eq_none_iff.mp (Option.some.inj hgap)) (hfirst _ hlt)
      · exact heq
      · rw [hsplit, List.getElem?_append_left (by simpa using hgt), List.getElem?_map] at hslot
        obtain ⟨p, -, hp⟩ := Option.map_eq_some_iff.mp hslot
        cases hp
    rw [hsplit, requirePlaced_of_missing, hlen, Nat.zero_add]
    rfl

/-- The tree of calls that form one. -/
lemma build_of_rooted (hdecl : Declares n calls placements) (hrooted : Rooted placements root) :
    (ofCalls n calls).build = .ok (grown placements (ofCalls n calls).names root) := by
  have hn : 0 < n := hdecl.length_eq ▸ Nat.zero_lt_of_lt hrooted.checked.root_lt
  obtain ⟨hroot, hchecked⟩ := requireRoot_of_faultless hrooted.faultless hrooted.getElem?_root
  rw [build_of_declares hn hdecl, hroot]
  exact growTree_of_leads hchecked _ hrooted.leads

/-- What is wrong with the calls is told. -/
lemma build_of_fault {e : TreeError} (h : BuildFault n calls e) :
    (ofCalls n calls).build = .error e := by
  cases h with
  | empty hn =>
    rw [build, size_ofCalls, if_pos hn]
    rfl
  | call hn hcall =>
    rw [build, size_ofCalls, if_neg (Nat.ne_of_gt hn), head?_mistakes_of_fault hcall]
    rfl
  | missing hcalls hs hnone hfirst => exact build_of_missing hcalls hs hnone hfirst
  | placement hn hdecl hfault =>
    obtain rfl := hdecl.length_eq
    rw [build_of_declares hn hdecl, requireRoot_of_fault hfault]
    rfl
  | @noRoot placements hn hdecl hfree hroot =>
    obtain rfl := hdecl.length_eq
    have hnone : firstRoot? placements = none := by
      rw [firstRoot?, List.findIdx?_eq_none_iff]
      exact fun p hp => Option.isNone_eq_false_iff.mpr (Option.isSome_iff_ne_none.mpr (hroot p hp))
    rw [build_of_declares hn hdecl, requireRoot_of_noRoot hfree hnone]
    rfl
  | @optionalRoot placements root hdecl hfree hroot =>
    obtain rfl := hdecl.length_eq
    have hn : 0 < placements.length :=
      Nat.zero_lt_of_lt (List.getElem?_eq_some_iff.mp hroot).1
    rw [build_of_declares hn hdecl,
      requireRoot_of_root hfree (firstRoot?_of_faultless hfree hroot rfl), hroot]
    rfl
  | cycle hdecl hfree hroot hs hlost hfirst =>
    obtain rfl := hdecl.length_eq
    obtain ⟨hok, hchecked⟩ := requireRoot_of_faultless hfree hroot
    rw [build_of_declares (Nat.zero_lt_of_lt hs) hdecl, hok]
    exact growTree_of_lost hchecked _ hs hlost hfirst

/-- Of the numbers below `n`, all are as wanted or one is the first that is not. -/
lemma all_or_first (n : Nat) (P : Nat → Prop) :
    (∀ s < n, P s) ∨ ∃ s < n, ¬ P s ∧ ∀ x < s, P x := by
  classical
  by_cases h : ∃ s, s < n ∧ ¬ P s
  · obtain ⟨hs, hfalse⟩ := Nat.find_spec h
    refine .inr ⟨Nat.find h, hs, hfalse, fun x hx => not_not.mp fun hfalse => ?_⟩
    exact Nat.find_min h hx ⟨Nat.lt_trans hx hs, hfalse⟩
  · exact .inl fun s hs => not_not.mp fun hfalse => h ⟨s, hs, hfalse⟩

/-- Placements of every stream form a tree, or something is wrong with them. -/
lemma fault_or_rooted_of_declares (hn : 0 < n) (hdecl : Declares n calls placements) :
    (∃ e, BuildFault n calls e) ∨ ∃ root, Rooted placements root := by
  rcases faultless_or_firstFault (PlacementFault n) placements with hfree | ⟨e, hfault⟩
  · by_cases hnone : ∀ p ∈ placements, p.parent ≠ none
    · exact .inl ⟨_, .noRoot hn hdecl hfree hnone⟩
    · push Not at hnone
      obtain ⟨p, hp, hparent⟩ := hnone
      obtain ⟨root, hroot⟩ := List.getElem?_of_mem hp
      obtain ⟨parent, optional⟩ := p
      cases hparent
      cases optional with
      | true => exact .inl ⟨_, .optionalRoot hdecl hfree hroot⟩
      | false =>
        rcases all_or_first n fun s => Leads placements s root with
          hleads | ⟨s, hs, hlost, hfirst⟩
        · obtain rfl := hdecl.length_eq
          have hchecked := (requireRoot_of_faultless hfree hroot).2
          exact .inr ⟨root, hroot, hchecked.eq_root, hchecked.parent_lt, hleads⟩
        · exact .inl ⟨_, .cycle hdecl hfree hroot hs hlost hfirst⟩
  · exact .inl ⟨e, .placement hn hdecl hfault⟩

/-- Calls form a tree, or something is wrong with them. -/
lemma fault_or_rooted (n : Nat) (calls : List BuilderCall) :
    (∃ e, BuildFault n calls e) ∨
      0 < n ∧ ∃ placements root, Declares n calls placements ∧ Rooted placements root := by
  rcases Nat.eq_zero_or_pos n with hn | hn
  · exact .inl ⟨_, .empty hn⟩
  · rcases faultless_or_firstFault (CallFault n) calls with hcalls | ⟨e, hcall⟩
    · rcases all_or_first n fun s => placementsOf calls s ≠ [] with
        hall | ⟨s, hs, hnone, hfirst⟩
      · obtain ⟨placements, hdecl⟩ := exists_declares hcalls hall
        rcases fault_or_rooted_of_declares hn hdecl with hfault | ⟨root, hrooted⟩
        · exact .inl hfault
        · exact .inr ⟨hn, placements, root, hdecl, hrooted⟩
      · exact .inl ⟨_, .missing hcalls hs (not_not.mp hnone) hfirst⟩
    · exact .inl ⟨e, .call hn hcall⟩

/-- A tree that is built is that of calls that form one. -/
lemma rooted_of_build {t : JoinTree} (h : (ofCalls n calls).build = .ok t) :
    0 < n ∧ ∃ placements, Declares n calls placements ∧ Rooted placements t.root ∧
      t = grown placements (ofCalls n calls).names t.root := by
  rcases fault_or_rooted n calls with ⟨e, hfault⟩ | ⟨hn, placements, root, hdecl, hrooted⟩
  · cases h.symm.trans (build_of_fault hfault)
  · cases h.symm.trans (build_of_rooted hdecl hrooted)
    exact ⟨hn, placements, hdecl, hrooted, rfl⟩

/-- An error tells what is wrong with the calls. -/
lemma fault_of_build {e : TreeError} (h : (ofCalls n calls).build = .error e) :
    BuildFault n calls e := by
  rcases fault_or_rooted n calls with ⟨e, hfault⟩ | ⟨-, placements, root, hdecl, hrooted⟩
  · cases h.symm.trans (build_of_fault hfault)
    exact hfault
  · cases h.symm.trans (build_of_rooted hdecl hrooted)

/-- The node of a stream in the tree of calls that form one. -/
lemma node?_grown (hdecl : Declares n calls placements) {s : StreamIndex} {p : Placement}
    (hs : placements[s]? = some p) :
    (grown placements (ofCalls n calls).names root).node? s = some ⟨s, p.parent, p.optional,
      (List.range n).filter fun c => parentIn placements c = some s,
      (namesOf calls s).getLast?⟩ := by
  have hlt : s < n := hdecl.length_eq ▸ (List.getElem?_eq_some_iff.mp hs).1
  rw [JoinTree.node?, grown, getElem?_nodesFrom, hs, Option.map_some, getElem?_names_ofCalls,
    if_pos hlt, childrenIn_eq_filter, hdecl.length_eq]
  rfl

/-- A builder accepts the calls that form a tree, and no others. The tree is as declared: every
node has its parent, its flag and its last name, and for children the streams that name it. If the
calls form none, the error is what the first check finds that finds something. -/
theorem build_ofCalls (n : Nat) (calls : List BuilderCall) :
    ((∃ t, (ofCalls n calls).build = .ok t) ↔
        0 < n ∧ ∃ placements root, Declares n calls placements ∧ Rooted placements root) ∧
      (∀ t, (ofCalls n calls).build = .ok t → t.size = n ∧
        ∃ placements, Declares n calls placements ∧ Rooted placements t.root ∧
          ∀ s p, placements[s]? = some p → t.node? s = some ⟨s, p.parent, p.optional,
            (List.range n).filter fun c => parentIn placements c = some s,
            (namesOf calls s).getLast?⟩) ∧
      ∀ e, (ofCalls n calls).build = .error e ↔ BuildFault n calls e := by
  refine ⟨⟨?_, ?_⟩, ?_, fun e => ⟨fault_of_build, build_of_fault⟩⟩
  · rintro ⟨t, ht⟩
    obtain ⟨hn, placements, hdecl, hrooted, -⟩ := rooted_of_build ht
    exact ⟨hn, placements, t.root, hdecl, hrooted⟩
  · rintro ⟨-, placements, root, hdecl, hrooted⟩
    exact ⟨_, build_of_rooted hdecl hrooted⟩
  · intro t ht
    obtain ⟨-, placements, hdecl, hrooted, heq⟩ := rooted_of_build ht
    refine ⟨by rw [heq, size_grown, hdecl.length_eq], placements, hdecl, hrooted, ?_⟩
    intro s p hs
    rw [heq]
    exact node?_grown hdecl hs

theorem build_ofCalls_pair :
    (∃ t, (ofCalls 2 [.name 1 "left", .optional 1 0, .root 0, .name 1 "right"]).build = .ok t ∧
      t.size = 2 ∧ t.root = 0 ∧ t.node? 1 = some ⟨1, some 0, true, [], some "right"⟩ ∧
      ∃ placements, Rooted placements t.root) ∧
    BuildFault 3 [.root 0, .required 1 2, .required 2 1] (.cycle 1) := by
  have hbuild : (ofCalls 2 [.name 1 "left", .optional 1 0, .root 0, .name 1 "right"]).build
      = .ok ⟨[⟨0, none, false, [1], none⟩, ⟨1, some 0, true, [], some "right"⟩], 0, [0, 1], [1, 0],
          [[0, 1], [1]]⟩ := by decide
  obtain ⟨hsize, placements, -, hrooted, -⟩ := (build_ofCalls 2 _).2.1 _ hbuild
  exact ⟨⟨_, hbuild, hsize, rfl, rfl, placements, hrooted⟩,
    ((build_ofCalls 3 _).2.2 _).mp (by decide)⟩

end JoinAssembly.TreeBuilder
