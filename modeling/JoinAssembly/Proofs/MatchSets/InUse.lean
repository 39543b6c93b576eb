import JoinAssembly.Proofs.MatchSets.Added

/-!
# Match sets in use

Match sets are made, copied, added to, cleared and filled in any order. Whatever is called, their
match nodes stand under their own streams and hold events, and the address that an addition answers
leads to what was added until the sets are cleared or filled anew.
-/

namespace JoinAssembly

variable {ε : Type}

/-- A call for match sets, of which several may be in use. They are told apart by their places in a
list; those that a call makes come last. -/
inductive SetsCall (ε : Type) : Type 1 where
  | make (width : Nat)
  | makeOfRoot (width : Nat) (root : StreamIndex) (events : List ε)
  | copy (i : Nat)
  | add (i : Nat) (a : MatchSets.Addition ε)
  | clear (i : Nat)
  | fill {σ : Type} (i : Nat) (t : JoinTree) (rootEvents : List ε) (lookup : Lookup ε σ) (state : σ)

/-- A call makes match sets in use forget what they hold. -/
def SetsCall.Resets (c : SetsCall ε) (i : Nat) : Prop :=
  match c with
  | .clear j | .fill j .. => j = i
  | .make _ | .makeOfRoot .. | .copy _ | .add .. => False

namespace MatchSets

/-- What may be relied on in match sets: of the match nodes, and of the events as they are listed
with their match nodes. -/
structure Kept [DecidableEq ε] (m : MatchSets ε) : Prop where
  stream_eq : ∀ s, ∀ node ∈ m.nodesOf s, node.stream = s
  events_ne_nil : ∀ s, ∀ node ∈ m.nodesOf s, node.events.toList ≠ []
  nodup_events : ∀ s, ∀ node ∈ m.nodesOf s, node.events.toList.Nodup
  /-- There is a linked match node just if there is a linked event. The type of links carries this:
  a link holds both, and a match node has a link or none. -/
  linked_iff : ∀ s, ∀ node ∈ m.nodesOf s,
    (node.parent.map (·.place)).isSome ↔ (node.parent.map (·.event)).isSome
  nodup_cursors : ∀ s, (m.cursors s).Nodup
  mem_cursors : ∀ s r e, (r, e) ∈ m.cursors s ↔
    r.stream = s ∧ ∃ node ∈ m.node? r, e ∈ node.events.toList
  pairwise_cursors : ∀ s, (m.cursors s).Pairwise m.Precedes
  countEvents_eq : ∀ s, m.countEvents s = (m.cursors s).length
  /-- Looking an event up in its match node finds its place. -/
  locate_eq : ∀ s r e, (r, e) ∈ m.cursors s → ∃ node position, m.node? r = some node ∧
    node.events.toList[position]? = some e ∧ m.locate s r e = .ok (node, position)

variable [DecidableEq ε] {m : MatchSets ε} {sets : List (MatchSets ε)} {i : Nat}

lemma Tidy.kept (h : m.Tidy) : m.Kept where
  stream_eq _ _ := h.stream_eq
  events_ne_nil _ _ := h.events_ne_nil
  nodup_events _ node _ := node.events.nodup
  linked_iff _ node _ := by simp
  nodup_cursors := m.nodup_listed
  mem_cursors _ _ _ := MatchSets.mem_cursors
  pairwise_cursors := m.pairwise_cursors
  countEvents_eq := m.countEvents_eq
  locate_eq _ _ _ := locate_of_mem_cursors

/-! ### Calls -/

/-- Make a call for some of the match sets in use. Only an addition answers an address. -/
def perform (sets : List (MatchSets ε)) : SetsCall ε → Option MatchRef × List (MatchSets ε)
  | .make width => (none, sets ++ [.empty width])
  | .makeOfRoot width root events => (none, sets ++ [.ofRoot width root events])
  | .copy i => (none, sets ++ sets[i]?.toList)
  | .add i a => (sets[i]?.bind fun m => (m.add a).1, sets.modify i fun m => (m.add a).2)
  | .clear i => (none, sets.modify i .clear)
  | .fill i t rootEvents lookup state =>
    (none, sets.modify i fun m => (m.fillWith t rootEvents lookup state).1)

/-- The match sets in use after calls in order. -/
def after (sets : List (MatchSets ε)) : List (SetsCall ε) → List (MatchSets ε)
  | [] => sets
  | c :: rest => after (perform sets c).2 rest

lemma after_append (calls later : List (SetsCall ε)) :
    ∀ sets : List (MatchSets ε), after sets (calls ++ later) = after (after sets calls) later := by
  induction calls with
  | nil => intro sets; rfl
  | cons c rest ih => intro sets; exact ih _

/-- Every member of a modified list is an old one or the modified one. -/
lemma forall_mem_modify {α : Type} {P : α → Prop} {l : List α} (h : ∀ a ∈ l, P a) {f : α → α}
    (hf : ∀ a ∈ l, P (f a)) (i : Nat) : ∀ a ∈ l.modify i f, P a := by
  intro a ha
  obtain ⟨j, hj⟩ := List.getElem?_of_mem ha
  rw [List.getElem?_modify] at hj
  obtain ⟨b, hb, rfl⟩ := Option.map_eq_some_iff.mp hj
  have hmem := List.mem_of_getElem? hb
  split
  · exact hf b hmem
  · exact h b hmem

/-- A call leaves tidy match sets. -/
lemma tidy_perform (h : ∀ m ∈ sets, m.Tidy) (c : SetsCall ε) :
    ∀ m ∈ (perform sets c).2, m.Tidy := by
  cases c with
  | make width => exact List.forall_mem_append.mpr ⟨h, by simpa using Tidy.empty width⟩
  | makeOfRoot width root events =>
    exact List.forall_mem_append.mpr ⟨h, by simpa using Tidy.ofRoot width root events⟩
  | copy i =>
    refine List.forall_mem_append.mpr ⟨h, fun m hm => h m ?_⟩
    exact List.mem_of_getElem? (Option.mem_toList.mp hm)
  | add i a => exact forall_mem_modify h (fun m hm => (h m hm).add a) i
  | clear i => exact forall_mem_modify h (fun m _ => .empty m.width) i
  | fill i t rootEvents lookup state =>
    exact forall_mem_modify h (fun m _ => .fillWith m t rootEvents lookup state) i

/-- A call that does not reset match sets leaves all their match nodes where they are. -/
lemma perform_keeps (hm : sets[i]? = some m) {c : SetsCall ε} (hc : ¬ c.Resets i) :
    ∃ m', (perform sets c).2[i]? = some m' ∧
      ∀ r node, m.node? r = some node → m'.node? r = some node := by
  have hlt : i < sets.length := (List.getElem?_eq_some_iff.mp hm).1
  cases c with
  | make | makeOfRoot | copy =>
    exact ⟨m, (List.getElem?_append_left hlt).trans hm, fun _ _ hnode => hnode⟩
  | add j a =>
    by_cases hj : j = i
    · subst hj
      refine ⟨(m.add a).2, ?_, fun _ _ hnode => node?_add_of_some hnode a⟩
      rw [perform, List.getElem?_modify_eq, hm]
      rfl
    · exact ⟨m, (List.getElem?_modify_ne _ _ hj).trans hm, fun _ _ hnode => hnode⟩
  | clear j | fill j =>
    exact ⟨m, (List.getElem?_modify_ne _ _ hc).trans hm, fun _ _ hnode => hnode⟩

/-! ### Calls in order -/

lemma tidy_after (calls : List (SetsCall ε)) :
    ∀ {sets : List (MatchSets ε)}, (∀ m ∈ sets, m.Tidy) → ∀ m ∈ after sets calls, m.Tidy := by
  induction calls with
  | nil => intro sets h; exact h
  | cons c rest ih => intro sets h; exact ih (tidy_perform h c)

/-- Until match sets are reset, all their match nodes stay where they are. -/
lemma after_keeps (later : List (SetsCall ε)) :
    ∀ {sets : List (MatchSets ε)} {m : MatchSets ε}, sets[i]? = some m →
      (∀ c ∈ later, ¬ c.Resets i) → ∃ m', (after sets later)[i]? = some m' ∧
        ∀ r node, m.node? r = some node → m'.node? r = some node := by
  induction later with
  | nil => intro sets m hm _; exact ⟨m, hm, fun _ _ hnode => hnode⟩
  | cons c rest ih =>
    intro sets m hm hlater
    obtain ⟨m', hm', hstep⟩ := perform_keeps hm (hlater c List.mem_cons_self)
    obtain ⟨m'', hm'', hrest⟩ := ih hm' fun d hd => hlater d (List.mem_cons_of_mem c hd)
    exact ⟨m'', hm'', fun r node hnode => hrest r node (hstep r node hnode)⟩

/-- The match sets in use after calls, none having been in use before. -/
def inUse (calls : List (SetsCall ε)) : List (MatchSets ε) := after [] calls

/-- A refused addition changes nothing. -/
lemma perform_add_of_refused (hm : sets[i]? = some m) {a : Addition ε} (h : a.Refused m) :
    perform sets (.add i a) = (none, sets) := by
  rw [perform, hm, Option.bind_some, add_of_refused h]
  congr 1
  apply List.ext_getElem?
  intro j
  rw [List.getElem?_modify]
  by_cases hj : i = j
  · subst hj
    simp [hm, add_of_refused h]
  · simp [hj]

/-- Whatever calls are made, all match sets in use keep what may be relied on. An addition to some
of them that has events, for a stream that they have, answers a new address and changes no others:
the events are listed last for the stream, each once, and as long as those match sets are neither
cleared nor filled, the address leads to a match node of just these events with just the link given,
and the old addresses lead where they led. Any other addition answers nothing and changes nothing. A
copy holds what was there to be copied, and of it the same holds. -/
theorem kept_in_use (calls : List (SetsCall ε)) :
    (∀ m ∈ inUse calls, m.Kept) ∧
      ∀ i m, (inUse calls)[i]? = some m →
        (∀ a : Addition ε, a.Refused m → perform (inUse calls) (.add i a) = (none, inUse calls)) ∧
        (∀ a : Addition ε, ¬ a.Refused m → ∃ r m',
          (perform (inUse calls) (.add i a)).1 = some r ∧
          (perform (inUse calls) (.add i a)).2[i]? = some m' ∧
          (∀ j ≠ i, (perform (inUse calls) (.add i a)).2[j]? = (inUse calls)[j]?) ∧
          r.stream = a.stream ∧ m.node? r = none ∧
          (∀ s, m'.cursors s
            = m.cursors s ++ if s = a.stream then a.events.eraseDups.map (r, ·) else []) ∧
          ∀ later, (∀ c ∈ later, ¬ c.Resets i) → ∃ m'',
            (inUse (calls ++ .add i a :: later))[i]? = some m'' ∧
            (∃ node, m''.node? r = some node ∧ node.stream = a.stream ∧ node.parent = a.link ∧
              node.events.toList = a.events.eraseDups) ∧
            ∀ r' node, m.node? r' = some node → m''.node? r' = some node) ∧
        inUse (calls ++ [.copy i]) = inUse calls ++ [m] ∧
        ∀ later, (∀ c ∈ later, ¬ c.Resets i) → ∃ m', (inUse (calls ++ later))[i]? = some m' ∧
          ∀ r node, m.node? r = some node → m'.node? r = some node := by
  constructor
  · intro m hm
    exact (tidy_after calls (fun _ h => absurd h List.not_mem_nil) m hm).kept
  intro i m hm
  refine ⟨fun a h => perform_add_of_refused hm h, fun a h => ?_, ?_, fun later hlater => ?_⟩
  · obtain ⟨hanswer, -⟩ := add_of_not_refused h
    obtain ⟨hstream, hnew, hnode⟩ := node?_add hanswer
    have hplace : (perform (inUse calls) (.add i a)).2[i]? = some (m.add a).2 := by
      rw [perform, List.getElem?_modify_eq, hm]
      rfl
    refine ⟨_, (m.add a).2, ?_, hplace, fun j hj => ?_, hstream, hnew, cursors_add hanswer,
      fun later hlater => ?_⟩
    · rw [perform, hm, Option.bind_some, hanswer]
    · exact List.getElem?_modify_ne _ _ hj.symm
    · obtain ⟨m'', hm'', hkeeps⟩ := after_keeps later hplace hlater
      refine ⟨m'', ?_, ⟨a.node, hkeeps _ _ hnode, rfl, rfl, DistinctList.toList_ofList _⟩, ?_⟩
      · rw [inUse, after_append]
        exact hm''
      · exact fun r' node hold => hkeeps r' node (node?_add_of_some hold a)
  · rw [inUse, after_append]
    show inUse calls ++ (inUse calls)[i]?.toList = _
    rw [hm, Option.toList_some]
  · obtain ⟨m', hm', hkeeps⟩ := after_keeps later hm hlater
    exact ⟨m', by rw [inUse, after_append]; exact hm', hkeeps⟩

/-- Match sets of two streams and a copy of them. -/
def copiedCalls : List (SetsCall Nat) := [.makeOfRoot 2 0 [5, 6, 5], .copy 0]

/-- Events that matched the second one of the root stream. -/
def matchedSix : Addition Nat := ⟨1, some ⟨⟨0, 0⟩, 6⟩, [7, 8, 7]⟩

theorem copied_kept_in_use :
    ∃ m r m', (inUse copiedCalls)[0]? = some m ∧ ¬ matchedSix.Refused m ∧
      (perform (inUse copiedCalls) (.add 0 matchedSix)).1 = some r ∧
      (inUse (copiedCalls ++ [.add 0 matchedSix, .clear 1, .add 0 matchedSix]))[0]? = some m' ∧
      m'.Kept ∧ ∃ node, m'.node? r = some node ∧ node.events.toList = [7, 8] := by
  have hm : (inUse copiedCalls)[0]? = some (.ofRoot 2 0 [5, 6, 5]) := rfl
  have hfits : ¬ matchedSix.Refused (.ofRoot 2 0 [5, 6, 5]) := by
    rintro (h | h)
    · cases h
    · exact absurd h (by decide)
  obtain ⟨-, hsets⟩ := kept_in_use copiedCalls
  obtain ⟨-, hadd, -, -⟩ := hsets 0 _ hm
  obtain ⟨r, -, hanswer, -, -, -, -, -, hlater⟩ := hadd matchedSix hfits
  obtain ⟨m', hm', ⟨node, hnode, -, -, hevents⟩, -⟩ :=
    hlater [.clear 1, .add 0 matchedSix] (by simp [SetsCall.Resets])
  have hkept := (kept_in_use (copiedCalls ++ [.add 0 matchedSix, .clear 1, .add 0 matchedSix])).1 m'
    (List.mem_of_getElem? hm')
  exact ⟨_, r, m', hm, hfits, hanswer, hm', hkept, node, hnode, hevents⟩

end MatchSets

end JoinAssembly
