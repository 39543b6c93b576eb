import JoinAssembly.Proofs.MatchSets.Filled

/-!
# The lookups of a filling

A lookup may keep a state, so it can tell how often it is asked, and in which order. A filling asks
it once for every event of every parent stream, stream by stream from the root down, and records
what it answers, without repetitions.
-/

namespace JoinAssembly

variable {ε σ : Type}

/-! ### First occurrences -/

/-- The members of a list stand in the order of their first places. -/
lemma DistinctList.toList_ofList [DecidableEq ε] (l : List ε) :
    (ofList l).toList = l.eraseDups := by
  induction l using List.reverseRecOn with
  | nil => rfl
  | append_singleton l a ih =>
    have hconcat : ofList (l ++ [a]) = (ofList l).insert a := List.foldl_concat ..
    rw [hconcat, List.eraseDups_append]
    by_cases ha : a ∈ l
    · have hnone : [a].removeAll l = [] := by simp [List.removeAll, ha]
      rw [insert_of_mem (mem_ofList.mpr ha), ih, hnone, List.eraseDups_nil, List.append_nil]
    · have hone : [a].removeAll l = [a] := by simp [List.removeAll, ha]
      rw [toList_insert_of_not_mem (mt mem_ofList.mp ha), ih, hone]
      rfl

/-! ### Questions -/

/-- A question to a lookup: which events of a stream match an event of the parent stream. -/
structure Question (ε : Type) where
  stream : StreamIndex
  parent : StreamIndex
  /-- The parent stream's match node that holds the event. -/
  place : MatchRef
  event : ε

/-- The questions for some streams: one for each event of the parent stream, in order. -/
def JoinTree.questionsFor (t : JoinTree) (m : MatchSets ε) (streams : List StreamIndex) :
    List (Question ε) :=
  streams.flatMap fun s =>
    match t.parent? s with
    | none => []
    | some p => (m.cursors p).map fun x => ⟨s, p, x.1, x.2⟩

/-- The questions for all streams with a parent, from the root down. -/
def JoinTree.questions (t : JoinTree) (m : MatchSets ε) : List (Question ε) :=
  t.questionsFor m t.preorder

namespace Lookup

/-- Ask questions in turn, each in the state that is left by the one before. -/
def answers (lookup : Lookup ε σ) (state : σ) :
    List (Question ε) → List (Question ε × List ε) × σ
  | [] => ([], state)
  | q :: rest =>
    let (found, state) := lookup q.stream q.parent q.event state
    let (later, state) := lookup.answers state rest
    ((q, found) :: later, state)

/-- The lookup that keeps a log of what it is asked. -/
def logged (lookup : Lookup ε σ) : Lookup ε (σ × List (StreamIndex × StreamIndex × ε)) :=
  fun s parent event (state, log) =>
    let (found, state) := lookup s parent event state
    (found, (state, log ++ [(s, parent, event)]))

variable (lookup : Lookup ε σ)

lemma answers_append (qs qs' : List (Question ε)) :
    ∀ state : σ, lookup.answers state (qs ++ qs')
      = ((lookup.answers state qs).1 ++ (lookup.answers (lookup.answers state qs).2 qs').1,
          (lookup.answers (lookup.answers state qs).2 qs').2) := by
  induction qs with
  | nil => intro state; rfl
  | cons q rest ih => intro state; simp [answers, ih]

lemma map_fst_answers (qs : List (Question ε)) :
    ∀ state : σ, (lookup.answers state qs).1.map Prod.fst = qs := by
  induction qs with
  | nil => intro state; rfl
  | cons q rest ih => intro state; simp [answers, ih]

lemma fst_mem_of_mem_answers {qs : List (Question ε)} {state : σ} {a : Question ε × List ε}
    (ha : a ∈ (lookup.answers state qs).1) : a.1 ∈ qs :=
  lookup.map_fst_answers qs state ▸ List.mem_map_of_mem ha

lemma answers_logged (qs : List (Question ε)) :
    ∀ (state : σ) (log : List (StreamIndex × StreamIndex × ε)),
      lookup.logged.answers (state, log) qs = ((lookup.answers state qs).1,
        (lookup.answers state qs).2, log ++ qs.map fun q => (q.stream, q.parent, q.event)) := by
  induction qs with
  | nil => intro state log; simp [answers]
  | cons q rest ih => intro state log; simp [answers, logged, ih]

/-- What is found by asking a question. -/
def finding (a : Question ε × List ε) : Finding ε := ⟨⟨a.1.place, a.1.event⟩, a.2⟩

/-- The answers for one stream are what is found for the events of its parent. -/
lemma answers_eq_findings (s p : StreamIndex) (events : List (MatchRef × ε)) :
    ∀ state : σ,
      (lookup.answers state (events.map fun x => ⟨s, p, x.1, x.2⟩)).1.map finding
        = (findings lookup s p state events).1 ∧
      (lookup.answers state (events.map fun x => ⟨s, p, x.1, x.2⟩)).2
        = (findings lookup s p state events).2 := by
  induction events with
  | nil => intro state; exact ⟨rfl, rfl⟩
  | cons x rest ih =>
    intro state
    obtain ⟨hfound, hstate⟩ := ih (lookup s p x.2 state).2
    simp [answers, finding, findings, hfound, hstate]

end Lookup

variable {t : JoinTree} {m : MatchSets ε}

lemma stream_mem_of_question {streams : List StreamIndex} {q : Question ε}
    (hq : q ∈ t.questionsFor m streams) : q.stream ∈ streams := by
  obtain ⟨s, hs, hq⟩ := List.mem_flatMap.mp hq
  cases hp : t.parent? s with
  | none =>
    rw [hp] at hq
    exact absurd hq List.not_mem_nil
  | some p =>
    rw [hp] at hq
    obtain ⟨x, -, rfl⟩ := List.mem_map.mp hq
    exact hs

lemma questionsFor_cons {s p : StreamIndex} (hp : t.parent? s = some p)
    (rest : List StreamIndex) : t.questionsFor m (s :: rest)
      = ((m.cursors p).map fun x => ⟨s, p, x.1, x.2⟩) ++ t.questionsFor m rest := by
  rw [JoinTree.questionsFor, List.flatMap_cons, hp]
  rfl

/-- There are no questions for the root. -/
lemma questions_eq (h : t.Sound) (m : MatchSets ε) :
    t.questions m = t.questionsFor m (t.preorder.drop 1) := by
  have hpreorder : t.preorder = t.root :: t.preorder.drop 1 := by
    rw [h.preorder_eq]
    exact (h.below_eq t.root).trans (congrArg _ (congrArg (List.drop 1) (h.below_eq t.root)).symm)
  rw [JoinTree.questions, hpreorder, JoinTree.questionsFor, List.flatMap_cons, h.parent_root]
  rfl

variable [DecidableEq ε]

/-- One match node is recorded for each finding that is not empty, without repetitions. -/
lemma map_recordedAll (s : StreamIndex) (found : List (Finding ε)) :
    (recordedAll s found).map (fun node => (node.stream, node.parent, node.events.toList))
      = (found.filter fun x => !x.events.isEmpty).map fun x =>
          (s, some x.link, x.events.eraseDups) := by
  induction found with
  | nil => rfl
  | cons x rest ih =>
    obtain ⟨link, _ | ⟨e, events⟩⟩ := x
    · exact ih
    · rw [recordedAll, List.flatMap_cons, List.map_append]
      show _ ++ (recordedAll s rest).map _ = _
      rw [ih]
      simp [recorded, DistinctList.toList_ofList]

/-! ### What a filling asks -/

namespace MatchSets

/-- Filled streams hold the answers to the questions for them, asked in order. -/
lemma Filled.asked {lookup : Lookup ε σ} {streams : List StreamIndex} {state state' : σ}
    (h : Filled t lookup m streams state state') (hnodup : streams.Nodup) :
    (lookup.answers state (t.questionsFor m streams)).2 = state' ∧
      ∀ s ∈ streams, m.nodesOf s = recordedAll s
        (((lookup.answers state (t.questionsFor m streams)).1.filter
          fun a => a.1.stream == s).map Lookup.finding) := by
  induction h with
  | nil => exact ⟨rfl, fun s hs => absurd hs List.not_mem_nil⟩
  | @cons s p rest state state' hparent hnodes _ ih =>
    obtain ⟨hs, hnodup⟩ := List.nodup_cons.mp hnodup
    obtain ⟨hstate, hrest⟩ := ih hnodup
    obtain ⟨hfound, hleft⟩ := lookup.answers_eq_findings s p (m.cursors p) state
    rw [questionsFor_cons hparent, Lookup.answers_append, hleft]
    have hfirst : ∀ a ∈ (lookup.answers state ((m.cursors p).map fun x => ⟨s, p, x.1, x.2⟩)).1,
        a.1.stream = s := by
      intro a ha
      obtain ⟨x, -, hx⟩ := List.mem_map.mp (lookup.fst_mem_of_mem_answers ha)
      rw [← hx]
    have hlater : ∀ a ∈ (lookup.answers (findings lookup s p state (m.cursors p)).2
        (t.questionsFor m rest)).1, a.1.stream ∈ rest :=
      fun a ha => stream_mem_of_question (lookup.fst_mem_of_mem_answers ha)
    -- Each stream stands once, so what is asked for it is asked in one piece.
    refine ⟨hstate, fun x hx => ?_⟩
    rw [List.filter_append]
    rcases List.mem_cons.mp hx with rfl | hx
    · rw [List.filter_eq_self.mpr fun a ha => by simp [hfirst a ha],
        List.filter_eq_nil_iff.mpr fun a ha => by
          simp only [beq_iff_eq]
          exact fun heq => hs (heq ▸ hlater a ha),
        List.append_nil, hfound]
      exact hnodes
    · rw [List.filter_eq_nil_iff.mpr fun a ha => by
          simp only [beq_iff_eq]
          exact fun heq => hs (hfirst a ha ▸ heq ▸ hx),
        List.nil_append]
      exact hrest x hx

/-! ### Keeping a log -/

/-- Keeping a log changes nothing else. -/
lemma fillFrom_logged (lookup : Lookup ε σ) (s p : StreamIndex) (events : List (MatchRef × ε)) :
    ∀ (m : MatchSets ε) (state : σ) (log : List (StreamIndex × StreamIndex × ε)), ∃ log',
      fillFrom lookup.logged s p m (state, log) events
        = ((fillFrom lookup s p m state events).1, (fillFrom lookup s p m state events).2,
            log') := by
  induction events with
  | nil => intro m state log; exact ⟨log, rfl⟩
  | cons x rest ih =>
    intro m state log
    exact ih _ _ (log ++ [(s, p, x.2)])

lemma foldl_fillStream_logged (t : JoinTree) (lookup : Lookup ε σ) (streams : List StreamIndex) :
    ∀ (m : MatchSets ε) (state : σ) (log : List (StreamIndex × StreamIndex × ε)), ∃ log',
      streams.foldl (fillStream t lookup.logged) (m, state, log)
        = ((streams.foldl (fillStream t lookup) (m, state)).1,
            (streams.foldl (fillStream t lookup) (m, state)).2, log') := by
  induction streams with
  | nil => intro m state log; exact ⟨log, rfl⟩
  | cons s rest ih =>
    intro m state log
    obtain ⟨log', hstep⟩ : ∃ log', fillStream t lookup.logged (m, state, log) s
        = ((fillStream t lookup (m, state) s).1, (fillStream t lookup (m, state) s).2, log') := by
      simp only [fillStream]
      cases t.parent? s with
      | none => exact ⟨log, rfl⟩
      | some p => exact fillFrom_logged lookup s p (m.cursors p) m state log
    rw [List.foldl_cons, List.foldl_cons, hstep]
    exact ih _ _ log'

lemma fillWith_logged (m : MatchSets ε) (t : JoinTree) (rootEvents : List ε) (lookup : Lookup ε σ)
    (state : σ) (log : List (StreamIndex × StreamIndex × ε)) : ∃ log',
      m.fillWith t rootEvents lookup.logged (state, log)
        = ((m.fillWith t rootEvents lookup state).1, (m.fillWith t rootEvents lookup state).2,
            log') :=
  foldl_fillStream_logged t lookup _ _ state log

/-! ### Fillings -/

lemma asked_fillWith (h : t.Sound) (m : MatchSets ε) (rootEvents : List ε) (lookup : Lookup ε σ)
    (state : σ) :
    (lookup.answers state (t.questions (m.fillWith t rootEvents lookup state).1)).2
        = (m.fillWith t rootEvents lookup state).2 ∧
      ∀ s < t.size, s ≠ t.root → (m.fillWith t rootEvents lookup state).1.nodesOf s
        = recordedAll s (((lookup.answers state
            (t.questions (m.fillWith t rootEvents lookup state).1)).1.filter
              fun a => a.1.stream == s).map Lookup.finding) := by
  have hnodup : (t.preorder.drop 1).Nodup := by
    rw [h.preorder_eq]
    exact (List.drop_sublist 1 _).nodup (h.nodup_below t.root)
  rw [questions_eq h]
  refine ((filled_fillWith h m rootEvents lookup state).2.asked hnodup).imp_right
    fun hnodes s hs hroot => hnodes s ?_
  exact h.mem_drop_preorder.mpr (h.exists_parent hs hroot)

/-- A filling makes the match sets as wide as the tree. The root has one match node, with the
distinct root events in order, or none if there are no root events. The lookup is asked, for the
other streams from the root down, once for every event of the parent stream in order, and nothing
else. The match nodes of such a stream are one for each answer that is not empty, in order, with the
distinct events of the answer and a link to what it was asked for. What the match sets held before
makes no difference. -/
theorem fillWith_asked {b : TreeBuilder} (hb : b.build = .ok t) (m : MatchSets ε)
    (rootEvents : List ε) (lookup : Lookup ε σ) (state : σ) : ∃ filled left,
      m.fillWith t rootEvents lookup state = (filled, left) ∧
      filled.width = t.size ∧
      (filled.nodesOf t.root).map (fun node => (node.stream, node.parent, node.events.toList))
        = (if rootEvents = [] then [] else [(t.root, none, rootEvents.eraseDups)]) ∧
      (∀ log, m.fillWith t rootEvents lookup.logged (state, log) = (filled, left,
        log ++ (t.questions filled).map fun q => (q.stream, q.parent, q.event))) ∧
      left = (lookup.answers state (t.questions filled)).2 ∧
      (∀ s < t.size, s ≠ t.root →
        (filled.nodesOf s).map (fun node => (node.stream, node.parent, node.events.toList))
          = ((lookup.answers state (t.questions filled)).1.filter fun a =>
              a.1.stream == s && !a.2.isEmpty).map fun a =>
                (s, some ⟨a.1.place, a.1.event⟩, a.2.eraseDups)) ∧
      ∀ m' : MatchSets ε, m'.fillWith t rootEvents lookup state = (filled, left) := by
  have h := TreeBuilder.sound_of_build hb
  obtain ⟨hstate, hnodes⟩ := asked_fillWith h m rootEvents lookup state
  refine ⟨(m.fillWith t rootEvents lookup state).1, (m.fillWith t rootEvents lookup state).2, rfl,
    width_fillWith m t rootEvents lookup state, ?_, fun log => ?_, hstate.symm,
    fun s hs hroot => ?_, fun m' => ?_⟩
  · rw [(filled_fillWith h m rootEvents lookup state).1]
    cases rootEvents with
    | nil => rfl
    | cons e rest => simp [recorded, DistinctList.toList_ofList]
  · obtain ⟨log', hlogged⟩ := fillWith_logged m t rootEvents lookup state log
    obtain ⟨hleft, -⟩ := asked_fillWith h m rootEvents lookup.logged (state, log)
    rw [hlogged, Lookup.answers_logged] at hleft
    rw [hlogged, ← (Prod.mk.inj hleft).2]
  · rw [hnodes s hs hroot, map_recordedAll, List.filter_map, List.map_map, List.filter_filter]
    simp only [Function.comp_def, Lookup.finding, Bool.and_comm]
  · show m'.fillWith t rootEvents lookup state = m.fillWith t rootEvents lookup state
    simp only [fillWith, resize_clear]

/-- A lookup that finds nothing when it is asked for the second time. -/
def forgetful : Lookup Nat Nat := fun s _ event asked =>
  (if asked = 1 then [] else [s, event, s], asked + 1)

/-- A stream below a stream below the root. -/
def lineTree : JoinTree where
  nodes := [⟨0, none, false, [1], none⟩, ⟨1, some 0, true, [2], none⟩, ⟨2, some 1, false, [], none⟩]
  root := 0
  preorder := [0, 1, 2]
  postorder := [2, 1, 0]
  subtrees := [[0, 1, 2], [1, 2], [2]]

theorem line_asked :
    (TreeBuilder.ofCalls 3 [.root 0, .optional 1 0, .required 2 1]).build = .ok lineTree ∧
      ∀ log, ((empty 7).fillWith lineTree [5, 6, 5] forgetful.logged (0, log)).2
        = (4, log ++ [(1, 0, 5), (1, 0, 6), (2, 1, 1), (2, 1, 5)]) := by
  have hb : (TreeBuilder.ofCalls 3 [.root 0, .optional 1 0, .required 2 1]).build
      = .ok lineTree := by decide
  obtain ⟨filled, left, hfilled, -, -, hlogged, -⟩ :=
    fillWith_asked hb (empty 7) [5, 6, 5] forgetful 0
  obtain rfl := congrArg Prod.fst hfilled
  obtain rfl := congrArg Prod.snd hfilled
  refine ⟨hb, fun log => ?_⟩
  rw [hlogged log]
  exact congrArg₂ Prod.mk (by decide) (congrArg (log ++ ·) (by decide))

end MatchSets

end JoinAssembly
