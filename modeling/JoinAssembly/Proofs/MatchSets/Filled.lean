import JoinAssembly.MatchSets.Fill
import JoinAssembly.Proofs.JoinTree.Below
import JoinAssembly.Proofs.MatchSets.Occurrences

/-!
# Filled match sets

A filling records for every stream, in the order of the events of the parent stream, what the lookup
found for each of them, and nothing else. A stream is filled once, when its parent stream is done.
-/

namespace JoinAssembly

variable {ε σ : Type}

/-! ### What a lookup finds -/

/-- What was found for an event of a parent stream. -/
structure Finding (ε : Type) where
  link : ParentLink ε
  events : List ε

/-- What a lookup finds for events of a parent stream in turn, and the state that it is left in. -/
def findings (lookup : Lookup ε σ) (s parent : StreamIndex) (state : σ) :
    List (MatchRef × ε) → List (Finding ε) × σ
  | [] => ([], state)
  | (place, event) :: rest =>
    let (found, state) := lookup s parent event state
    let (later, state) := findings lookup s parent state rest
    (⟨⟨place, event⟩, found⟩ :: later, state)

/-- There is one finding for each event, in order. -/
lemma map_link_findings (lookup : Lookup ε σ) (s parent : StreamIndex)
    (events : List (MatchRef × ε)) :
    ∀ state : σ, (findings lookup s parent state events).1.map (·.link)
      = events.map fun x => ⟨x.1, x.2⟩ := by
  induction events with
  | nil => intro state; rfl
  | cons x rest ih => intro state; simp [findings, ih]

/-- A lookup that always answers alike. -/
def Lookup.steady (lookup : StreamIndex → StreamIndex → ε → List ε) : Lookup ε Unit :=
  fun s parent event _ => (lookup s parent event, ())

lemma findings_steady (lookup : StreamIndex → StreamIndex → ε → List ε) (s parent : StreamIndex)
    (events : List (MatchRef × ε)) (state : Unit) :
    (findings (.steady lookup) s parent state events).1
      = events.map fun x => ⟨⟨x.1, x.2⟩, lookup s parent x.2⟩ := by
  induction events with
  | nil => rfl
  | cons x rest ih => simp [findings, Lookup.steady, ih]

/-! ### What is recorded -/

variable [DecidableEq ε]

/-- The match node for events that were found, if there are any. -/
def recorded (s : StreamIndex) (parent : Option (ParentLink ε)) : List ε → List (MatchNode ε)
  | [] => []
  | e :: rest => [⟨s, parent, .ofList (e :: rest)⟩]

lemma mem_recorded {s : StreamIndex} {parent : Option (ParentLink ε)} {found : List ε}
    {node : MatchNode ε} :
    node ∈ recorded s parent found ↔ found ≠ [] ∧ node = ⟨s, parent, .ofList found⟩ := by
  cases found <;> simp [recorded]

/-- One match node at most is recorded at a time. -/
lemma pairwise_recorded {R : MatchNode ε → MatchNode ε → Prop} (s : StreamIndex)
    (parent : Option (ParentLink ε)) (found : List ε) :
    (recorded s parent found).Pairwise R := by
  cases found <;> simp [recorded]

/-- The match nodes for findings in order. -/
def recordedAll (s : StreamIndex) (found : List (Finding ε)) : List (MatchNode ε) :=
  found.flatMap fun x => recorded s (some x.link) x.events

lemma mem_recordedAll {s : StreamIndex} {found : List (Finding ε)} {node : MatchNode ε} :
    node ∈ recordedAll s found ↔
      ∃ x ∈ found, x.events ≠ [] ∧ node = ⟨s, some x.link, .ofList x.events⟩ := by
  simp only [recordedAll, List.mem_flatMap, mem_recorded]

namespace MatchSets

variable {m : MatchSets ε}

/-! ### Recording stream by stream -/

/-- Recording adds to the match nodes of one stream. -/
lemma nodesOf_push (m : MatchSets ε) {s : StreamIndex} (hs : s < m.width)
    (parent : Option (ParentLink ε)) (events : List ε) (x : StreamIndex) :
    (m.push s parent events).2.nodesOf x
      = if x = s then m.nodesOf s ++ recorded s parent events else m.nodesOf x := by
  have hstream : m.streams[s]? = some (m.nodesOf s) := by
    rw [width] at hs
    simp [nodesOf, hs]
  rw [push, hstream]
  cases events with
  | nil =>
    by_cases hx : x = s
    · simp [hx, recorded]
    · simp [hx]
  | cons e rest =>
    rw [width] at hs
    by_cases hx : x = s
    · simp [hx, recorded, nodesOf, hs]
    · simp [hx, Ne.symm hx, nodesOf]

/-- Match nodes stay where they are when others are added. -/
lemma node?_push {s : StreamIndex} (hs : s < m.width) {place : MatchRef} {node : MatchNode ε}
    (hnode : m.node? place = some node) (parent : Option (ParentLink ε)) (events : List ε) :
    (m.push s parent events).2.node? place = some node := by
  rw [node?] at hnode
  rw [node?, nodesOf_push m hs]
  split
  · rename_i heq
    rw [heq] at hnode
    rw [List.getElem?_append_left (List.getElem?_eq_some_iff.mp hnode).1, hnode]
  · exact hnode

omit [DecidableEq ε] in
lemma cursors_congr {m m' : MatchSets ε} {s : StreamIndex} (h : m.nodesOf s = m'.nodesOf s) :
    m.cursors s = m'.cursors s := by
  simp only [cursors, occurrences, h]

lemma fillFrom_spec (lookup : Lookup ε σ) {s : StreamIndex} (parent : StreamIndex)
    (events : List (MatchRef × ε)) :
    ∀ (m : MatchSets ε) (state : σ), s < m.width →
      (∀ x, (fillFrom lookup s parent m state events).1.nodesOf x
        = if x = s then m.nodesOf s ++ recordedAll s (findings lookup s parent state events).1
          else m.nodesOf x) ∧
      (fillFrom lookup s parent m state events).2 = (findings lookup s parent state events).2 := by
  induction events with
  | nil =>
    intro m state _
    refine ⟨fun x => ?_, rfl⟩
    by_cases hx : x = s
    · simp [hx, fillFrom, findings, recordedAll]
    · simp [hx, fillFrom]
  | cons y rest ih =>
    intro m state hs
    obtain ⟨place, event⟩ := y
    obtain ⟨hnodes, hstate⟩ := ih (m.pushMatch s place event (lookup s parent event state).1).2
      (lookup s parent event state).2 (by simpa [pushMatch] using hs)
    refine ⟨fun x => ?_, hstate⟩
    rw [fillFrom]
    simp only [hnodes]
    by_cases hx : x = s
    · simp [hx, pushMatch, nodesOf_push m hs, findings, recordedAll]
    · simp [hx, pushMatch, nodesOf_push m hs]

variable {t : JoinTree}

/-- For streams in turn, the match nodes of each are those recorded for what the lookup found in the
state that it was left in by the stream before. -/
inductive Filled (t : JoinTree) (lookup : Lookup ε σ) (m : MatchSets ε) :
    List StreamIndex → σ → σ → Prop where
  | nil (state : σ) : Filled t lookup m [] state state
  | cons {s p : StreamIndex} {rest : List StreamIndex} {state state' : σ}
      (hparent : t.parent? s = some p)
      (hnodes : m.nodesOf s = recordedAll s (findings lookup s p state (m.cursors p)).1)
      (hrest : Filled t lookup m rest (findings lookup s p state (m.cursors p)).2 state') :
      Filled t lookup m (s :: rest) state state'

lemma Filled.of_mem {lookup : Lookup ε σ} {m : MatchSets ε} {streams : List StreamIndex}
    {state state' : σ} (h : Filled t lookup m streams state state') {s p : StreamIndex}
    (hs : s ∈ streams) (hp : t.parent? s = some p) :
    ∃ before, m.nodesOf s = recordedAll s (findings lookup s p before (m.cursors p)).1 := by
  induction h with
  | nil => exact absurd hs List.not_mem_nil
  | cons hparent hnodes _ ih =>
    rcases List.mem_cons.mp hs with rfl | hs
    · cases hparent.symm.trans hp
      exact ⟨_, hnodes⟩
    · exact ih hs

/-- Streams that are not filled keep their match nodes. -/
lemma nodesOf_foldl_fillStream {lookup : Lookup ε σ} {x : StreamIndex} (streams : List StreamIndex) :
    ∀ filled : MatchSets ε × σ, (∀ s ∈ streams, s < filled.1.width) → x ∉ streams →
      (streams.foldl (fillStream t lookup) filled).1.nodesOf x = filled.1.nodesOf x := by
  induction streams with
  | nil => intro filled _ _; rfl
  | cons s rest ih =>
    intro filled hwidth hx
    have hne : x ≠ s := List.ne_of_not_mem_cons hx
    have hx : x ∉ rest := List.not_mem_of_not_mem_cons hx
    have hstep : (fillStream t lookup filled s).1.nodesOf x = filled.1.nodesOf x := by
      rw [fillStream]
      split
      · rfl
      · rename_i p _
        have hspec := fillFrom_spec lookup p (filled.1.cursors p) filled.1 filled.2
          (hwidth s List.mem_cons_self)
        rw [hspec.1 x, if_neg hne]
    have hwidth' : ∀ y ∈ rest, y < (fillStream t lookup filled s).1.width := by
      simpa using fun y hy => hwidth y (List.mem_cons_of_mem _ hy)
    rw [List.foldl_cons, ih _ hwidth' hx, hstep]

/-- Filling streams without match nodes, parents first. -/
lemma filled_foldl {lookup : Lookup ε σ} (streams : List StreamIndex) :
    ∀ filled : MatchSets ε × σ, streams.Nodup →
      streams.Pairwise (fun x y => t.parent? x ≠ some y) →
      (∀ s ∈ streams, ∃ p, t.parent? s = some p ∧ p ≠ s) →
      (∀ s ∈ streams, s < filled.1.width) → (∀ s ∈ streams, filled.1.nodesOf s = []) →
      Filled t lookup (streams.foldl (fillStream t lookup) filled).1 streams filled.2
        (streams.foldl (fillStream t lookup) filled).2 := by
  induction streams with
  | nil => intro filled _ _ _ _ _; exact .nil _
  | cons s rest ih =>
    intro filled hnodup hfirst hparent hwidth hnone
    obtain ⟨hs, hnodup⟩ := List.nodup_cons.mp hnodup
    obtain ⟨hnotAfter, hfirst⟩ := List.pairwise_cons.mp hfirst
    obtain ⟨p, hp, hne⟩ := hparent s List.mem_cons_self
    have hprest : p ∉ rest := fun hmem => hnotAfter p hmem hp
    obtain ⟨hnodes, hstate⟩ := fillFrom_spec lookup p (filled.1.cursors p) filled.1 filled.2
      (hwidth s List.mem_cons_self)
    have hstep : fillStream t lookup filled s
        = fillFrom lookup s p filled.1 filled.2 (filled.1.cursors p) := by
      simp only [fillStream, hp]
    have hwidth' : ∀ x ∈ rest, x < (fillStream t lookup filled s).1.width := by
      simpa using fun x hx => hwidth x (List.mem_cons_of_mem _ hx)
    have hrest := ih (fillStream t lookup filled s) hnodup hfirst
      (fun x hx => hparent x (List.mem_cons_of_mem _ hx)) hwidth' fun x hx => by
        have hxs : x ≠ s := fun heq => hs (heq ▸ hx)
        rw [hstep, hnodes, if_neg hxs]
        exact hnone x (List.mem_cons_of_mem _ hx)
    -- Neither the stream nor its parent is filled later.
    have hcursors : (rest.foldl (fillStream t lookup) (fillStream t lookup filled s)).1.cursors p
        = filled.1.cursors p := by
      apply cursors_congr
      rw [nodesOf_foldl_fillStream rest _ hwidth' hprest, hstep, hnodes, if_neg hne]
    rw [List.foldl_cons]
    refine .cons hp ?_ ?_
    · rw [nodesOf_foldl_fillStream rest _ hwidth' hs, hcursors, hstep, hnodes, if_pos rfl,
        hnone s List.mem_cons_self, List.nil_append]
    · rw [hcursors, ← hstate, ← hstep]
      exact hrest

/-! ### A whole filling -/

omit [DecidableEq ε] in
/-- Nothing of the previous contents stays. -/
lemma resize_clear (m : MatchSets ε) (width : Nat) : m.clear.resize width = empty width := by
  have hlen : min width m.width + (width - m.width) = width := by omega
  rw [resize, width_clear]
  simp [clear, empty, List.take_replicate, hlen]

/-- The root holds the root events, and the other streams are filled parents first. -/
lemma filled_fillWith (h : t.Sound) (m : MatchSets ε) (rootEvents : List ε)
    (lookup : Lookup ε σ) (state : σ) :
    (m.fillWith t rootEvents lookup state).1.nodesOf t.root = recorded t.root none rootEvents ∧
      Filled t lookup (m.fillWith t rootEvents lookup state).1 (t.preorder.drop 1) state
        (m.fillWith t rootEvents lookup state).2 := by
  have hsub : (t.preorder.drop 1).Sublist (t.below t.root) := by
    rw [h.preorder_eq]
    exact List.drop_sublist 1 _
  have hroot : t.root ∉ t.preorder.drop 1 := by
    rw [h.mem_drop_preorder, h.parent_root]
    simp
  have hseeded : ∀ x, ((empty t.size : MatchSets ε).pushRoot t.root rootEvents).2.nodesOf x
      = if x = t.root then recorded t.root none rootEvents else [] := by
    intro x
    rw [pushRoot, nodesOf_push _ (by simpa using h.root_lt)]
    simp
  have hwidth : ∀ s ∈ t.preorder.drop 1,
      s < ((empty t.size : MatchSets ε).pushRoot t.root rootEvents).2.width := by
    intro s hs
    simpa [pushRoot] using h.mem_below_root.mp (hsub.subset hs)
  rw [fillWith, resize_clear]
  constructor
  · rw [nodesOf_foldl_fillStream _ _ hwidth hroot, hseeded, if_pos rfl]
  · apply filled_foldl _ _ (hsub.nodup (h.nodup_below t.root)) ((h.pairwise_below t.root).sublist hsub)
      _ hwidth
    · intro s hs
      have hne : s ≠ t.root := fun heq => hroot (heq ▸ hs)
      rw [hseeded, if_neg hne]
    · intro s hs
      obtain ⟨p, hp⟩ := h.mem_drop_preorder.mp hs
      exact ⟨p, hp, fun heq => h.parent_not_mem_below hp (heq ▸ h.mem_below_self p)⟩

/-- A stream holds what the lookup found for the events of its parent stream. -/
lemma nodesOf_fillWith (h : t.Sound) (m : MatchSets ε) (rootEvents : List ε)
    (lookup : Lookup ε σ) (state : σ) {s p : StreamIndex} (hp : t.parent? s = some p) :
    ∃ before, (m.fillWith t rootEvents lookup state).1.nodesOf s = recordedAll s
      (findings lookup s p before ((m.fillWith t rootEvents lookup state).1.cursors p)).1 :=
  (filled_fillWith h m rootEvents lookup state).2.of_mem (h.mem_drop_preorder.mpr ⟨p, hp⟩) hp

lemma fill_eq (m : MatchSets ε) (t : JoinTree) (rootEvents : List ε)
    (lookup : StreamIndex → StreamIndex → ε → List ε) :
    m.fill t rootEvents lookup = (m.fillWith t rootEvents (.steady lookup) ()).1 := rfl

end MatchSets

end JoinAssembly
