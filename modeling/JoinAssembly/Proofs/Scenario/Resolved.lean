import JoinAssembly.JoinTree.StreamEntry
import JoinAssembly.Proofs.Assembler.Answers
import JoinAssembly.Proofs.MatchSets.Filled
import JoinAssembly.Scenario.Resolve

/-!
# Resolved passes

An entry is attached to a match node of its parent stream that holds its parent event. Match nodes
are only ever added, so the links of resolved match sets have no faults.
-/

namespace JoinAssembly

variable {ε : Type} [DecidableEq ε]

/-! ### Links to match nodes that stay -/

namespace MatchSets

variable {m : MatchSets ε} {s : StreamIndex}

/-- The match nodes that hold an event are match nodes of the stream. -/
lemma mem_holding {event : ε} {place : MatchRef} : place ∈ m.holding s event ↔
    place.stream = s ∧ ∃ node ∈ m.node? place, event ∈ node.events.toList := by
  simp only [holding, List.mem_filterMap, Prod.exists, List.mk_mem_zipIdx_iff_getElem?,
    Option.mem_def]
  constructor
  · rintro ⟨node, index, hnode, hif⟩
    split at hif
    · rename_i hheld
      cases hif
      exact ⟨rfl, node, hnode, DistinctList.contains_iff.mp hheld⟩
    · cases hif
  · rintro ⟨rfl, node, hnode, hheld⟩
    exact ⟨node, place.index, hnode, if_pos (DistinctList.contains_iff.mpr hheld)⟩

lemma nodesOf_ofRoot {width : Nat} {root : StreamIndex} (hroot : root < width) (events : List ε)
    (x : StreamIndex) : (ofRoot width root events).nodesOf x
      = if x = root then recorded root none events else [] := by
  rw [ofRoot, pushRoot, nodesOf_push _ (by rwa [width_empty])]
  simp

end MatchSets

namespace JoinTree.WellLinked

variable {t : JoinTree} {m : MatchSets ε}

/-- Events of the root have no links. -/
lemma ofRoot (h : t.Sound) (events : List ε) : t.WellLinked (.ofRoot t.size t.root events) where
  root_unlinked node hnode := by
    rw [MatchSets.nodesOf_ofRoot h.root_lt, if_pos rfl] at hnode
    obtain ⟨-, rfl⟩ := mem_recorded.mp hnode
    rfl
  linked s hs hroot node hnode := by
    rw [MatchSets.nodesOf_ofRoot h.root_lt, if_neg hroot] at hnode
    cases hnode

/-- Links stay without faults when a match node is added that links to a match node of the parent
stream that holds the event. -/
lemma pushMatch (hlinks : t.WellLinked m) (h : t.Sound) (hm : m.width = t.size)
    {s p : StreamIndex} (hp : t.parent? s = some p) {event : ε} {place : MatchRef}
    (hplace : place ∈ m.holding p event) (events : List ε) :
    t.WellLinked (m.pushMatch s place event events).2 := by
  have hs : s < m.width := hm ▸ lt_size_of_parent hp
  have hroot : t.root ≠ s := fun heq => h.ne_root_of_parent hp heq.symm
  -- What was linked to before is still there.
  have hstays : ∀ link : ParentLink ε,
      (∃ target ∈ m.node? link.place, link.event ∈ target.events.toList) →
        ∃ target ∈ (m.pushMatch s place event events).2.node? link.place,
          link.event ∈ target.events.toList := by
    rintro link ⟨target, htarget, hevent⟩
    exact ⟨target, MatchSets.node?_push hs htarget _ events, hevent⟩
  have hnodes := m.nodesOf_push hs (some ⟨place, event⟩) events
  refine ⟨?_, ?_⟩
  · intro node hnode
    rw [MatchSets.pushMatch, hnodes, if_neg hroot] at hnode
    exact hlinks.root_unlinked node hnode
  · intro x hx hxroot node hnode
    have hold : node ∈ m.nodesOf x → ∃ link ∈ node.parent,
        t.parent? x = some link.place.stream ∧
          ∃ target ∈ (m.pushMatch s place event events).2.node? link.place,
            link.event ∈ target.events.toList := by
      intro hnode
      obtain ⟨link, hlink, hstream, htarget⟩ := hlinks.linked x hx hxroot node hnode
      exact ⟨link, hlink, hstream, hstays link htarget⟩
    rw [MatchSets.pushMatch, hnodes] at hnode
    split at hnode
    · rename_i heq
      subst heq
      rcases List.mem_append.mp hnode with hnode | hnode
      · exact hold hnode
      · obtain ⟨-, rfl⟩ := mem_recorded.mp hnode
        obtain ⟨hstream, htarget⟩ := MatchSets.mem_holding.mp hplace
        exact ⟨⟨place, event⟩, rfl, hstream ▸ hp, hstays ⟨place, event⟩ htarget⟩
    · exact hold hnode

end JoinTree.WellLinked

/-! ### Resolving entries -/

namespace Resolution

variable {t : JoinTree} {number : Nat} {r : Resolution}

/-- What becomes of an entry. -/
lemma addEntry_cases (t : JoinTree) (number : Nat) (r : Resolution) (entry : MatchEntry) :
    (t.streamOf? entry.stream = none ∧
      r.addEntry t number entry = (r, some (.unknownStream number entry.stream))) ∨
    (∃ s, t.streamOf? entry.stream = some s ∧ t.parent? s = none ∧
      r.addEntry t number entry = (r, some (.rootEntry number entry.stream))) ∨
    (∃ s p, t.streamOf? entry.stream = some s ∧ t.parent? s = some p ∧
      (r.sets.holding p (r.names.event entry.parent).1)[entry.parentChoice.getD 0]? = none ∧
      r.addEntry t number entry = ({ r with names := (r.names.event entry.parent).2 },
        some (.parentNotHeld number entry.stream entry.parent))) ∨
    (∃ s p place, t.streamOf? entry.stream = some s ∧ t.parent? s = some p ∧
      (r.sets.holding p (r.names.event entry.parent).1)[entry.parentChoice.getD 0]? = some place ∧
      r.addEntry t number entry =
        (⟨((r.names.event entry.parent).2.events entry.events).2,
          (r.sets.pushMatch s place (r.names.event entry.parent).1
            ((r.names.event entry.parent).2.events entry.events).1).2⟩, none)) := by
  simp only [addEntry]
  cases hs : t.streamOf? entry.stream with
  | none => exact .inl ⟨rfl, rfl⟩
  | some s =>
    cases hp : t.parent? s with
    | none => exact .inr (.inl ⟨s, rfl, hp, by simp only [hp]⟩)
    | some p =>
      cases hplace :
          (r.sets.holding p (r.names.event entry.parent).1)[entry.parentChoice.getD 0]? with
      | none => exact .inr (.inr (.inl ⟨s, p, rfl, hp, hplace, by simp only [hp, hplace]⟩))
      | some place =>
        exact .inr (.inr (.inr ⟨s, p, place, rfl, hp, hplace, by simp only [hp, hplace]⟩))

lemma addEntries_cons (t : JoinTree) (number : Nat) (r : Resolution) (entry : MatchEntry)
    (rest : List MatchEntry) : r.addEntries t number (entry :: rest) =
      match (r.addEntry t number entry).2 with
      | some e => ((r.addEntry t number entry).1, some e)
      | none => (r.addEntry t number entry).1.addEntries t number rest := by
  rw [addEntries]
  rcases r.addEntry t number entry with ⟨_, _ | _⟩ <;> rfl

/-- Match sets that a pass over a tree can be run on. -/
structure Sound (t : JoinTree) (r : Resolution) : Prop where
  width_eq : r.sets.width = t.size
  wellLinked : t.WellLinked r.sets

lemma Sound.addEntry (hr : r.Sound t) (h : t.Sound) (number : Nat) (entry : MatchEntry) :
    (r.addEntry t number entry).1.Sound t := by
  rcases addEntry_cases t number r entry with ⟨-, heq⟩ | ⟨s, -, -, heq⟩ | ⟨s, p, -, -, -, heq⟩ |
    ⟨s, p, place, -, hp, hplace, heq⟩
  · rwa [heq]
  · rwa [heq]
  · rw [heq]
    exact ⟨hr.width_eq, hr.wellLinked⟩
  · rw [heq]
    refine ⟨(MatchSets.width_push _ _ _ _).trans hr.width_eq, ?_⟩
    exact hr.wellLinked.pushMatch h hr.width_eq hp (List.mem_of_getElem? hplace) _

lemma Sound.addEntries (h : t.Sound) (number : Nat) (entries : List MatchEntry) :
    ∀ {r : Resolution}, r.Sound t → (r.addEntries t number entries).1.Sound t := by
  induction entries with
  | nil => intro r hr; exact hr
  | cons entry rest ih =>
    intro r hr
    have hnext := hr.addEntry h number entry
    rw [addEntries_cons]
    split
    · exact hnext
    · exact ih hnext

/-- The match sets of a pass have the width of the tree, and no link of theirs is faulty. -/
lemma sound_ofPass (h : t.Sound) (names : Interner) (number : Nat) (pass : PassEntry) :
    (ofPass t names number pass).1.Sound t := by
  refine Sound.addEntries h number pass.matched ⟨?_, .ofRoot h _⟩
  rw [MatchSets.ofRoot, MatchSets.pushRoot, MatchSets.width_push, MatchSets.width_empty]

end Resolution

/-- An entry of a pass cannot be resolved. -/
inductive ScenarioError.IsEntryOf (number : Nat) : ScenarioError → Prop where
  | unknownStream (stream : String) : IsEntryOf number (.unknownStream number stream)
  | rootEntry (stream : String) : IsEntryOf number (.rootEntry number stream)
  | parentNotHeld (stream parent : String) : IsEntryOf number (.parentNotHeld number stream parent)

namespace Resolution

variable {t : JoinTree} {number : Nat} {e : ScenarioError}

lemma isEntryOf_addEntry {r : Resolution} {entry : MatchEntry}
    (herror : (r.addEntry t number entry).2 = some e) : e.IsEntryOf number := by
  rcases addEntry_cases t number r entry with ⟨-, heq⟩ | ⟨s, -, -, heq⟩ | ⟨s, p, -, -, -, heq⟩ |
    ⟨s, p, place, -, -, -, heq⟩
  · rw [heq] at herror
    cases herror
    exact .unknownStream entry.stream
  · rw [heq] at herror
    cases herror
    exact .rootEntry entry.stream
  · rw [heq] at herror
    cases herror
    exact .parentNotHeld entry.stream entry.parent
  · rw [heq] at herror
    cases herror

lemma isEntryOf_addEntries (entries : List MatchEntry) :
    ∀ {r : Resolution}, (r.addEntries t number entries).2 = some e → e.IsEntryOf number := by
  induction entries with
  | nil => intro r herror; cases herror
  | cons entry rest ih =>
    intro r herror
    rw [addEntries_cons] at herror
    split at herror
    · rename_i hentry
      exact isEntryOf_addEntry (hentry.trans herror)
    · exact ih herror

/-- Whatever is wrong with a pass is wrong with one of its entries. -/
lemma isEntryOf_ofPass {names : Interner} {pass : PassEntry}
    (herror : (ofPass t names number pass).2 = some e) : e.IsEntryOf number :=
  isEntryOf_addEntries pass.matched herror

end Resolution

end JoinAssembly
