import JoinAssembly.MatchSets.Basic

/-!
# Filling match sets by lookups

Match sets are filled from the root down: for every event of a parent stream, each stream joined to
it is looked up once. A lookup may keep a state of its own, so it need not answer alike twice.
-/

namespace JoinAssembly

/-- Find the events of a stream that match an event of its parent stream: stream, parent stream,
event. -/
abbrev Lookup (ε σ : Type) := StreamIndex → StreamIndex → ε → σ → List ε × σ

namespace MatchSets

variable {ε σ : Type} [DecidableEq ε]

/-- Look a stream up for each of some events of its parent stream. -/
def fillFrom (lookup : Lookup ε σ) (s parent : StreamIndex) (m : MatchSets ε) (state : σ) :
    List (MatchRef × ε) → MatchSets ε × σ
  | [] => (m, state)
  | (place, event) :: rest =>
    let (found, state) := lookup s parent event state
    fillFrom lookup s parent (m.pushMatch s place event found).2 state rest

/-- Look a stream up for the events that its parent stream has. The root is not looked up. -/
def fillStream (tree : JoinTree) (lookup : Lookup ε σ) (filled : MatchSets ε × σ)
    (s : StreamIndex) : MatchSets ε × σ :=
  match tree.parent? s with
  | none => filled
  | some parent => fillFrom lookup s parent filled.1 filled.2 (filled.1.cursors parent)

/-- Replace the contents by the events of the root stream and all that is found for them. -/
def fillWith (m : MatchSets ε) (tree : JoinTree) (rootEvents : List ε) (lookup : Lookup ε σ)
    (state : σ) : MatchSets ε × σ :=
  let cleared := m.clear.resize tree.size
  let seeded := (cleared.pushRoot tree.root rootEvents).2
  (tree.preorder.drop 1).foldl (fillStream tree lookup) (seeded, state)

/-- As `fillWith`, by a lookup that always answers alike. -/
def fill (m : MatchSets ε) (tree : JoinTree) (rootEvents : List ε)
    (lookup : StreamIndex → StreamIndex → ε → List ε) : MatchSets ε :=
  (m.fillWith tree rootEvents (fun s parent event (_ : Unit) => (lookup s parent event, ())) ()).1

/-! ### The number of streams stays -/

@[simp] theorem width_fillFrom (lookup : Lookup ε σ) (s parent : StreamIndex) (m : MatchSets ε)
    (state : σ) (events : List (MatchRef × ε)) :
    (fillFrom lookup s parent m state events).1.width = m.width := by
  induction events generalizing m state with
  | nil => rfl
  | cons e rest ih => simp [fillFrom, ih, pushMatch]

@[simp] theorem width_fillStream (tree : JoinTree) (lookup : Lookup ε σ)
    (filled : MatchSets ε × σ) (s : StreamIndex) :
    (fillStream tree lookup filled s).1.width = filled.1.width := by
  unfold fillStream
  split <;> simp

theorem width_fillWith (m : MatchSets ε) (tree : JoinTree) (rootEvents : List ε)
    (lookup : Lookup ε σ) (state : σ) :
    (m.fillWith tree rootEvents lookup state).1.width = tree.size := by
  have h : ∀ (l : List StreamIndex) (filled : MatchSets ε × σ),
      (l.foldl (fillStream tree lookup) filled).1.width = filled.1.width := by
    intro l
    induction l with
    | nil => intro filled; rfl
    | cons s rest ih => intro filled; rw [List.foldl_cons, ih, width_fillStream]
  simp [fillWith, h, pushRoot]

end MatchSets

end JoinAssembly
