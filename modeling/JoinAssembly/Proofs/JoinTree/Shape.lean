import JoinAssembly.JoinTree.Basic
import Mathlib.Data.List.Flatten
import Mathlib.Data.List.Perm.Basic
import Mathlib.Tactic.Lemma

/-!
# Shapes of joins

A join tree keeps its streams in a table. Its shape is the same tree as nested branches, which is
what a recursion over a join follows. Unfolding child lists into a shape ends because children can
be ranked above their parents.
-/

namespace JoinAssembly

/-- A stream with whether it is optional and the branches below it. -/
inductive JoinShape where
  | node (stream : StreamIndex) (optional : Bool) (children : List JoinShape)

namespace JoinShape

def stream : JoinShape → StreamIndex
  | .node s _ _ => s

def optional : JoinShape → Bool
  | .node _ optional _ => optional

/-! ### Streams of a shape -/

mutual
/-- The streams of a shape, parents first. -/
def streams : JoinShape → List StreamIndex
  | .node s _ children => s :: streamsOfAll children

def streamsOfAll : List JoinShape → List StreamIndex
  | [] => []
  | c :: rest => streams c ++ streamsOfAll rest
end

mutual
/-- The streams of a shape, children first. -/
def ascending : JoinShape → List StreamIndex
  | .node s _ children => ascendingOfAll children ++ [s]

def ascendingOfAll : List JoinShape → List StreamIndex
  | [] => []
  | c :: rest => ascending c ++ ascendingOfAll rest
end

lemma streamsOfAll_eq (shapes : List JoinShape) : streamsOfAll shapes = shapes.flatMap streams := by
  induction shapes with
  | nil => rfl
  | cons c rest ih => rw [streamsOfAll, ih, List.flatMap_cons]

lemma ascendingOfAll_eq (shapes : List JoinShape) :
    ascendingOfAll shapes = shapes.flatMap ascending := by
  induction shapes with
  | nil => rfl
  | cons c rest ih => rw [ascendingOfAll, ih, List.flatMap_cons]

/-! ### Unfolding child lists -/

/-- The shape below a stream, down to a number of levels. -/
def grow (children : StreamIndex → List StreamIndex) (optional : StreamIndex → Bool) :
    Nat → StreamIndex → JoinShape
  | 0, s => .node s (optional s) []
  | levels + 1, s => .node s (optional s) ((children s).map (grow children optional levels))

end JoinShape

/-! ### Unfoldings -/

/-- A shape for every stream, whose branches are the shapes of the children. -/
structure Unfolding (children : StreamIndex → List StreamIndex) (optional : StreamIndex → Bool)
    (shape : StreamIndex → JoinShape) : Prop where
  unfold : ∀ s, shape s = .node s (optional s) ((children s).map shape)

namespace Unfolding

variable {children : StreamIndex → List StreamIndex} {optional : StreamIndex → Bool}
  {shape : StreamIndex → JoinShape}

/-- What holds of a stream as soon as it holds of its children holds of all streams. -/
lemma child_induction (h : Unfolding children optional shape) {P : StreamIndex → Prop}
    (step : ∀ s, (∀ c ∈ children s, P c) → P s) (s : StreamIndex) : P s := by
  induction hn : sizeOf (shape s) using Nat.strongRecOn generalizing s with
  | ind n ih =>
    apply step
    intro c hc
    have hlt : sizeOf (shape c) < sizeOf ((children s).map shape) :=
      List.sizeOf_lt_of_mem (List.mem_map_of_mem hc)
    have heq := congrArg sizeOf (h.unfold s)
    simp only [JoinShape.node.sizeOf_spec] at heq
    exact ih (sizeOf (shape c)) (by omega) c rfl

/-- The streams of a shape are its top stream and those of the branches. -/
lemma streams_eq (h : Unfolding children optional shape) (s : StreamIndex) :
    (shape s).streams = s :: (children s).flatMap fun c => (shape c).streams := by
  rw [h.unfold s, JoinShape.streams, JoinShape.streamsOfAll_eq, List.flatMap_map]

lemma ascending_eq (h : Unfolding children optional shape) (s : StreamIndex) :
    (shape s).ascending = ((children s).flatMap fun c => (shape c).ascending) ++ [s] := by
  rw [h.unfold s, JoinShape.ascending, JoinShape.ascendingOfAll_eq, List.flatMap_map]

lemma mem_streams_self (h : Unfolding children optional shape) (s : StreamIndex) :
    s ∈ (shape s).streams := by
  rw [h.streams_eq]
  exact List.mem_cons_self

/-- Both orders list the same streams. -/
lemma ascending_perm_streams (h : Unfolding children optional shape) (s : StreamIndex) :
    (shape s).ascending.Perm (shape s).streams := by
  induction s using h.child_induction with
  | step s ih =>
    rw [h.ascending_eq, h.streams_eq]
    exact (List.perm_append_singleton _ _).trans ((List.Perm.flatMap_left _ ih).cons s)

/-- What is met below a stream of a shape is met in the shape, in the same order. -/
lemma streams_sublist (h : Unfolding children optional shape) (root : StreamIndex) :
    ∀ s ∈ (shape root).streams, (shape s).streams.Sublist (shape root).streams := by
  induction root using h.child_induction with
  | step root ih =>
    intro s hs
    rw [h.streams_eq root] at hs ⊢
    rcases List.mem_cons.mp hs with rfl | hs
    · rw [h.streams_eq s]
    · obtain ⟨c, hc, hsc⟩ := List.mem_flatMap.mp hs
      have hbranch : (shape c).streams.Sublist
          ((children root).flatMap fun c => (shape c).streams) := by
        simpa using (List.singleton_sublist.mpr hc).flatMap fun c => (shape c).streams
      exact ((ih c hc s hsc).trans hbranch).cons root

end Unfolding

/-! ### Ranked child lists -/

/-- Streams are ranked so that every child is above its parent and below a bound. -/
structure Ranked (children : StreamIndex → List StreamIndex) (bound : Nat)
    (rank : StreamIndex → Nat) : Prop where
  rank_lt : ∀ s, ∀ c ∈ children s, rank s < rank c
  rank_bound : ∀ s, ∀ c ∈ children s, rank c < bound

namespace Ranked

variable {children : StreamIndex → List StreamIndex} {bound : Nat} {rank : StreamIndex → Nat}

/-- Further levels add nothing once all ranks are used up. -/
lemma grow_succ (h : Ranked children bound rank) (optional : StreamIndex → Bool) :
    ∀ (levels : Nat) (s : StreamIndex), bound - rank s ≤ levels →
      JoinShape.grow children optional (levels + 1) s = JoinShape.grow children optional levels s
  | 0, s, hs => by
    have hnone : children s = [] := by
      apply List.eq_nil_iff_forall_not_mem.mpr
      intro c hc
      have h1 := h.rank_lt s c hc
      have h2 := h.rank_bound s c hc
      omega
    simp [JoinShape.grow, hnone]
  | levels + 1, s, hs => by
    rw [JoinShape.grow, JoinShape.grow]
    congr 1
    apply List.map_congr_left
    intro c hc
    have h1 := h.rank_lt s c hc
    exact h.grow_succ optional levels c (by omega)

/-- With a level for each rank, growing unfolds the child lists. -/
lemma unfolding_grow (h : Ranked children bound rank) (optional : StreamIndex → Bool) :
    Unfolding children optional (JoinShape.grow children optional bound) where
  unfold s := by
    rw [← h.grow_succ optional bound s (Nat.sub_le _ _)]
    rfl

end Ranked

/-! ### The shape of a join tree -/

/-- The shape below a stream of a tree. No stream is deeper than there are streams. -/
def JoinTree.shapeOf (t : JoinTree) (s : StreamIndex) : JoinShape :=
  .grow t.childrenOf t.isOptional t.size s

end JoinAssembly
