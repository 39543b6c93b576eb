import JoinAssembly.JoinTree.Walk
import JoinAssembly.Proofs.JoinTree.Shape

/-!
# Walks follow the shape

The walks with an explicit stack list the streams of a shape in the order of the recursion, and the
subtree table holds for every stream the streams of its shape.
-/

namespace JoinAssembly

variable {children : StreamIndex → List StreamIndex} {optional : StreamIndex → Bool}
  {shape : StreamIndex → JoinShape}

namespace Unfolding

/-! ### Parents first -/

/-- Meeting a whole branch takes as many steps as it has streams. -/
lemma iterate_descent (h : Unfolding children optional shape) (s : StreamIndex) :
    ∀ visited rest : List StreamIndex,
      iterate (Descent.step children) (shape s).streams.length ⟨visited, s :: rest⟩
        = ⟨visited ++ (shape s).streams, rest⟩ := by
  induction s using h.child_induction with
  | step s ih =>
    -- The branches on the stack are met one after the other.
    have branches : ∀ (cs : List StreamIndex), (∀ c ∈ cs, c ∈ children s) →
        ∀ visited rest : List StreamIndex,
          iterate (Descent.step children) (cs.flatMap fun c => (shape c).streams).length
              ⟨visited, cs ++ rest⟩
            = ⟨visited ++ cs.flatMap fun c => (shape c).streams, rest⟩ := by
      intro cs
      induction cs with
      | nil => intro _ visited rest; simp
      | cons c cs ihcs =>
        intro hcs visited rest
        rw [List.flatMap_cons, List.length_append, iterate_add, List.cons_append,
          ih c (hcs c List.mem_cons_self), ihcs fun d hd => hcs d (List.mem_cons_of_mem _ hd),
          List.append_assoc]
    intro visited rest
    rw [h.streams_eq, List.length_cons, iterate_succ, Descent.step,
      branches (children s) (fun _ hc => hc), List.append_assoc, List.singleton_append]

/-- The walk from a root lists the streams of its shape, if it has enough steps. -/
lemma preorderWalk_eq (h : Unfolding children optional shape) {n : Nat} (root : StreamIndex)
    (hn : (shape root).streams.length ≤ n) :
    preorderWalk children n root = (shape root).streams := by
  obtain ⟨extra, rfl⟩ := Nat.exists_eq_add_of_le hn
  rw [preorderWalk, Descent.run, iterate_add, Descent.start, h.iterate_descent root,
    iterate_of_fixed (by rfl), List.nil_append]

/-! ### Children first -/

/-- Entering and finishing a whole branch. A stream takes one step to be finished and, as a child,
one to be entered. -/
lemma iterate_ascent (h : Unfolding children optional shape) (s : StreamIndex) :
    ∀ (finished : List StreamIndex) (rest : List (StreamIndex × List StreamIndex)),
      iterate (Ascent.step children) (2 * (shape s).streams.length - 1)
          ⟨finished, (s, children s) :: rest⟩
        = ⟨finished ++ (shape s).ascending, rest⟩ := by
  induction s using h.child_induction with
  | step s ih =>
    have branches : ∀ (cs : List StreamIndex), (∀ c ∈ cs, c ∈ children s) →
        ∀ (finished : List StreamIndex) (rest : List (StreamIndex × List StreamIndex)),
          iterate (Ascent.step children) (2 * (cs.flatMap fun c => (shape c).streams).length)
              ⟨finished, (s, cs) :: rest⟩
            = ⟨finished ++ cs.flatMap fun c => (shape c).ascending, (s, []) :: rest⟩ := by
      intro cs
      induction cs with
      | nil => intro _ finished rest; simp
      | cons c cs ihcs =>
        intro hcs finished rest
        have hpos : 0 < (shape c).streams.length :=
          List.length_pos_of_mem (h.mem_streams_self c)
        have hsteps : 2 * ((c :: cs).flatMap fun c => (shape c).streams).length
            = ((2 * (shape c).streams.length - 1)
              + 2 * (cs.flatMap fun c => (shape c).streams).length) + 1 := by
          rw [List.flatMap_cons, List.length_append]
          omega
        rw [hsteps, iterate_succ, Ascent.step, iterate_add, ih c (hcs c List.mem_cons_self),
          ihcs fun d hd => hcs d (List.mem_cons_of_mem _ hd), List.flatMap_cons,
          List.append_assoc]
    intro finished rest
    have hsteps : 2 * (shape s).streams.length - 1
        = 2 * ((children s).flatMap fun c => (shape c).streams).length + 1 := by
      rw [h.streams_eq, List.length_cons]
      omega
    rw [hsteps, iterate_add, branches (children s) (fun _ hc => hc), h.ascending_eq,
      ← List.append_assoc]
    rfl

/-- The walk with children first lists the streams of the shape. -/
lemma postorderWalk_eq (h : Unfolding children optional shape) {n : Nat} (root : StreamIndex)
    (hn : (shape root).streams.length ≤ n) :
    postorderWalk children n root = (shape root).ascending := by
  have hsteps : 2 * n = (2 * (shape root).streams.length - 1)
      + (2 * n - (2 * (shape root).streams.length - 1)) := by
    omega
  rw [postorderWalk, Ascent.run, hsteps, iterate_add, Ascent.start, h.iterate_ascent root,
    iterate_of_fixed (by rfl), List.nil_append]

end Unfolding

/-! ### Subtrees -/

@[simp] lemma length_addSubtree (table : List (List StreamIndex)) (s : StreamIndex) :
    (addSubtree children table s).length = table.length := by simp [addSubtree]

@[simp] lemma length_foldl_addSubtree (l : List StreamIndex) (table : List (List StreamIndex)) :
    (l.foldl (addSubtree children) table).length = table.length := by
  induction l generalizing table with
  | nil => rfl
  | cons s rest ih => rw [List.foldl_cons, ih, length_addSubtree]

namespace Unfolding

/-- Entering a branch bottom up sets the entries of its streams and leaves the others. -/
lemma getElem?_foldl_addSubtree (h : Unfolding children optional shape) (s : StreamIndex) :
    ∀ (table : List (List StreamIndex)), (∀ t ∈ (shape s).streams, t < table.length) →
      ∀ t, ((shape s).ascending.foldl (addSubtree children) table)[t]?
        = if t ∈ (shape s).streams then some (shape t).streams else table[t]? := by
  induction s using h.child_induction with
  | step s ih =>
    have branches : ∀ (cs : List StreamIndex), (∀ c ∈ cs, c ∈ children s) →
        ∀ (table : List (List StreamIndex)),
          (∀ t ∈ cs.flatMap fun c => (shape c).streams, t < table.length) →
          ∀ t, ((cs.flatMap fun c => (shape c).ascending).foldl (addSubtree children) table)[t]?
            = if t ∈ cs.flatMap fun c => (shape c).streams
              then some (shape t).streams else table[t]? := by
      intro cs
      induction cs with
      | nil => intro _ table _ t; simp
      | cons c cs ihcs =>
        intro hcs table hlt t
        rw [List.flatMap_cons] at hlt
        rw [List.flatMap_cons, List.flatMap_cons, List.foldl_append,
          ihcs (fun d hd => hcs d (List.mem_cons_of_mem _ hd)) _
            (fun t ht => by simpa using hlt t (List.mem_append_right _ ht)),
          ih c (hcs c List.mem_cons_self) table fun t ht => hlt t (List.mem_append_left _ ht)]
        by_cases h1 : t ∈ cs.flatMap fun c => (shape c).streams
        · rw [if_pos h1, if_pos (List.mem_append_right _ h1)]
        · rw [if_neg h1]
          by_cases h2 : t ∈ (shape c).streams
          · rw [if_pos h2, if_pos (List.mem_append_left _ h2)]
          · rw [if_neg h2, if_neg fun hmem => (List.mem_append.mp hmem).elim h2 h1]
    intro table hlt t
    have hbelow := branches (children s) (fun _ hc => hc) table fun t ht =>
      hlt t (by rw [h.streams_eq]; exact List.mem_cons_of_mem _ ht)
    have hlen : s < (((children s).flatMap fun c => (shape c).ascending).foldl
        (addSubtree children) table).length := by
      rw [length_foldl_addSubtree]
      exact hlt s (h.mem_streams_self s)
    rw [h.ascending_eq, List.foldl_append, List.foldl_cons, List.foldl_nil]
    generalize ((children s).flatMap fun c => (shape c).ascending).foldl (addSubtree children)
      table = below at hbelow hlen ⊢
    -- The entries of the children are there when their parent's is made.
    have hentry : (s :: (children s).flatMap fun c => below[c]?.getD []) = (shape s).streams := by
      rw [h.streams_eq]
      congr 1
      apply List.flatMap_congr
      intro c hc
      rw [hbelow c, if_pos (List.mem_flatMap.mpr ⟨c, hc, h.mem_streams_self c⟩),
        Option.getD_some]
    rw [addSubtree, hentry]
    by_cases hts : t = s
    · subst hts
      rw [List.getElem?_set_self hlen, if_pos (h.mem_streams_self t)]
    · rw [List.getElem?_set_ne (Ne.symm hts), hbelow t, h.streams_eq s]
      simp only [List.mem_cons, hts, false_or]

/-- The table holds for every stream of the shape the streams below it. -/
lemma getElem?_subtreeTable (h : Unfolding children optional shape) {n : Nat}
    (root : StreamIndex) (hlt : ∀ t ∈ (shape root).streams, t < n) {s : StreamIndex}
    (hs : s ∈ (shape root).streams) :
    (subtreeTable children n (shape root).ascending)[s]? = some (shape s).streams := by
  rw [subtreeTable, h.getElem?_foldl_addSubtree root _ (by simpa using hlt), if_pos hs]

end Unfolding

end JoinAssembly
