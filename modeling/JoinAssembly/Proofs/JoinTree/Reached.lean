import JoinAssembly.Proofs.JoinTree.Walks
import Mathlib.Data.List.Perm.Subperm
import Mathlib.Logic.Relation

/-!
# What a walk from the root reaches

The walk with parents first keeps no record of where it has been. It meets no stream twice all the
same, because every stream is a child of one parent only and the root is nobody's child. If it meets
as many streams as there are, the child lists unfold to a finite shape.
-/

namespace JoinAssembly

/-- Child lists over `size` streams in which every stream has one parent and the root has none. -/
structure Forest (children : StreamIndex → List StreamIndex)
    (parent : StreamIndex → Option StreamIndex) (size : Nat) (root : StreamIndex) : Prop where
  mem_children : ∀ {s c}, c ∈ children s ↔ parent c = some s
  nodup_children : ∀ s, (children s).Nodup
  lt_of_parent : ∀ {c s}, parent c = some s → c < size
  root_lt : root < size
  parent_root : parent root = none

/-! ### Steps of a walk -/

namespace Descent

/-- The streams that a walk has come across. -/
def held (w : Descent) : List StreamIndex := w.visited ++ w.stack

variable (children : StreamIndex → List StreamIndex)

/-- The streams that a step puts on the stack. -/
def pushed (w : Descent) : List StreamIndex :=
  match w.stack with
  | [] => []
  | s :: _ => children s

lemma step_of_done (w : Descent) (h : w.stack = []) : w.step children = w := by
  rw [step, h]

lemma length_visited_step (w : Descent) (h : w.stack ≠ []) :
    (w.step children).visited.length = w.visited.length + 1 := by
  obtain ⟨visited, _ | ⟨s, rest⟩⟩ := w
  · exact absurd rfl h
  · exact List.length_append

/-- A step loses no stream, and what it adds it pushes. -/
lemma perm_step (w : Descent) : (w.held ++ w.pushed children).Perm (w.step children).held := by
  obtain ⟨visited, _ | ⟨s, rest⟩⟩ := w
  · rw [pushed, step, List.append_nil]
  · simp only [held, pushed, step, List.append_assoc, List.cons_append, List.nil_append]
    exact (List.perm_append_comm.cons s).append_left visited

end Descent

/-! ### Walks from the root -/

/-- What holds of the streams of a walk from the root, at any time. -/
structure Descent.Orderly (parent : StreamIndex → Option StreamIndex) (size : Nat)
    (root : StreamIndex) (w : Descent) : Prop where
  nodup : (w.visited ++ w.stack).Nodup
  lt_size : ∀ s ∈ w.visited ++ w.stack, s < size
  /-- The parent of a stream is met before the stream. -/
  parent_before : ∀ (i : Nat) (s : StreamIndex), w.visited[i]? = some s →
    s = root ∨ ∃ j < i, ∃ p, w.visited[j]? = some p ∧ parent s = some p
  parent_visited : ∀ s ∈ w.stack, s = root ∨ ∃ p ∈ w.visited, parent s = some p

/-- A walk from the root loses no child of a stream that it has met. -/
structure Descent.Closed (children : StreamIndex → List StreamIndex) (root : StreamIndex)
    (w : Descent) : Prop where
  root_mem : root ∈ w.visited ++ w.stack
  children_mem : ∀ s ∈ w.visited, ∀ c ∈ children s, c ∈ w.visited ++ w.stack

namespace Forest

variable {children : StreamIndex → List StreamIndex} {parent : StreamIndex → Option StreamIndex}
  {size : Nat} {root : StreamIndex}

lemma orderly_start (h : Forest children parent size root) :
    (Descent.start root).Orderly parent size root where
  nodup := by simp [Descent.start]
  lt_size := by simpa [Descent.start] using h.root_lt
  parent_before := by simp [Descent.start]
  parent_visited := by simp [Descent.start]

/-- A stream that the walk has come across is the root or a child of a stream that was met. -/
lemma eq_root_or_parent_visited {w : Descent} (hw : w.Orderly parent size root) {s : StreamIndex}
    (hs : s ∈ w.visited ++ w.stack) : s = root ∨ ∃ p ∈ w.visited, parent s = some p := by
  rcases List.mem_append.mp hs with hs | hs
  · obtain ⟨i, hi⟩ := List.getElem?_of_mem hs
    rcases hw.parent_before i s hi with rfl | ⟨j, -, p, hj, hp⟩
    · exact .inl rfl
    · exact .inr ⟨p, List.mem_of_getElem? hj, hp⟩
  · exact hw.parent_visited s hs

/-- Children of the stream on top of the stack are new to the walk. -/
lemma children_fresh (h : Forest children parent size root) {visited rest : List StreamIndex}
    {s : StreamIndex} (hw : (Descent.mk visited (s :: rest)).Orderly parent size root)
    {c : StreamIndex} (hc : c ∈ children s) : c ∉ visited ++ s :: rest := by
  intro hmem
  have hparent := h.mem_children.mp hc
  rcases eq_root_or_parent_visited hw hmem with rfl | ⟨p, hp, hparent'⟩
  · rw [h.parent_root] at hparent
    cases hparent
  · -- The parent would be met although it is still on the stack.
    rw [hparent] at hparent'
    cases hparent'
    exact (List.nodup_append.mp hw.nodup).2.2 s hp s List.mem_cons_self rfl

lemma orderly_step (h : Forest children parent size root) {w : Descent}
    (hw : w.Orderly parent size root) : (w.step children).Orderly parent size root := by
  obtain ⟨visited, stack⟩ := w
  cases stack with
  | nil => exact hw
  | cons s rest =>
    have hfresh := fun c hc => h.children_fresh hw (c := c) hc
    have hnodup := hw.nodup
    refine ⟨?_, ?_, ?_, ?_⟩
    · refine (Descent.perm_step children ⟨visited, s :: rest⟩).nodup_iff.mp ?_
      refine List.nodup_append.mpr ⟨hnodup, h.nodup_children s, ?_⟩
      rintro d hd c hc rfl
      exact hfresh d hc hd
    · intro t ht
      have hcases : t ∈ children s ∨ t ∈ visited ++ s :: rest := by
        simp only [Descent.step, List.mem_append, List.mem_cons, List.not_mem_nil] at ht ⊢
        tauto
      rcases hcases with ht | ht
      · exact h.lt_of_parent (h.mem_children.mp ht)
      · exact hw.lt_size t ht
    · intro i t ht
      simp only [Descent.step] at ht ⊢
      rcases Nat.lt_or_ge i visited.length with hi | hi
      · rw [List.getElem?_append_left hi] at ht
        rcases hw.parent_before i t ht with rfl | ⟨j, hj, p, hp, hparent⟩
        · exact .inl rfl
        · exact .inr ⟨j, hj, p, by rw [List.getElem?_append_left (by omega)]; exact hp, hparent⟩
      · -- The last place is that of `s`, which was on the stack.
        rw [List.getElem?_append_right hi] at ht
        obtain ⟨rfl, hzero⟩ : t = s ∧ i - visited.length = 0 := by
          cases hk : i - visited.length with
          | zero => simpa [hk] using ht.symm
          | succ k => simp [hk] at ht
        rcases hw.parent_visited t List.mem_cons_self with rfl | ⟨p, hp, hparent⟩
        · exact .inl rfl
        · obtain ⟨j, hj⟩ := List.getElem?_of_mem hp
          have hjlt : j < visited.length := (List.getElem?_eq_some_iff.mp hj).1
          exact .inr ⟨j, by omega, p, by rw [List.getElem?_append_left hjlt]; exact hj, hparent⟩
    · intro t ht
      simp only [Descent.step, List.mem_append] at ht ⊢
      rcases ht with ht | ht
      · exact .inr ⟨s, .inr List.mem_cons_self, h.mem_children.mp ht⟩
      · rcases hw.parent_visited t (List.mem_cons_of_mem _ ht) with rfl | ⟨p, hp, hparent⟩
        · exact .inl rfl
        · exact .inr ⟨p, .inl hp, hparent⟩

lemma orderly_run (h : Forest children parent size root) (steps : Nat) :
    (Descent.run children steps (.start root)).Orderly parent size root := by
  have hrun : ∀ (steps : Nat) (w : Descent), w.Orderly parent size root →
      (Descent.run children steps w).Orderly parent size root := by
    intro steps
    induction steps with
    | zero => intro w hw; exact hw
    | succ steps ih => intro w hw; exact ih _ (h.orderly_step hw)
  exact hrun steps _ h.orderly_start

/-- Streams without repetition below the size are no more than there are. -/
lemma length_le_size {l : List StreamIndex} (hl : l.Nodup) (hlt : ∀ s ∈ l, s < size) :
    l.length ≤ size := by
  have hsub : l.Subperm (List.range size) :=
    hl.subperm fun s hs => List.mem_range.mpr (hlt s hs)
  simpa using hsub.length_le

/-! ### Where a walk ends -/

/-- A walk that has not ended has met one stream in each step. -/
lemma length_visited_run (steps : Nat) : ∀ w : Descent,
    (Descent.run children steps w).stack = [] ∨
      (Descent.run children steps w).visited.length = w.visited.length + steps := by
  induction steps with
  | zero => intro w; exact .inr rfl
  | succ steps ih =>
    intro w
    by_cases hw : w.stack = []
    · left
      rw [Descent.run, iterate_of_fixed (Descent.step_of_done children w hw), hw]
    · refine (ih (w.step children)).imp_right fun hlen => hlen.trans ?_
      rw [Descent.length_visited_step children w hw, Nat.add_assoc, Nat.add_comm 1]

/-- The walk from the root ends within as many steps as there are streams. -/
lemma stack_run (h : Forest children parent size root) :
    (Descent.run children size (.start root)).stack = [] := by
  have hw := h.orderly_run size
  rcases @length_visited_run children size (.start root) with hend | hlen
  · exact hend
  · have hle := length_le_size hw.nodup hw.lt_size
    rw [List.length_append, hlen] at hle
    exact List.length_eq_zero_iff.mp (by omega)

/-- The walk from the root meets no stream twice. -/
lemma nodup_preorderWalk (h : Forest children parent size root) :
    (preorderWalk children size root).Nodup :=
  (List.nodup_append.mp (h.orderly_run size).nodup).1

lemma closed_start : (Descent.start root).Closed children root where
  root_mem := by simp [Descent.start]
  children_mem := by simp [Descent.start]

/-- The children of the stream on top of the stack come in its place. -/
lemma closed_step {w : Descent} (hw : w.Closed children root) :
    (w.step children).Closed children root := by
  obtain ⟨visited, _ | ⟨s, rest⟩⟩ := w
  · exact hw
  · have hkept : ∀ x ∈ visited ++ s :: rest, x ∈ visited ++ [s] ++ (children s ++ rest) :=
      fun x hx => (Descent.perm_step children ⟨visited, s :: rest⟩).subset
        (List.mem_append_left _ hx)
    refine ⟨hkept _ hw.root_mem, fun x hx c hc => ?_⟩
    rcases List.mem_append.mp hx with hx | hx
    · exact hkept c (hw.children_mem x hx c hc)
    · rw [List.mem_singleton.mp hx] at hc
      exact List.mem_append_right _ (List.mem_append_left _ hc)

lemma closed_run (steps : Nat) :
    (Descent.run children steps (.start root)).Closed children root := by
  have hrun : ∀ (steps : Nat) (w : Descent), w.Closed children root →
      (Descent.run children steps w).Closed children root := by
    intro steps
    induction steps with
    | zero => intro w hw; exact hw
    | succ steps ih => intro w hw; exact ih _ (closed_step hw)
  exact hrun steps _ closed_start

/-- The walk meets the streams from which the parents lead to the root, and no others. -/
lemma mem_preorderWalk (h : Forest children parent size root) {s : StreamIndex} :
    s ∈ preorderWalk children size root ↔
      Relation.ReflTransGen (fun c p => parent c = some p) s root := by
  have hw := h.orderly_run size
  have hclosed := @closed_run children root size
  have hmet : ∀ {x}, x ∈ (Descent.run children size (.start root)).visited ++
      (Descent.run children size (.start root)).stack → x ∈ preorderWalk children size root := by
    intro x hx
    rwa [h.stack_run, List.append_nil] at hx
  constructor
  · -- Parents are met first, so the places of the streams carry the induction.
    intro hs
    obtain ⟨i, hi⟩ := List.getElem?_of_mem hs
    clear hs
    induction i using Nat.strongRecOn generalizing s with
    | ind i ih =>
      rcases hw.parent_before i s hi with rfl | ⟨j, hj, p, hp, hparent⟩
      · exact .refl
      · exact .head hparent (ih j hj hp)
  · intro hs
    induction hs using Relation.ReflTransGen.head_induction_on with
    | refl => exact hmet hclosed.root_mem
    | head hparent _ ih => exact hmet (hclosed.children_mem _ ih _ (h.mem_children.mpr hparent))

/-! ### Complete walks -/

/-- A walk that meets as many streams as there are meets each once. -/
lemma preorderWalk_perm (h : Forest children parent size root)
    (hlen : size ≤ (preorderWalk children size root).length) :
    (preorderWalk children size root).Perm (List.range size) := by
  have hw := h.orderly_run size
  have hsub : (preorderWalk children size root).Subperm (List.range size) :=
    h.nodup_preorderWalk.subperm fun s hs => List.mem_range.mpr (hw.lt_size s (List.mem_append_left _ hs))
  exact hsub.perm_of_length_le (by simpa using hlen)

/-- In a complete walk parents stand before their children. -/
lemma idxOf_lt_idxOf (h : Forest children parent size root)
    (hlen : size ≤ (preorderWalk children size root).length) {s c : StreamIndex}
    (hc : c ∈ children s) :
    (preorderWalk children size root).idxOf s < (preorderWalk children size root).idxOf c := by
  have hw := h.orderly_run size
  have hperm := h.preorderWalk_perm hlen
  have hparent := h.mem_children.mp hc
  have hmem : c ∈ preorderWalk children size root :=
    hperm.mem_iff.mpr (List.mem_range.mpr (h.lt_of_parent hparent))
  rcases hw.parent_before _ c (List.getElem?_idxOf hmem) with rfl | ⟨j, hj, p, hp, hparent'⟩
  · rw [h.parent_root] at hparent
    cases hparent
  · rw [hparent] at hparent'
    cases hparent'
    obtain ⟨hlt, hget⟩ := List.getElem?_eq_some_iff.mp hp
    have hidx : (preorderWalk children size root).idxOf s = j := by
      rw [← hget]
      exact h.nodup_preorderWalk.idxOf_getElem j hlt
    rwa [hidx]

/-- If a walk is complete, the places in it rank the streams. -/
lemma ranked (h : Forest children parent size root)
    (hlen : size ≤ (preorderWalk children size root).length) :
    Ranked children size fun s => (preorderWalk children size root).idxOf s where
  rank_lt _ _ hc := h.idxOf_lt_idxOf hlen hc
  rank_bound s c hc := by
    have hperm := h.preorderWalk_perm hlen
    have hmem : c ∈ preorderWalk children size root :=
      hperm.mem_iff.mpr (List.mem_range.mpr (h.lt_of_parent (h.mem_children.mp hc)))
    have hlt := List.idxOf_lt_length_of_mem hmem
    rwa [hperm.length_eq, List.length_range] at hlt

/-- The shape below the root has no more streams than there are. -/
lemma length_streams_le (h : Forest children parent size root) {optional : StreamIndex → Bool}
    {shape : StreamIndex → JoinShape} (hu : Unfolding children optional shape) :
    (shape root).streams.length ≤ size := by
  have hw := h.orderly_run (shape root).streams.length
  rw [Descent.run, Descent.start, hu.iterate_descent root, List.nil_append] at hw
  refine length_le_size ?_ ?_
  · simpa using hw.nodup
  · simpa using hw.lt_size

end Forest

end JoinAssembly
