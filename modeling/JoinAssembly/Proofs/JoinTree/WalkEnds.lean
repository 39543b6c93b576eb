import JoinAssembly.Proofs.JoinTree.Below
import JoinAssembly.Proofs.JoinTree.Cycles

/-!
# Where the walks of a builder end

The walks of a builder are loops that keep no record of where they have been. The walk from the root
ends on cycles too, as it never comes across one: it meets the streams that lead to the root, each
once. The walk with children first is made only if these are all streams, and ends then as well.
-/

namespace JoinAssembly

/-! ### Loops -/

/-- A loop that repeats a step until a state is done ends in a state after a number of steps. -/
inductive EndsAfter {α : Type} (step : α → α) (Done : α → Prop) : Nat → α → α → Prop where
  | exit {a : α} (hdone : Done a) : EndsAfter step Done 0 a a
  | next {k : Nat} {a b : α} (hmore : ¬ Done a) (h : EndsAfter step Done k (step a) b) :
      EndsAfter step Done (k + 1) a b

/-- What a number of steps push, in order. -/
def pushedIn {α : Type} (step : α → α) (pushed : α → List StreamIndex) :
    Nat → α → List StreamIndex
  | 0, _ => []
  | k + 1, a => pushed a ++ pushedIn step pushed k (step a)

section Loops

variable {α : Type} {step : α → α} {Done : α → Prop} {k : Nat} {a b : α}

/-- A loop ends if repeating its step leads to a state that is done. -/
lemma exists_endsAfter (hfixed : ∀ a, Done a → step a = a) (n : Nat) (a : α)
    (hdone : Done (iterate step n a)) : ∃ k, EndsAfter step Done k a (iterate step n a) := by
  induction n generalizing a with
  | zero => exact ⟨0, .exit hdone⟩
  | succ n ih =>
    by_cases ha : Done a
    · rw [iterate_of_fixed (hfixed a ha)]
      exact ⟨0, .exit ha⟩
    · obtain ⟨k, hk⟩ := ih (step a) hdone
      exact ⟨k + 1, .next ha hk⟩

namespace EndsAfter

lemma iterate_eq (h : EndsAfter step Done k a b) : iterate step k a = b := by
  induction h with
  | exit _ => rfl
  | next _ _ ih => exact ih

/-- What grows by one with every step tells how many steps a loop takes. -/
lemma count {f : α → Nat} (hstep : ∀ a, ¬ Done a → f (step a) = f a + 1)
    (h : EndsAfter step Done k a b) : f b = f a + k := by
  induction h with
  | exit _ => rfl
  | next hmore _ ih => rw [ih, hstep _ hmore, Nat.add_assoc, Nat.add_comm 1]

end EndsAfter

/-- If a step holds on to what was held and to what it pushes, so do many. -/
lemma perm_pushedIn {pushed held : α → List StreamIndex}
    (hstep : ∀ a, (held a ++ pushed a).Perm (held (step a))) (k : Nat) (a : α) :
    (held a ++ pushedIn step pushed k a).Perm (held (iterate step k a)) := by
  induction k generalizing a with
  | zero => rw [pushedIn, List.append_nil, iterate_zero]
  | succ k ih =>
    rw [pushedIn, ← List.append_assoc]
    exact ((hstep a).append_right _).trans (ih (step a))

end Loops

/-! ### Parents first -/

namespace Descent

variable (children : StreamIndex → List StreamIndex)

/-- All streams that a walk from a root puts on the stack in a number of steps. -/
def pushes (steps : Nat) (root : StreamIndex) : List StreamIndex :=
  root :: pushedIn (step children) (pushed children) steps (.start root)

end Descent

namespace Forest

variable {children : StreamIndex → List StreamIndex} {parent : StreamIndex → Option StreamIndex}
  {size : Nat} {root : StreamIndex}

/-- The walk from the root takes one step for every stream that it meets. -/
lemma descent_ends (h : Forest children parent size root) :
    EndsAfter (Descent.step children) (·.stack = []) (preorderWalk children size root).length
      (.start root) ⟨preorderWalk children size root, []⟩ := by
  have hend : iterate (Descent.step children) size (.start root)
      = ⟨preorderWalk children size root, []⟩ :=
    congrArg (Descent.mk (preorderWalk children size root)) h.stack_run
  obtain ⟨k, hk⟩ := exists_endsAfter (Descent.step_of_done children) size (.start root) h.stack_run
  rw [hend] at hk
  have hcount := hk.count (f := fun w => w.visited.length) (Descent.length_visited_step children)
  simp only [Descent.start, List.length_nil, Nat.zero_add] at hcount
  rwa [hcount]

/-- The walk from the root pushes what it meets. -/
lemma descent_pushes (h : Forest children parent size root) :
    (Descent.pushes children (preorderWalk children size root).length root).Perm
      (preorderWalk children size root) := by
  have hperm := perm_pushedIn (Descent.perm_step children)
    (preorderWalk children size root).length (.start root)
  rw [h.descent_ends.iterate_eq] at hperm
  simpa [Descent.held, Descent.start, Descent.pushes] using hperm

end Forest

/-! ### Children first -/

namespace Ascent

/-- The streams that a walk has come across. -/
def held (w : Ascent) : List StreamIndex := w.finished ++ w.frames.map Prod.fst

variable (children : StreamIndex → List StreamIndex)

/-- The streams that a step enters. -/
def pushed (w : Ascent) : List StreamIndex :=
  match w.frames with
  | (_, c :: _) :: _ => [c]
  | _ => []

/-- All streams that a walk from a root enters in a number of steps. -/
def pushes (steps : Nat) (root : StreamIndex) : List StreamIndex :=
  root :: pushedIn (step children) pushed steps (.start children root)

lemma step_of_done (w : Ascent) (h : w.frames = []) : w.step children = w := by
  rw [step, h]

/-- A stream counts once when it is entered and once more when it is finished. -/
lemma count_step (w : Ascent) (h : w.frames ≠ []) :
    2 * (w.step children).finished.length + (w.step children).frames.length
      = 2 * w.finished.length + w.frames.length + 1 := by
  obtain ⟨finished, _ | ⟨⟨s, _ | ⟨c, cs⟩⟩, rest⟩⟩ := w
  · exact absurd rfl h
  · simp only [step, List.length_append, List.length_cons, List.length_nil]
    omega
  · rfl

/-- A step loses no stream, and what it adds it enters. -/
lemma perm_step (w : Ascent) : (w.held ++ w.pushed).Perm (w.step children).held := by
  obtain ⟨finished, _ | ⟨⟨s, _ | ⟨c, cs⟩⟩, rest⟩⟩ := w
  · rw [pushed, step, List.append_nil]
  · simp [held, pushed, step]
  · rw [held, pushed, step, List.append_assoc]
    exact List.perm_append_comm.append_left finished

end Ascent

namespace Unfolding

variable {children : StreamIndex → List StreamIndex} {optional : StreamIndex → Bool}
  {shape : StreamIndex → JoinShape}

lemma length_ascending (h : Unfolding children optional shape) (s : StreamIndex) :
    (shape s).ascending.length = (shape s).streams.length :=
  (h.ascending_perm_streams s).length_eq

/-- The walk with children first takes two steps for every stream, but for the root, which is there
from the start, only one. -/
lemma ascent_ends (h : Unfolding children optional shape) (root : StreamIndex) :
    EndsAfter (Ascent.step children) (·.frames = []) (2 * (shape root).streams.length - 1)
      (.start children root) ⟨(shape root).ascending, []⟩ := by
  have hend : iterate (Ascent.step children) (2 * (shape root).streams.length - 1)
      (.start children root) = ⟨(shape root).ascending, []⟩ := h.iterate_ascent root [] []
  obtain ⟨k, hk⟩ : ∃ k, EndsAfter (Ascent.step children) (·.frames = []) k
      (.start children root) (iterate (Ascent.step children)
        (2 * (shape root).streams.length - 1) (.start children root)) :=
    exists_endsAfter (Ascent.step_of_done children) _ _ (by rw [hend])
  rw [hend] at hk
  have hcount := hk.count (f := fun w => 2 * w.finished.length + w.frames.length)
    (Ascent.count_step children)
  simp only [Ascent.start, List.length_nil, List.length_singleton, h.length_ascending] at hcount
  have hsteps : k = 2 * (shape root).streams.length - 1 := by omega
  rwa [← hsteps]

/-- The walk with children first enters what it finishes. -/
lemma ascent_pushes (h : Unfolding children optional shape) (root : StreamIndex) :
    (Ascent.pushes children (2 * (shape root).streams.length - 1) root).Perm
      (shape root).streams := by
  have hperm := perm_pushedIn (Ascent.perm_step children)
    (2 * (shape root).streams.length - 1) (.start children root)
  rw [(h.ascent_ends root).iterate_eq] at hperm
  refine List.Perm.trans ?_ (h.ascending_perm_streams root)
  simpa [Ascent.held, Ascent.start, Ascent.pushes] using hperm

end Unfolding

/-! ### The walks of a builder -/

namespace TreeBuilder

variable {placements : List Placement} {root s x : StreamIndex}

lemma Checked.not_onCycle_of_leads (h : Checked placements root) (hs : Leads placements s root)
    (hx : Leads placements s x) : ¬ OnCycle placements x := by
  -- Nothing is above the root, so what it leads to is the root itself.
  have htop : ∀ {y}, Leads placements root y → y = root := by
    intro y hy
    rcases Relation.ReflTransGen.cases_head hy with heq | ⟨p, hp, -⟩
    · exact heq.symm
    · cases h.parent_root.symm.trans hp
  intro hcycle
  have hunique : Relator.RightUnique fun c p => parentIn placements c = some p :=
    fun _ _ _ hp hq => Option.some.inj (hp.symm.trans hq)
  have hroot : x = root := by
    rcases Relation.ReflTransGen.total_of_right_unique hunique hs hx with habove | hbelow
    · exact htop habove
    · exact htop (hcycle.leads_back hbelow)
  obtain ⟨p, hp, -⟩ := Relation.TransGen.head'_iff.mp hcycle
  cases (hroot ▸ h.parent_root).symm.trans hp

/-- The streams that do not lead to the root are on a cycle or below one. -/
lemma Checked.lost_iff (h : Checked placements root) (hs : s < placements.length) :
    ¬ Leads placements s root ↔ ∃ x, Leads placements s x ∧ OnCycle placements x := by
  constructor
  · intro hlost
    exact (h.endless hs hlost).exists_onCycle
  · rintro ⟨x, hx, hcycle⟩ hleads
    exact h.not_onCycle_of_leads hleads hx hcycle

/-- Growing a tree fails with the first stream that the walk from the root misses, or it succeeds
with a complete walk. -/
lemma Checked.grow_cases (h : Checked placements root) (names : List (Option String)) :
    (placements.length ≤ (preorderWalk (childTable placements) placements.length root).length ∧
      ∀ s < placements.length, Leads placements s root) ∨
    (preorderWalk (childTable placements) placements.length root).length < placements.length ∧
      ∃ s < placements.length, ¬ Leads placements s root ∧
        firstMissed placements.length
          (preorderWalk (childTable placements) placements.length root) = some s ∧
        growTree placements names root = .error (.cycle s) := by
  rcases all_or_first placements.length fun s => Leads placements s root with
    hall | ⟨s, hs, hlost, hfirst⟩
  · exact .inl ⟨(growTree_eq_ok_iff.mp (growTree_of_leads h names hall)).1, hall⟩
  · refine .inr ⟨?_, s, hs, hlost, ?_, growTree_of_lost h names hs hlost hfirst⟩
    · by_contra hle
      have hperm := h.forest.preorderWalk_perm (Nat.le_of_not_lt hle)
      exact hlost (h.mem_walk.mp (hperm.mem_iff.mpr (List.mem_range.mpr hs)))
    · exact firstMissed_eq_some hs (fun hmem => hlost (h.mem_walk.mp hmem))
        fun x hx => h.mem_walk.mpr (hfirst x hx)

/-- The walk from the root ends for all placements that pass the checks before it, whatever cycles
there are. It pushes no stream twice and meets the streams that lead to the root. It is too short
just if some stream is on a cycle or below one, and then a stream that it missed is found and told.
Otherwise the walk with children first ends too, and pushes every stream once. -/
theorem walks_end (h : Checked placements root) (names : List (Option String)) :
    ∃ walk : List StreamIndex,
      EndsAfter (Descent.step (childTable placements)) (·.stack = []) walk.length
        (.start root) ⟨walk, []⟩ ∧
      walk.Nodup ∧ (Descent.pushes (childTable placements) walk.length root).Perm walk ∧
      (∀ s, s ∈ walk ↔ Leads placements s root) ∧
      (walk.length < placements.length ↔
        ∃ s < placements.length, ∃ x, Leads placements s x ∧ OnCycle placements x) ∧
      (walk.length < placements.length → ∃ s < placements.length, s ∉ walk ∧
        firstMissed placements.length walk = some s ∧
        growTree placements names root = .error (.cycle s)) ∧
      (placements.length ≤ walk.length → ∃ post t,
        EndsAfter (Ascent.step (childTable placements)) (·.frames = [])
          (2 * placements.length - 1) (.start (childTable placements) root) ⟨post, []⟩ ∧
        (Ascent.pushes (childTable placements) (2 * placements.length - 1) root).Perm
          (List.range placements.length) ∧
        growTree placements names root = .ok t ∧ t.preorder = walk ∧ t.postorder = post) := by
  have hforest := h.forest
  refine ⟨preorderWalk (childTable placements) placements.length root, hforest.descent_ends,
    hforest.nodup_preorderWalk, hforest.descent_pushes, fun s => h.mem_walk, ?_, ?_, ?_⟩
  · rcases h.grow_cases names with ⟨hlen, hall⟩ | ⟨hlen, s, hs, hlost, -⟩
    · refine iff_of_false (Nat.not_lt.mpr hlen) ?_
      rintro ⟨s, hs, hcycle⟩
      exact (h.lost_iff hs).mpr hcycle (hall s hs)
    · exact iff_of_true hlen ⟨s, hs, (h.lost_iff hs).mp hlost⟩
  · intro hlen
    rcases h.grow_cases names with ⟨hle, -⟩ | ⟨-, s, hs, hlost, hmissed, hgrow⟩
    · exact absurd hlen (Nat.not_lt.mpr hle)
    · exact ⟨s, hs, fun hmem => hlost (h.mem_walk.mp hmem), hmissed, hgrow⟩
  · intro hlen
    have hsound := sound_grown h names hlen
    have hsize : ((grown placements names root).shapeOf root).streams.length
        = placements.length := by
      simpa using hsound.streams_perm.length_eq
    have hends := hsound.unfolding.ascent_ends root
    have hpushes := (hsound.unfolding.ascent_pushes root).trans hsound.streams_perm
    rw [hsize, childrenOf_grown] at hends hpushes
    rw [size_grown] at hpushes
    exact ⟨_, _, hends, hpushes, growTree_eq_ok_iff.mpr ⟨hlen, rfl⟩, rfl, hsound.postorder_eq⟩

/-- A stream below two that name each other, all of them apart from the root. -/
def hangingPlacements : List Placement :=
  [⟨none, false⟩, ⟨some 2, false⟩, ⟨some 3, false⟩, ⟨some 2, false⟩]

theorem hanging_walks_end : requireRoot hangingPlacements = .ok 0 ∧
    ∃ walk : List StreamIndex,
      EndsAfter (Descent.step (childTable hangingPlacements)) (·.stack = []) walk.length
        (.start 0) ⟨walk, []⟩ ∧
      (Descent.pushes (childTable hangingPlacements) walk.length 0).Perm walk ∧
      walk.length < 4 ∧ ∃ s < 4, s ∉ walk ∧ firstMissed 4 walk = some s := by
  have hroot : requireRoot hangingPlacements = .ok 0 := by decide
  obtain ⟨walk, hends, -, hpushes, -, hshort, hmissed, -⟩ :=
    walks_end (checked_of_requireRoot hroot) []
  have hcycle : OnCycle hangingPlacements 2 := .tail (.single (b := 3) rfl) rfl
  have hlen : walk.length < 4 := hshort.mpr ⟨2, by decide, 2, .refl, hcycle⟩
  obtain ⟨s, hs, hlost, hfirst, -⟩ := hmissed hlen
  exact ⟨hroot, walk, hends, hpushes, hlen, s, hs, hlost, hfirst⟩

end TreeBuilder

end JoinAssembly
