import JoinAssembly.Partitions
import JoinAssembly.Proofs.Assembler.History
import JoinAssembly.Proofs.Assembler.Options
import Mathlib.Data.List.Dedup
import Mathlib.Data.List.DropRight
import Mathlib.Data.List.Perm.Basic

/-!
# Partitions do not interfere

Every answer of a partitioned join follows from what was called and answered before, and a call for
one partition leaves no trace in another.
-/

namespace JoinAssembly

/-- A call of a partitioned join. -/
inductive PartitionCall (κ ε : Type) where
  | run (key : κ) (m : MatchSets ε)
  | remove (key : κ)
  | contains (key : κ)
  | passes (key : κ)
  | size

/-- What a call is answered with. -/
inductive PartitionAnswer (ε : Type) where
  | rows (answer : Except AssemblyError (RowCollection ε))
  | removed (wasLive : Bool)
  | live (isLive : Bool)
  | passes (count : Option Nat)
  | size (count : Nat)

variable {κ ε : Type}

namespace PartitionCall

/-- The partition that a call is for. -/
def key? : PartitionCall κ ε → Option κ
  | .run key _ | .remove key | .contains key | .passes key => some key
  | .size => none

variable [DecidableEq κ]

/-- Whether a call is for a partition. -/
def isFor (c : PartitionCall κ ε) (key : κ) : Bool := c.key? = some key

/-- Whether a call is for another partition. -/
def isForOther (c : PartitionCall κ ε) (key : κ) : Bool := c.key?.any (· ≠ key)

def runs (c : PartitionCall κ ε) (key : κ) : Bool :=
  match c with
  | .run k _ => k = key
  | _ => false

def removes (c : PartitionCall κ ε) (key : κ) : Bool :=
  match c with
  | .remove k => k = key
  | _ => false

lemma key?_of_runs (c : PartitionCall κ ε) {key : κ} (h : c.runs key) : c.key? = some key := by
  cases c with
  | run k m => exact congrArg some (of_decide_eq_true h)
  | remove | contains | passes | size => cases h

end PartitionCall

/-- Whether a call was answered with rows. -/
def PartitionAnswer.isRows : PartitionAnswer ε → Bool
  | .rows (.ok _) => true
  | _ => false

/-! ### What the past tells -/

/-- Calls in order, each with its answer. -/
abbrev PartitionHistory (κ ε : Type) := List (PartitionCall κ ε × PartitionAnswer ε)

namespace PartitionHistory

variable [DecidableEq κ]

/-- What happened since a partition was last removed. -/
def sinceRemoval (past : PartitionHistory κ ε) (key : κ) : PartitionHistory κ ε :=
  past.rtakeWhile fun x => !x.1.removes key

/-- A partition is live if a pass of it was run, even one that failed, since it was last removed. -/
def live (past : PartitionHistory κ ε) (key : κ) : Bool :=
  (past.sinceRemoval key).any fun x => x.1.runs key

/-- The number of passes of a partition that succeeded since it was last removed. -/
def passes (past : PartitionHistory κ ε) (key : κ) : Nat :=
  (past.sinceRemoval key).countP fun x => x.1.runs key && x.2.isRows

/-- The partitions that are live. -/
def liveKeys (past : PartitionHistory κ ε) : List κ :=
  (past.filterMap (·.1.key?)).dedup.filter past.live

/-- The answer of a call after some others. -/
def answer [DecidableEq ε] (t : JoinTree) (options : AssemblyOptions)
    (past : PartitionHistory κ ε) : PartitionCall κ ε → PartitionAnswer ε
  | .run _ m => .rows ((Assembler.new t options).run m).rows
  | .remove key => .removed (past.live key)
  | .contains key => .live (past.live key)
  | .passes key => .passes (if past.live key then some (past.passes key) else none)
  | .size => .size past.liveKeys.length

variable (past : PartitionHistory κ ε) (x : PartitionCall κ ε × PartitionAnswer ε) (key : κ)

lemma sinceRemoval_concat : sinceRemoval (past ++ [x]) key
    = if x.1.removes key then [] else past.sinceRemoval key ++ [x] := by
  rw [sinceRemoval, List.rtakeWhile_concat]
  cases x.1.removes key <;> rfl

lemma live_concat : live (past ++ [x]) key
    = (!x.1.removes key && (past.live key || x.1.runs key)) := by
  rw [live, sinceRemoval_concat]
  cases x.1.removes key <;> simp [live]

lemma passes_concat : passes (past ++ [x]) key
    = if x.1.removes key then 0
      else past.passes key + if x.1.runs key && x.2.isRows then 1 else 0 := by
  rw [passes, sinceRemoval_concat]
  cases x.1.removes key <;> simp [passes, List.countP_append, List.countP_singleton]

/-- A partition that is not live has no passes. -/
lemma passes_of_not_live {past : PartitionHistory κ ε} {key : κ} (h : past.live key = false) :
    past.passes key = 0 := by
  rw [live, List.any_eq_false] at h
  rw [passes, List.countP_eq_zero]
  intro x hx hboth
  exact h x hx (Bool.and_eq_true_iff.mp hboth).1

lemma mem_liveKeys {past : PartitionHistory κ ε} {key : κ} :
    key ∈ past.liveKeys ↔ past.live key := by
  rw [liveKeys, List.mem_filter, List.mem_dedup, List.mem_filterMap, and_iff_right_iff_imp]
  intro hlive
  obtain ⟨x, hx, hruns⟩ := List.any_eq_true.mp hlive
  exact ⟨x, (List.rtakeWhile_suffix _ _).subset hx, x.1.key?_of_runs hruns⟩

end PartitionHistory

/-! ### Partitions over a tree -/

namespace Partitions

variable [DecidableEq κ] [DecidableEq ε]

/-- The live partitions are different, and the assembler of each is one that passes lead to. -/
structure Over (t : JoinTree) (options : AssemblyOptions) (p : Partitions κ ε) : Prop where
  tree_eq : p.tree = t
  options_eq : p.options = options
  nodup_keys : (p.live.map (·.1)).Nodup
  reachable : ∀ {key a}, p.assembler? key = some a →
    Assembler.Reachable t a ∧ a.options = options

variable {t : JoinTree} {options : AssemblyOptions} {p q : Partitions κ ε} {key : κ}

omit [DecidableEq ε] in
lemma mem_keys : key ∈ p.live.map (·.1) ↔ p.contains key := by
  rw [contains, assembler?, List.lookup_isSome_iff, List.mem_map]
  exact exists_congr fun x => and_congr_right fun _ => by rw [beq_iff_eq, eq_comm]

namespace Over

lemma new (t : JoinTree) (options : AssemblyOptions) :
    Over t options (.new t options : Partitions κ ε) where
  tree_eq := rfl
  options_eq := rfl
  nodup_keys := List.nodup_nil
  reachable h := by cases h

lemma assemblerFor (h : Over t options p) (key : κ) :
    Assembler.Reachable t (p.assemblerFor key) ∧ (p.assemblerFor key).options = options := by
  rw [Partitions.assemblerFor]
  cases hkey : p.assembler? key with
  | none =>
    rw [h.tree_eq, h.options_eq]
    exact ⟨.new options, rfl⟩
  | some a => exact h.reachable hkey

lemma put (h : Over t options p) {a : Assembler ε} (ha : Assembler.Reachable t a)
    (hoptions : a.options = options) (key : κ) : Over t options (p.put key a) where
  tree_eq := h.tree_eq
  options_eq := h.options_eq
  nodup_keys := by
    rw [Partitions.put, List.map_cons, List.nodup_cons]
    refine ⟨?_, h.nodup_keys.sublist (List.filter_sublist.map _)⟩
    rw [List.mem_map]
    rintro ⟨x, hx, heq⟩
    exact of_decide_eq_true (List.mem_filter.mp hx).2 heq
  reachable {other b} hb := by
    rw [assembler?_put] at hb
    split at hb
    · cases hb
      exact ⟨ha, hoptions⟩
    · exact h.reachable hb

lemma run (h : Over t options p) (key : κ) (m : MatchSets ε) :
    Over t options (p.run key m).partitions := by
  obtain ⟨ha, hoptions⟩ := h.assemblerFor key
  exact h.put (ha.runInto m .empty)
    ((Assembler.options_runInto ha.ready m .empty).trans hoptions) key

lemma remove (h : Over t options p) (key : κ) : Over t options (p.remove key).2 where
  tree_eq := h.tree_eq
  options_eq := h.options_eq
  nodup_keys := h.nodup_keys.sublist (List.filter_sublist.map _)
  reachable {other b} hb := by
    rw [assembler?_remove] at hb
    split at hb
    · cases hb
    · exact h.reachable hb

/-- A partition answers match sets as a new assembler does. -/
lemma rows_run (h : Over t options p) (key : κ) (m : MatchSets ε) :
    (p.run key m).rows = ((Assembler.new t options).run m).rows := by
  obtain ⟨ha, hoptions⟩ := h.assemblerFor key
  have hnew : Assembler.Reachable t (Assembler.new t options : Assembler ε) := .new options
  rw [Partitions.run, Assembler.rows_run ha.ready, Assembler.rows_run hnew.ready, hoptions]
  rfl

end Over

/-! ### Calls in order -/

/-- Make a call. -/
def perform (p : Partitions κ ε) : PartitionCall κ ε → PartitionAnswer ε × Partitions κ ε
  | .run key m => (.rows (p.run key m).rows, (p.run key m).partitions)
  | .remove key => (.removed (p.remove key).1, (p.remove key).2)
  | .contains key => (.live (p.contains key), p)
  | .passes key => (.passes (p.passes? key), p)
  | .size => (.size p.size, p)

/-- What calls made in order are answered with. -/
def history (p : Partitions κ ε) : List (PartitionCall κ ε) → PartitionHistory κ ε
  | [] => []
  | c :: rest => (c, (p.perform c).1) :: (p.perform c).2.history rest

/-- What calls made in order leave. -/
def after (p : Partitions κ ε) : List (PartitionCall κ ε) → Partitions κ ε
  | [] => p
  | c :: rest => (p.perform c).2.after rest

/-- What partitions show of their past. -/
def Recall (p : Partitions κ ε) (past : PartitionHistory κ ε) : Prop :=
  ∀ key, p.passes? key = if past.live key then some (past.passes key) else none

omit [DecidableEq ε] in
lemma Recall.contains_eq {past : PartitionHistory κ ε} (h : p.Recall past) (key : κ) :
    p.contains key = past.live key := by
  have hpasses := congrArg Option.isSome (h key)
  rw [passes?, Option.isSome_map] at hpasses
  rw [contains, hpasses]
  cases past.live key <;> rfl

omit [DecidableEq ε] in
lemma Recall.passes_assemblerFor {past : PartitionHistory κ ε} (h : p.Recall past) (key : κ) :
    (p.assemblerFor key).passes = past.passes key := by
  have hpasses := h key
  rw [passes?] at hpasses
  rw [assemblerFor]
  cases hkey : p.assembler? key with
  | none =>
    have hlive : past.live key = false := by
      rw [← h.contains_eq, contains, hkey]
      rfl
    exact (PartitionHistory.passes_of_not_live hlive).symm
  | some a =>
    have hlive : past.live key = true := by
      rw [← h.contains_eq, contains, hkey]
      rfl
    rw [hkey, if_pos hlive] at hpasses
    exact Option.some.inj hpasses

omit [DecidableEq κ] [DecidableEq ε] in
lemma isRows_rows (o : PassOutcome ε) : (PartitionAnswer.rows o.rows).isRows = o.error.isNone := by
  rw [PassOutcome.rows]
  cases o.error <;> rfl

omit [DecidableEq ε] in
lemma passes?_put (p : Partitions κ ε) (key other : κ) (a : Assembler ε) :
    (p.put key a).passes? other = if other = key then some a.passes else p.passes? other := by
  rw [passes?, assembler?_put, passes?]
  split <;> rfl

omit [DecidableEq ε] in
lemma passes?_remove (p : Partitions κ ε) (key other : κ) :
    (p.remove key).2.passes? other = if other = key then none else p.passes? other := by
  rw [passes?, assembler?_remove, passes?]
  split <;> rfl

/-- Whatever is called next, partitions show of it what they should. -/
lemma Recall.perform {past : PartitionHistory κ ε} (hover : Over t options p) (h : p.Recall past)
    (c : PartitionCall κ ε) : (p.perform c).2.Recall (past ++ [(c, (p.perform c).1)]) := by
  intro key
  rw [PartitionHistory.live_concat, PartitionHistory.passes_concat]
  cases c with
  | run k m =>
    obtain ⟨ha, -⟩ := hover.assemblerFor k
    have hcount := Assembler.passes_perform ha (.run m)
    rw [h.passes_assemblerFor] at hcount
    have hrun : (p.run k m).partitions.passes? key
        = if key = k then some (past.passes k + if ((p.assemblerFor k).run m).error.isNone then 1
          else 0) else p.passes? key := by
      rw [run, passes?_put]
      exact congrArg (fun n => if key = k then some n else p.passes? key) hcount
    have hrows : (PartitionAnswer.rows (p.run k m).rows).isRows
        = ((p.assemblerFor k).run m).error.isNone := isRows_rows _
    simp only [Partitions.perform, PartitionCall.removes, PartitionCall.runs, hrun, hrows]
    by_cases hk : key = k
    · simp [hk]
    · simpa [hk, Ne.symm hk] using h key
  | remove k =>
    simp only [Partitions.perform, PartitionCall.removes, PartitionCall.runs, passes?_remove]
    by_cases hk : key = k
    · simp [hk]
    · simpa [hk, Ne.symm hk] using h key
  | contains | passes | size =>
    simpa [Partitions.perform, PartitionCall.removes, PartitionCall.runs] using h key

lemma Over.perform (h : Over t options p) (c : PartitionCall κ ε) :
    Over t options (p.perform c).2 := by
  cases c with
  | run key m => exact h.run key m
  | remove key => exact h.remove key
  | contains | passes | size => exact h

/-- From partitions that show their past, calls in order lead to such partitions. -/
lemma recall_after (calls : List (PartitionCall κ ε)) :
    ∀ {p : Partitions κ ε} {past : PartitionHistory κ ε}, Over t options p → p.Recall past →
      Over t options (p.after calls) ∧ (p.after calls).Recall (past ++ p.history calls) := by
  induction calls with
  | nil =>
    intro p past hover h
    rw [history, List.append_nil]
    exact ⟨hover, h⟩
  | cons c rest ih =>
    intro p past hover h
    have hrest := ih (hover.perform c) (h.perform hover c)
    rwa [List.append_assoc] at hrest

/-- The size counts the live partitions. -/
lemma Over.size_eq_length (hover : Over t options p) {keys : List κ} (hkeys : keys.Nodup)
    (h : ∀ key, p.contains key ↔ key ∈ keys) : p.size = keys.length := by
  have hperm : (p.live.map (·.1)).Perm keys := by
    apply (List.perm_ext_iff_of_nodup hover.nodup_keys hkeys).mpr
    intro key
    rw [mem_keys, h]
  rw [size, ← hperm.length_eq, List.length_map]

/-- Of the live partitions there are as many as the past tells. -/
lemma size_eq {past : PartitionHistory κ ε} (hover : Over t options p) (h : p.Recall past) :
    p.size = past.liveKeys.length := by
  refine hover.size_eq_length ((List.nodup_dedup _).filter _) fun key => ?_
  rw [h.contains_eq, PartitionHistory.mem_liveKeys]

/-! ### One partition among others -/

/-- Two partitioned joins in which one partition is in the same state. -/
structure AgreeAt (key : κ) (p q : Partitions κ ε) : Prop where
  tree_eq : p.tree = q.tree
  options_eq : p.options = q.options
  assembler_eq : p.assembler? key = q.assembler? key

omit [DecidableEq ε] in
lemma AgreeAt.assemblerFor (h : AgreeAt key p q) : p.assemblerFor key = q.assemblerFor key := by
  rw [Partitions.assemblerFor, Partitions.assemblerFor, h.assembler_eq, h.tree_eq, h.options_eq]

/-- A call for the partition is answered alike, and leaves it alike. -/
lemma AgreeAt.perform (h : AgreeAt key p q) {c : PartitionCall κ ε} (hc : c.key? = some key) :
    (p.perform c).1 = (q.perform c).1 ∧ AgreeAt key (p.perform c).2 (q.perform c).2 := by
  have hlive : p.contains key = q.contains key := congrArg Option.isSome h.assembler_eq
  cases c with
  | run k m =>
    cases hc
    refine ⟨?_, h.tree_eq, h.options_eq, ?_⟩
    · rw [Partitions.perform, Partitions.perform, run, run, h.assemblerFor]
    · simp only [Partitions.perform, run, assembler?_put, h.assemblerFor, if_true]
  | remove k =>
    cases hc
    refine ⟨congrArg PartitionAnswer.removed hlive, h.tree_eq, h.options_eq, ?_⟩
    simp only [Partitions.perform, assembler?_remove, if_true]
  | contains k =>
    cases hc
    exact ⟨congrArg PartitionAnswer.live hlive, h⟩
  | passes k =>
    cases hc
    refine ⟨?_, h⟩
    rw [Partitions.perform, Partitions.perform, passes?, passes?, h.assembler_eq]
  | size => cases hc

/-- A call that is not for the partition leaves it alone. -/
lemma agreeAt_perform {c : PartitionCall κ ε} (hc : c.key? ≠ some key) :
    AgreeAt key (p.perform c).2 p := by
  cases c with
  | run k m =>
    have hk : key ≠ k := fun heq => hc (congrArg some heq.symm)
    refine ⟨rfl, rfl, ?_⟩
    rw [Partitions.perform, run, assembler?_put, if_neg hk]
  | remove k =>
    have hk : key ≠ k := fun heq => hc (congrArg some heq.symm)
    refine ⟨rfl, rfl, ?_⟩
    rw [Partitions.perform, assembler?_remove, if_neg hk]
  | contains | passes | size => exact ⟨rfl, rfl, rfl⟩

omit [DecidableEq ε] in
lemma AgreeAt.trans {r : Partitions κ ε} (h : AgreeAt key p q) (h' : AgreeAt key q r) :
    AgreeAt key p r :=
  ⟨h.tree_eq.trans h'.tree_eq, h.options_eq.trans h'.options_eq,
    h.assembler_eq.trans h'.assembler_eq⟩

omit [DecidableEq ε] in
lemma AgreeAt.symm (h : AgreeAt key p q) : AgreeAt key q p :=
  ⟨h.tree_eq.symm, h.options_eq.symm, h.assembler_eq.symm⟩

/-- The calls for one partition are answered alike with and without those for the others. -/
lemma AgreeAt.history (key : κ) (calls : List (PartitionCall κ ε)) :
    ∀ {p q : Partitions κ ε}, AgreeAt key p q →
      (p.history calls).filter (·.1.isFor key)
        = (q.history (calls.filter fun c => !c.isForOther key)).filter (·.1.isFor key) := by
  induction calls with
  | nil => intro p q _; rfl
  | cons c rest ih =>
    intro p q h
    rw [Partitions.history]
    by_cases hc : c.key? = some key
    · obtain ⟨hanswer, hnext⟩ := h.perform hc
      have hkept : (!c.isForOther key) = true := by simp [PartitionCall.isForOther, hc]
      have hfor : c.isFor key = true := decide_eq_true hc
      rw [List.filter_cons_of_pos (by exact hfor), List.filter_cons_of_pos (by exact hkept),
        Partitions.history, List.filter_cons_of_pos (by exact hfor), hanswer, ih hnext]
    · have hnot : ¬ c.isFor key = true := fun hfor => hc (of_decide_eq_true hfor)
      rw [List.filter_cons_of_neg (by exact hnot), List.filter_cons]
      split
      · rw [Partitions.history, List.filter_cons_of_neg (by exact hnot)]
        exact ih ((agreeAt_perform hc).trans (h.trans (agreeAt_perform hc).symm))
      · exact ih ((agreeAt_perform hc).trans h)

/-- Every call of a partitioned join is answered by what was called and answered before: a pass as
by a new assembler, the other calls by the passes and removals of their partition. The calls for one
partition are answered as if those for the others had not been made. -/
theorem partitions_apart (t : JoinTree) (options : AssemblyOptions) :
    (∀ (before : List (PartitionCall κ ε)) (c : PartitionCall κ ε),
        (((new t options).after before).perform c).1
          = ((new t options).history before).answer t options c) ∧
      ∀ (calls : List (PartitionCall κ ε)) (key : κ),
        ((new t options).history calls).filter (·.1.isFor key)
          = ((new t options).history (calls.filter fun c => !c.isForOther key)).filter
            (·.1.isFor key) := by
  constructor
  · intro before c
    have hrecall : (new t options : Partitions κ ε).Recall [] := fun _ => rfl
    obtain ⟨hover, h⟩ := recall_after before (Over.new t options) hrecall
    rw [List.nil_append] at h
    cases c with
    | run key m => exact congrArg PartitionAnswer.rows (hover.rows_run key m)
    | remove key => exact congrArg PartitionAnswer.removed (h.contains_eq key)
    | contains key => exact congrArg PartitionAnswer.live (h.contains_eq key)
    | passes key => exact congrArg PartitionAnswer.passes (h key)
    | size => exact congrArg PartitionAnswer.size (size_eq hover h)
  · intro calls key
    exact AgreeAt.history key calls ⟨rfl, rfl, rfl⟩

end Partitions

end JoinAssembly
