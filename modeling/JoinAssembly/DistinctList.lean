/-!
# Lists without repetitions

A list without repetitions serves as a set that remembers the order in which its members came.
-/

namespace JoinAssembly

structure DistinctList (α : Type) where
  toList : List α
  nodup : toList.Nodup

namespace DistinctList

variable {α : Type}

def empty : DistinctList α := ⟨[], .nil⟩

def size (l : DistinctList α) : Nat := l.toList.length

def isEmpty (l : DistinctList α) : Bool := l.toList.isEmpty

variable [DecidableEq α]

instance : DecidableEq (DistinctList α) := fun l k =>
  if h : l.toList = k.toList then
    isTrue (by cases l; cases k; cases h; rfl)
  else
    isFalse fun e => h (e ▸ rfl)

def contains (l : DistinctList α) (a : α) : Bool := decide (a ∈ l.toList)

/-- The place of a member. -/
def indexOf? (l : DistinctList α) (a : α) : Option Nat := l.toList.idxOf? a

/-- Add a member at the end, unless it is there. -/
def insert (l : DistinctList α) (a : α) : DistinctList α :=
  if h : a ∈ l.toList then l
  else ⟨l.toList ++ [a], by
    rw [List.nodup_append]
    refine ⟨l.nodup, by simp, ?_⟩
    rintro b hb c hc rfl
    rw [List.mem_singleton.1 hc] at hb
    exact h hb⟩

/-- The members of a list, each at its first place. -/
def ofList (l : List α) : DistinctList α := l.foldl insert empty

/-! ### Members -/

@[simp] theorem contains_iff {l : DistinctList α} {a : α} : l.contains a ↔ a ∈ l.toList := by
  simp [contains]

@[simp] theorem mem_insert {l : DistinctList α} {a b : α} :
    b ∈ (l.insert a).toList ↔ b ∈ l.toList ∨ b = a := by
  unfold insert
  split
  · rename_i h
    constructor
    · exact .inl
    · rintro (hb | rfl)
      · exact hb
      · exact h
  · simp

theorem insert_of_mem {l : DistinctList α} {a : α} (h : a ∈ l.toList) : l.insert a = l := by
  simp [insert, h]

theorem toList_insert_of_not_mem {l : DistinctList α} {a : α} (h : a ∉ l.toList) :
    (l.insert a).toList = l.toList ++ [a] := by
  simp [insert, h]

@[simp] theorem mem_ofList {l : List α} {a : α} : a ∈ (ofList l).toList ↔ a ∈ l := by
  have h : ∀ (l : List α) (d : DistinctList α),
      a ∈ (l.foldl insert d).toList ↔ a ∈ d.toList ∨ a ∈ l := by
    intro l
    induction l with
    | nil => simp
    | cons b rest ih =>
      intro d
      rw [List.foldl_cons, ih, mem_insert, List.mem_cons, or_assoc]
  simpa [ofList, empty] using h l empty

@[simp] theorem isEmpty_ofList {l : List α} : (ofList l).isEmpty = l.isEmpty := by
  cases l with
  | nil => rfl
  | cons a rest =>
    have h : a ∈ (ofList (a :: rest)).toList := by simp
    cases hl : (ofList (a :: rest)).toList with
    | nil =>
      rw [hl] at h
      cases h
    | cons b others => simp [isEmpty, hl]

end DistinctList

end JoinAssembly
