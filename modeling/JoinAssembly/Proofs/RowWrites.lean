import JoinAssembly.Proofs.Row
import Mathlib.Data.List.Infix

/-!
# Writes into a row

A row is filled by writes that may fail. A write fills only slots that are null, and one that fails
keeps what it filled before; so whatever is written into a row, a slot keeps the first event that it
gets.
-/

namespace JoinAssembly

variable {ε : Type}

/-- A write into a row: an event, or what another row holds at some streams. -/
inductive RowWrite (ε : Type) where
  | set (stream : StreamIndex) (event : ε)
  | copyFrom (other : Row ε) (streams : List StreamIndex)

namespace Row

/-- What a write makes of a row, and the error that it ends with. -/
def write (r : Row ε) : RowWrite ε → Row ε × Option AssemblyError
  | .set s e =>
    match r.set s e with
    | .ok r' => (r', none)
    | .error err => (r, some err)
  | .copyFrom other streams => r.copyFrom other streams

/-- A row after writes in order, whether they fail or not. -/
def writeAll (r : Row ε) (writes : List (RowWrite ε)) : Row ε :=
  writes.foldl (fun r w => (r.write w).1) r

variable {r r' r'' other : Row ε}

/-! ### What is written stays -/

/-- A row holds the events of another one and is of its width. -/
structure Extends (r r' : Row ε) : Prop where
  width_eq : r'.width = r.width
  get?_eq : ∀ {s e}, r.get? s = some e → r'.get? s = some e

namespace Extends

lemma refl (r : Row ε) : r.Extends r := ⟨rfl, id⟩

lemma trans (h : r.Extends r') (h' : r'.Extends r'') : r.Extends r'' :=
  ⟨h'.width_eq.trans h.width_eq, fun he => h'.get?_eq (h.get?_eq he)⟩

lemma put {s : StreamIndex} (hs : s < r.width) (hnull : r.get? s = none) (e : ε) :
    r.Extends (r.put s e) where
  width_eq := width_put r s e
  get?_eq {x e'} he := by
    have hne : x ≠ s := by
      rintro rfl
      cases hnull.symm.trans he
    rw [get?_put hs, if_neg hne, he]

end Extends

lemma extends_copyFrom (other : Row ε) (streams : List StreamIndex) :
    ∀ r : Row ε, r.Extends (r.copyFrom other streams).1 := by
  induction streams with
  | nil => exact .refl
  | cons s rest ih =>
    intro r
    rw [copyFrom]
    cases other.get? s with
    | none => exact ih r
    | some e =>
      rcases r.set_cases s e with ⟨hs, hnull, hset⟩ | ⟨err, -, hset⟩
      · simp only [hset]
        exact (Extends.put hs hnull e).trans (ih _)
      · simp only [hset]
        exact .refl r

/-- A write fills null slots at most. -/
lemma extends_write (r : Row ε) (w : RowWrite ε) : r.Extends (r.write w).1 := by
  cases w with
  | set s e =>
    rcases r.set_cases s e with ⟨hs, hnull, hset⟩ | ⟨err, -, hset⟩
    · simp only [write, hset]
      exact .put hs hnull e
    · simp only [write, hset]
      exact .refl r
  | copyFrom other streams => exact extends_copyFrom other streams r

lemma extends_writeAll (writes : List (RowWrite ε)) : ∀ r : Row ε, r.Extends (r.writeAll writes) := by
  induction writes with
  | nil => exact .refl
  | cons w rest ih => intro r; exact (r.extends_write w).trans (ih _)

/-! ### What is written -/

lemma SetFault.unique {s : StreamIndex} {err err' : AssemblyError} (h : r.SetFault s err)
    (h' : r.SetFault s err') : err = err' := by
  cases h with
  | slotMissing hs =>
    cases h' with
    | slotMissing _ => rfl
    | slotTaken he => exact absurd (lt_width_of_get? he) (Nat.not_lt.mpr hs)
  | slotTaken he =>
    cases h' with
    | slotMissing hs => exact absurd (lt_width_of_get? he) (Nat.not_lt.mpr hs)
    | slotTaken _ => rfl

lemma CopyFault.unique {before : List StreamIndex} {s : StreamIndex} {err err' : AssemblyError}
    (h : r.CopyFault other before s err) (h' : r.CopyFault other before s err') : err = err' := by
  cases h with
  | slotMissing _ hs =>
    cases h' with
    | slotMissing _ _ => rfl
    | slotTaken _ hlt _ => exact absurd hlt (Nat.not_lt.mpr hs)
  | slotTaken _ hlt _ =>
    cases h' with
    | slotMissing _ hs => exact absurd hlt (Nat.not_lt.mpr hs)
    | slotTaken _ _ _ => rfl

/-- An event is written, or there is no null slot for it and the row stays as it is. -/
lemma write_set (r : Row ε) (s : StreamIndex) (e : ε) :
    (∀ err, (r.write (.set s e)).2 = some err ↔ r.SetFault s err) ∧
      (r.write (.set s e)).1 = if (r.write (.set s e)).2 = none then r.put s e else r := by
  rcases r.set_cases s e with ⟨hs, hnull, hset⟩ | ⟨err, hfault, hset⟩
  · simp only [write, hset, if_true, and_true]
    intro err
    constructor
    · intro h
      cases h
    · intro hfault
      cases (set_of_fault hfault e).symm.trans hset
  · simp only [write, hset, reduceCtorEq, if_false, and_true, Option.some.injEq]
    intro err'
    constructor
    · rintro rfl
      exact hfault
    · exact hfault.unique

/-- Whatever is written into a row, and whether or not it fails, the row keeps its width and every
slot the event that it has. An event is written at a null slot only, and is refused otherwise
without a trace. Copying writes the events of the longest prefix of the streams that has no fault,
and it fails just when the prefix is not the whole list, for the stream after it. -/
theorem written_once (r : Row ε) :
    (∀ writes, r.Extends (r.writeAll writes)) ∧
      (∀ s e, (∀ err, (r.write (.set s e)).2 = some err ↔ r.SetFault s err) ∧
        (r.write (.set s e)).1 = if (r.write (.set s e)).2 = none then r.put s e else r) ∧
      ∀ other streams, ∃ written rest, streams = written ++ rest ∧
        (∀ before, before <+: streams →
          (Faultless (r.CopyFault other) before ↔ before <+: written)) ∧
        (r.write (.copyFrom other streams)).1.width = r.width ∧
        (∀ x, (r.write (.copyFrom other streams)).1.get? x
          = if x ∈ written then (other.get? x).or (r.get? x) else r.get? x) ∧
        ((r.write (.copyFrom other streams)).2 = none ↔ rest = []) ∧
        ∀ err, (r.write (.copyFrom other streams)).2 = some err ↔
          ∃ s later, rest = s :: later ∧ r.CopyFault other written s err := by
  refine ⟨fun writes => r.extends_writeAll writes, r.write_set, fun other streams => ?_⟩
  obtain ⟨written, rest, rfl, hwritten, hrest⟩ :=
    exists_longest_faultless (r.CopyFault other) streams
  obtain ⟨r', hr', hw, hget⟩ := copyFrom_of_faultless hwritten
  refine ⟨written, rest, rfl, fun before => faultless_prefix_iff hwritten hrest, ?_⟩
  cases rest with
  | nil =>
    simp only [write, List.append_nil, hr']
    exact ⟨hw, hget, by simp, by simp⟩
  | cons s later =>
    obtain ⟨err, hs⟩ := hrest s later rfl
    simp only [write, copyFrom_of_fault hwritten hs, hr']
    refine ⟨hw, hget, by simp, fun err' => ?_⟩
    constructor
    · intro h
      cases h
      exact ⟨s, later, rfl, hs⟩
    · rintro ⟨s', later', heq, hs'⟩
      cases heq
      exact congrArg some (hs.unique hs')

/-- What is copied before the slot that is filled already stays, and nothing is copied after it. -/
example : (⟨[some 1, none, none, none]⟩ : Row Nat).write
      (.copyFrom ⟨[some 7, some 8, none, some 9]⟩ [3, 2, 0, 1])
    = (⟨[some 1, none, none, some 9]⟩, some (.slotTaken 0)) := by decide

end Row

end JoinAssembly
