import JoinAssembly.Proofs.FirstFault
import JoinAssembly.Row
import Mathlib.Data.List.Nodup
import Mathlib.Tactic.Lemma

/-!
# Rows as partial assignments

A row assigns events to some streams. An event is written where there is a null slot for it, and
copying goes on to the first event for which there is none. Filling a null slot and copying into
null slots never fail, and then they are total operations on rows.
-/

namespace JoinAssembly.Row

variable {ε : Type}

/-- Write an event at a slot. -/
def put (r : Row ε) (s : StreamIndex) (e : ε) : Row ε := ⟨r.slots.set s (some e)⟩

/-- The row of a given width that holds only one event. -/
def single (width : Nat) (s : StreamIndex) (e : ε) : Row ε := (empty width).put s e

/-- The events of a row, and those of another one where it is null. -/
def overlay (r other : Row ε) : Row ε := ⟨List.zipWith (fun a b => a.or b) r.slots other.slots⟩

/-! ### Slot by slot -/

@[simp] lemma width_put (r : Row ε) (s : StreamIndex) (e : ε) : (r.put s e).width = r.width := by
  simp [put, width]

@[simp] lemma width_single (w : Nat) (s : StreamIndex) (e : ε) :
    (single w s e).width = w := by
  rw [single, width_put, width_empty]

lemma width_overlay {r other : Row ε} (h : r.width = other.width) :
    (r.overlay other).width = r.width := by
  simp only [width] at h ⊢
  rw [overlay, List.length_zipWith, ← h, Nat.min_self]

lemma get?_of_width_le {r : Row ε} {x : StreamIndex} (hx : r.width ≤ x) : r.get? x = none := by
  rw [get?, List.getElem?_eq_none hx]
  rfl

lemma lt_width_of_get? {r : Row ε} {x : StreamIndex} {e : ε} (h : r.get? x = some e) :
    x < r.width := by
  by_contra hx
  rw [get?_of_width_le (Nat.le_of_not_lt hx)] at h
  cases h

lemma get?_put {r : Row ε} {s : StreamIndex} (hs : s < r.width) (e : ε) (x : StreamIndex) :
    (r.put s e).get? x = if x = s then some e else r.get? x := by
  rw [width] at hs
  by_cases hx : x = s
  · rw [if_pos hx, hx, get?, put, List.getElem?_set_self hs]
    rfl
  · rw [if_neg hx, get?, put, List.getElem?_set_ne (Ne.symm hx), get?]

lemma get?_single {w : Nat} {s : StreamIndex} (hs : s < w) (e : ε) (x : StreamIndex) :
    (single w s e).get? x = if x = s then some e else none := by
  rw [single, get?_put (by rw [width_empty]; exact hs), get?_empty]

lemma get?_overlay {r other : Row ε} (h : r.width = other.width) (x : StreamIndex) :
    (r.overlay other).get? x = (r.get? x).or (other.get? x) := by
  by_cases hx : x < r.width
  · have hx' : x < other.width := h ▸ hx
    rw [width] at hx hx'
    rw [get?, overlay, List.getElem?_zipWith]
    simp [get?, hx, hx']
  · have hle := Nat.le_of_not_lt hx
    rw [get?_of_width_le (width_overlay h ▸ hle), get?_of_width_le hle,
      get?_of_width_le (h ▸ hle)]
    rfl

lemma isNull_put {r : Row ε} {s x : StreamIndex} (hs : s < r.width) (hx : x ≠ s) (e : ε) :
    (r.put s e).isNull x = r.isNull x := by
  rw [isNull, get?_put hs, if_neg hx, isNull]

lemma isNull_overlay {r other : Row ε} (h : r.width = other.width) (x : StreamIndex) :
    (r.overlay other).isNull x = (r.isNull x && other.isNull x) := by
  rw [isNull, get?_overlay h, isNull, isNull]
  cases r.get? x <;> rfl

/-- Rows of one width are equal if they hold the same events. -/
lemma ext_get? {r other : Row ε} (hwidth : r.width = other.width)
    (h : ∀ x, r.get? x = other.get? x) : r = other := by
  obtain ⟨slots⟩ := r
  obtain ⟨slots'⟩ := other
  congr 1
  apply List.ext_getElem hwidth
  intro x hx hx'
  simpa [get?, hx, hx'] using h x

/-- Laying a row over one event writes the event into it. -/
lemma single_overlay {r : Row ε} {s : StreamIndex} (hs : s < r.width) (e : ε) :
    (single r.width s e).overlay r = r.put s e := by
  have hwidth : (single r.width s e).width = r.width := width_single _ _ _
  apply ext_get? ((width_overlay hwidth).trans (hwidth.trans (width_put r s e).symm))
  intro x
  rw [get?_overlay hwidth, get?_single hs, get?_put hs]
  by_cases hx : x = s
  · rw [if_pos hx, if_pos hx]
    rfl
  · rw [if_neg hx, if_neg hx]
    rfl

/-! ### Where writing fails -/

/-- An event cannot be written at a slot that is missing or filled. -/
inductive SetFault (r : Row ε) (s : StreamIndex) : AssemblyError → Prop where
  | slotMissing (hs : r.width ≤ s) : SetFault r s (.slotMissing s r.width)
  | slotTaken {e : ε} (he : r.get? s = some e) : SetFault r s (.slotTaken s)

lemma set_eq_put {r : Row ε} {s : StreamIndex} (hs : s < r.width) (hnull : r.get? s = none)
    (e : ε) : r.set s e = .ok (r.put s e) := by
  refine set_eq_ok_iff.mpr ⟨?_, rfl⟩
  rw [width] at hs
  rw [get?, List.getElem?_eq_getElem hs] at hnull
  rw [List.getElem?_eq_getElem hs]
  exact congrArg some hnull

lemma set_of_fault {r : Row ε} {s : StreamIndex} {err : AssemblyError} (h : r.SetFault s err)
    (e : ε) : r.set s e = .error err := by
  cases h with
  | slotMissing hs => rw [set, List.getElem?_eq_none hs]
  | slotTaken he =>
    have hslot : r.slots[s]? = some (some _) := Option.join_eq_some_iff.mp he
    rw [set, hslot]

/-- An event is written at a null slot, and nowhere else. -/
lemma set_cases (r : Row ε) (s : StreamIndex) (e : ε) :
    (s < r.width ∧ r.get? s = none ∧ r.set s e = .ok (r.put s e)) ∨
      ∃ err, r.SetFault s err ∧ r.set s e = .error err := by
  by_cases hs : s < r.width
  · cases hslot : r.get? s with
    | none => exact .inl ⟨hs, rfl, set_eq_put hs hslot e⟩
    | some e' => exact .inr ⟨_, .slotTaken hslot, set_of_fault (.slotTaken hslot) e⟩
  · have hmissing : r.SetFault s _ := .slotMissing (Nat.le_of_not_lt hs)
    exact .inr ⟨_, hmissing, set_of_fault hmissing e⟩

/-- An event of another row cannot be copied after those of some streams: there is no slot for it,
or the slot is filled, from the beginning or since. -/
inductive CopyFault (r other : Row ε) (before : List StreamIndex) (s : StreamIndex) :
    AssemblyError → Prop where
  | slotMissing {e : ε} (he : other.get? s = some e) (hs : r.width ≤ s) :
      CopyFault r other before s (.slotMissing s r.width)
  | slotTaken {e : ε} (he : other.get? s = some e) (hs : s < r.width)
      (htaken : r.get? s ≠ none ∨ s ∈ before) : CopyFault r other before s (.slotTaken s)

lemma copyFrom_append (other : Row ε) (l l' : List StreamIndex) :
    ∀ r : Row ε, r.copyFrom other (l ++ l') = match r.copyFrom other l with
      | (r', none) => r'.copyFrom other l'
      | (r', some err) => (r', some err) := by
  induction l with
  | nil => intro r; rfl
  | cons s rest ih =>
    intro r
    rw [List.cons_append, copyFrom, copyFrom]
    cases other.get? s with
    | none => exact ih r
    | some e =>
      simp only []
      cases r.set s e with
      | error err => rfl
      | ok r' => exact ih r'

/-- Streams without fault are all copied. -/
lemma copyFrom_of_faultless {r other : Row ε} {streams : List StreamIndex}
    (h : Faultless (r.CopyFault other) streams) :
    ∃ r', r.copyFrom other streams = (r', none) ∧ r'.width = r.width ∧
      ∀ x, r'.get? x = if x ∈ streams then (other.get? x).or (r.get? x) else r.get? x := by
  induction streams using List.reverseRecOn with
  | nil => exact ⟨r, rfl, rfl, fun x => by simp⟩
  | append_singleton streams s ih =>
    obtain ⟨hstreams, hs⟩ := faultless_concat.mp h
    obtain ⟨r', hr', hw, hget⟩ := ih hstreams
    rw [copyFrom_append, hr']
    cases he : other.get? s with
    | none =>
      refine ⟨r', by simp [copyFrom, he], hw, fun x => ?_⟩
      rw [hget x]
      by_cases hx : x = s
      · simp [hx, he]
      · simp [hx]
    | some e =>
      have hlt : s < r.width := Nat.lt_of_not_le fun hge => hs _ (.slotMissing he hge)
      have hnew : s ∉ streams := fun hmem => hs _ (.slotTaken he hlt (.inr hmem))
      have hnull : r.get? s = none := by
        by_contra htaken
        exact hs _ (.slotTaken he hlt (.inl htaken))
      have hset : r'.set s e = .ok (r'.put s e) :=
        set_eq_put (hw ▸ hlt) (by rw [hget s, if_neg hnew, hnull]) e
      refine ⟨r'.put s e, by simp [copyFrom, he, hset], (width_put r' s e).trans hw, fun x => ?_⟩
      rw [get?_put (hw ▸ hlt), hget x]
      by_cases hx : x = s
      · simp [hx, he]
      · simp [hx]

/-- Copying stops at the first stream at fault and keeps what it copied before. -/
lemma copyFrom_of_fault {r other : Row ε} {written : List StreamIndex} {s : StreamIndex}
    {err : AssemblyError} (hwritten : Faultless (r.CopyFault other) written)
    (hs : r.CopyFault other written s err) (later : List StreamIndex) :
    r.copyFrom other (written ++ s :: later) = ((r.copyFrom other written).1, some err) := by
  obtain ⟨r', hr', hw, hget⟩ := copyFrom_of_faultless hwritten
  rw [copyFrom_append, hr']
  cases hs with
  | slotMissing he hs =>
    have hset := set_of_fault (.slotMissing (r := r') (hw ▸ hs))
    simp [copyFrom, he, hset, hw]
  | slotTaken he hs htaken =>
    obtain ⟨e', he'⟩ : ∃ e', r'.get? s = some e' := by
      rw [hget s]
      by_cases hmem : s ∈ written
      · simp [hmem, he]
      · simpa [hmem, Option.ne_none_iff_exists'] using htaken
    have hset := set_of_fault (.slotTaken he')
    simp [copyFrom, he, hset]

/-! ### Where the operations of a join are total -/

lemma seed_eq_single {w : Nat} {s : StreamIndex} (hs : s < w) (e : ε) :
    seed w s e = .ok (single w s e) :=
  set_eq_put (by rw [width_empty]; exact hs) (get?_empty w s) e

/-- Copying into null slots succeeds, and fills just the slots that it goes through. -/
lemma copyFrom_spec {other : Row ε} {streams : List StreamIndex} (hnodup : streams.Nodup)
    {r : Row ε} (hfits : ∀ x ∈ streams, ∀ e, other.get? x = some e → x < r.width)
    (hnull : ∀ x ∈ streams, r.get? x = none) :
    ∃ r', r.copyFrom other streams = (r', none) ∧ r'.width = r.width ∧
      ∀ x, r'.get? x = if x ∈ streams then other.get? x else r.get? x := by
  have hfree : Faultless (r.CopyFault other) streams := by
    rintro before s after rfl err hfault
    have hs : s ∈ before ++ s :: after := List.mem_append_right _ List.mem_cons_self
    cases hfault with
    | slotMissing he hge => exact absurd (hfits s hs _ he) (Nat.not_lt.mpr hge)
    | slotTaken _ _ htaken =>
      rcases htaken with hfilled | hbefore
      · exact hfilled (hnull s hs)
      · exact (List.nodup_append'.mp hnodup).2.2 hbefore List.mem_cons_self
  obtain ⟨r', hr', hw, hget⟩ := copyFrom_of_faultless hfree
  refine ⟨r', hr', hw, fun x => ?_⟩
  rw [hget x]
  by_cases hx : x ∈ streams
  · rw [if_pos hx, if_pos hx, hnull x hx, Option.or_none]
  · rw [if_neg hx, if_neg hx]

/-! ### Rows over some streams -/

/-- A row of a given width that holds events of some streams only. -/
structure Over (r : Row ε) (w : Nat) (S : List StreamIndex) : Prop where
  width_eq : r.width = w
  mem_of_get? : ∀ {x : StreamIndex} {e : ε}, r.get? x = some e → x ∈ S

namespace Over

variable {r other : Row ε} {w : Nat} {S T : List StreamIndex}

lemma get?_eq_none (h : r.Over w S) {x : StreamIndex} (hx : x ∉ S) : r.get? x = none := by
  cases he : r.get? x with
  | none => rfl
  | some e => exact absurd (h.mem_of_get? he) hx

lemma isNull_of_not_mem (h : r.Over w S) {x : StreamIndex} (hx : x ∉ S) : r.isNull x := by
  rw [isNull, h.get?_eq_none hx]
  rfl

lemma mono (h : r.Over w S) (hST : ∀ x ∈ S, x ∈ T) : r.Over w T :=
  ⟨h.width_eq, fun hx => hST _ (h.mem_of_get? hx)⟩

lemma put (h : r.Over w S) {s : StreamIndex} (hs : s < w) (e : ε) :
    (r.put s e).Over w (s :: S) := by
  refine ⟨(width_put r s e).trans h.width_eq, fun {x e'} hx => ?_⟩
  rw [get?_put (h.width_eq ▸ hs)] at hx
  by_cases hxs : x = s
  · exact hxs ▸ List.mem_cons_self
  · rw [if_neg hxs] at hx
    exact List.mem_cons_of_mem _ (h.mem_of_get? hx)

lemma single {s : StreamIndex} (hs : s < w) (e : ε) : (single w s e).Over w [s] := by
  refine ⟨width_single w s e, fun {x e'} hx => ?_⟩
  rw [get?_single hs] at hx
  by_cases hxs : x = s
  · exact List.mem_singleton.mpr hxs
  · rw [if_neg hxs] at hx
    cases hx

lemma overlay (h : r.Over w S) (h' : other.Over w T) : (r.overlay other).Over w (S ++ T) := by
  have hwidth : r.width = other.width := h.width_eq.trans h'.width_eq.symm
  refine ⟨(width_overlay hwidth).trans h.width_eq, fun {x e} hx => ?_⟩
  rw [get?_overlay hwidth] at hx
  rcases Option.or_eq_some_iff.mp hx with hx | ⟨-, hx⟩
  · exact List.mem_append_left T (h.mem_of_get? hx)
  · exact List.mem_append_right S (h'.mem_of_get? hx)

/-- Rows over streams apart from one another can be read off their overlay. -/
lemma overlay_inj {r' other' : Row ε} (h : r.Over w S) (h' : r'.Over w S) (ho : other.Over w T)
    (ho' : other'.Over w T) (hdisjoint : S.Disjoint T)
    (heq : r.overlay other = r'.overlay other') : r = r' ∧ other = other' := by
  have hget : ∀ x, (r.get? x).or (other.get? x) = (r'.get? x).or (other'.get? x) := by
    intro x
    rw [← get?_overlay (h.width_eq.trans ho.width_eq.symm), heq,
      get?_overlay (h'.width_eq.trans ho'.width_eq.symm)]
  constructor
  · apply ext_get? (h.width_eq.trans h'.width_eq.symm)
    intro x
    by_cases hx : x ∈ S
    · have hxT : x ∉ T := fun hT => hdisjoint hx hT
      simpa [ho.get?_eq_none hxT, ho'.get?_eq_none hxT] using hget x
    · rw [h.get?_eq_none hx, h'.get?_eq_none hx]
  · apply ext_get? (ho.width_eq.trans ho'.width_eq.symm)
    intro x
    by_cases hx : x ∈ S
    · have hxT : x ∉ T := fun hT => hdisjoint hx hT
      rw [ho.get?_eq_none hxT, ho'.get?_eq_none hxT]
    · simpa [h.get?_eq_none hx, h'.get?_eq_none hx] using hget x

end Over

/-! ### Part of a row -/

/-- A row of a given width that holds what a row of any width holds at some streams. -/
def only (r : Row ε) (w : Nat) (S : List StreamIndex) : Row ε :=
  ⟨(List.range w).map fun x => if x ∈ S then r.get? x else none⟩

@[simp] lemma width_only (r : Row ε) (w : Nat) (S : List StreamIndex) :
    (r.only w S).width = w := by
  simp [only, width]

lemma get?_only {w : Nat} {S : List StreamIndex} (hS : ∀ x ∈ S, x < w) (r : Row ε)
    (x : StreamIndex) : (r.only w S).get? x = if x ∈ S then r.get? x else none := by
  by_cases hx : x < w
  · simp [get?, only, hx]
  · rw [get?_of_width_le (by rw [width_only]; exact Nat.le_of_not_lt hx),
      if_neg fun hmem => hx (hS x hmem)]

lemma over_only {w : Nat} {S : List StreamIndex} (hS : ∀ x ∈ S, x < w) (r : Row ε) :
    (r.only w S).Over w S := by
  refine ⟨r.width_only w S, fun {x e} hx => ?_⟩
  rw [get?_only hS] at hx
  split at hx
  · assumption
  · cases hx

lemma Over.only_eq {r : Row ε} {w : Nat} {S : List StreamIndex} (h : r.Over w S)
    (hS : ∀ x ∈ S, x < w) : r.only w S = r := by
  apply ext_get? ((r.width_only w S).trans h.width_eq.symm)
  intro x
  rw [get?_only hS]
  split
  · rfl
  · rename_i hx
    exact (h.get?_eq_none hx).symm

/-- Merging into null slots lays over one another the row and what is copied of the other one. -/
lemma merge_eq_overlay {r other : Row ε} {streams : List StreamIndex}
    (hnodup : streams.Nodup) (hstreams : ∀ x ∈ streams, x < r.width)
    (hnull : ∀ x ∈ streams, r.get? x = none) :
    r.merge other streams = .ok (r.overlay (other.only r.width streams)) := by
  have hfits : ∀ x ∈ streams, ∀ e, other.get? x = some e → x < r.width :=
    fun x hx _ _ => hstreams x hx
  obtain ⟨r', hr', hw, hget⟩ := copyFrom_spec hnodup hfits hnull
  have hwidth : r.width = (other.only r.width streams).width := (width_only _ _ _).symm
  have heq : r' = r.overlay (other.only r.width streams) := by
    apply ext_get? (hw.trans (width_overlay hwidth).symm)
    intro x
    rw [hget x, get?_overlay hwidth, get?_only hstreams]
    by_cases hx : x ∈ streams
    · rw [if_pos hx, if_pos hx, hnull x hx]
      rfl
    · rw [if_neg hx, if_neg hx, Option.or_none]
  rw [merge, hr', heq]

end JoinAssembly.Row
