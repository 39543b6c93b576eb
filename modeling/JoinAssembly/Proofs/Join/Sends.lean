import JoinAssembly.Proofs.Assembler.Emitted
import JoinAssembly.Proofs.Join.Faults
import JoinAssembly.Proofs.JoinNode.Gathering
import Mathlib.Data.List.Forall2

/-!
# Streams send their entries

What a stream sends in a pass are the rows of its emission list in order, up to an error that names
a faulty link behind one of the rows.
-/

namespace JoinAssembly

variable {ε : Type} [DecidableEq ε]

namespace JoinTree

/-- An emission of a stream sends the rows of entries in order, and all of them unless it is stopped
by an error that is to blame on a row. -/
def Sends (t : JoinTree) (m : MatchSets ε) (s : StreamIndex) (ys : List (Entry ε))
    (e : Emission ε) : Prop :=
  ∃ sent : List (Entry ε), List.Forall₂ (fun y d => y.send (t.seatOf s) = .ok d) sent e.deliveries ∧
    (∀ y ∈ sent, y ∈ ys) ∧ (e.error = none → sent = ys) ∧
    ∀ err, e.error = some err → t.Blamed m err

namespace Sends

variable {t : JoinTree} {m : MatchSets ε} {s : StreamIndex} {ys zs : List (Entry ε)}
  {e e' : Emission ε}

lemma none : t.Sends m s [] .none :=
  ⟨[], .nil, fun _ hy => hy, fun _ => rfl, by simp [Emission.none]⟩

lemma stop {err : AssemblyError} (herr : t.Blamed m err) (ys : List (Entry ε)) :
    t.Sends m s ys (.stop (some err)) := by
  refine ⟨[], .nil, fun _ hy => absurd hy List.not_mem_nil, by simp [Emission.stop],
    fun err' h => ?_⟩
  cases h
  exact herr

lemma andThen (h : t.Sends m s ys e) (h' : e.error = Option.none → t.Sends m s zs e') :
    t.Sends m s (ys ++ zs) (e.andThen e') := by
  obtain ⟨sent, hsent, hmem, hall, hblamed⟩ := h
  cases herror : e.error with
  | some err =>
    have hstopped : e.andThen e' = e := by simp only [Emission.andThen, herror]
    rw [hstopped]
    refine ⟨sent, hsent, fun y hy => List.mem_append_left _ (hmem y hy), fun hok => ?_, hblamed⟩
    cases herror.symm.trans hok
  | none =>
    obtain ⟨sent', hsent', hmem', hall', hblamed'⟩ := h' herror
    have hboth : e.andThen e' = ⟨e.deliveries ++ e'.deliveries, e'.error⟩ := by
      simp only [Emission.andThen, herror]
    rw [hboth]
    refine ⟨sent ++ sent', List.rel_append hsent hsent', fun y hy => ?_, fun hok => ?_, hblamed'⟩
    · rcases List.mem_append.mp hy with hy | hy
      · exact List.mem_append_left _ (hmem y hy)
      · exact List.mem_append_right _ (hmem' y hy)
    · rw [hall herror, hall' hok]

/-- An emission that is stopped sends part of any longer list. -/
lemma of_error (h : t.Sends m s ys e) {err : AssemblyError} (herror : e.error = some err)
    (hys : ∀ y ∈ ys, y ∈ zs) : t.Sends m s zs e := by
  obtain ⟨sent, hsent, hmem, -, hblamed⟩ := h
  refine ⟨sent, hsent, fun y hy => hys y (hmem y hy), fun hok => ?_, hblamed⟩
  cases herror.symm.trans hok

lemma settled (h : t.Sends m s ys e) : t.Sends m s ys e.settled := by
  obtain ⟨ds, error⟩ := e
  cases error with
  | none => exact h
  | some err =>
    obtain ⟨-, -, -, -, hblamed⟩ := h
    exact .stop (hblamed err rfl) ys

lemma ofExcept {y : Entry ε} (hblamed : ∀ err, y.send (t.seatOf s) = .error err → t.Blamed m err) :
    t.Sends m s [y] (.ofExcept (y.send (t.seatOf s))) := by
  cases hsend : y.send (t.seatOf s) with
  | error err => exact .stop (hblamed err hsend) [y]
  | ok d =>
    refine ⟨[y], .cons hsend .nil, fun _ hy => hy, fun _ => rfl, fun err h => ?_⟩
    cases h

lemma forEach {α : Type} {f : α → List (Entry ε)} {emit : α → Emission ε} {l : List α}
    (h : ∀ a ∈ l, t.Sends m s (f a) (emit a)) :
    t.Sends m s (l.flatMap f) (.forEach emit l) := by
  induction l with
  | nil => exact .none
  | cons a rest ih =>
    rw [List.flatMap_cons, Emission.forEach]
    exact (h a List.mem_cons_self).andThen fun _ => ih fun b hb => h b (List.mem_cons_of_mem _ hb)

end Sends

end JoinTree

lemma exists_right_of_forall₂ {α β : Type} {R : α → β → Prop} {as : List α} {bs : List β}
    (h : List.Forall₂ R as bs) {a : α} (ha : a ∈ as) : ∃ b ∈ bs, R a b := by
  induction h with
  | nil => exact absurd ha List.not_mem_nil
  | @cons a' b' as bs hab _ ih =>
    rcases List.mem_cons.mp ha with rfl | ha
    · exact ⟨b', List.mem_cons_self, hab⟩
    · obtain ⟨b, hb, hR⟩ := ih ha
      exact ⟨b, List.mem_cons_of_mem _ hb, hR⟩

lemma exists_left_of_forall₂ {α β : Type} {R : α → β → Prop} {as : List α} {bs : List β}
    (h : List.Forall₂ R as bs) {b : β} (hb : b ∈ bs) : ∃ a ∈ as, R a b :=
  exists_right_of_forall₂ h.flip hb

/-! ### Rows that come from a child -/

/-- Rows of entries of a child, as they are handed to the parent. -/
def Entry.Handed (t : JoinTree) (c s : StreamIndex) (ys : List (Entry ε)) (hs : List (Handoff ε)) :
    Prop :=
  List.Forall₂ (fun y x => y.send (t.seatOf c) = .ok (.toParent s x)) ys hs

namespace Entry

variable {t : JoinTree} {m : MatchSets ε} {c s : StreamIndex} {ys : List (Entry ε)}
  {hs : List (Handoff ε)} {e : Emission ε}

/-- What a child sends is handed to the parent. -/
lemma handed_of_sends (hsends : t.Sends m c (t.entries m c) e) (hheads : e.HeadsTo (some s)) :
    ∃ sent, Handed t c s sent e.handoffs ∧ (∀ y ∈ sent, y ∈ t.entries m c) ∧
      (e.error = none → sent = t.entries m c) := by
  obtain ⟨sent, hsent, hmem, hall, -⟩ := hsends
  rw [hheads.deliveries_eq, List.forall₂_map_right_iff] at hsent
  exact ⟨sent, hsent, hmem, hall⟩

/-- A row that found its event is sent on with the event in it. -/
lemma forward_eq (h : t.Sound) (hc : c ∈ t.childrenOf s) {y : Entry ε} (hy : y ∈ t.entries m c)
    {x : Handoff ε} (hsend : y.send (t.seatOf c) = .ok (.toParent s x)) {o : Occurrence ε}
    (hindex : x.place.index = o.cursor.node) (hevent : x.event = o.event)
    (hlocate : m.locate s x.place x.event = .ok (o.node, o.cursor.position)) :
    JoinNode.forward (t.seatOf s) c m x
      = (⟨o, y.row.put s o.event⟩ : Entry ε).send (t.seatOf s) := by
  have hs : s < t.size := h.parent_lt (h.parent_of_mem_childrenOf hc)
  have hover := h.over_below c (h.lt_of_mem_childrenOf hc) y hy
  have hnull : y.row.get? s = none := hover.get?_eq_none (h.not_mem_below_child hc)
  have hset := Row.set_eq_put (hover.width_eq ▸ hs) hnull o.event
  obtain ⟨-, link, -, -, rfl⟩ := handoff_of_send hsend
  simp only at hindex hevent hlocate
  rw [hevent] at hlocate
  simp only [JoinNode.forward, JoinTree.seatOf, ne_eq, not_true_eq_false, if_false, hlocate, hindex,
    hevent, hset]
  rfl

/-- A branch sends the rows of its child on, each with the event in it that it was found for. -/
lemma sends_forwardAll (h : t.Sound) (hc : c ∈ t.childrenOf s) (hhanded : Handed t c s ys hs)
    (hys : ∀ y ∈ ys, y ∈ t.entries m c)
    (hforwarded : ∀ z ∈ forwarded m s (t.entries m c), z ∈ t.entries m s) :
    t.Sends m s (forwarded m s ys) (JoinNode.forwardAll (t.seatOf s) c m hs) := by
  have hlt : s < t.size := h.parent_lt (h.parent_of_mem_childrenOf hc)
  induction hhanded with
  | nil => exact .none
  | @cons y x ys hs hsend _ ih =>
    have hy := hys y List.mem_cons_self
    have hrest := ih fun z hz => hys z (List.mem_cons_of_mem _ hz)
    rcases locate_of_send h hy hsend with ⟨o, ho, hindex, hevent, hlocate⟩ | ⟨err, herror, hblamed⟩
    · have hfor := forward_eq h hc hy hsend hindex hevent hlocate
      have hz : ⟨o, y.row.put s o.event⟩ ∈ t.entries m s := by
        obtain ⟨ho, hlink⟩ := MatchSets.linked?_eq_some_iff.mp ho
        exact hforwarded _ (mem_forwarded.mpr ⟨y, hy, o, ho, hlink, rfl⟩)
      rw [forwarded, List.filterMap_cons_some (by rw [ho]; rfl), JoinNode.forwardAll,
        Emission.forEach, hfor]
      have hone := JoinTree.Sends.ofExcept fun err hz' => blamed_of_send h hlt hz hz'
      exact hone.andThen fun _ => hrest
    · have hfor : JoinNode.forward (t.seatOf s) c m x = .error err := by
        obtain ⟨-, link, -, -, rfl⟩ := handoff_of_send hsend
        simp only at herror
        simp only [JoinNode.forward, JoinTree.seatOf, ne_eq, not_true_eq_false, if_false, herror]
        rfl
      rw [JoinNode.forwardAll_of_error hfor]
      exact .stop hblamed _

/-- The handoffs whose events can be found, as what their entries link to. -/
lemma filterMap_cursor? (h : t.Sound) (hhanded : Handed t c s ys hs)
    (hys : ∀ y ∈ ys, y ∈ t.entries m c)
    (hlocated : ∀ x ∈ hs, ∃ found, m.locate s x.place x.event = .ok found) {β : Type}
    (make : Cursor → StreamIndex → Row ε → β) :
    (hs.filterMap fun x => (JoinNode.cursor? m s x).map fun cursor => make cursor x.sender x.row)
      = ys.filterMap fun y => (m.linked? s y.source.node).map fun o => make o.cursor c y.row := by
  induction hhanded with
  | nil => rfl
  | @cons y x ys hs hsend _ ih =>
    have hrest := ih (fun z hz => hys z (List.mem_cons_of_mem _ hz))
      fun x' hx' => hlocated x' (List.mem_cons_of_mem _ hx')
    rcases locate_of_send h (hys y List.mem_cons_self) hsend with
      ⟨o, ho, hindex, hevent, hlocate⟩ | ⟨err, herror, -⟩
    · have hcursor : JoinNode.cursor? m s x = some o.cursor := by
        rw [JoinNode.cursor?, hlocate]
        exact congrArg some (Cursor.eq_of_fields hindex rfl)
      have hx : x.sender = c ∧ x.row = y.row := by
        obtain ⟨-, link, -, -, rfl⟩ := handoff_of_send hsend
        exact ⟨rfl, rfl⟩
      rw [List.filterMap_cons_some (by rw [hcursor]; rfl),
        List.filterMap_cons_some (by rw [ho]; rfl), hrest, hx.1, hx.2]
    · obtain ⟨found, hfound⟩ := hlocated x List.mem_cons_self
      cases herror.symm.trans hfound

/-- Events that cannot be found are to blame on the rows that were found for them. -/
lemma blamed_of_locate (h : t.Sound) (hhanded : Handed t c s ys hs)
    (hys : ∀ y ∈ ys, y ∈ t.entries m c) {x : Handoff ε} (hx : x ∈ hs) {err : AssemblyError}
    (herror : m.locate s x.place x.event = .error err) : t.Blamed m err := by
  obtain ⟨y, hy, hsend⟩ := exists_left_of_forall₂ hhanded hx
  rcases locate_of_send h (hys y hy) hsend with ⟨o, -, -, -, hlocate⟩ | ⟨err', herror', hblamed⟩
  · cases herror.symm.trans hlocate
  · cases herror.symm.trans herror'
    exact hblamed

end Entry

end JoinAssembly
