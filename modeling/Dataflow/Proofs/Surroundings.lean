import Dataflow.Proofs.Ledger
import Dataflow.Proofs.Speculation

/-!
# Dataflow.Proofs.Surroundings

**Messages look around and leave no trace.** A message shows what is around the cursor: what is still in
the window behind it, and what is ahead, which may have to be read for that, into a ring that grows. What it
shows is the stream around the place of the cursor, and where the cursor is does not change by it.

* `Cursor.Recalls` — the invariant for what is behind: the ledger of the cursor is that of the walk it is
  on (`Walk.ledger`). So the window behind the cursor is the stream in front of its place, however much of
  it has been dropped;
* `Cursor.context_roomy` — the context in full, where there is room for it;
* `Reaches.outcomes_eq` — whatever two cursors at one place of a stream have in their windows, they
  answer alike. A cursor behind a message is at the place where it was (`Reaches.diagnosed`);
* `Reaches.surroundings` — the result. The windows differ, though, and a later message may show it
  (`later_context_depends`).
-/

namespace Dataflow.Reading

variable {σ α κ : Type} {l : Limits} {c c' : Cursor σ α} {w w' : Walk α} {a : Nat}

/-! ### What is behind a cursor -/

theorem Walk.upTo_succ (w : Walk α) (e : Nat) : w.upTo (e + 1) = w.upTo e ++ [w.element e] := by
  simp [Walk.upTo, List.range_succ]

/-- What a walk has gone over, also at each of its marks. -/
def Walk.ledger (w : Walk α) (undone : List α) : Ledger α where
  consumed := w.upTo w.position
  saved := w.marks.map w.upTo
  undone := undone

/-- What is behind the cursor is what the walk has gone over. -/
def Cursor.Recalls (l : Limits) (c : Cursor σ α) (w : Walk α) : Prop :=
  ∃ undone, c.Recorded l (w.ledger undone)

namespace Cursor.Recalls

open Cursor

theorem stays (h : c.Recalls l w) (h' : c'.InOrder l) (hproceeds : Proceeds [] c c') :
    c'.Recalls l w := by
  obtain ⟨undone, h⟩ := h
  exact ⟨undone, h.stays h' hproceeds⟩

theorem advances (h : c.Recalls l w) (h' : c'.InOrder l)
    (hproceeds : Proceeds [w.element w.position] c c') : c'.Recalls l w.advance := by
  obtain ⟨undone, h⟩ := h
  have hledger : w.advance.ledger undone = (w.ledger undone).take [w.element w.position] := by
    show Ledger.mk (w.upTo (w.position + 1)) _ _ = _
    rw [Walk.upTo_succ]
    rfl
  exact ⟨undone, hledger ▸ h.proceeds h' hproceeds⟩

theorem marks_eq_nil (h : c.Recalls l w) (hm : w.marks = []) : c.marks = [] := by
  obtain ⟨undone, h⟩ := h
  obtain ⟨dropped, haccounts⟩ := h.accounts
  have hsaved : w.marks.map w.upTo = _ := haccounts.saved
  rw [hm] at hsaved
  exact List.map_eq_nil_iff.1 hsaved.symm

end Cursor.Recalls

variable [Supply σ α] [Element α κ] [DecidableEq κ]

omit [Element α κ] [DecidableEq κ] in
/-- What is excused is seen as such. -/
theorem Cursor.Excused.not_fits {n : Nat} {e : Failure} (h : Excused l n w e c) :
    ¬ (Outcome.ofFailure e : Outcome α κ).isExceeded = false := by
  obtain ⟨⟨requested, limit, rfl⟩, -, -⟩ := h
  exact nofun

theorem Cursor.expect_recalls (ht : c.Tracks l w) (hc : c.Recalls l w) (kind : κ) :
    Run.Ends
      (fun _ c' => Element.kind (w.element w.position) = kind ∧ c'.Recalls l w.advance)
      (fun e c' => c'.Recalls l w ∧ ((Outcome.ofFailure e : Outcome α κ).isExceeded = false →
        Element.kind (w.element w.position) ≠ kind)) (expect kind c) := by
  have horder : c.InOrder l := hc.elim fun _ h => h.inOrder
  refine ((expect_tracks ht kind).and (expect_proceeds horder kind)).mono ?_ ?_
  · rintro b c' ⟨⟨hkind, rfl, -⟩, h', hproceeds⟩
    exact ⟨hkind, hc.advances h' hproceeds⟩
  · rintro e c' ⟨he | ⟨hkind, -⟩, h', hproceeds⟩
    · exact ⟨hc.stays h' hproceeds, fun hfits => absurd hfits he.not_fits⟩
    · exact ⟨hc.stays h' hproceeds, fun _ => hkind⟩

omit [Element α κ] [DecidableEq κ] in
theorem Cursor.commit_recalls (ht : c.Tracks l w) (hc : c.Recalls l w) :
    Run.Ends (fun _ c' => ∃ m outer, w.marks = m :: outer ∧ c'.Recalls l { w with marks := outer })
      (fun _ c' => w.marks = [] ∧ c'.Recalls l w) (commit c) := by
  cases hm : w.marks with
  | nil =>
    rw [commit_nil (hc.marks_eq_nil hm)]
    exact ⟨rfl, hc⟩
  | cons m outer =>
    obtain ⟨undone, h⟩ := hc
    obtain ⟨c', hcommit, -⟩ := commit_tracks ht hm
    have hrecorded := (commit_recorded h).of_ok hcommit
    rw [Ledger.commit, Walk.ledger, hm] at hrecorded
    rw [hcommit]
    exact ⟨m, outer, rfl, undone, hrecorded⟩

omit [Element α κ] [DecidableEq κ] in
theorem Cursor.rollback_recalls (ht : c.Tracks l w) (hc : c.Recalls l w) :
    Run.Ends (fun _ c' => ∃ m outer, w.marks = m :: outer ∧
        c'.Recalls l { w with position := m, marks := outer })
      (fun _ c' => w.marks = [] ∧ c'.Recalls l w) (rollback c) := by
  cases hm : w.marks with
  | nil =>
    rw [rollback_nil (hc.marks_eq_nil hm)]
    exact ⟨rfl, hc⟩
  | cons m outer =>
    obtain ⟨undone, h⟩ := hc
    obtain ⟨c', hrollback, -⟩ := rollback_tracks ht hm
    have hrecorded := (rollback_recorded h).of_ok hrollback
    rw [Ledger.rollback, Walk.ledger, hm] at hrecorded
    rw [hrollback]
    exact ⟨m, outer, rfl, _, hrecorded⟩

/-- A step has been answered, and the walk goes on with it. -/
def Step.GoesOn (l : Limits) (w : Walk α) (s : Step σ κ) (out : Outcome α κ) (c : Cursor σ α) : Prop :=
  out.isExceeded = false ∧ ∃ o w', w.step s = some (o, w') ∧ c.Recalls l w'

/-- A step has been refused or was used wrongly, and the walk stays. -/
def Step.Keeps (l : Limits) (w : Walk α) (s : Step σ κ) (e : Failure) (c : Cursor σ α) : Prop :=
  c.Recalls l w ∧ ((Outcome.ofFailure e : Outcome α κ).isExceeded = false →
    ∀ o w', w.step s = some (o, w') → w' = w)

/-- A step that only looks. -/
theorem Step.recalls_of_look {β : Type} {s : Step σ κ} {f : β → Outcome α κ} {x : Run (Cursor σ α) β}
    {o : Outcome α κ} (hs : w.step s = some (o, w)) (hf : ∀ b, (f b).isExceeded = false)
    (hx : Run.Ends (fun _ c' => c'.Recalls l w) (fun _ c' => c'.Recalls l w) (x c)) :
    Run.Ends (s.GoesOn l w) (s.Keeps l w) ((f <$> x) c) := by
  refine Run.Ends.map (hx.mono (fun b _ h' => ⟨hf b, _, _, hs, h'⟩) fun _ _ h' => ⟨h', ?_⟩)
  intro _ o' w' hs'
  cases hs.symm.trans hs'
  rfl

/-- A step that expects a kind. -/
theorem Step.recalls_of_expect {s : Step σ κ} {f : α → Outcome α κ} {answer : Outcome α κ} {kind : κ}
    (ht : c.Tracks l w) (hc : c.Recalls l w) (hf : ∀ b, (f b).isExceeded = false)
    (hs : w.step s = if Element.kind (w.element w.position) = kind then some (answer, w.advance)
      else some (w.refusal kind, w)) :
    Run.Ends (s.GoesOn l w) (s.Keeps l w) ((f <$> Cursor.expect kind) c) := by
  refine Run.Ends.map ((Cursor.expect_recalls ht hc kind).mono ?_ ?_)
  · rintro b c' ⟨hkind, h'⟩
    rw [if_pos hkind] at hs
    exact ⟨hf b, _, _, hs, h'⟩
  · rintro e c' ⟨h', hkind⟩
    refine ⟨h', fun hfits o w' hs' => ?_⟩
    rw [if_neg (hkind hfits)] at hs
    cases hs.symm.trans hs'
    rfl

/-- **How a step ends**, by the walk. -/
theorem Step.recalls (ht : c.Tracks l w) (hc : c.Recalls l w) (s : Step σ κ) :
    Run.Ends (s.GoesOn l w) (s.Keeps l w) (s.run c) := by
  have horder : c.InOrder l := hc.elim fun _ h => h.inOrder
  have hlook : ∀ k, Run.Ends (fun _ c' => c'.Recalls l w) (fun _ c' => c'.Recalls l w)
      (Cursor.lookahead k c) := fun k =>
    (Cursor.lookahead_proceeds horder k).mono (fun _ _ ha => hc.stays ha.1 ha.2)
      fun _ _ he => hc.stays he.1 he.2
  cases s with
  | consume =>
    refine Run.Ends.map ?_
    refine ((Cursor.consume_tracks ht).and (Cursor.consume_proceeds horder)).mono ?_ ?_
    · rintro b c' ⟨⟨rfl, -⟩, h', hproceeds⟩
      exact ⟨rfl, _, _, rfl, hc.advances h' hproceeds⟩
    · rintro e c' ⟨he, h', hproceeds⟩
      exact ⟨hc.stays h' hproceeds, fun hfits => absurd hfits he.not_fits⟩
  | peek => exact recalls_of_look rfl (fun _ => rfl) (hlook 0)
  | lookahead k => exact recalls_of_look rfl (fun _ => rfl) (hlook k)
  | kindAt k =>
    exact recalls_of_look rfl (fun _ => rfl) ((hlook k).bind (fun _ _ h' => h') fun _ _ h' => h')
  | accept kind =>
    refine Run.Ends.map ?_
    refine ((Cursor.accept_tracks ht kind).and (Cursor.accept_proceeds horder kind)).mono ?_ ?_
    · rintro found c' ⟨⟨hkind, rfl, -⟩ | ⟨hkind, rfl, -⟩, h', hproceeds⟩
      · exact ⟨rfl, _, _, if_pos hkind, hc.advances h' hproceeds⟩
      · exact ⟨rfl, _, _, if_neg hkind, hc.stays h' hproceeds⟩
    · rintro e c' ⟨he, h', hproceeds⟩
      exact ⟨hc.stays h' hproceeds, fun hfits => absurd hfits he.not_fits⟩
  | matchKind kind => exact recalls_of_expect ht hc (fun _ => rfl) rfl
  | matchGet kind => exact recalls_of_expect ht hc (fun _ => rfl) rfl
  | mismatch expected =>
    refine recalls_of_look rfl (fun _ => rfl) ?_
    rw [Cursor.mismatch_eq]
    obtain ⟨e, c', hcompose, h', hproceeds⟩ := Cursor.compose_proceeds horder _
    rw [hcompose]
    exact hc.stays h' hproceeds
  | unexpectedOperand =>
    refine recalls_of_look rfl (fun _ => rfl) ?_
    rw [Cursor.unexpectedOperand_eq]
    obtain ⟨e, c', hcompose, h', hproceeds⟩ := Cursor.compose_proceeds horder _
    rw [hcompose]
    exact hc.stays h' hproceeds
  | context =>
    refine recalls_of_look rfl (fun _ => rfl) ?_
    obtain ⟨text, c', hcontext, h', hproceeds⟩ := Cursor.context_proceeds horder
    rw [hcontext]
    exact hc.stays h' hproceeds
  | mark =>
    refine Run.Ends.map ?_
    obtain ⟨undone, h⟩ := hc
    exact ⟨rfl, _, _, rfl, undone, (Cursor.mark_recorded h).of_ok rfl⟩
  | commit =>
    refine Run.Ends.map ((Cursor.commit_recalls ht hc).mono ?_ ?_)
    · rintro b c' ⟨m, outer, hm, h'⟩
      exact ⟨rfl, _, _, Walk.step_commit hm, h'⟩
    · rintro e c' ⟨hm, h'⟩
      refine ⟨h', fun _ o w' hs => ?_⟩
      obtain ⟨m, outer, hm', -⟩ := Walk.commit_inv hs
      cases hm.symm.trans hm'
  | rollback =>
    refine Run.Ends.map ((Cursor.rollback_recalls ht hc).mono ?_ ?_)
    · rintro b c' ⟨m, outer, hm, h'⟩
      exact ⟨rfl, _, _, Walk.step_rollback hm, h'⟩
    · rintro e c' ⟨hm, h'⟩
      refine ⟨h', fun _ o w' hs => ?_⟩
      obtain ⟨m, outer, hm', -⟩ := Walk.rollback_inv hs
      cases hm.symm.trans hm'
  | reset stream =>
    refine ⟨rfl, _, _, rfl, [], ?_⟩
    exact ⟨⟨horder.thrifty.reset stream.source, Nat.zero_le _, trivial⟩, 0,
      Cursor.accounts_of_start rfl rfl⟩

theorem Reaches.recalls (h : Reaches l c w a) : c.Recalls l w := by
  induction h with
  | start stream => exact ⟨[], Cursor.recorded_ofSource stream.source l⟩
  | @step c w w' a s o h hs fits ih =>
    have hends := s.recalls h.retains.tracks ih
    unfold Step.perform at fits ⊢
    cases hr : s.run c with
    | ok out c' =>
      obtain ⟨-, o', w'', hs', h'⟩ := hends.of_ok hr
      rw [hs] at hs'
      cases hs'
      exact h'
    | error e c' =>
      obtain ⟨h', hsame⟩ := hends.of_error hr
      rw [hr] at fits
      rw [hsame fits o w' hs]
      exact h'
  | @refused c w a s h exceeded ih =>
    have hends := s.recalls h.retains.tracks ih
    unfold Step.perform at exceeded ⊢
    cases hr : s.run c with
    | ok out c' =>
      rw [hr] at exceeded
      exact absurd exceeded (by simp [(hends.of_ok hr).1])
    | error e c' => exact (hends.of_error hr).1
  | @misused c w a s h hs ih =>
    have hends := s.recalls h.retains.tracks ih
    unfold Step.perform
    cases hr : s.run c with
    | ok out c' =>
      obtain ⟨-, o, w', hs', -⟩ := hends.of_ok hr
      rw [hs] at hs'
      cases hs'
    | error e c' => exact (hends.of_error hr).1

/-! ### Contexts -/

namespace Cursor

omit [Supply σ α] [Element α κ] [DecidableEq κ] in
/-- The window behind a cursor is the stream in front of the place of the walk. -/
theorem Recalls.buffered?_eq (h : c.Recalls l w) : c.offset ≤ w.position ∧
    ∀ i < c.offset, c.buffer.buffered? i = some (w.element (w.position - c.offset + i)) := by
  obtain ⟨undone, h⟩ := h
  obtain ⟨dropped, haccounts⟩ := h.accounts
  have hposition : w.position = dropped + c.offset := by
    rw [← haccounts.length_consumed]
    exact (w.length_upTo w.position).symm
  refine ⟨by omega, fun i hi => ?_⟩
  have hbehind : c.behind[i]? = c.buffer.buffered? i := by
    rw [behind, List.getElem?_take_of_lt hi, Ring.getElem?_toList]
    rfl
  have hplace : w.position - c.offset = dropped := by omega
  rw [← hbehind, haccounts.behind, List.getElem?_drop, hplace]
  exact w.getElem?_upTo (by omega)

/-- The elements that a context may show ahead are in the window, or fit under the ceiling. -/
def Roomy (l : Limits) (n : Nat) (c : Cursor σ α) : Prop :=
  c.offset + n ≤ c.buffer.capacity ∨ c.offset + n ≤ l.ceiling

omit [Element α κ] [DecidableEq κ] in
/-- An element that there is room for is read where it stands. -/
theorem elementAt_roomy (ht : c.Tracks l w) (horder : c.InOrder l) {k : Nat}
    (hroom : c.Roomy l (k + 1)) :
    ∃ c', onBuffer (Buffer.elementAt (c.offset + k)) c = .ok (w.element (w.position + k)) c' ∧
      c'.Tracks l w ∧ c'.InOrder l ∧ c'.offset = c.offset ∧
      c.buffer.capacity ≤ c'.buffer.capacity := by
  obtain ⟨o, hshows, hfollows⟩ := ht
  obtain ⟨o', hlook, hfollows'⟩ := hfollows.look_ok k
  have hagrees := elementAt_agrees hshows k (hfollows.modest _)
  rw [hlook] at hagrees
  have hvalue := hagrees.ends hfollows hfollows'
  cases hr : onBuffer (Buffer.elementAt (c.offset + k)) c with
  | ok b c' =>
    obtain ⟨rfl, ht'⟩ := hvalue.of_ok hr
    obtain ⟨h', -, hadmits, hoffset⟩ := (elementAt_spec readFully_anywhere horder k).of_ok hr
    refine ⟨c', rfl, ht', h', hoffset, ?_⟩
    rw [hadmits.capacity]
    exact capacity_le_doubledTo c.buffer.ring.capacity_pos _
  | error e c' =>
    rcases (elementAt_ends horder.thrifty k).of_error hr with ⟨-, -, hcapacity, hceiling⟩ | ⟨hbroken, -⟩
    · unfold Roomy at hroom
      omega
    · exact absurd hbroken (Tracks.not_broken ⟨o, hshows, hfollows⟩)

/-- What a context shows from the element `k` ahead on: the elements up to the first that is of the end
marker's kind, or as many as there may be. -/
theorem ahead_roomy (endKind : κ) (n : Nat) {k : Nat} (ht : c.Tracks l w) (horder : c.InOrder l)
    (hroom : c.Roomy l (k + (n + 1))) :
    ∃ m c', m ≤ n ∧
      (∀ i < m, Element.kind (w.element (w.position + (k + i))) ≠ endKind) ∧
      (m < n → Element.kind (w.element (w.position + (k + m))) = endKind) ∧
      ahead endKind (n + 1) k c =
        .ok ((List.range (m + 1)).map fun i => w.element (w.position + (k + i))) c' := by
  induction n generalizing k c with
  | zero =>
    obtain ⟨c', hread, -⟩ := elementAt_roomy ht horder hroom
    refine ⟨0, c', Nat.le_refl 0, nofun, nofun, ?_⟩
    unfold ahead
    rw [hread]
    dsimp only
    split <;> rfl
  | succ n ih =>
    obtain ⟨c₁, hread, ht₁, horder₁, hoffset, hcapacity⟩ :=
      elementAt_roomy (k := k) ht horder (by unfold Roomy at hroom ⊢; omega)
    unfold ahead
    rw [hread]
    dsimp only
    by_cases hend : Element.kind (w.element (w.position + k)) = endKind
    · rw [if_pos hend]
      exact ⟨0, c₁, Nat.zero_le _, nofun, fun _ => hend, rfl⟩
    · -- The reading may have made the ring grow, which takes neither the place nor the room away.
      rw [if_neg hend]
      obtain ⟨m, c', hm, hbefore, hat, hahead⟩ :=
        ih (k := k + 1) ht₁ horder₁ (by unfold Roomy at hroom ⊢; omega)
      refine ⟨m + 1, c', Nat.succ_le_succ hm, ?_, ?_, ?_⟩
      · intro i hi
        cases i with
        | zero => exact hend
        | succ i =>
          have hplace : k + 1 + i = k + (i + 1) := by omega
          exact hplace ▸ hbefore i (Nat.lt_of_succ_lt_succ hi)
      · intro hlt
        have hplace : k + 1 + m = k + (m + 1) := by omega
        exact hplace ▸ hat (Nat.lt_of_succ_lt_succ hlt)
      · have hshift : (List.range (m + 1)).map (fun i => w.element (w.position + (k + 1 + i))) =
            (List.range (m + 1)).map ((fun i => w.element (w.position + (k + i))) ∘ Nat.succ) := by
          refine List.map_congr_left fun i _ => congrArg w.element ?_
          show w.position + (k + 1 + i) = w.position + (k + (i + 1))
          omega
        rw [Run.bind_apply, hahead, hshift]
        dsimp only
        rw [List.range_succ_eq_map (n := m + 1), List.map_cons, List.map_map]
        rfl

/-- **A context** is the stream around the place of the walk, as far back as the window reaches and as
far ahead as it may, up to the end marker's kind. -/
theorem context_roomy (ht : c.Tracks l w) (hc : c.Recalls l w)
    (hroom : c.Roomy l (contextRadius + 1)) :
    ∃ m c', m ≤ contextRadius ∧
      (∀ i < m, Element.kind (w.element (w.position + i)) ≠ Element.kind w.endMarker) ∧
      (m < contextRadius → Element.kind (w.element (w.position + m)) = Element.kind w.endMarker) ∧
      context c = .ok ((Element.separator α).intercalate
        ((List.range (min contextRadius c.retained + m + 1)).map fun i =>
          Element.describe (w.element (w.position - min contextRadius c.retained + i)))) c' := by
  have horder : c.InOrder l := hc.elim fun _ h => h.inOrder
  have hend : Source.endMarker c.buffer.source = w.endMarker := by
    obtain ⟨o, hshows, e, hfollows⟩ := ht
    rw [hshows.source]
    exact hfollows.endMarker
  obtain ⟨m, c', hm, hbefore, hat, hahead⟩ :=
    ahead_roomy (Element.kind w.endMarker) contextRadius (k := 0) ht horder
      (by rwa [Nat.zero_add])
  simp only [Nat.zero_add] at hbefore hat hahead
  refine ⟨m, c', hm, hbefore, hat, ?_⟩
  obtain ⟨hle, hbuffered⟩ := hc.buffered?_eq
  have hradius : min contextRadius c.offset ≤ c.offset := Nat.min_le_right _ _
  have hbehind : (List.range (min contextRadius c.offset)).filterMap
        (fun i => c.buffer.buffered? (c.offset - min contextRadius c.offset + i)) =
      (List.range (min contextRadius c.offset)).map
        fun i => w.element (w.position - min contextRadius c.offset + i) := by
    rw [← List.filterMap_eq_map]
    refine List.filterMap_congr fun i hi => ?_
    have hi : i < min contextRadius c.offset := List.mem_range.1 hi
    rw [hbuffered _ (by omega)]
    exact congrArg (some ∘ w.element) (by omega)
  have hshift : (List.range (m + 1)).map (fun i => w.element (w.position + i)) =
      (List.range (m + 1)).map ((fun i => w.element (w.position - min contextRadius c.offset + i)) ∘
        (min contextRadius c.offset + ·)) := by
    refine List.map_congr_left fun i _ => congrArg w.element ?_
    show w.position + i = w.position - min contextRadius c.offset + (min contextRadius c.offset + i)
    omega
  unfold context retained
  rw [Run.bind_apply, Run.get_apply]
  dsimp only
  rw [Run.bind_apply, hend, hahead, hbehind]
  dsimp only
  rw [Run.pure_apply, hshift, ← List.map_map, ← List.map_append, ← List.range_add, List.map_map]
  rfl

end Cursor

/-! ### What comes after -/

/-- The step asks for a message about the next element, or has ended in one. -/
def Step.Diagnoses : Step σ κ → Outcome α κ → Prop
  | .context, _ | .mismatch _, _ | .unexpectedOperand, _ => True
  | .matchKind _, .refused .. | .matchKind _, .failed _ => True
  | .matchGet _, .refused .. | .matchGet _, .failed _ => True
  | _, _ => False

/-- A message leaves the walk where it is. -/
theorem Reaches.diagnosed (h : Reaches l c w a) {s : Step σ κ} (hs : s.Diagnoses (s.perform c).1) :
    ∃ a', Reaches l (s.perform c).2 w a' := by
  by_cases hfits : (s.perform c).1.isExceeded = false
  · obtain ⟨o, hstep⟩ : ∃ o, w.step s = some (o, w) := by
      cases s with
      | mismatch expected => exact ⟨_, rfl⟩
      | unexpectedOperand => exact ⟨_, rfl⟩
      | context => exact ⟨_, rfl⟩
      | matchKind kind =>
        by_cases hkind : Element.kind (w.element w.position) = kind
        · -- A match that succeeds ends in no message.
          have hseen := Step.seen_of_step h.retains.tracks
            (show w.step (.matchKind kind) = some (.done, w.advance) from if_pos hkind)
          rw [(hseen.resolve_right (by simp [hfits])).1] at hs
          exact hs.elim
        · exact ⟨_, if_neg hkind⟩
      | matchGet kind =>
        by_cases hkind : Element.kind (w.element w.position) = kind
        · have hseen := Step.seen_of_step h.retains.tracks
            (show w.step (.matchGet kind) = some (.element (w.element w.position), w.advance)
              from if_pos hkind)
          rw [(hseen.resolve_right (by simp [hfits])).1] at hs
          exact hs.elim
        · exact ⟨_, if_neg hkind⟩
      | _ => exact hs.elim
    exact ⟨_, h.step hstep hfits⟩
  · exact ⟨a, h.refused (by simpa using hfits)⟩

/-- What is seen of giving back a mark that was never set does not depend on the window. -/
theorem Step.outcome_of_misused (hc : c.Recalls l w) (hc' : c'.Recalls l w) {s : Step σ κ}
    (hs : w.step s = none) : (s.perform c).1 = (s.perform c').1 := by
  obtain ⟨rfl | rfl, hm⟩ := Walk.misused_inv hs
  · rw [perform_error rfl (Cursor.commit_nil (hc.marks_eq_nil hm)),
      perform_error rfl (Cursor.commit_nil (hc'.marks_eq_nil hm))]
  · rw [perform_error rfl (Cursor.rollback_nil (hc.marks_eq_nil hm)),
      perform_error rfl (Cursor.rollback_nil (hc'.marks_eq_nil hm))]

/-- **Cursors at one place** of a stream answer alike, however much each has in its window, as long as
neither runs into the limit of its buffer. -/
theorem Reaches.outcomes_eq {a' : Nat} (h : Reaches l c w a) (h' : Reaches l c' w a')
    (rest : List (Step σ κ)) (hfits : ∀ o ∈ Step.outcomes rest c, o.isExceeded = false)
    (hfits' : ∀ o ∈ Step.outcomes rest c', o.isExceeded = false) :
    Step.outcomes rest c = Step.outcomes rest c' := by
  induction rest generalizing c c' w a a' with
  | nil => rfl
  | cons s rest ih =>
    rw [Step.outcomes] at hfits hfits' ⊢
    have hfirst := hfits _ (List.mem_cons_self ..)
    have hfirst' := hfits' _ (List.mem_cons_self ..)
    have hrest := fun o ho => hfits o (List.mem_cons_of_mem _ ho)
    have hrest' := fun o ho => hfits' o (List.mem_cons_of_mem _ ho)
    -- The walk has one outcome for the step, and neither cursor has another.
    cases hs : w.step s with
    | none =>
      rw [Step.outcome_of_misused h.recalls h'.recalls hs, Step.outcomes,
        ih (h.misused hs) (h'.misused hs) hrest hrest']
    | some p =>
      obtain ⟨o, w'⟩ := p
      have hseen := Step.seen_of_step h.retains.tracks hs
      have hseen' := Step.seen_of_step h'.retains.tracks hs
      rw [(hseen.resolve_right (by simp [hfirst])).1, Step.outcomes,
        (hseen'.resolve_right (by simp [hfirst'])).1,
        ih (h.step hs hfirst) (h'.step hs hfirst') hrest hrest']

/-! ### The result -/

/-- The window begins at a place of the stream from which on the offsets of the cursor and of its marks are
those of the walk. -/
def Cursor.StandsAt (c : Cursor σ α) (w : Walk α) : Prop :=
  ∃ d, w.position = d + c.offset ∧ w.marks = c.marks.map (d + ·)

theorem Reaches.standsAt (h : Reaches l c w a) : c.StandsAt w := by
  obtain ⟨d, hposition, hmarks, -⟩ := h.retains.begins
  exact ⟨d, hposition, hmarks⟩

/-- **Messages look around and leave no trace.** Where what a context may show fits into the buffer, a
context is the stream around the place of the cursor: the elements behind it, as far as they are still in
the window, the one at it, and those ahead, up to the end. And whatever message has been asked for, or a
match has ended in, the cursor and its marks are at the same places, and everything that is then asked is
seen as if that had not been, as long as the limit of the buffer is not run into. -/
theorem Reaches.surroundings (h : Reaches l c w a)
    (hroom : c.retained + (contextRadius + 1) ≤ c.buffer.capacity ∨
      ∃ j, c.retained + (contextRadius + 1) ≤ 2 ^ j ∧ 2 ^ j ≤ l.largest) :
    (∃ m c', m ≤ contextRadius ∧
      (∀ i < m, Element.kind (w.element (w.position + i)) ≠ Element.kind w.endMarker) ∧
      (m < contextRadius → Element.kind (w.element (w.position + m)) = Element.kind w.endMarker) ∧
      Cursor.context c = .ok ((Element.separator α).intercalate
        ((List.range (min contextRadius c.retained + m + 1)).map fun i =>
          Element.describe (w.element (w.position - min contextRadius c.retained + i)))) c') ∧
    ∀ s : Step σ κ, s.Diagnoses (s.perform c).1 →
      (∃ a', Reaches l (s.perform c).2 w a') ∧ c.StandsAt w ∧ (s.perform c).2.StandsAt w ∧
      ∀ rest : List (Step σ κ), (∀ o ∈ Step.outcomes rest c, o.isExceeded = false) →
        (∀ o ∈ Step.outcomes rest (s.perform c).2, o.isExceeded = false) →
        Step.outcomes rest (s.perform c).2 = Step.outcomes rest c := by
  refine ⟨?_, fun s hs => ?_⟩
  · have hroomy : c.Roomy l (contextRadius + 1) := by
      refine hroom.imp id ?_
      rintro ⟨j, hj, hlargest⟩
      exact Nat.le_trans hj (Limits.pow_le_ceiling hlargest)
    exact Cursor.context_roomy h.retains.tracks h.recalls hroomy
  · obtain ⟨a', h'⟩ := h.diagnosed hs
    exact ⟨⟨a', h'⟩, h.standsAt, h'.standsAt,
      fun rest hfits hfits' => h'.outcomes_eq h rest hfits' hfits⟩

/-- The letters up to `f`. -/
def sixLetters : Stream (Items Char) where
  source := Items.ofText "abcdef"
  elements := "abcdef".toList
  delivers := rfl

/-- Room for one letter, and later for eight. -/
def upToEight : Limits := { initial := 1, largest := 8 }

/-- The cursor behind the first letter, which is still in the window and fills it. -/
def atSecondLetter : Cursor (Items Char) Char :=
  ((Step.consume : Step (Items Char) Char).perform (Cursor.ofSource sixLetters.source upToEight)).2

/-- The place of that cursor. -/
def secondLetter : Walk Char := { sixLetters.walk with position := 1 }

theorem reaches_secondLetter : Reaches upToEight atSecondLetter secondLetter 1 := by
  have start : Reaches upToEight _ sixLetters.walk 0 := .start sixLetters
  exact start.step (s := .consume) rfl (by decide +kernel)

theorem room_at_secondLetter :
    atSecondLetter.retained + (contextRadius + 1) ≤ atSecondLetter.buffer.capacity ∨
      ∃ j, atSecondLetter.retained + (contextRadius + 1) ≤ 2 ^ j ∧ 2 ^ j ≤ upToEight.largest :=
  .inr ⟨3, by decide +kernel, by decide +kernel⟩

theorem surroundings_of_secondLetter :
    (∃ c', Cursor.context atSecondLetter = .ok "abcde" c') ∧
    Step.outcomes [.matchKind 'x', .consume, .lookahead 2]
        ((Step.context : Step (Items Char) Char).perform atSecondLetter).2 =
      Step.outcomes [.matchKind 'x', .consume, .lookahead 2] atSecondLetter := by
  obtain ⟨⟨m, c', hm, -, hat, hcontext⟩, hafter⟩ :=
    reaches_secondLetter.surroundings room_at_secondLetter
  obtain rfl : m = 3 := by
    refine Nat.le_antisymm hm (Nat.le_of_not_lt fun hlt => ?_)
    have hnone : ∀ m < 3, Element.kind (secondLetter.element (secondLetter.position + m)) ≠
        Element.kind secondLetter.endMarker := by decide +kernel
    exact hnone m hlt (hat hlt)
  have htext : (Element.separator Char).intercalate
      ((List.range (min contextRadius atSecondLetter.retained + 3 + 1)).map fun i =>
        Element.describe (secondLetter.element
          (secondLetter.position - min contextRadius atSecondLetter.retained + i))) = "abcde" := by
    decide +kernel
  rw [htext] at hcontext
  exact ⟨⟨c', hcontext⟩, (hafter .context trivial).2.2.2 _ (by decide +kernel) (by decide +kernel)⟩

/-- The answer to a step, with the context that an error shows. -/
def Step.answer (s : Step σ κ) (c : Cursor σ α) : Except Failure (Outcome α κ) :=
  match s.run c with
  | .ok o _ => .ok o
  | .error e _ => .error e

/-- The error of a later match may show more behind the cursor, because a context has made the ring grow
and nothing has had to be dropped for the match then. -/
theorem later_context_depends :
    ¬ ∀ (l : Limits) (c : Cursor (Items Char) Char) (w : Walk Char) (a : Nat), Reaches l c w a →
      (c.retained + (contextRadius + 1) ≤ c.buffer.capacity ∨
        ∃ j, c.retained + (contextRadius + 1) ≤ 2 ^ j ∧ 2 ^ j ≤ l.largest) →
      ∀ s later : Step (Items Char) Char, s.Diagnoses (s.perform c).1 →
        (later.perform c).1.isExceeded = false →
        (later.perform (s.perform c).2).1.isExceeded = false →
        later.answer (s.perform c).2 = later.answer c := by
  intro h
  have hsame := h upToEight atSecondLetter secondLetter 1 reaches_secondLetter room_at_secondLetter
    .context (.matchKind 'x') trivial (by decide +kernel) (by decide +kernel)
  have hfirst : (Step.matchKind 'x' : Step (Items Char) Char).answer atSecondLetter =
      .error (.error (.mismatch "'x'" "b" "bcde" none)) := by decide +kernel
  have hlater : (Step.matchKind 'x' : Step (Items Char) Char).answer
      ((Step.context : Step (Items Char) Char).perform atSecondLetter).2 =
      .error (.error (.mismatch "'x'" "b" "abcde" none)) := by decide +kernel
  rw [hfirst, hlater] at hsame
  exact absurd hsame (by decide)

end Dataflow.Reading
