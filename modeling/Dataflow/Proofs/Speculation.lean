import Dataflow.Proofs.Backtracking
import Dataflow.Proofs.Retention

/-!
# Dataflow.Proofs.Speculation

**What speculation costs.** While a mark is outstanding nothing is dropped, neither what has been
consumed since nor what was behind the cursor when the mark was set. An access is refused only if
all of that and what it asks for do not fit under the ceiling.

How much can be behind the oldest mark does not depend on the length of what has been read: it is no
more than the cursor may have behind it without marks, and what earlier speculations have gone on by
since an element was last consumed without marks (`Reaches.span_of_exceeded`).

* `Reaches` — the states of a cursor over sources that never fail, with the place in the stream that
  its user knows, and the place behind the element that was last consumed without marks;
* `Retains` — the invariant: how the offsets in the window and the places in the stream belong
  together.
-/

namespace Dataflow.Reading

variable {σ α κ : Type} [Supply σ α] [Element α κ] [DecidableEq κ] {l : Limits}
  {c c' : Cursor σ α} {w w' : Walk α} {a k : Nat} {s : Step σ κ} {o : Outcome α κ}

omit [Element α κ] [DecidableEq κ] in
/-- The place behind the element that was last consumed without marks, when a step has led on to the
walk `w'`. -/
def Walk.settled (w : Walk α) (a : Nat) (s : Step σ κ) (w' : Walk α) : Nat :=
  match s with
  | .reset _ => 0
  | _ => if w.marks = [] ∧ w.position < w'.position then w'.position else a

/-- The states of a cursor: with the walk that it is on, and the place behind the element that was
last consumed without marks. A step that is refused, or that gives back a mark that was never set,
leads nowhere. -/
inductive Reaches (l : Limits) : Cursor σ α → Walk α → Nat → Prop where
  | start (s : Stream σ) : Reaches l (Cursor.ofSource s.source l) s.walk 0
  | step {c : Cursor σ α} {w w' : Walk α} {a : Nat} {s : Step σ κ} {o : Outcome α κ}
    (h : Reaches l c w a) (hs : w.step s = some (o, w'))
    (fits : (s.perform c).1.isExceeded = false) :
    Reaches l (s.perform c).2 w' (w.settled a s w')
  | refused {c : Cursor σ α} {w : Walk α} {a : Nat} {s : Step σ κ} (h : Reaches l c w a)
    (exceeded : (s.perform c).1.isExceeded = true) : Reaches l (s.perform c).2 w a
  | misused {c : Cursor σ α} {w : Walk α} {a : Nat} {s : Step σ κ} (h : Reaches l c w a)
    (hs : w.step s = none) : Reaches l (s.perform c).2 w a

/-! ### Offsets and places -/

/-- The window begins at the place `d` of the stream, which is not far behind the element that was
last consumed without marks. -/
structure Retains (l : Limits) (c : Cursor σ α) (w : Walk α) (a : Nat) : Prop where
  tracks : c.Tracks l w
  thrifty : c.Thrifty l
  begins : ∃ d, w.position = d + c.offset ∧ w.marks = c.marks.map (d + ·) ∧
    a ≤ d + (4 * l.effectiveInitial + contextRadius)
  settled_le : ∀ p ∈ w.position :: w.marks, a ≤ p

namespace Retains

omit [Element α κ] [DecidableEq κ]

theorem marks_eq_nil (h : Retains l c w a) : w.marks = [] ↔ c.marks = [] := by
  obtain ⟨d, -, hmarks, -⟩ := h.begins
  rw [hmarks, List.map_eq_nil_iff]

theorem ofSource (s : Stream σ) : Retains l (Cursor.ofSource s.source l) s.walk 0 where
  tracks := Cursor.tracks_ofSource s.delivers l
  thrifty := Cursor.thrifty_ofSource s.source l
  begins := ⟨0, rfl, rfl, Nat.zero_le _⟩
  settled_le := fun _ _ => Nat.zero_le _

theorem stays (h : Retains l c w a) (hc : Cursor.Stays l c c') (ht : c'.Tracks l w) :
    Retains l c' w a := by
  refine ⟨ht, hc.thrifty, ?_, h.settled_le⟩
  obtain ⟨d, hposition, hmarks, ha⟩ := h.begins
  have hle := hc.offset_le
  refine ⟨d + (c.offset - c'.offset), by omega, ?_, by omega⟩
  rw [hc.marks, hmarks]
  by_cases hnil : c.marks = []
  · rw [hnil]
    rfl
  · rw [hc.offset_eq hnil, Nat.sub_self, Nat.add_zero]

theorem advances (h : Retains l c w a) (hc : Cursor.Advances l c c')
    (ht : c'.Tracks l w.advance) :
    Retains l c' w.advance (if w.marks = [] then w.position + 1 else a) := by
  obtain ⟨d, hposition, hmarks, ha⟩ := h.begins
  have hle := hc.offset_le
  by_cases hnil : w.marks = []
  · have hnil' := h.marks_eq_nil.1 hnil
    have hsettled := hc.settled hnil'
    have hoffset := hc.thrifty.offset_le
    rw [Cursor.Settled, hc.thrifty.compactAfter] at hsettled
    rw [if_pos hnil]
    refine ⟨ht, hc.thrifty, ⟨w.position + 1 - c'.offset, ?_, ?_, by omega⟩, ?_⟩
    · show w.position + 1 = _
      omega
    · show w.marks = _
      rw [hnil, hc.marks, hnil']
      rfl
    · show ∀ p ∈ (w.position + 1) :: w.marks, _
      simp [hnil]
  · have heq := hc.offset_eq (mt h.marks_eq_nil.2 hnil)
    rw [if_neg hnil]
    refine ⟨ht, hc.thrifty, ⟨d, ?_, ?_, ha⟩, ?_⟩
    · show w.position + 1 = _
      omega
    · rw [hc.marks]
      exact hmarks
    · intro p hp
      rcases List.mem_cons.1 hp with rfl | hp
      · exact Nat.le_succ_of_le (h.settled_le _ List.mem_cons_self)
      · exact h.settled_le p (List.mem_cons_of_mem _ hp)

/-- Consuming is going on without marks, or it is not. -/
theorem settled_advance (h : Retains l c' w.advance (if w.marks = [] then w.position + 1 else a))
    (hs : ∀ stream, s ≠ .reset stream) : Retains l c' w.advance (w.settled a s w.advance) := by
  have heq : w.settled a s w.advance = if w.marks = [] then w.position + 1 else a := by
    unfold Walk.settled
    cases s with
    | reset stream => exact absurd rfl (hs stream)
    | _ => simp [Walk.advance]
  rw [heq]
  exact h

theorem settled_same (h : Retains l c' w a) (hs : ∀ stream, s ≠ .reset stream) :
    Retains l c' w (w.settled a s w) := by
  have heq : w.settled a s w = a := by
    unfold Walk.settled
    cases s with
    | reset stream => exact absurd rfl (hs stream)
    | _ => simp
  rw [heq]
  exact h

end Retains

/-! ### One step -/

section Perform

variable {β : Type} {x : Run (Cursor σ α) β} {f : β → Outcome α κ}

theorem perform_ok {b : β} (hrun : s.run = f <$> x) (hx : x c = .ok b c') :
    s.perform c = (f b, c') := by
  unfold Step.perform
  rw [hrun, map_eq_pure_bind, Run.bind_apply, hx]
  rfl

theorem perform_error {e : Failure} (hrun : s.run = f <$> x) (hx : x c = .error e c') :
    s.perform c = (.ofFailure e, c') := by
  unfold Step.perform
  rw [hrun, map_eq_pure_bind, Run.bind_apply, hx]

omit [Element α κ] [DecidableEq κ] in
theorem not_isExceeded_of_violation {e : Failure} (h : ∃ v, e = .violation v) :
    (Outcome.ofFailure e : Outcome α κ).isExceeded = false := by
  obtain ⟨v, rfl⟩ := h
  rfl

omit [Element α κ] [DecidableEq κ] in
/-- A failure is not seen as an answer. -/
theorem ofFailure_ne (e : Failure) :
    (∀ b, (Outcome.ofFailure e : Outcome α κ) ≠ .element b) ∧
      (∀ b, (Outcome.ofFailure e : Outcome α κ) ≠ .accepted b) ∧
      (Outcome.ofFailure e : Outcome α κ) ≠ .done := by
  unfold Outcome.ofFailure
  split <;> simp

/-- How a step that only looks ends: whatever comes of it, the cursor stays. -/
theorem Retains.perform_stays (h : Retains l c w a) (hrun : s.run = f <$> x)
    (hx : Run.Ends (fun _ c' => Cursor.Stays l c c') (fun _ c' => Cursor.Stays l c c') (x c))
    (ht : (s.perform c).2.Tracks l w) : Retains l (s.perform c).2 w a := by
  cases hr : x c with
  | ok b c' =>
    rw [perform_ok hrun hr] at ht ⊢
    exact h.stays (hx.of_ok hr) ht
  | error e c' =>
    rw [perform_error hrun hr] at ht ⊢
    exact h.stays (hx.of_error hr) ht

/-- A refused step that has not gone on leaves the cursor where it was. -/
theorem Retains.of_refused (h : Retains l c w a) (hrun : s.run = f <$> x)
    (hx : Run.Ends (fun b _ => (f b).isExceeded = false)
      (fun e c' => (Outcome.ofFailure e : Outcome α κ).isExceeded = true →
        c'.Tracks l w ∧ Cursor.Stays l c c') (x c))
    (hexceeded : (s.perform c).1.isExceeded = true) : Retains l (s.perform c).2 w a := by
  cases hr : x c with
  | ok b c' =>
    rw [perform_ok hrun hr] at hexceeded
    rw [hx.of_ok hr] at hexceeded
    cases hexceeded
  | error e c' =>
    rw [perform_error hrun hr] at hexceeded ⊢
    obtain ⟨htracks, hstays⟩ := hx.of_error hr hexceeded
    exact h.stays hstays htracks

end Perform

/-! ### Refusals -/

/-- The cursor that a refused access leaves. Whether it was refused is seen from the failure. -/
def Unmoved (l : Limits) (c : Cursor σ α) (w : Walk α) (e : Failure) (c' : Cursor σ α) : Prop :=
  (Outcome.ofFailure e : Outcome α κ).isExceeded = true → c'.Tracks l w ∧ Cursor.Stays l c c'

omit [Element α κ] [DecidableEq κ] in
theorem Retains.lookahead_unmoved (h : Retains l c w a) (k : Nat) :
    Run.Ends (fun _ _ => True) (Unmoved (κ := κ) l c w) (Cursor.lookahead k c) :=
  ((Cursor.lookahead_tracks h.tracks k).and (Cursor.lookahead_ends h.thrifty k)).mono
    (fun _ _ _ => trivial) fun _ _ he _ => ⟨he.1.2.1, he.2.stays⟩

omit [Element α κ] [DecidableEq κ] in
theorem Retains.consume_unmoved (h : Retains l c w a) :
    Run.Ends (fun _ _ => True) (Unmoved (κ := κ) l c w) (Cursor.consume c) := by
  refine ((Cursor.consume_tracks h.tracks).and (Cursor.consume_ends h.thrifty)).mono
    (fun _ _ _ => trivial) ?_
  rintro e c' ⟨he, hdenied | hviolation⟩ hexceeded
  · exact ⟨he.2.1, hdenied.stays⟩
  · rw [not_isExceeded_of_violation hviolation] at hexceeded
    cases hexceeded

theorem Retains.accept_unmoved (h : Retains l c w a) (kind : κ) :
    Run.Ends (fun _ _ => True) (Unmoved (κ := κ) l c w) (Cursor.accept kind c) := by
  refine ((Cursor.accept_tracks h.tracks kind).and (Cursor.accept_ends h.thrifty kind)).mono
    (fun _ _ _ => trivial) ?_
  rintro e c' ⟨he, hstays | hviolation⟩ hexceeded
  · exact ⟨he.2.1, hstays⟩
  · rw [not_isExceeded_of_violation hviolation] at hexceeded
    cases hexceeded

theorem Retains.expect_unmoved (h : Retains l c w a) (kind : κ) :
    Run.Ends (fun _ _ => True) (Unmoved (κ := κ) l c w) (Cursor.expect kind c) := by
  refine ((Cursor.expect_tracks h.tracks kind).and (Cursor.expect_ends h.thrifty kind)).mono
    (fun _ _ _ => trivial) ?_
  rintro e c' ⟨he | ⟨-, -, text, rfl⟩, hstays | hviolation⟩ hexceeded
  · exact ⟨he.2.1, hstays⟩
  · rw [not_isExceeded_of_violation hviolation] at hexceeded
    cases hexceeded
  · cases hexceeded
  · cases hexceeded

omit [Element α κ] [DecidableEq κ] in
/-- The steps that ask for an element, or else only use what is held. -/
def Step.accesses : Step σ κ → Prop
  | .mismatch _ | .unexpectedOperand | .context | .mark | .commit | .rollback | .reset _ => False
  | _ => True

/-- Only an access is ever refused. -/
theorem Retains.not_exceeded (h : Retains l c w a) (hs : ¬ s.accesses) :
    (s.perform c).1.isExceeded = false := by
  cases s with
  | mismatch expected =>
    obtain ⟨e, c', hx, -⟩ := Cursor.mismatch_tracks h.tracks expected
    rw [perform_ok rfl hx]
    rfl
  | unexpectedOperand =>
    obtain ⟨e, c', hx, -⟩ := Cursor.unexpectedOperand_tracks h.tracks
    rw [perform_ok rfl hx]
    rfl
  | context =>
    obtain ⟨text, c', hx, -⟩ := Cursor.context_tracks h.tracks
    rw [perform_ok rfl hx]
    rfl
  | mark =>
    rw [perform_ok rfl (Cursor.mark_eq c)]
    rfl
  | commit =>
    cases hm : c.marks with
    | nil =>
      rw [perform_error rfl (Cursor.commit_nil hm)]
      rfl
    | cons m outer =>
      rw [perform_ok rfl (Cursor.commit_eq hm)]
      rfl
  | rollback =>
    cases hm : c.marks with
    | nil =>
      rw [perform_error rfl (Cursor.rollback_nil hm)]
      rfl
    | cons m outer =>
      rw [perform_ok rfl (Cursor.rollback_eq hm)]
      rfl
  | reset stream =>
    rw [perform_ok rfl (Run.modify_apply _ _)]
    rfl
  | _ => exact absurd trivial hs

/-- **What a refused step leaves.** The cursor is where it was. -/
theorem Retains.refused (h : Retains l c w a) (hexceeded : (s.perform c).1.isExceeded = true) :
    Retains l (s.perform c).2 w a := by
  have haccess : s.accesses :=
    Classical.not_not.1 fun hno => Bool.false_ne_true ((h.not_exceeded hno).symm.trans hexceeded)
  cases s with
  | consume =>
    exact h.of_refused rfl (h.consume_unmoved.mono (fun _ _ _ => rfl) fun _ _ he => he) hexceeded
  | peek =>
    exact h.of_refused rfl ((h.lookahead_unmoved 0).mono (fun _ _ _ => rfl) fun _ _ he => he) hexceeded
  | lookahead k =>
    exact h.of_refused rfl ((h.lookahead_unmoved k).mono (fun _ _ _ => rfl) fun _ _ he => he) hexceeded
  | kindAt k =>
    refine h.of_refused rfl ?_ hexceeded
    exact (h.lookahead_unmoved k).bind (fun _ _ _ => rfl) fun _ _ he => he
  | accept kind =>
    exact h.of_refused rfl ((h.accept_unmoved kind).mono (fun _ _ _ => rfl) fun _ _ he => he) hexceeded
  | matchKind kind | matchGet kind =>
    exact h.of_refused rfl ((h.expect_unmoved kind).mono (fun _ _ _ => rfl) fun _ _ he => he) hexceeded
  | _ => cases haccess

/-! ### Steps along a walk -/

/-- Giving back a mark that was never set changes nothing. -/
theorem Retains.misused (h : Retains l c w a) (hs : w.step s = none) :
    Retains l (s.perform c).2 w a := by
  obtain ⟨rfl | rfl, hm⟩ := Walk.misused_inv hs
  · rw [perform_error rfl (Cursor.commit_nil (h.marks_eq_nil.1 hm))]
    exact h
  · rw [perform_error rfl (Cursor.rollback_nil (h.marks_eq_nil.1 hm))]
    exact h

/-- A mark is set, and the element at it was not consumed before the last one without marks. -/
theorem Retains.mark (h : Retains l c w a) (ht : Cursor.Tracks l { c with marks := c.offset :: c.marks }
      { w with marks := w.position :: w.marks }) :
    Retains l { c with marks := c.offset :: c.marks } { w with marks := w.position :: w.marks } a := by
  obtain ⟨d, hposition, hmarks, ha⟩ := h.begins
  refine ⟨ht, h.thrifty.mark, ⟨d, hposition, ?_, ha⟩, ?_⟩
  · show w.position :: w.marks = (d + c.offset) :: c.marks.map (d + ·)
    rw [hposition, hmarks]
  · intro p hp
    rcases List.mem_cons.1 hp with rfl | hp
    · exact h.settled_le _ List.mem_cons_self
    · exact h.settled_le p hp

/-- The latest mark is given up. -/
theorem Retains.commit {m : Nat} {outer : List Nat} (h : Retains l c w a) (hm : w.marks = m :: outer)
    (ht : (Step.perform (.commit : Step σ κ) c).2.Tracks l { w with marks := outer }) :
    Retains l (Step.perform (.commit : Step σ κ) c).2 { w with marks := outer } a := by
  obtain ⟨d, hposition, hmarks, ha⟩ := h.begins
  rw [hm] at hmarks
  obtain ⟨m', outer', hm', -, houter⟩ := List.map_eq_cons_iff.1 hmarks.symm
  rw [perform_ok rfl (Cursor.commit_eq hm')] at ht ⊢
  refine ⟨ht, h.thrifty.commit hm', ⟨d, hposition, houter.symm, ha⟩, ?_⟩
  intro p hp
  refine h.settled_le p ?_
  rw [hm]
  rcases List.mem_cons.1 hp with rfl | hp
  · exact List.mem_cons_self
  · exact List.mem_cons_of_mem _ (List.mem_cons_of_mem _ hp)

/-- The cursor is back at the last mark. -/
theorem Retains.rollback {m : Nat} {outer : List Nat} (h : Retains l c w a) (hm : w.marks = m :: outer)
    (ht : (Step.perform (.rollback : Step σ κ) c).2.Tracks l { w with position := m, marks := outer }) :
    Retains l (Step.perform (.rollback : Step σ κ) c).2 { w with position := m, marks := outer } a := by
  obtain ⟨d, hposition, hmarks, ha⟩ := h.begins
  rw [hm] at hmarks
  obtain ⟨m', outer', hm', hfirst, houter⟩ := List.map_eq_cons_iff.1 hmarks.symm
  have hx : (Cursor.rollback : Run (Cursor σ α) Unit) c = _ := Cursor.rollback_eq hm'
  rw [perform_ok rfl hx] at ht ⊢
  refine ⟨ht, h.thrifty.rollback hm', ⟨d, hfirst.symm, houter.symm, ha⟩, ?_⟩
  intro p hp
  refine h.settled_le p ?_
  rw [hm]
  exact List.mem_cons_of_mem _ hp

/-- The next element is consumed if it is of a kind. -/
theorem Retains.step_accept {kind : κ} (h : Retains l c w a) (hs : w.step (.accept kind : Step σ κ) = some (o, w'))
    (hseen : ((.accept kind : Step σ κ).perform c).1 = o)
    (ht : ((.accept kind : Step σ κ).perform c).2.Tracks l w') :
    Retains l ((.accept kind : Step σ κ).perform c).2 w' (w.settled a (.accept kind : Step σ κ) w') := by
  cases hr : (Cursor.accept kind : Run (Cursor σ α) (Option α)) c with
  | error e c' =>
    rw [perform_error rfl hr] at hseen
    simp only [Walk.step] at hs
    split at hs <;> cases hs
    all_goals exact absurd hseen ((ofFailure_ne e).2.1 _)
  | ok b c' =>
    rw [perform_ok rfl hr] at hseen ht ⊢
    subst hseen
    simp only [Walk.step] at hs
    rcases (Cursor.accept_ends h.thrifty kind).of_ok hr with ⟨rfl, hc⟩ | ⟨hsome, hc⟩
    · split at hs <;> cases hs
      exact (h.stays hc ht).settled_same (by simp)
    · split at hs <;> cases hs
      · exact (h.advances hc ht).settled_advance (by simp)
      · exact absurd rfl hsome

/-- The next element has to be of a kind. If it is not, the error is seen. -/
theorem Retains.step_expect {kind : κ} {f : α → Outcome α κ} {answer : Outcome α κ}
    (h : Retains l c w a) (hrun : s.run = f <$> Cursor.expect kind)
    (hanswer : ∀ b, f b ≠ w.refusal kind) (hfailure : ∀ e, Outcome.ofFailure e ≠ answer)
    (hs : (if Element.kind (w.element w.position) = kind then some (answer, w.advance)
      else some (w.refusal kind, w)) = some (o, w'))
    (hseen : (s.perform c).1 = o) (ht : (s.perform c).2.Tracks l w')
    (hreset : ∀ stream, s ≠ .reset stream) :
    Retains l (s.perform c).2 w' (w.settled a s w') := by
  have hends := Cursor.expect_ends h.thrifty kind
  cases hr : (Cursor.expect kind : Run (Cursor σ α) α) c with
  | error e c' =>
    rw [perform_error hrun hr] at hseen ht ⊢
    split at hs <;> cases hs
    · exact absurd hseen (hfailure e)
    · rcases hends.of_error hr with hc | ⟨v, rfl⟩
      · exact (h.stays hc ht).settled_same hreset
      · cases hseen
  | ok b c' =>
    rw [perform_ok hrun hr] at hseen ht ⊢
    split at hs <;> cases hs
    · exact (h.advances (hends.of_ok hr) ht).settled_advance hreset
    · exact absurd hseen (hanswer b)

/-- **One step.** Where a walk leads, the window goes with it. -/
theorem Retains.step (h : Retains l c w a) (hs : w.step s = some (o, w'))
    (hfits : (s.perform c).1.isExceeded = false) :
    Retains l (s.perform c).2 w' (w.settled a s w') := by
  obtain ⟨hseen, ht⟩ := (Step.seen_of_step h.tracks hs).resolve_right (by simp [hfits])
  have hlook : ∀ k, Run.Ends (fun _ c' => Cursor.Stays l c c') (fun _ c' => Cursor.Stays l c c')
      (Cursor.lookahead k c) := fun k =>
    (Cursor.lookahead_ends h.thrifty k).mono (fun _ _ hc => hc) fun _ _ he => he.stays
  cases s with
  | consume =>
    cases hs
    cases hr : (Cursor.consume : Run (Cursor σ α) α) c with
    | error e c' =>
      rw [perform_error rfl hr] at hseen
      exact absurd hseen ((ofFailure_ne e).1 _)
    | ok b c' =>
      rw [perform_ok rfl hr] at ht ⊢
      exact (h.advances ((Cursor.consume_ends h.thrifty).of_ok hr) ht).settled_advance (by simp)
  | peek =>
    cases hs
    exact (h.perform_stays rfl (hlook 0) ht).settled_same (by simp)
  | lookahead k =>
    cases hs
    exact (h.perform_stays rfl (hlook k) ht).settled_same (by simp)
  | kindAt k =>
    cases hs
    have hkind : Run.Ends (fun _ c' => Cursor.Stays l c c') (fun _ c' => Cursor.Stays l c c')
        ((Cursor.kindAt k : Run (Cursor σ α) κ) c) :=
      (hlook k).bind (fun _ _ hc => hc) fun _ _ he => he
    exact (h.perform_stays rfl hkind ht).settled_same (by simp)
  | accept kind => exact h.step_accept hs hseen ht
  | matchKind kind =>
    have hfailure : ∀ e, (Outcome.ofFailure e : Outcome α κ) ≠ .done := fun e =>
      (ofFailure_ne e).2.2
    have hanswer : (Outcome.done : Outcome α κ) ≠ w.refusal kind := by
      intro heq
      cases heq
    exact h.step_expect rfl (fun _ => hanswer) hfailure hs hseen ht (by intro _ heq; cases heq)
  | matchGet kind =>
    have hfailure : ∀ e, (Outcome.ofFailure e : Outcome α κ) ≠ .element (w.element w.position) :=
      fun e => (ofFailure_ne e).1 _
    have hanswer : ∀ b, (Outcome.element b : Outcome α κ) ≠ w.refusal kind := by
      intro b heq
      cases heq
    exact h.step_expect rfl hanswer hfailure hs hseen ht (by intro _ heq; cases heq)
  | mismatch expected =>
    cases hs
    obtain ⟨e, c', hx, hc, -⟩ := Cursor.mismatch_stays h.thrifty expected
    rw [perform_ok rfl hx] at ht ⊢
    exact (h.stays hc ht).settled_same (by simp)
  | unexpectedOperand =>
    cases hs
    obtain ⟨e, c', hx, hc, -⟩ := Cursor.unexpectedOperand_stays h.thrifty
    rw [perform_ok rfl hx] at ht ⊢
    exact (h.stays hc ht).settled_same (by simp)
  | context =>
    cases hs
    obtain ⟨text, c', hx, hc⟩ := Cursor.context_stays h.thrifty
    rw [perform_ok rfl hx] at ht ⊢
    exact (h.stays hc ht).settled_same (by simp)
  | mark =>
    cases hs
    rw [perform_ok rfl (Cursor.mark_eq c)] at ht ⊢
    have hsettled : w.settled a (.mark : Step σ κ) { w with marks := w.position :: w.marks } = a := by
      simp [Walk.settled]
    rw [hsettled]
    exact h.mark ht
  | commit =>
    obtain ⟨m, outer, hm, rfl, rfl⟩ := Walk.commit_inv hs
    have hsettled : w.settled a (.commit : Step σ κ) { w with marks := outer } = a := by
      simp [Walk.settled, hm]
    rw [hsettled]
    exact h.commit hm ht
  | rollback =>
    obtain ⟨m, outer, hm, rfl, rfl⟩ := Walk.rollback_inv hs
    have hsettled : w.settled a (.rollback : Step σ κ) { w with position := m, marks := outer } = a := by
      simp [Walk.settled, hm]
    rw [hsettled]
    exact h.rollback hm ht
  | reset stream =>
    cases hs
    rw [perform_ok rfl (Run.modify_apply _ _)] at ht ⊢
    exact ⟨ht, h.thrifty.reset stream.source, ⟨0, rfl, rfl, Nat.zero_le _⟩,
      fun _ _ => Nat.zero_le _⟩

theorem Reaches.retains (h : Reaches l c w a) : Retains l c w a := by
  induction h with
  | start stream => exact Retains.ofSource stream
  | step _ hs fits ih => exact ih.step hs fits
  | refused _ exceeded ih => exact ih.refused exceeded
  | misused _ hs ih => exact ih.misused hs

/-! ### What is held under a mark -/

/-- How many elements are held behind the oldest mark. -/
def Cursor.heldBehind (c : Cursor σ α) : Nat := c.marks.getLastD c.offset

/-- The oldest place to go back to. -/
def Walk.oldest (w : Walk α) : Nat := w.marks.getLastD w.position

omit [Element α κ] [DecidableEq κ] in
/-- How far ahead a step looks. -/
def Step.reach : Step σ κ → Option Nat
  | .consume | .peek => some 0
  | .lookahead k | .kindAt k => some k
  | _ => none

omit [Supply σ α] [Element α κ] [DecidableEq κ] in
theorem Cursor.Thrifty.heldBehind_le (h : c.Thrifty l) : c.heldBehind ≤ c.offset := by
  rcases List.mem_cons.1 (List.getLastD_mem_cons (l := c.marks) (a := c.offset)) with heq | hmem
  · exact Nat.le_of_eq heq
  · exact (List.pairwise_cons.1 h.marks_le).1 _ hmem

omit [Element α κ] [DecidableEq κ] in
/-- The elements held behind the oldest mark were few when it was set, or have been gone through
under earlier marks. -/
theorem Retains.heldBehind_le (h : Retains l c w a) : w.position + c.heldBehind = c.offset + w.oldest ∧
    c.heldBehind + a ≤ 4 * l.effectiveInitial + contextRadius + w.oldest := by
  obtain ⟨d, hposition, hmarks, ha⟩ := h.begins
  have holdest : w.oldest = d + c.heldBehind := by
    unfold Walk.oldest Cursor.heldBehind
    rw [hposition, hmarks, List.getLastD_eq_getLast?, List.getLastD_eq_getLast?, List.getLast?_map,
      Option.getD_map (d + ·)]
  omega

omit [Element α κ] [DecidableEq κ] in
/-- A source that never fails is not at fault when an element is refused. -/
theorem Cursor.Tracks.not_broken (h : c.Tracks l w) {e : Failure} {source : σ} :
    ¬ c.buffer.Broken e source := by
  rintro ⟨hopen, n, hread⟩
  obtain ⟨o, hshows, end_, hfollows⟩ := h
  rcases hfollows.delivers with ⟨hended, -⟩ | ⟨-, -, hdelivers⟩
  · rw [hshows.ended, hended] at hopen
    cases hopen
  · obtain ⟨t, hok, -⟩ := Supply.readFully_ok hdelivers n
    rw [hshows.source, hok] at hread
    cases hread

/-- An access that is refused under a mark asks for more than fits under the ceiling. -/
theorem Retains.ceiling_lt {β : Type} {x : Run (Cursor σ α) β} {f : β → Outcome α κ}
    (h : Retains l c w a) (hmarks : w.marks ≠ []) (hrun : s.run = f <$> x)
    (hf : ∀ b, (f b).isExceeded = false)
    (hx : Run.Ends (fun _ _ => True)
      (fun e c' => Cursor.Denied l k c e c' ∨ ∃ v, e = .violation v) (x c))
    (hexceeded : (s.perform c).1.isExceeded = true) : l.ceiling < c.offset + k + 1 := by
  cases hr : x c with
  | ok b c' =>
    rw [perform_ok hrun hr, hf] at hexceeded
    cases hexceeded
  | error e c' =>
    rw [perform_error hrun hr] at hexceeded
    rcases hx.of_error hr with (hrefused | ⟨hbroken, -⟩ | ⟨hviolation, -⟩) | hviolation
    · exact (hrefused.held (mt h.marks_eq_nil.2 hmarks)).2
    · exact absurd hbroken h.tracks.not_broken
    · rw [not_isExceeded_of_violation hviolation] at hexceeded
      cases hexceeded
    · rw [not_isExceeded_of_violation hviolation] at hexceeded
      cases hexceeded

theorem Retains.ceiling_lt_of_reach (h : Retains l c w a) (hmarks : w.marks ≠ [])
    (hreach : s.reach = some k) (hexceeded : (s.perform c).1.isExceeded = true) :
    l.ceiling < c.offset + k + 1 := by
  have hlook : Run.Ends (fun _ _ => True)
      (fun e c' => Cursor.Denied l k c e c' ∨ ∃ v, e = .violation v) (Cursor.lookahead k c) :=
    (Cursor.lookahead_ends h.thrifty k).mono (fun _ _ _ => trivial) fun _ _ he => .inl he
  cases s with
  | consume =>
    cases hreach
    exact h.ceiling_lt hmarks rfl (fun _ => rfl)
      ((Cursor.consume_ends h.thrifty).mono (fun _ _ _ => trivial) fun _ _ he => he) hexceeded
  | peek =>
    cases hreach
    exact h.ceiling_lt hmarks rfl (fun _ => rfl) hlook hexceeded
  | lookahead k =>
    cases hreach
    exact h.ceiling_lt hmarks rfl (fun _ => rfl) hlook hexceeded
  | kindAt k =>
    cases hreach
    have hkind : Run.Ends (fun _ _ => True)
        (fun e c' => Cursor.Denied l k c e c' ∨ ∃ v, e = .violation v)
        ((Cursor.kindAt k : Run (Cursor σ α) κ) c) :=
      hlook.bind (fun _ _ _ => trivial) fun _ _ he => he
    exact h.ceiling_lt hmarks rfl (fun _ => rfl) hkind hexceeded
  | _ => cases hreach

/-- **What an access under a mark costs.** It is refused only if the elements from the oldest mark up
to the one accessed do not fit under the ceiling together with those held behind that mark. These
are no more than a cursor may have behind it without marks, and what has been gone through under
earlier marks since an element was last consumed without any. -/
theorem Reaches.span_of_exceeded (h : Reaches l c w a) (hmarks : w.marks ≠ [])
    (hreach : s.reach = some k) (hexceeded : (s.perform c).1.isExceeded = true) :
    l.ceiling < c.heldBehind + (w.position + k + 1 - w.oldest) ∧
      c.heldBehind ≤ 4 * l.effectiveInitial + contextRadius + (w.oldest - a) := by
  have hretains := h.retains
  have hceiling := hretains.ceiling_lt_of_reach hmarks hreach hexceeded
  have hbehind := hretains.thrifty.heldBehind_le
  have hsettled := hretains.settled_le w.oldest List.getLastD_mem_cons
  obtain ⟨hheld, hle⟩ := hretains.heldBehind_le
  omega

/-- The letters up to `l`. -/
def twelveLetters : Stream (Items Char) where
  source := Items.ofText "abcdefghijkl"
  elements := "abcdefghijkl".toList
  delivers := rfl

/-- Room for eight letters. -/
def eightLetters : Limits := { initial := 8, largest := 8 }

/-- The cursor behind four letters, where a mark is then set. -/
def atFifthLetter : Cursor (Items Char) Char :=
  Step.after [.consume, .consume, .consume, .consume, (.mark : Step (Items Char) Char)]
    (Cursor.ofSource twelveLetters.source eightLetters)

/-- The place of that cursor. -/
def fifthLetter : Walk Char := { twelveLetters.walk with position := 4, marks := [4] }

theorem reaches_fifthLetter : Reaches eightLetters atFifthLetter fifthLetter 4 := by
  have start : Reaches eightLetters _ twelveLetters.walk 0 := .start twelveLetters
  have first : Reaches eightLetters _ { twelveLetters.walk with position := 1 } 1 :=
    start.step (s := .consume) rfl (by decide +kernel)
  have second : Reaches eightLetters _ { twelveLetters.walk with position := 2 } 2 :=
    first.step (s := .consume) rfl (by decide +kernel)
  have third : Reaches eightLetters _ { twelveLetters.walk with position := 3 } 3 :=
    second.step (s := .consume) rfl (by decide +kernel)
  have fourth : Reaches eightLetters _ { twelveLetters.walk with position := 4 } 4 :=
    third.step (s := .consume) rfl (by decide +kernel)
  exact fourth.step (s := .mark) rfl (by decide +kernel)

/-- There is no room for the letter four ahead. -/
theorem exceeded_at_fifthLetter :
    ((Step.lookahead 4 : Step (Items Char) Char).perform atFifthLetter).1.isExceeded = true := by
  decide +kernel

theorem ceiling_eightLetters : eightLetters.ceiling = 8 := by decide +kernel

/-- What is behind the mark counts too: the five letters from the mark on would have room. -/
theorem exceeded_within_span :
    ¬ ∀ (l : Limits) (c : Cursor (Items Char) Char) (w : Walk Char) (a k : Nat)
      (s : Step (Items Char) Char), 1 ≤ l.largest → Reaches l c w a → w.marks ≠ [] →
        s.reach = some k → (s.perform c).1.isExceeded = true →
        l.ceiling < w.position + k + 1 - w.oldest := by
  intro hspan
  have hlt := hspan eightLetters atFifthLetter fifthLetter 4 4 (.lookahead 4) (by decide)
    reaches_fifthLetter (by decide) rfl exceeded_at_fifthLetter
  rw [ceiling_eightLetters] at hlt
  exact absurd hlt (by decide)

theorem span_of_exceeded_at_fifthLetter :
    ((Step.lookahead 4 : Step (Items Char) Char).perform atFifthLetter).1.isExceeded = true ∧
      eightLetters.ceiling <
        atFifthLetter.heldBehind + (fifthLetter.position + 4 + 1 - fifthLetter.oldest) := by
  have hspan := Reaches.span_of_exceeded (s := .lookahead 4) (k := 4) reaches_fifthLetter
    (by decide) rfl exceeded_at_fifthLetter
  exact ⟨exceeded_at_fifthLetter, hspan.1⟩

end Dataflow.Reading
