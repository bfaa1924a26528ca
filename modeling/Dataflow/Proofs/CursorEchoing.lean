import Dataflow.Proofs.Echoing
import Dataflow.Reading.Cursor

/-!
# Dataflow.Proofs.CursorEchoing

**Cursors over sources that echo.** Two cursors are alike but for their sources (`Cursor.Over`). If a portion
from the second source is the portion from the first one, as long as the second one is not lost
(`Source.Echoed`), then so is every answer of the second cursor. What the cursors do besides reading is the same
in both, and there is one lemma for each operation.
-/

namespace Dataflow.Reading

open Run

/-- Wherever the second source hands out elements, the first one hands out the same, or the second one is lost.
Related sources end with the same marker, and no less is to come from the first one. -/
structure Source.Echoed {σ τ α : Type} [Source σ α] [Source τ α] (lost : τ → Prop) (L : σ → τ → Prop) :
    Prop where
  read (n : Nat) : Echoes lost L (fun _ => L) (readFully n : Run σ (List α)) (readFully n : Run τ (List α))
  endMarker {s : σ} {t : τ} (h : L s t) : (endMarker s : α) = endMarker t
  remaining {s : σ} {t : τ} (h : L s t) : remaining t ≤ remaining s

variable {σ τ α β : Type} {lost : τ → Prop} {L : σ → τ → Prop}

/-! ### Windows -/

namespace Buffer

/-- The window is on a source that is lost. -/
def Lost (lost : τ → Prop) (b : Buffer τ α) : Prop := lost b.source

/-- Windows with the same elements, on related sources. -/
structure Over (L : σ → τ → Prop) (b : Buffer σ α) (b' : Buffer τ α) : Prop where
  source : L b.source b'.source
  ring : b.ring = b'.ring
  limit : b.limit = b'.limit
  exhausted : b.exhausted = b'.exhausted

theorem onSource_echoes {x : Run σ β} {x' : Run τ β} (hx : Echoes lost L (fun _ => L) x x') :
    Echoes (Lost lost) (Over L) (fun _ => Over L) (onSource x : Run (Buffer σ α) β) (onSource x') where
  run {s t} h b t' ht := by
    cases hr : x' t.source with
    | error e source =>
      rw [onSource_error hr] at ht
      cases ht
    | ok a source =>
      rw [onSource_ok hr] at ht
      cases ht
      obtain ⟨s', hs, hL⟩ | hlost := hx.run h.source hr
      · exact .inl ⟨_, onSource_ok hs, hL, h.ring, h.limit, h.exhausted⟩
      · exact .inr hlost
  keeps {t} hlost b t' ht := by
    cases hr : x' t.source with
    | error e source =>
      rw [onSource_error hr] at ht
      cases ht
    | ok a source =>
      rw [onSource_ok hr] at ht
      cases ht
      exact hx.keeps hlost hr

variable [Source σ α] [Source τ α]

omit [Source σ α] [Source τ α] in
theorem removeFront_echoes (n : Nat) : Echoes (Lost lost) (Over L) (fun _ => Over L)
    (removeFront n : Run (Buffer σ α) Unit) (removeFront n) where
  run {s t} h _ t' hx := by
    have hsize : s.size = t.size := congrArg Ring.size h.ring
    rw [removeFront_apply] at hx ⊢
    rw [hsize]
    split at hx
    · cases hx
    · next hfits =>
      cases hx
      rw [if_neg hfits]
      exact .inl ⟨_, rfl, h.source, congrArg (Ring.dropFront · n) h.ring, h.limit, h.exhausted⟩
  keeps {t} hlost _ t' hx := by
    rw [removeFront_apply] at hx
    split at hx
    · cases hx
    · cases hx
      exact hlost

theorem grow_echoes (hL : Source.Echoed (α := α) lost L) (needed : Nat) :
    Echoes (Lost lost) (Over L) (fun _ => Over L) (grow needed : Run (Buffer σ α) Unit) (grow needed) where
  run {s t} h _ t' hx := by
    have hcapacity : s.capacity = t.capacity := congrArg Ring.capacity h.ring
    rw [grow_apply] at hx ⊢
    rw [hcapacity, h.limit, h.ring, hL.endMarker h.source]
    split at hx
    · next hsmall =>
      rw [if_pos hsmall]
      split at hx
      · cases hx
      · next hfits =>
        cases hx
        rw [if_neg hfits]
        exact .inl ⟨_, rfl, h.source, rfl, rfl, h.exhausted⟩
    · next hlarge =>
      cases hx
      rw [if_neg hlarge]
      exact .inl ⟨_, rfl, h⟩
  keeps {t} hlost _ t' hx := by
    rw [grow_apply] at hx
    split at hx
    · split at hx
      · cases hx
      · cases hx
        exact hlost
    · cases hx
      exact hlost

/-- Puts elements into the window that have been asked for. -/
def fill (n : Nat) (elements : List α) : Run (Buffer σ α) Unit :=
  modify fun b => { b with
    ring := b.ring.pushAll (Source.padded n (Source.endMarker b.source) elements)
    exhausted := b.exhausted || elements.length < n }

theorem fill_echoes (hL : Source.Echoed (α := α) lost L) (n : Nat) (elements : List α) :
    Echoes (Lost lost) (Over L) (fun _ => Over L) (fill n elements : Run (Buffer σ α) Unit)
      (fill n elements) := by
  refine .modify (fun s t h => ⟨h.source, ?_, h.limit, ?_⟩) fun t h => h
  · dsimp only
    rw [h.ring, hL.endMarker h.source]
  · dsimp only
    rw [h.exhausted]

theorem pull_eq_bind (n : Nat) : (pull n : Run (Buffer σ α) Unit) = (MonadState.get >>= fun b =>
    (if b.exhausted = true then pure [] else onSource (Source.readFully n)) >>= fill n) := by
  funext b
  unfold pull
  rw [bind_apply, bind_apply, get_apply]
  dsimp only
  split <;> rfl

theorem pull_echoes (hL : Source.Echoed (α := α) lost L) (n : Nat) :
    Echoes (Lost lost) (Over L) (fun _ => Over L) (pull n : Run (Buffer σ α) Unit) (pull n) := by
  rw [pull_eq_bind, pull_eq_bind]
  refine .view exhausted exhausted (fun _ _ h => h.exhausted)
    (f := fun ended => (if ended = true then pure [] else onSource (Source.readFully n)) >>= fill n)
    (g := fun ended => (if ended = true then pure [] else onSource (Source.readFully n)) >>= fill n) ?_
  exact fun _ => (Echoes.ite (.pure []) (onSource_echoes (hL.read n))).bind (fill_echoes hL n)

theorem elementAt_eq_bind (i : Nat) : (elementAt i : Run (Buffer σ α) α) =
    ((MonadState.get >>= fun b => if b.size ≤ i then grow (i + 1) >>= fun _ => pull (i + 1 - b.size)
      else pure ()) >>= fun _ => MonadState.get >>= fun b => pure (b.ring.nth i)) := by
  funext b
  unfold elementAt
  rw [bind_apply, bind_apply, bind_apply, get_apply]
  dsimp only
  split
  · rw [bind_apply, bind_apply]
    cases (grow (i + 1) : Run (Buffer σ α) Unit) b with
    | error e b₁ => rfl
    | ok u b₁ =>
      dsimp only
      rw [bind_apply]
  · rfl

theorem elementAt_echoes (hL : Source.Echoed (α := α) lost L) (i : Nat) :
    Echoes (Lost lost) (Over L) (fun _ => Over L) (elementAt i : Run (Buffer σ α) α) (elementAt i) := by
  rw [elementAt_eq_bind, elementAt_eq_bind]
  refine Echoes.bind (Q := fun _ => Over L) (.view size size (fun _ _ h => congrArg Ring.size h.ring)
    (f := fun size => if size ≤ i then grow (i + 1) >>= fun _ => pull (i + 1 - size) else pure ())
    (g := fun size => if size ≤ i then grow (i + 1) >>= fun _ => pull (i + 1 - size) else pure ())
    fun size => .ite ((grow_echoes hL _).bind fun _ => pull_echoes hL _) (.pure ())) fun _ => ?_
  exact .view (fun b : Buffer σ α => b.ring.nth i) (fun b : Buffer τ α => b.ring.nth i)
    (fun _ _ h => congrArg (Ring.nth · i) h.ring) fun _ => .pure _

end Buffer

/-! ### Cursors -/

namespace Cursor

/-- The cursor is on a source that is lost. -/
def Lost (lost : τ → Prop) (c : Cursor τ α) : Prop := lost c.buffer.source

/-- Cursors at the same place, in windows with the same elements. -/
structure Over (L : σ → τ → Prop) (c : Cursor σ α) (c' : Cursor τ α) : Prop where
  buffer : c.buffer.Over L c'.buffer
  marks : c.marks = c'.marks
  offset : c.offset = c'.offset
  consumed : c.consumed = c'.consumed
  compactAfter : c.compactAfter = c'.compactAfter

theorem onBuffer_echoes {x : Run (Buffer σ α) β} {x' : Run (Buffer τ α) β}
    (hx : Echoes (Buffer.Lost lost) (Buffer.Over L) (fun _ => Buffer.Over L) x x') :
    Echoes (Lost lost) (Over L) (fun _ => Over L) (onBuffer x) (onBuffer x') where
  run {s t} h b t' ht := by
    cases hr : x' t.buffer with
    | error e buffer =>
      rw [onBuffer_error hr] at ht
      cases ht
    | ok a buffer =>
      rw [onBuffer_ok hr] at ht
      cases ht
      obtain ⟨s', hs, hL⟩ | hlost := hx.run h.buffer hr
      · exact .inl ⟨_, onBuffer_ok hs, hL, h.marks, h.offset, h.consumed, h.compactAfter⟩
      · exact .inr hlost
  keeps {t} hlost b t' ht := by
    cases hr : x' t.buffer with
    | error e buffer =>
      rw [onBuffer_error hr] at ht
      cases ht
    | ok a buffer =>
      rw [onBuffer_ok hr] at ht
      cases ht
      exact hx.keeps hlost hr

theorem dropConsumed_echoes (keep : Nat) : Echoes (Lost lost) (Over L) (fun _ => Over L)
    (dropConsumed keep : Run (Cursor σ α) Unit) (dropConsumed keep) := by
  refine .view Cursor.offset Cursor.offset (fun _ _ h => Over.offset h)
    (f := fun offset => do
      onBuffer (Buffer.removeFront (offset - keep))
      modify fun c => { c with offset := keep, consumed := 0 })
    (g := fun offset => do
      onBuffer (Buffer.removeFront (offset - keep))
      modify fun c => { c with offset := keep, consumed := 0 }) fun offset => ?_
  refine (onBuffer_echoes (Buffer.removeFront_echoes _)).bind fun _ => ?_
  exact .modify (fun s t h => ⟨h.buffer, h.marks, rfl, rfl, h.compactAfter⟩) fun t h => h

variable [Source σ α] [Source τ α]

omit [Source σ α] [Source τ α] in
/-- Whether elements are dropped depends on what is the same in both cursors. -/
theorem makeRoom_echoes (k : Nat) : Echoes (Lost lost) (Over L) (fun _ => Over L)
    (makeRoom k : Run (Cursor σ α) Unit) (makeRoom k) := by
  let keep (p : Marks × Nat × Nat) : Nat := min (min contextRadius p.2.2) (p.2.1 - (k + 1))
  refine .view (fun c : Cursor σ α => (c.marks, c.buffer.capacity, c.offset))
    (fun c : Cursor τ α => (c.marks, c.buffer.capacity, c.offset)) (fun s t h => ?_)
    (f := fun p => if p.1.isEmpty ∧ p.2.1 ≤ p.2.2 + k ∧ keep p < p.2.2 then dropConsumed (keep p) else pure ())
    (g := fun p => if p.1.isEmpty ∧ p.2.1 ≤ p.2.2 + k ∧ keep p < p.2.2 then dropConsumed (keep p) else pure ())
    fun p => .ite (dropConsumed_echoes _) (.pure ())
  have hcapacity : s.buffer.capacity = t.buffer.capacity := congrArg Ring.capacity h.buffer.ring
  rw [h.marks, h.offset, hcapacity]

theorem lookahead_echoes (hL : Source.Echoed (α := α) lost L) (k : Nat) :
    Echoes (Lost lost) (Over L) (fun _ => Over L) (lookahead k : Run (Cursor σ α) α) (lookahead k) := by
  refine (makeRoom_echoes k).bind fun _ => .view Cursor.offset Cursor.offset (fun _ _ h => Over.offset h)
    (f := fun offset => onBuffer (Buffer.elementAt (offset + k)))
    (g := fun offset => onBuffer (Buffer.elementAt (offset + k))) fun offset => ?_
  exact onBuffer_echoes (Buffer.elementAt_echoes hL _)

theorem consume_echoes (hL : Source.Echoed (α := α) lost L) :
    Echoes (Lost lost) (Over L) (fun _ => Over L) (consume : Run (Cursor σ α) α) consume := by
  refine (makeRoom_echoes 0).bind fun _ => ?_
  have hat : Echoes (Lost lost) (Over L) (fun _ => Over L)
      (MonadState.get >>= fun c => onBuffer (Buffer.elementAt c.offset) : Run (Cursor σ α) α)
      (MonadState.get >>= fun c => onBuffer (Buffer.elementAt c.offset)) :=
    .view Cursor.offset Cursor.offset (fun _ _ h => Over.offset h)
      (f := fun offset => onBuffer (Buffer.elementAt offset))
      (g := fun offset => onBuffer (Buffer.elementAt offset))
      fun offset => onBuffer_echoes (Buffer.elementAt_echoes hL offset)
  rw [← bind_assoc, ← bind_assoc]
  refine hat.bind fun a => Echoes.bind (Q := fun _ => Over L) ?_ fun _ => ?_
  · refine .modify (fun s t h => ⟨h.buffer, h.marks, ?_, ?_, h.compactAfter⟩) fun t h => h
    · exact congrArg (· + 1) h.offset
    · exact congrArg (· + 1) h.consumed
  · refine .view (fun c : Cursor σ α => (c.marks, c.compactAfter, c.consumed))
      (fun c : Cursor τ α => (c.marks, c.compactAfter, c.consumed)) (fun s t h => ?_)
      (f := fun p => if p.1.isEmpty ∧ p.2.1 < p.2.2 then dropConsumed 0 >>= fun _ => pure a else pure a)
      (g := fun p => if p.1.isEmpty ∧ p.2.1 < p.2.2 then dropConsumed 0 >>= fun _ => pure a else pure a)
      fun p => .ite ((dropConsumed_echoes 0).bind fun _ => .pure a) (.pure a)
    rw [h.marks, h.compactAfter, h.consumed]

omit [Source σ α] [Source τ α]

theorem onMarks_echoes (x : Run Marks β) : Echoes (Lost lost) (Over L) (fun _ => Over L)
    (onMarks x : Run (Cursor σ α) β) (onMarks x) where
  run {s t} h b t' ht := by
    obtain ⟨buffer, marks, offset, consumed, compactAfter⟩ := s
    obtain ⟨buffer', marks', offset', consumed', compactAfter'⟩ := t
    obtain rfl : marks = marks' := h.marks
    unfold onMarks at ht ⊢
    dsimp only at ht ⊢
    cases hr : x marks with
    | error e marks₁ =>
      rw [hr] at ht
      cases ht
    | ok a marks₁ =>
      rw [hr] at ht
      cases ht
      exact .inl ⟨_, rfl, h.buffer, rfl, h.offset, h.consumed, h.compactAfter⟩
  keeps {t} hlost b t' ht := by
    obtain ⟨buffer, marks, offset, consumed, compactAfter⟩ := t
    unfold onMarks at ht
    dsimp only at ht
    cases hr : x marks with
    | error e marks₁ =>
      rw [hr] at ht
      cases ht
    | ok a marks₁ =>
      rw [hr] at ht
      cases ht
      exact hlost

theorem mark_echoes : Echoes (Lost lost) (Over L) (fun _ => Over L) (mark : Run (Cursor σ α) Unit) mark :=
  .view Cursor.offset Cursor.offset (fun _ _ h => Over.offset h)
    (f := fun offset => onMarks (Marks.mark offset)) (g := fun offset => onMarks (Marks.mark offset))
    fun _ => onMarks_echoes _

theorem commit_echoes : Echoes (Lost lost) (Over L) (fun _ => Over L) (commit : Run (Cursor σ α) Unit)
    commit :=
  onMarks_echoes _

theorem rollback_echoes : Echoes (Lost lost) (Over L) (fun _ => Over L) (rollback : Run (Cursor σ α) Unit)
    rollback :=
  (onMarks_echoes _).bind fun _ =>
    .modify (fun _ _ h => ⟨h.buffer, h.marks, rfl, h.consumed, h.compactAfter⟩) fun _ h => h

theorem Over.mapSource {c : Cursor σ α} {c' : Cursor τ α} (h : Over L c c') {f : σ → σ} {g : τ → τ}
    (hf : L (f c.buffer.source) (g c'.buffer.source)) : Over L (c.mapSource f) (c'.mapSource g) :=
  ⟨⟨hf, h.buffer.ring, h.buffer.limit, h.buffer.exhausted⟩, h.marks, h.offset, h.consumed, h.compactAfter⟩

end Cursor

end Dataflow.Reading
