import Dataflow.Proofs.Walk
import Mathlib.Algebra.Group.Nat.Defs

/-!
# Dataflow.Proofs.Retention

**What a cursor keeps behind it, and when that is too much.** Elements behind the cursor are dropped
when none of them is marked: after so many of them have been consumed, or when the ring would have
to grow. So much is known of any source:

* `Limits.ceiling` — the largest capacity that a ring can grow to;
* `Buffer.elementAt_ends` — an element is refused only if the elements up to it do not fit under the
  ceiling, unless the source fails;
* `Cursor.Thrifty` — what always holds of a cursor: it has no more behind it than it has consumed
  since the last drop, and a few elements that a message may show;
* `Cursor.Settled` — it has not consumed so many that the next drop is due. That holds behind every
  element that has been consumed with no marks (`Advances`);
* `Cursor.lookahead_ends`, `Cursor.consume_ends` — without marks only the elements asked for have to
  fit under the ceiling, and with a mark those behind the cursor too.
-/

namespace Dataflow.Reading

/-! ### Powers of two -/

theorem doubledUpTo_eq_pow (times k needed : Nat) :
    ∃ j, k ≤ j ∧ doubledUpTo times (2 ^ k) needed = 2 ^ j := by
  induction times generalizing k with
  | zero => exact ⟨k, Nat.le_refl k, rfl⟩
  | succ times ih =>
    unfold doubledUpTo
    split
    · exact ⟨k, Nat.le_refl k, rfl⟩
    · obtain ⟨j, hj, hpow⟩ := ih (k + 1)
      rw [Nat.pow_succ'] at hpow
      exact ⟨j, by omega, hpow⟩

/-- Doubling never goes past a power of two that is large enough. -/
theorem doubledUpTo_le_pow {times k j needed : Nat} (hk : 2 ^ k ≤ 2 ^ j) (hneeded : needed ≤ 2 ^ j) :
    doubledUpTo times (2 ^ k) needed ≤ 2 ^ j := by
  induction times generalizing k with
  | zero => exact hk
  | succ times ih =>
    unfold doubledUpTo
    split
    · exact hk
    · next hlt =>
      have hkj : k + 1 ≤ j := (Nat.pow_lt_pow_iff_right Nat.one_lt_two).1 (by omega)
      rw [← Nat.pow_succ']
      exact ih (Nat.pow_le_pow_right (by decide) hkj)

namespace Limits

/-- The largest power of two that is not above the largest capacity. -/
def ceiling (l : Limits) : Nat := 2 ^ l.largest.log2

variable {l : Limits}

theorem ceiling_le (h : l.largest ≠ 0) : l.ceiling ≤ l.largest := Nat.log2_self_le h

theorem exists_effectiveInitial (l : Limits) : ∃ j, l.effectiveInitial = 2 ^ j := by
  obtain ⟨j, -, hj⟩ := doubledUpTo_eq_pow l.initial 0 l.initial
  exact ⟨j, hj⟩

/-- A power of two that is within the limit is not above the ceiling. -/
theorem pow_le_ceiling {j : Nat} (h : 2 ^ j ≤ l.largest) : 2 ^ j ≤ l.ceiling :=
  Nat.pow_le_pow_right (by decide) ((Nat.le_log2 (by
    have := Nat.two_pow_pos j
    omega)).2 h)

end Limits

/-! ### Buffers -/

namespace Buffer

variable {σ α : Type} [Source σ α] {l : Limits} {b : Buffer σ α}

omit [Source σ α] in
theorem Grown.exists_capacity (h : Grown l b) : ∃ j, b.capacity = 2 ^ j := by
  obtain ⟨n, hn⟩ := h.capacity
  obtain ⟨k, hk⟩ := l.exists_effectiveInitial
  obtain ⟨j, -, hj⟩ := doubledUpTo_eq_pow n k n
  exact ⟨j, by rw [hn, hk, doubledTo, hj]⟩

/-- Room is refused only for more elements than fit under the ceiling. -/
theorem grow_refused (h : Grown l b) {needed : Nat} {e : Failure} {b' : Buffer σ α}
    (hgrow : grow needed b = .error e b') : b.capacity < needed ∧ l.ceiling < needed := by
  obtain ⟨k, hk⟩ := h.exists_capacity
  cases growth hgrow with
  | refused hsmall hpast =>
    refine ⟨hsmall, Nat.lt_of_not_le fun hle => ?_⟩
    rw [h.limit, hk] at hpast
    rw [hk] at hsmall
    have hdoubled : doubledTo (2 ^ k) needed ≤ l.ceiling :=
      doubledUpTo_le_pow (Nat.le_trans (Nat.le_of_lt hsmall) hle) hle
    by_cases hzero : l.largest = 0
    · -- A ring has room for one element, whatever the limit is.
      have hone : l.ceiling = 1 := by rw [Limits.ceiling, hzero]; rfl
      have := Nat.two_pow_pos k
      omega
    · have := Limits.ceiling_le hzero
      omega

/-- The source fails when so many elements are asked for. -/
def Broken (b : Buffer σ α) (e : Failure) (source : σ) : Prop :=
  b.exhausted = false ∧ ∃ n, Source.readFully n b.source = .error e source

theorem pull_ends (h : Grown l b) (n : Nat) :
    Run.Ends (fun _ b' => Grown l b') (fun e b' => b.Broken e b'.source ∧ Grown l b')
      (pull n b) := by
  obtain ⟨m, hm⟩ := h.capacity
  generalize hr : pull n b = r
  cases pulled hr with
  | read => exact ⟨h.limit, m, (Ring.capacity_pushAll _ _).trans hm⟩
  | failed hopen hread => exact ⟨⟨hopen, n, hread⟩, h.limit, h.capacity⟩

/-- An element is there, or does not fit under the ceiling, or the source fails. -/
theorem elementAt_ends (h : Grown l b) (i : Nat) :
    Run.Ends (fun _ b' => Grown l b')
      (fun e b' => (∃ requested limit, e = .error (.capacityExceeded requested limit)) ∧ b' = b ∧
          b.capacity < i + 1 ∧ l.ceiling < i + 1 ∨
        b.Broken e b'.source ∧ Grown l b')
      (elementAt i b) := by
  unfold elementAt
  rw [Run.bind_apply, Run.get_apply]
  dsimp only
  by_cases hi : b.size ≤ i
  · rw [if_pos hi, Run.bind_apply]
    have hgrow := grow_ends h (i + 1)
    cases hg : grow (i + 1) b with
    | error e b' =>
      obtain ⟨hcapacity, hceiling⟩ := grow_refused h hg
      obtain ⟨hexceeded, hsame, -⟩ := hgrow.of_error hg
      exact .inl ⟨hexceeded, hsame, hcapacity, hceiling⟩
    | ok u b₁ =>
      obtain ⟨hsource, -, hended, hgrown, -⟩ := hgrow.of_ok hg
      refine Run.Ends.bind (pull_ends hgrown _) (fun _ _ hb => hb) ?_
      rintro e b' ⟨⟨hexhausted, n, hread⟩, hb⟩
      rw [hended] at hexhausted
      rw [hsource] at hread
      exact .inr ⟨⟨hexhausted, n, hread⟩, hb⟩
  · rw [if_neg hi]
    exact h

end Buffer

/-! ### Cursors -/

namespace Cursor

variable {σ α : Type} [Source σ α] {l : Limits} {c c' : Cursor σ α}

/-- What always holds of a cursor whose buffer began within the limits `l`. -/
structure Thrifty (l : Limits) (c : Cursor σ α) : Prop where
  grown : c.buffer.Grown l
  compactAfter : c.compactAfter = l.effectiveInitial * 4
  /-- What is behind the cursor has been consumed since the last drop, but for a few elements. -/
  offset_le : c.offset ≤ c.consumed + contextRadius
  /-- The marks are behind the cursor, each behind the ones set later. -/
  marks_le : (c.offset :: c.marks).Pairwise fun inner outer => outer ≤ inner

/-- No drop is due yet. -/
def Settled (c : Cursor σ α) : Prop := c.consumed ≤ c.compactAfter

theorem thrifty_ofSource (source : σ) (l : Limits) :
    (ofSource source l : Cursor σ α).Thrifty l where
  grown := Buffer.grown_ofSource source l
  compactAfter := rfl
  offset_le := Nat.zero_le _
  marks_le := by simp [ofSource]

omit [Source σ α] in
theorem Thrifty.reset (h : c.Thrifty l) (source : σ) : (c.reset source).Thrifty l where
  grown := h.grown.reset source
  compactAfter := h.compactAfter
  offset_le := Nat.zero_le _
  marks_le := by simp [Cursor.reset]

theorem settled_ofSource (source : σ) (l : Limits) : (ofSource source l : Cursor σ α).Settled :=
  Nat.zero_le _

/-- The cursor is still at the same element. Without marks, some of what is behind it may be
gone. -/
structure Stays (l : Limits) (c c' : Cursor σ α) : Prop where
  thrifty : c'.Thrifty l
  marks : c'.marks = c.marks
  offset_le : c'.offset ≤ c.offset
  offset_eq : c.marks ≠ [] → c'.offset = c.offset
  settled : c.Settled → c'.Settled

/-- The cursor is behind one more element. Without marks, no drop is due then. -/
structure Advances (l : Limits) (c c' : Cursor σ α) : Prop where
  thrifty : c'.Thrifty l
  marks : c'.marks = c.marks
  offset_le : c'.offset ≤ c.offset + 1
  offset_eq : c.marks ≠ [] → c'.offset = c.offset + 1
  settled : c.marks = [] → c'.Settled

section Frames

omit [Source σ α]

theorem Stays.refl (h : c.Thrifty l) : Stays l c c :=
  ⟨h, rfl, Nat.le_refl _, fun _ => rfl, id⟩

theorem Stays.trans {c'' : Cursor σ α} (h : Stays l c c') (h' : Stays l c' c'') :
    Stays l c c'' where
  thrifty := h'.thrifty
  marks := h'.marks.trans h.marks
  offset_le := Nat.le_trans h'.offset_le h.offset_le
  offset_eq hm := (h'.offset_eq (by rw [h.marks]; exact hm)).trans (h.offset_eq hm)
  settled := h'.settled ∘ h.settled

theorem Stays.advances {c'' : Cursor σ α} (h : Stays l c c') (h' : Advances l c' c'') :
    Advances l c c'' where
  thrifty := h'.thrifty
  marks := h'.marks.trans h.marks
  offset_le := Nat.le_trans h'.offset_le (Nat.succ_le_succ h.offset_le)
  offset_eq hm := by rw [h'.offset_eq (by rw [h.marks]; exact hm), h.offset_eq hm]
  settled hm := h'.settled (h.marks.trans hm)

/-- Another window of the same source. -/
theorem Stays.ofBuffer {b : Buffer σ α} (h : c.Thrifty l) (hb : b.Grown l) :
    Stays l c { c with buffer := b } :=
  ⟨⟨hb, h.compactAfter, h.offset_le, h.marks_le⟩, rfl, Nat.le_refl _, fun _ => rfl, id⟩

/-- The cursor behind a drop that keeps `keep` elements. -/
theorem Stays.ofDrop {b : Buffer σ α} (h : c.Thrifty l) (hb : b.Grown l) (hmarks : c.marks = [])
    {keep : Nat} (hkeep : keep ≤ min contextRadius c.offset) :
    Stays l c { c with buffer := b, offset := keep, consumed := 0 } where
  thrifty := by
    refine ⟨hb, h.compactAfter, ?_, ?_⟩
    · show keep ≤ 0 + contextRadius
      omega
    · show List.Pairwise _ (keep :: c.marks)
      rw [hmarks]
      exact List.pairwise_singleton _ _
  marks := rfl
  offset_le := by
    show keep ≤ c.offset
    omega
  offset_eq hne := absurd hmarks hne
  settled _ := Nat.zero_le _

end Frames

/-- An access to the element `k` ahead is refused: with marks, because what is behind the cursor
and what is asked for do not fit under the ceiling together, and without marks, because what is
asked for does not. -/
structure Refused (l : Limits) (k : Nat) (c : Cursor σ α) (e : Failure) (c' : Cursor σ α) :
    Prop where
  exceeded : ∃ requested limit, e = .error (.capacityExceeded requested limit)
  stays : Stays l c c'
  held : c.marks ≠ [] → c' = c ∧ l.ceiling < c.offset + k + 1
  free : c.marks = [] → l.ceiling < k + 1

/-- How an access to the element `k` ahead can fail. To remove more than there is breaks a rule. -/
def Denied (l : Limits) (k : Nat) (c : Cursor σ α) (e : Failure) (c' : Cursor σ α) : Prop :=
  Refused l k c e c' ∨ c.buffer.Broken e c'.source ∧ Stays l c c' ∨
    (∃ v, e = .violation v) ∧ Stays l c c'

omit [Source σ α] in
theorem dropConsumed_ends (keep : Nat) (c : Cursor σ α) :
    Run.Ends (fun _ c' => ∃ ring, ring.capacity = c.buffer.capacity ∧ c' =
        { c with buffer := { c.buffer with ring }, offset := keep, consumed := 0 })
      (fun e c' => (∃ v, e = .violation v) ∧ c' = c) (dropConsumed keep c) := by
  rw [dropConsumed_apply]
  split
  · exact ⟨⟨_, rfl⟩, rfl⟩
  · exact ⟨_, Ring.capacity_dropFront _ _, rfl⟩

omit [Source σ α] in
/-- Without marks, what is behind the cursor makes room for the element `k` ahead, as far as that
goes. -/
theorem makeRoom_roomy (hmarks : c.marks = []) (k : Nat) :
    Run.Ends (fun _ c' => c'.offset + k + 1 ≤ c'.buffer.capacity ∨ c'.offset = 0) (fun _ _ => True)
      (makeRoom k c) := by
  rw [makeRoom_apply]
  split
  · refine (dropConsumed_ends (c.keepable k) c).mono ?_ fun _ _ _ => trivial
    rintro _ c' ⟨ring, hcapacity, rfl⟩
    -- What is kept fits together with what is asked for, if there is room for that.
    show c.keepable k + k + 1 ≤ ring.capacity ∨ c.keepable k = 0
    rw [hcapacity]
    unfold keepable
    omega
  · next hdrop =>
    show c.offset + k + 1 ≤ c.buffer.capacity ∨ c.offset = 0
    rw [hmarks, keepable] at hdrop
    simp only [List.isEmpty_nil, true_and] at hdrop
    omega

omit [Source σ α] in
/-- Room is made for the element `k` ahead. Without marks, the ring has to grow for it then only if
it has to for the elements asked for. -/
theorem makeRoom_ends (h : c.Thrifty l) (k : Nat) :
    Run.Ends (fun _ c' => Stays l c c' ∧ (c.marks ≠ [] → c' = c) ∧
        (c.marks = [] → c'.buffer.capacity < c'.offset + k + 1 → c'.offset = 0) ∧
        c'.buffer.source = c.buffer.source ∧ c'.buffer.exhausted = c.buffer.exhausted)
      (fun e c' => (∃ v, e = .violation v) ∧ c' = c) (makeRoom k c) := by
  have hroomy (hnil : c.marks = []) : Run.Ends (fun _ c' => c'.buffer.capacity < c'.offset + k + 1 → c'.offset = 0)
      (fun _ _ => True) (makeRoom k c) :=
    (makeRoom_roomy hnil k).mono (fun _ _ hfits hlt => by omega) fun _ _ _ => trivial
  rw [makeRoom_apply] at hroomy ⊢
  split at hroomy
  · next hdrop =>
    have hnil : c.marks = [] := List.isEmpty_iff.1 hdrop.1
    rw [if_pos hdrop]
    refine ((dropConsumed_ends (c.keepable k) c).and (hroomy hnil)).mono ?_ fun _ _ he => he.1
    rintro _ c' ⟨⟨ring, hcapacity, rfl⟩, hfits⟩
    obtain ⟨n, hn⟩ := h.grown.capacity
    exact ⟨Stays.ofDrop (b := { c.buffer with ring }) h ⟨h.grown.limit, n, hcapacity.trans hn⟩ hnil
      (Nat.min_le_left _ _), fun hne => absurd hnil hne, fun _ => hfits, rfl, rfl⟩
  · next hdrop =>
    rw [if_neg hdrop]
    exact ⟨Stays.refl h, fun _ => rfl, fun hnil => hroomy hnil, rfl, rfl⟩

theorem elementAt_ends (h : c.Thrifty l) (k : Nat) :
    Run.Ends (fun _ c' => Stays l c c')
      (fun e c' => (∃ requested limit, e = .error (.capacityExceeded requested limit)) ∧ c' = c ∧
          c.buffer.capacity < c.offset + k + 1 ∧ l.ceiling < c.offset + k + 1 ∨
        c.buffer.Broken e c'.source ∧ Stays l c c')
      (onBuffer (Buffer.elementAt (c.offset + k)) c) := by
  have hends := Buffer.elementAt_ends h.grown (c.offset + k)
  cases hx : Buffer.elementAt (c.offset + k) c.buffer with
  | ok a b =>
    rw [onBuffer_ok hx]
    exact Stays.ofBuffer h (hends.of_ok hx)
  | error e b =>
    rw [onBuffer_error hx]
    rcases hends.of_error hx with ⟨hexceeded, rfl, hrest⟩ | ⟨hbroken, hb⟩
    · exact .inl ⟨hexceeded, rfl, hrest⟩
    · exact .inr ⟨hbroken, Stays.ofBuffer h hb⟩

theorem lookahead_ends (h : c.Thrifty l) (k : Nat) :
    Run.Ends (fun _ c' => Stays l c c') (Denied l k c) (lookahead k c) := by
  unfold lookahead
  refine (makeRoom_ends h k).bind ?_ ?_
  · rintro _ c₁ ⟨hstays, hheld, hfree, hsource, hexhausted⟩
    rw [Run.bind_apply, Run.get_apply]
    refine (elementAt_ends hstays.thrifty k).mono (fun _ _ h' => hstays.trans h') ?_
    rintro e c' (⟨hexceeded, rfl, hcapacity, hceiling⟩ | ⟨⟨hopen, n, hread⟩, h'⟩)
    · refine .inl ⟨hexceeded, hstays, fun hne => ?_, fun hnil => ?_⟩
      · obtain rfl := hheld hne
        exact ⟨rfl, hceiling⟩
      · have := hfree hnil hcapacity
        omega
    · rw [hexhausted] at hopen
      rw [hsource] at hread
      exact .inr (.inl ⟨⟨hopen, n, hread⟩, hstays.trans h'⟩)
  · rintro e c' ⟨hviolation, rfl⟩
    exact .inr (.inr ⟨hviolation, Stays.refl h⟩)

omit [Source σ α] in
/-- Behind an element that is consumed, what has to be dropped is dropped. -/
theorem passed_ends (h : c.Thrifty l) (a : α) :
    Run.Ends (fun _ c' => Advances l c c') (fun e _ => ∃ v, e = .violation v)
      ((do
        modify fun c => { c with offset := c.offset + 1, consumed := c.consumed + 1 }
        let c ← get
        if c.marks.isEmpty ∧ c.compactAfter < c.consumed then
          dropConsumed 0
        return a : Run (Cursor σ α) α) c) := by
  have hpassed : Thrifty l { c with offset := c.offset + 1, consumed := c.consumed + 1 } := by
    refine ⟨h.grown, h.compactAfter, ?_, ?_⟩
    · have := h.offset_le
      show c.offset + 1 ≤ c.consumed + 1 + contextRadius
      omega
    · rw [List.pairwise_cons]
      obtain ⟨hle, hmarks⟩ := List.pairwise_cons.1 h.marks_le
      exact ⟨fun m hm => Nat.le_succ_of_le (hle m hm), hmarks⟩
  rw [Run.bind_apply, Run.modify_apply]
  dsimp only
  rw [Run.bind_apply, Run.get_apply]
  dsimp only
  by_cases hdrop : c.marks.isEmpty ∧ c.compactAfter < c.consumed + 1
  · have hnil : c.marks = [] := List.isEmpty_iff.1 hdrop.1
    rw [if_pos hdrop]
    refine (dropConsumed_ends 0 _).bind ?_ fun _ _ he => he.1
    rintro _ c' ⟨ring, hcapacity, rfl⟩
    obtain ⟨n, hn⟩ := h.grown.capacity
    have hstays := Stays.ofDrop (b := { c.buffer with ring }) hpassed
      ⟨h.grown.limit, n, hcapacity.trans hn⟩ hnil (Nat.zero_le _)
    exact ⟨hstays.thrifty, rfl, Nat.zero_le _, fun hne => absurd hnil hne, fun _ => Nat.zero_le _⟩
  · rw [if_neg hdrop]
    refine ⟨hpassed, rfl, Nat.le_refl _, fun _ => rfl, fun hnil => ?_⟩
    exact Nat.le_of_not_lt fun hlt => hdrop ⟨List.isEmpty_iff.2 hnil, hlt⟩

theorem consume_ends (h : c.Thrifty l) :
    Run.Ends (fun _ c' => Advances l c c')
      (fun e c' => Denied l 0 c e c' ∨ ∃ v, e = .violation v) (consume c) := by
  have hlook := lookahead_ends h 0
  cases hr : lookahead 0 c with
  | error e c' =>
    rw [consume_of_error hr]
    exact .inl (hlook.of_error hr)
  | ok a c₁ =>
    have hstays := hlook.of_ok hr
    unfold lookahead at hr
    unfold consume
    simp only [Run.bind_apply, Run.get_apply, Nat.add_zero] at hr
    rw [Run.bind_apply]
    cases hroom : makeRoom 0 c with
    | error f c₂ =>
      rw [hroom] at hr
      cases hr
    | ok u c₂ =>
      rw [hroom] at hr
      dsimp only at hr ⊢
      rw [Run.bind_apply, Run.get_apply]
      dsimp only
      rw [Run.bind_apply, hr]
      exact (passed_ends hstays.thrifty a).mono (fun _ _ h' => hstays.advances h')
        fun _ _ he => .inr he

/-! ### Kinds and messages -/

theorem Denied.stays {k : Nat} {e : Failure} (h : Denied l k c e c') : Stays l c c' := by
  rcases h with h | ⟨-, h⟩ | ⟨-, h⟩
  · exact h.stays
  · exact h
  · exact h

theorem elementAt_stays (h : Stays l c c') (k : Nat) :
    Run.Ends (fun _ c'' => Stays l c c'') (fun _ c'' => Stays l c c'')
      (onBuffer (Buffer.elementAt (c'.offset + k)) c') := by
  refine (elementAt_ends h.thrifty k).mono (fun _ _ h' => h.trans h') ?_
  rintro e c'' (⟨-, rfl, -⟩ | ⟨-, h'⟩)
  · exact h
  · exact h.trans h'

section Kinds

variable {κ : Type} [Element α κ] [DecidableEq κ]

theorem context_stays (h : c.Thrifty l) :
    ∃ text c', (context : Run (Cursor σ α) String) c = .ok text c' ∧ Stays l c c' :=
  context_ok (fun k _ h' => elementAt_stays h' k) (Stays.refl h)

theorem compose_stays (h : c.Thrifty l) (make : String → Option Text.Span → String → Error) :
    ∃ (found : String × Option Text.Span) (context : String) (c' : Cursor σ α),
      compose make c = .ok (make found.1 found.2 context) c' ∧ Stays l c c' :=
  compose_ok (fun k _ h' => elementAt_stays h' k)
    ((lookahead_ends h 0).mono (fun _ _ hstays => hstays) fun _ _ hdenied => hdenied.stays) make

theorem mismatch_stays (h : c.Thrifty l) (expected : String) :
    ∃ e c', (mismatch expected : Run (Cursor σ α) Error) c = .ok e c' ∧ Stays l c c' ∧
      ∀ requested limit, e ≠ .capacityExceeded requested limit := by
  obtain ⟨found, context, c', hcompose, hstays⟩ := compose_stays h
    fun found span context => .mismatch expected found context span
  exact ⟨_, c', hcompose, hstays, nofun⟩

theorem unexpectedOperand_stays (h : c.Thrifty l) :
    ∃ e c', (unexpectedOperand : Run (Cursor σ α) Error) c = .ok e c' ∧ Stays l c c' ∧
      ∀ requested limit, e ≠ .capacityExceeded requested limit := by
  obtain ⟨found, context, c', hcompose, hstays⟩ := compose_stays h
    fun found span context => .unexpectedOperand found context span
  exact ⟨_, c', hcompose, hstays, nofun⟩

/-- What is accepted is consumed, and otherwise the cursor stays. -/
theorem accept_ends (h : c.Thrifty l) (kind : κ) :
    Run.Ends (fun a c' => a = none ∧ Stays l c c' ∨ a ≠ none ∧ Advances l c c')
      (fun e c' => Stays l c c' ∨ ∃ v, e = .violation v) (accept kind c) := by
  unfold accept peek
  refine (lookahead_ends h 0).bind ?_ fun _ _ he => .inl he.stays
  intro a c₁ h₁
  by_cases hkind : Element.kind a = kind
  · rw [if_pos hkind]
    refine (consume_ends h₁.thrifty).bind (fun b c₂ h₂ => .inr ⟨by simp, h₁.advances h₂⟩) ?_
    rintro e c₂ (he | he)
    · exact .inl (h₁.trans he.stays)
    · exact .inr he
  · rw [if_neg hkind]
    exact .inl ⟨rfl, h₁⟩

theorem expect_ends (h : c.Thrifty l) (kind : κ) :
    Run.Ends (fun _ c' => Advances l c c') (fun e c' => Stays l c c' ∨ ∃ v, e = .violation v)
      (expect kind c) := by
  unfold expect
  refine (accept_ends h kind).bind ?_ fun _ _ he => he
  rintro a c₁ (⟨rfl, h₁⟩ | ⟨hsome, h₁⟩)
  · obtain ⟨e, c₂, hmismatch, h₂, -⟩ := mismatch_stays h₁.thrifty (Element.kindName α kind)
    dsimp only
    rw [Run.bind_apply, hmismatch]
    exact .inl (h₁.trans h₂)
  · cases a with
    | none => exact absurd rfl hsome
    | some a => exact h₁

end Kinds

/-! ### Marks -/

omit [Source σ α] in
theorem mark_eq (c : Cursor σ α) : mark c = .ok () { c with marks := c.offset :: c.marks } := rfl

omit [Source σ α] in
theorem Thrifty.mark (h : c.Thrifty l) : Thrifty l { c with marks := c.offset :: c.marks } := by
  refine ⟨h.grown, h.compactAfter, h.offset_le, ?_⟩
  refine List.pairwise_cons.2 ⟨fun m hm => ?_, h.marks_le⟩
  rcases List.mem_cons.1 hm with rfl | hm
  · exact Nat.le_refl _
  · exact (List.pairwise_cons.1 h.marks_le).1 m hm

omit [Source σ α] in
theorem commit_eq {m : Nat} {outer : List Nat} (hm : c.marks = m :: outer) :
    commit c = .ok () { c with marks := outer } := by
  obtain ⟨buffer, marks, offset, consumed, compactAfter⟩ := c
  cases hm
  rfl

omit [Source σ α] in
theorem rollback_eq {m : Nat} {outer : List Nat} (hm : c.marks = m :: outer) :
    rollback c = .ok () { c with offset := m, marks := outer } := by
  obtain ⟨buffer, marks, offset, consumed, compactAfter⟩ := c
  cases hm
  rfl

omit [Source σ α] in
theorem commit_nil (hm : c.marks = []) :
    commit c = .error (.violation .commitWithoutMark) c := by
  obtain ⟨buffer, marks, offset, consumed, compactAfter⟩ := c
  cases hm
  rfl

omit [Source σ α] in
theorem rollback_nil (hm : c.marks = []) :
    rollback c = .error (.violation .rollbackWithoutMark) c := by
  obtain ⟨buffer, marks, offset, consumed, compactAfter⟩ := c
  cases hm
  rfl

omit [Source σ α] in
theorem Thrifty.commit (h : c.Thrifty l) {m : Nat} {outer : List Nat}
    (hm : c.marks = m :: outer) : Thrifty l { c with marks := outer } := by
  refine ⟨h.grown, h.compactAfter, h.offset_le, ?_⟩
  have hmarks := h.marks_le
  rw [hm] at hmarks
  exact hmarks.sublist (List.Sublist.cons_cons _ (List.sublist_cons_self m outer))

omit [Source σ α] in
theorem Thrifty.rollback (h : c.Thrifty l) {m : Nat} {outer : List Nat}
    (hm : c.marks = m :: outer) : Thrifty l { c with offset := m, marks := outer } := by
  have hmarks := h.marks_le
  rw [hm] at hmarks
  obtain ⟨hle, hinner⟩ := List.pairwise_cons.1 hmarks
  exact ⟨h.grown, h.compactAfter, Nat.le_trans (hle m List.mem_cons_self) h.offset_le, hinner⟩

end Cursor

end Dataflow.Reading
