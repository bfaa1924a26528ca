import Dataflow.Proofs.Speculation

/-!
# Dataflow.Proofs.Holding

**What a cursor holds back**: the elements from its oldest mark up to it (`Cursor.heldBack`). An
element that is only looked at leaves them as they are, and one that is consumed under a mark is
added to them.

That is so for every source that keeps an invariant and hands out no more than it is asked for
(`Feeds`): for one that never fails, and for a lexer.

* `Cursor.Sound` — a cursor over such a source;
* `Cursor.Sound.lookahead`, `Cursor.Sound.consume` — what comes of an access, and why one fails;
* `Cursor.Spans` — a cursor with one mark, set where no drop was due. An access fails then only if
  too much is held back (`Cursor.Overruns`).
-/

namespace Dataflow.Reading

variable {σ α : Type} [Source σ α] {l : Limits}

/-- Reading keeps `I` and hands out no more than is asked for, or it fails and `B` holds. -/
def Feeds (I : σ → Prop) (B : Failure → σ → Prop) : Prop :=
  ∀ n, Run.Leads B I (fun elements t => elements.length ≤ n ∧ I t) (Source.readFully n)

/-- A source that never fails keeps on delivering. -/
theorem Supply.feeds {σ α : Type} [Supply σ α] :
    Feeds (fun s : σ => ∃ elements, Supply.Delivers s elements) fun _ _ => False := by
  rintro n s ⟨elements, h⟩
  obtain ⟨t, hread, ht, -⟩ := Supply.readFully_ok h n
  rw [hread]
  exact ⟨by rw [List.length_take]; exact Nat.min_le_left _ _, _, ht⟩

/-! ### Outlooks -/

namespace Outlook

variable {o o' : Outlook σ α}

/-- What is in view from the oldest mark on. -/
def oldest (o : Outlook σ α) : List α := o.marked.getLastD o.ahead

/-- A portion keeps the invariant of the source. -/
theorem portion_ends {I : σ → Prop} {B : Failure → σ → Prop} (hI : Feeds I B) (h : I o.source)
    (n : Nat) : Run.Ends (fun elements t => elements.length ≤ n ∧ I t) B (o.portion n) := by
  unfold portion
  split
  · exact ⟨Nat.zero_le n, h⟩
  · exact hI n o.source h

/-- Looking ahead adds the same elements to all that is in view. -/
theorem look_extends {I : σ → Prop} {B : Failure → σ → Prop} (hI : Feeds I B) (h : I o.source)
    {k : Nat} {a : α} (hlook : o.look k = .ok a o') :
    I o'.source ∧ ∃ more, o'.ahead = o.ahead ++ more ∧ o'.oldest = o.oldest ++ more := by
  unfold look at hlook
  cases hk : o.ahead[k]? with
  | some b =>
    rw [hk] at hlook
    cases hlook
    exact ⟨h, [], (List.append_nil _).symm, (List.append_nil _).symm⟩
  | none =>
    rw [hk] at hlook
    have hends := portion_ends hI h (k + 1 - o.ahead.length)
    cases hr : o.portion (k + 1 - o.ahead.length) with
    | error e source =>
      rw [hr] at hlook
      cases hlook
    | ok elements source =>
      rw [hr] at hlook
      cases hlook
      refine ⟨(hends.of_ok hr).2, _, rfl, ?_⟩
      unfold oldest extend
      rw [List.getLastD_eq_getLast?, List.getLastD_eq_getLast?, List.getLast?_map]
      exact Option.getD_map (· ++ _) _ _

omit [Source σ α] in
/-- Passing an element keeps what is in view from the oldest mark on. -/
theorem oldest_pass (h : o.marked ≠ []) : o.pass.oldest = o.oldest := by
  show o.marked.getLastD _ = o.marked.getLastD _
  rw [List.getLastD_eq_getLast?, List.getLastD_eq_getLast?, List.getLast?_eq_some_getLast h]
  rfl

end Outlook

/-! ### Cursors -/

namespace Cursor

variable {c c' : Cursor σ α} {I : σ → Prop} {B : Failure → σ → Prop}

omit [Source σ α] in
/-- The elements from the oldest mark up to the cursor. -/
def heldBack (c : Cursor σ α) : List α :=
  (c.buffer.ring.toList.take c.offset).drop c.heldBehind

omit [Source σ α] in
/-- The element at the cursor, if it has been read. -/
def next? (c : Cursor σ α) : Option α := c.buffer.buffered? c.offset

omit [Source σ α] in
theorem Shows.next?_eq {o : Outlook σ α} (h : c.Shows l o) : c.next? = o.ahead.head? := by
  rw [← h.ahead, List.head?_drop, Ring.getElem?_toList]
  rfl

omit [Source σ α] in
/-- What is in view from the oldest mark on is what is held back and what is ahead. -/
theorem Shows.oldest_eq {o : Outlook σ α} (h : c.Shows l o) (ht : c.Thrifty l) :
    o.oldest = c.heldBack ++ o.ahead := by
  have hbehind := ht.heldBehind_le
  have hoffset := h.offset_le
  have holdest : o.oldest = c.buffer.ring.toList.drop c.heldBehind := by
    unfold Outlook.oldest heldBehind
    rw [← h.marked, ← h.ahead, List.getLastD_eq_getLast?, List.getLastD_eq_getLast?,
      List.getLast?_map]
    exact Option.getD_map (fun m => c.buffer.ring.toList.drop m) _ _
  rw [holdest, heldBack, ← h.ahead]
  conv => lhs; rw [← List.take_append_drop c.offset c.buffer.ring.toList]
  refine List.drop_append_of_le_length ?_
  rw [List.length_take, Ring.length_toList]
  omega

/-- A cursor over a source that keeps the invariant `I`. -/
structure Sound (I : σ → Prop) (l : Limits) (c : Cursor σ α) : Prop where
  thrifty : c.Thrifty l
  view : ∃ o : Outlook σ α, c.Shows l o ∧ I o.source

/-- Why an access to the element `k` ahead fails: it is refused, or the source fails. To remove more
than there is breaks a rule. -/
def Fails (B : Failure → σ → Prop) (l : Limits) (k : Nat) (c : Cursor σ α) (e : Failure)
    (c' : Cursor σ α) : Prop :=
  Refused l k c e c' ∨ B e c'.source ∨ ∃ v, e = .violation v

theorem sound_ofSource {source : σ} (h : I source) (l : Limits) :
    (ofSource source l : Cursor σ α).Sound I l :=
  ⟨thrifty_ofSource source l, _, shows_ofSource source l, h⟩

namespace Sound

omit [Source σ α] in
theorem source (h : c.Sound I l) : I c.source := by
  obtain ⟨o, hshows, hI⟩ := h.view
  show I c.buffer.source
  rw [hshows.source]
  exact hI

theorem fails (hI : Feeds I B) (h : c.Sound I l) {k : Nat} {e : Failure} (hd : Denied l k c e c') :
    Fails B l k c e c' := by
  rcases hd with hrefused | ⟨⟨-, n, hread⟩, -⟩ | ⟨hviolation, -⟩
  · exact .inl hrefused
  · exact .inr (.inl ((hI n _ h.source).of_error hread))
  · exact .inr (.inr hviolation)

/-- What comes of looking at an element. -/
theorem lookahead (hI : Feeds I B) (h : c.Sound I l) (k : Nat) :
    Run.Ends (fun a c' => c'.Sound I l ∧ Stays l c c' ∧ c'.heldBack = c.heldBack ∧
        (k = 0 → c'.next? = some a))
      (Fails B l k c) (Cursor.lookahead k c) := by
  have hends := lookahead_ends h.thrifty k
  obtain ⟨o, hshows, hsource⟩ := h.view
  have hagrees := lookahead_agrees hshows k fun hread =>
    ((Outlook.portion_ends hI hsource _).of_ok hread).1
  cases hr : (Cursor.lookahead k : Run (Cursor σ α) α) c with
  | error e c' => exact h.fails hI (hends.of_error hr)
  | ok a c' =>
    have hstays := hends.of_ok hr
    rw [hr] at hagrees
    generalize hlook : o.look k = r at hagrees
    cases hagrees with
    | answer hshows' =>
      obtain ⟨hsource', more, hahead, holdest⟩ := Outlook.look_extends hI hsource hlook
      refine ⟨⟨hstays.thrifty, _, hshows', hsource'⟩, hstays, ?_, ?_⟩
      · rw [hshows'.oldest_eq hstays.thrifty, hshows.oldest_eq h.thrifty, hahead,
          ← List.append_assoc] at holdest
        exact List.append_cancel_right (List.append_cancel_right holdest)
      · rintro rfl
        obtain ⟨rest, hrest⟩ := look_zero_ahead hlook
        rw [hshows'.next?_eq, hrest]
        rfl

/-- What comes of consuming an element. -/
theorem consume (hI : Feeds I B) (h : c.Sound I l) :
    Run.Ends (fun a c' => c'.Sound I l ∧ Advances l c c' ∧
        (c.marks ≠ [] → c'.heldBack = c.heldBack ++ [a]) ∧ ∀ b, c.next? = some b → a = b)
      (Fails B l 0 c) (Cursor.consume c) := by
  have hends := consume_ends h.thrifty
  have hlook := h.lookahead hI 0
  cases hr : (Cursor.lookahead 0 : Run (Cursor σ α) α) c with
  | error e c' =>
    rw [consume_of_error hr]
    exact hlook.of_error hr
  | ok a c₁ =>
    obtain ⟨h₁, hstays, hheld, hnext⟩ := hlook.of_ok hr
    obtain ⟨o, hshows, hsource⟩ := h₁.view
    obtain ⟨rest, hrest⟩ : ∃ rest, o.ahead = a :: rest := by
      have hhead := hnext rfl
      rw [hshows.next?_eq] at hhead
      exact List.head?_eq_some_iff.1 hhead
    obtain ⟨c', hconsume, hshows'⟩ := consume_of_ok hr hshows hrest
    have hadvances := hends.of_ok hconsume
    rw [hconsume]
    refine ⟨⟨hadvances.thrifty, _, hshows', hsource⟩, hadvances, fun hm => ?_, fun b hb => ?_⟩
    · have hmarked : o.marked ≠ [] := by
        rw [← hshows.marked, ne_eq, List.map_eq_nil_iff, hstays.marks]
        exact hm
      have holdest := Outlook.oldest_pass hmarked
      rw [hshows'.oldest_eq hadvances.thrifty, hshows.oldest_eq h₁.thrifty, hheld, hrest] at holdest
      have hahead : o.pass.ahead = rest := congrArg List.tail hrest
      rw [hahead, List.append_cons] at holdest
      exact List.append_cancel_right holdest
    · obtain ⟨o₀, hshows₀, -⟩ := h.view
      rw [hshows₀.next?_eq, List.head?_eq_getElem?] at hb
      obtain ⟨c₀, hheld₀, -⟩ := lookahead_held hshows₀ hb
      rw [hr] at hheld₀
      cases hheld₀
      rfl

/-- Without marks an access is refused only if what it asks for does not fit under the ceiling. -/
theorem lookahead_free (hI : Feeds I B) (h : c.Sound I l) (hm : c.marks = []) (k : Nat) :
    Run.Ends (fun a c' => c'.Sound I l ∧ Stays l c c' ∧ (k = 0 → c'.next? = some a))
      (fun e c' => e.Exceeded → B e c'.source ∨ l.ceiling < k + 1) (Cursor.lookahead k c) := by
  refine (h.lookahead hI k).mono (fun a c' ha => ⟨ha.1, ha.2.1, ha.2.2.2⟩) ?_
  rintro e c' (hrefused | hB | ⟨v, rfl⟩) hexceeded
  · exact .inr (hrefused.free hm)
  · exact .inl hB
  · obtain ⟨requested, limit, hv⟩ := hexceeded
    cases hv

theorem consume_free (hI : Feeds I B) (h : c.Sound I l) (hm : c.marks = []) :
    Run.Ends (fun _ c' => c'.Sound I l ∧ Advances l c c')
      (fun e c' => e.Exceeded → B e c'.source ∨ l.ceiling < 1) (Cursor.consume c) := by
  refine (h.consume hI).mono (fun a c' ha => ⟨ha.1, ha.2.1⟩) ?_
  rintro e c' (hrefused | hB | ⟨v, rfl⟩) hexceeded
  · exact .inr (hrefused.free hm)
  · exact .inl hB
  · obtain ⟨requested, limit, hv⟩ := hexceeded
    cases hv

end Sound

/-! ### Under one mark -/

/-- There is one mark, with little behind it, and `held` has been consumed since it was set. -/
structure Spans (I : σ → Prop) (l : Limits) (c : Cursor σ α) (held : List α) : Prop where
  sound : c.Sound I l
  marks : ∃ m, c.marks = [m] ∧ c.offset = m + held.length ∧
    m ≤ 4 * l.effectiveInitial + contextRadius
  heldBack : c.heldBack = held

/-- What is held back does not fit under the ceiling together with what may be behind it and the
element at the cursor. -/
def Overruns (l : Limits) (c : Cursor σ α) : Prop :=
  l.ceiling < 4 * l.effectiveInitial + contextRadius + c.heldBack.length + 1

omit [Source σ α] in
theorem Sound.mark (h : c.Sound I l) (hm : c.marks = []) (hs : c.Settled) :
    ∃ c', Cursor.mark c = .ok () c' ∧ c'.Spans I l [] ∧ c'.next? = c.next? := by
  obtain ⟨o, hshows, hsource⟩ := h.view
  obtain ⟨c', hmark, hshows'⟩ := mark_ok hshows
  rw [mark_eq] at hmark
  cases hmark
  have hoffset := h.thrifty.offset_le
  rw [Settled, h.thrifty.compactAfter] at hs
  refine ⟨_, mark_eq c, ⟨⟨h.thrifty.mark, _, hshows', hsource⟩, ⟨c.offset, ?_, rfl, by omega⟩, ?_⟩, rfl⟩
  · show c.offset :: c.marks = _
    rw [hm]
  · show (c.buffer.ring.toList.take c.offset).drop ((c.offset :: c.marks).getLastD c.offset) = []
    rw [hm]
    exact List.drop_eq_nil_of_le (List.length_take_le _ _)

namespace Spans

variable {held : List α}

omit [Source σ α] in
theorem marks_ne (h : c.Spans I l held) : c.marks ≠ [] := by
  obtain ⟨m, hm, -⟩ := h.marks
  simp [hm]

omit [Source σ α] in
theorem of_stays (h : c.Spans I l held) (h' : c'.Sound I l) (hstays : Stays l c c')
    (hheld : c'.heldBack = c.heldBack) : c'.Spans I l held := by
  obtain ⟨m, hm, hoffset, hle⟩ := h.marks
  exact ⟨h', ⟨m, hstays.marks.trans hm, (hstays.offset_eq h.marks_ne).trans hoffset, hle⟩,
    hheld.trans h.heldBack⟩

omit [Source σ α] in
/-- A refused access leaves the cursor where it was. -/
theorem overruns (h : c.Spans I l held) {e : Failure} (hfails : Fails B l 0 c e c')
    (hexceeded : e.Exceeded) : B e c'.source ∨ c'.heldBack = held ∧ c'.Overruns l := by
  rcases hfails with hrefused | hB | ⟨v, rfl⟩
  · obtain ⟨rfl, hceiling⟩ := hrefused.held h.marks_ne
    obtain ⟨m, -, hoffset, hle⟩ := h.marks
    refine .inr ⟨h.heldBack, ?_⟩
    rw [Overruns, h.heldBack]
    omega
  · exact .inl hB
  · obtain ⟨requested, limit, hv⟩ := hexceeded
    cases hv

theorem peek (hI : Feeds I B) (h : c.Spans I l held) :
    Run.Ends (fun a c' => c'.Spans I l held ∧ c'.next? = some a)
      (fun e c' => e.Exceeded → B e c'.source ∨ c'.heldBack = held ∧ c'.Overruns l)
      (Cursor.lookahead 0 c) :=
  (h.sound.lookahead hI 0).mono
    (fun _ _ ha => ⟨h.of_stays ha.1 ha.2.1 ha.2.2.1, ha.2.2.2 rfl⟩) fun _ _ he => h.overruns he

theorem consume (hI : Feeds I B) (h : c.Spans I l held) :
    Run.Ends (fun a c' => c'.Spans I l (held ++ [a]) ∧ ∀ b, c.next? = some b → a = b)
      (fun e c' => e.Exceeded → B e c'.source ∨ c'.heldBack = held ∧ c'.Overruns l)
      (Cursor.consume c) := by
  refine (h.sound.consume hI).mono ?_ fun _ _ he => h.overruns he
  rintro a c' ⟨hsound, hadvances, hheld, hnext⟩
  obtain ⟨m, hm, hoffset, hle⟩ := h.marks
  refine ⟨⟨hsound, ⟨m, hadvances.marks.trans hm, ?_, hle⟩, ?_⟩, hnext⟩
  · rw [hadvances.offset_eq h.marks_ne, hoffset, List.length_append]
    rfl
  · rw [hheld h.marks_ne, h.heldBack]

omit [Source σ α] in
theorem commit (h : c.Spans I l held) :
    ∃ c', Cursor.commit c = .ok () c' ∧ c'.Sound I l ∧ c'.marks = [] := by
  obtain ⟨m, hm, -⟩ := h.marks
  obtain ⟨o, hshows, hsource⟩ := h.sound.view
  have hne : o.marked ≠ [] := by
    rw [← hshows.marked, hm]
    exact List.cons_ne_nil _ _
  obtain ⟨c', hcommit, hshows'⟩ := commit_ok hshows hne
  rw [commit_eq hm] at hcommit
  cases hcommit
  exact ⟨_, commit_eq hm, ⟨h.sound.thrifty.commit hm, _, hshows', hsource⟩, rfl⟩

omit [Source σ α] in
theorem rollback (h : c.Spans I l held) :
    ∃ c', Cursor.rollback c = .ok () c' ∧ c'.Sound I l ∧ c'.marks = [] := by
  obtain ⟨m, hm, -⟩ := h.marks
  obtain ⟨o, hshows, hsource⟩ := h.sound.view
  have hmarked := hshows.marked
  rw [hm] at hmarked
  obtain ⟨c', hrollback, hshows'⟩ := rollback_ok hshows hmarked.symm
  rw [rollback_eq hm] at hrollback
  cases hrollback
  exact ⟨_, rollback_eq hm, ⟨h.sound.thrifty.rollback hm, _, hshows', hsource⟩, rfl⟩

end Spans

end Cursor

end Dataflow.Reading
