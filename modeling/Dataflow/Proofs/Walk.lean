import Dataflow.Proofs.Outlook
import Dataflow.Proofs.Supply

/-!
# Dataflow.Proofs.Walk

A cursor over a source that never fails is a place in a stream. `Walk` is that place and nothing
else: the elements of the stream, behind which the end marker stands at every place, a position,
and a stack of positions to go back to. There is no window, no capacity and nothing to drop.

* `Outlook.Follows` — an outlook agrees with a walk: what it has in view is the part of the stream
  between the position and the place up to which the source has been read;
* `Cursor.Tracks` — a cursor shows such an outlook;
* for every operation, what it does to the walk, unless the ring would have to grow past its
  limit. The walk then stays where it is.
-/

namespace Dataflow.Reading

/-- A place in a stream, with places to go back to. -/
structure Walk (α : Type) where
  /-- The elements of the stream. Behind them stands the end marker, at every place. -/
  elements : List α
  endMarker : α
  position : Nat := 0
  /-- The places to go back to, innermost first. -/
  marks : List Nat := []

namespace Walk

variable {α : Type}

/-- The element of the stream at a place. -/
def element (w : Walk α) (i : Nat) : α := w.elements.getD i w.endMarker

/-- The stream up to a place. -/
def upTo (w : Walk α) (e : Nat) : List α := (List.range e).map w.element

@[simp] theorem length_upTo (w : Walk α) (e : Nat) : (w.upTo e).length = e := by
  simp [upTo]

theorem getElem?_upTo (w : Walk α) {e i : Nat} (h : i < e) : (w.upTo e)[i]? = some (w.element i) := by
  simp [upTo, h]

/-- Reading on from `e` is what the padded elements behind `e` show. -/
theorem upTo_add (w : Walk α) (e n : Nat) :
    w.upTo (e + n) =
      w.upTo e ++ Source.padded n w.endMarker ((w.elements.drop e).take n) := by
  have hpadded : Source.padded n w.endMarker ((w.elements.drop e).take n) =
      (List.range n).map fun k => w.element (e + k) := by
    apply List.ext_getElem?
    intro k
    unfold Source.padded
    by_cases hk : k < n
    · rw [List.getElem?_map, List.getElem?_range hk, Option.map_some]
      unfold Walk.element
      rw [List.getD_eq_getElem?_getD]
      by_cases hlen : e + k < w.elements.length
      · rw [List.getElem?_append_left (by simp; omega), List.getElem?_take_of_lt hk,
          List.getElem?_drop, List.getElem?_eq_getElem hlen]
        rfl
      · rw [List.getElem?_append_right (by simp; omega), List.getElem?_replicate,
          if_pos (by simp; omega), List.getElem?_eq_none (by omega)]
        rfl
    · rw [List.getElem?_eq_none (by simp; omega), List.getElem?_eq_none (by simp; omega)]
  unfold upTo
  rw [hpadded, List.range_add, List.map_append, List.map_map]
  rfl

/-- The walk behind the next element. -/
def advance (w : Walk α) : Walk α := { w with position := w.position + 1 }

end Walk

/-! ### Outlooks -/

namespace Outlook

variable {σ α : Type} [Supply σ α] {o : Outlook σ α} {w : Walk α}

/-- The source delivers what the stream holds from `e` on. -/
def DeliversFrom (o : Outlook σ α) (w : Walk α) (e : Nat) : Prop :=
  o.ended = true ∧ w.elements.length ≤ e ∨
    o.ended = false ∧ e ≤ w.elements.length ∧ Supply.Delivers o.source (w.elements.drop e)

/-- What is in view is the stream from the position of the walk, and from each of its marks, up
to one common place, up to which the source has been read. -/
structure FollowsTo (o : Outlook σ α) (w : Walk α) (e : Nat) : Prop where
  endMarker : Source.endMarker o.source = w.endMarker
  ahead : o.ahead = (w.upTo e).drop w.position
  marked : o.marked = w.marks.map fun m => (w.upTo e).drop m
  position_le : w.position ≤ e
  marks_le : ∀ m ∈ w.marks, m ≤ e
  passed : o.passed = w.position
  delivers : o.DeliversFrom w e

/-- What is in view agrees with the walk. -/
def Follows (o : Outlook σ α) (w : Walk α) : Prop := ∃ e, o.FollowsTo w e

namespace FollowsTo

variable {e : Nat}

theorem length_ahead (h : o.FollowsTo w e) : w.position + o.ahead.length = e := by
  rw [h.ahead, List.length_drop, Walk.length_upTo]
  have := h.position_le
  omega

/-- A portion of any size is the next part of the stream. -/
theorem portion_ok (h : o.FollowsTo w e) (n : Nat) :
    ∃ source, o.portion n = .ok ((w.elements.drop e).take n) source ∧
      (o.extend n ((w.elements.drop e).take n) source).FollowsTo w (e + n) := by
  have key : ∃ source, o.portion n = .ok ((w.elements.drop e).take n) source ∧
      Source.endMarker source = w.endMarker ∧
      (o.extend n ((w.elements.drop e).take n) source).DeliversFrom w (e + n) := by
    unfold portion
    rcases h.delivers with ⟨hended, hle⟩ | ⟨hended, hle, hdelivers⟩
    · have hnil : w.elements.drop e = [] := List.drop_eq_nil_of_le hle
      refine ⟨o.source, by rw [hended, hnil, List.take_nil]; rfl, h.endMarker, .inl ⟨?_, by omega⟩⟩
      simp [extend, hended]
    · obtain ⟨t, hread, ht, hmarker⟩ := Supply.readFully_ok hdelivers n
      refine ⟨t, by rw [hended]; exact hread, hmarker.trans h.endMarker, ?_⟩
      have hlength : ((w.elements.drop e).take n).length = min n (w.elements.length - e) := by
        rw [List.length_take, List.length_drop]
      by_cases hshort : w.elements.length < e + n
      · refine .inl ⟨?_, by omega⟩
        simp only [extend, hended, Bool.false_or, hlength, decide_eq_true_eq]
        omega
      · refine .inr ⟨?_, by omega, by rw [← List.drop_drop]; exact ht⟩
        simp only [extend, hended, Bool.false_or, hlength, decide_eq_false_iff_not]
        omega
  obtain ⟨source, hportion, hmarker, hdelivers⟩ := key
  have hdrop : ∀ i ≤ e, (w.upTo (e + n)).drop i = (w.upTo e).drop i ++
      Source.padded n w.endMarker ((w.elements.drop e).take n) := by
    intro i hi
    rw [Walk.upTo_add, List.drop_append_of_le_length (by simpa using hi)]
  refine ⟨source, hportion, hmarker, ?_, ?_, ?_, ?_, h.passed, hdelivers⟩
  · rw [hdrop _ h.position_le, ← h.ahead, ← hmarker]
    rfl
  · show o.marked.map _ = _
    rw [h.marked, List.map_map, hmarker]
    exact List.map_congr_left fun m hm => (hdrop m (h.marks_le m hm)).symm
  · exact Nat.le_trans h.position_le (Nat.le_add_right e n)
  · exact fun m hm => Nat.le_trans (h.marks_le m hm) (Nat.le_add_right e n)

end FollowsTo

namespace Follows

theorem modest (h : o.Follows w) (n : Nat) : o.Modest n := by
  obtain ⟨e, h⟩ := h
  intro elements source hread
  obtain ⟨t, hportion, -⟩ := h.portion_ok n
  rw [hportion] at hread
  cases hread
  rw [List.length_take]
  exact Nat.min_le_left _ _

/-- Looking ahead shows the element of the stream at that place. -/
theorem look_ok (h : o.Follows w) (k : Nat) :
    ∃ o', o.look k = .ok (w.element (w.position + k)) o' ∧ o'.Follows w := by
  obtain ⟨e, h⟩ := h
  have hlength := h.length_ahead
  unfold look
  by_cases hk : k < o.ahead.length
  · have hget : o.ahead[k]? = some (w.element (w.position + k)) := by
      rw [h.ahead, List.getElem?_drop, Walk.getElem?_upTo w (by omega)]
    rw [hget]
    exact ⟨o, rfl, e, h⟩
  · obtain ⟨source, hportion, h'⟩ := h.portion_ok (k + 1 - o.ahead.length)
    have hanswer : (o.extend (k + 1 - o.ahead.length)
        ((w.elements.drop e).take (k + 1 - o.ahead.length)) source).ahead.getD k
          (Source.endMarker source) = w.element (w.position + k) := by
      rw [h'.ahead, List.getD_eq_getElem?_getD, List.getElem?_drop,
        Walk.getElem?_upTo w (by omega)]
      rfl
    rw [List.getElem?_eq_none (by omega), hportion]
    exact ⟨_, congrArg (EStateM.Result.ok · _) hanswer, _, h'⟩

/-- Passing the element that is in view moves the walk by one. -/
theorem pass (h : o.Follows w) (hne : o.ahead ≠ []) : o.pass.Follows w.advance := by
  obtain ⟨e, h⟩ := h
  have hlength := h.length_ahead
  have hpos : 0 < o.ahead.length := List.length_pos_iff.2 hne
  refine ⟨e, h.endMarker, ?_, h.marked, ?_, h.marks_le, congrArg (· + 1) h.passed, h.delivers⟩
  · show o.ahead.tail = (w.upTo e).drop (w.position + 1)
    rw [h.ahead, List.tail_drop]
  · show w.position + 1 ≤ e
    omega

theorem take_ok (h : o.Follows w) :
    ∃ o', o.take = .ok (w.element w.position) o' ∧ o'.Follows w.advance := by
  obtain ⟨o', hlook, h'⟩ := h.look_ok 0
  obtain ⟨rest, hrest⟩ := Cursor.look_zero_ahead hlook
  refine ⟨o'.pass, ?_, h'.pass (by simp [hrest])⟩
  unfold take
  rw [hlook]
  rfl

theorem mark (h : o.Follows w) :
    o.mark.Follows { w with marks := w.position :: w.marks } := by
  obtain ⟨e, h⟩ := h
  refine ⟨e, h.endMarker, h.ahead, ?_, h.position_le, ?_, h.passed, h.delivers⟩
  · show o.ahead :: o.marked = _ :: w.marks.map _
    rw [h.ahead, h.marked]
    rfl
  · intro m hm
    rcases List.mem_cons.1 hm with rfl | hm
    · exact h.position_le
    · exact h.marks_le m hm

theorem commit {m : Nat} {outer : List Nat} (h : o.Follows w) (hm : w.marks = m :: outer) :
    o.commit.Follows { w with marks := outer } := by
  obtain ⟨e, h⟩ := h
  refine ⟨e, h.endMarker, h.ahead, ?_, h.position_le, ?_, h.passed, h.delivers⟩
  · show o.marked.tail = _
    rw [h.marked, hm]
    rfl
  · intro k hk
    exact h.marks_le k (by rw [hm]; exact List.mem_cons_of_mem m hk)

/-- Going back to the innermost mark moves the walk there. -/
theorem rollback {m : Nat} {outer : List Nat} (h : o.Follows w) (hm : w.marks = m :: outer) :
    ∃ ahead marked, o.marked = ahead :: marked ∧
      (o.rollback ahead).Follows { w with position := m, marks := outer } := by
  obtain ⟨e, h⟩ := h
  have hmarked := h.marked
  rw [hm, List.map_cons] at hmarked
  have hle : m ≤ e := h.marks_le m (by rw [hm]; exact List.mem_cons_self)
  refine ⟨_, _, hmarked, e, h.endMarker, rfl, ?_, hle, ?_, ?_, h.delivers⟩
  · show o.marked.tail = _
    rw [hmarked]
    rfl
  · intro k hk
    exact h.marks_le k (by rw [hm]; exact List.mem_cons_of_mem m hk)
  · have hlength := h.length_ahead
    have hpassed := h.passed
    show o.passed + o.ahead.length - ((w.upTo e).drop m).length = m
    rw [List.length_drop, Walk.length_upTo]
    omega

end Follows

/-- The start of a source. -/
theorem follows_start {source : σ} {elements : List α} (h : Supply.Delivers source elements) :
    ({ source } : Outlook σ α).Follows { elements, endMarker := Source.endMarker source } :=
  ⟨0, rfl, rfl, rfl, Nat.le_refl 0, by simp, rfl, .inr ⟨rfl, Nat.zero_le _, h⟩⟩

end Outlook

/-! ### Cursors -/

namespace Cursor

variable {σ α β κ : Type} [Supply σ α] {l : Limits} {c : Cursor σ α} {w : Walk α}

/-- The cursor, whose buffer began within the limits `l`, is where the walk is. -/
def Tracks (l : Limits) (c : Cursor σ α) (w : Walk α) : Prop :=
  ∃ o : Outlook σ α, c.Shows l o ∧ o.Follows w

/-- A computation ran into the limit of a buffer that would have had to hold `needed` elements,
and the cursor is still where it was. -/
def Excused (l : Limits) (needed : Nat) (w : Walk α) (e : Failure) (c : Cursor σ α) : Prop :=
  (∃ requested limit, e = .error (.capacityExceeded requested limit)) ∧ c.Tracks l w ∧
    l.Exceeded needed

theorem tracks_ofSource {source : σ} {elements : List α}
    (h : Supply.Delivers source elements) (l : Limits) :
    (ofSource source l : Cursor σ α).Tracks l
      { elements, endMarker := Source.endMarker source } :=
  ⟨_, shows_ofSource source l, Outlook.follows_start h⟩

theorem Tracks.reset {source : σ} {elements : List α} (hc : c.Tracks l w)
    (h : Supply.Delivers source elements) :
    (c.reset source).Tracks l { elements, endMarker := Source.endMarker source } := by
  obtain ⟨o, hshows, -⟩ := hc
  exact ⟨_, hshows.reset source, Outlook.follows_start h⟩

/-- What a cursor shows of an answer that the outlook always has. -/
theorem Agrees.ends {needed : Nat} {o o' : Outlook σ α} {w' : Walk α} {b : β}
    {r : EStateM.Result Failure (Cursor σ α) β} (h : Agrees l needed o r (.ok b o'))
    (ho : o.Follows w) (ho' : o'.Follows w') :
    Run.Ends (fun a c' => a = b ∧ c'.Tracks l w') (Excused l needed w) r := by
  cases h with
  | answer h' => exact ⟨rfl, o', h', ho'⟩
  | exceeded h' hneeded => exact ⟨⟨_, _, rfl⟩, ⟨o, h', ho⟩, hneeded⟩

theorem lookahead_tracks (h : c.Tracks l w) (k : Nat) :
    Run.Ends (fun a c' => a = w.element (w.position + k) ∧ c'.Tracks l w)
      (Excused l (w.position + k + 1) w) (lookahead k c) := by
  obtain ⟨o, hshows, hfollows⟩ := h
  obtain ⟨o', hlook, hfollows'⟩ := hfollows.look_ok k
  have hagrees := lookahead_agrees hshows k (hfollows.modest _)
  have hpassed : o.passed = w.position := by
    obtain ⟨e, he⟩ := hfollows
    exact he.passed
  rw [hlook, hpassed] at hagrees
  exact hagrees.ends hfollows hfollows'

theorem consume_tracks (h : c.Tracks l w) :
    Run.Ends (fun a c' => a = w.element w.position ∧ c'.Tracks l w.advance)
      (Excused l (w.position + 1) w) (consume c) := by
  obtain ⟨o, hshows, hfollows⟩ := h
  obtain ⟨o', htake, hfollows'⟩ := hfollows.take_ok
  have hagrees := consume_agrees hshows (hfollows.modest _)
  have hpassed : o.passed = w.position := by
    obtain ⟨e, he⟩ := hfollows
    exact he.passed
  rw [htake, hpassed] at hagrees
  exact hagrees.ends hfollows hfollows'

theorem mark_tracks (h : c.Tracks l w) :
    ∃ c', mark c = .ok () c' ∧ c'.Tracks l { w with marks := w.position :: w.marks } := by
  obtain ⟨o, hshows, hfollows⟩ := h
  obtain ⟨c', hmark, hshows'⟩ := mark_ok hshows
  exact ⟨c', hmark, _, hshows', hfollows.mark⟩

theorem commit_tracks {m : Nat} {outer : List Nat} (h : c.Tracks l w)
    (hm : w.marks = m :: outer) :
    ∃ c', commit c = .ok () c' ∧ c'.Tracks l { w with marks := outer } := by
  obtain ⟨o, hshows, hfollows⟩ := h
  obtain ⟨ahead, marked, hmarked, -⟩ := hfollows.rollback hm
  obtain ⟨c', hcommit, hshows'⟩ := commit_ok hshows (by simp [hmarked])
  exact ⟨c', hcommit, _, hshows', hfollows.commit hm⟩

theorem rollback_tracks {m : Nat} {outer : List Nat} (h : c.Tracks l w)
    (hm : w.marks = m :: outer) :
    ∃ c', rollback c = .ok () c' ∧ c'.Tracks l { w with position := m, marks := outer } := by
  obtain ⟨o, hshows, hfollows⟩ := h
  obtain ⟨ahead, marked, hmarked, hfollows'⟩ := hfollows.rollback hm
  obtain ⟨c', hrollback, hshows'⟩ := rollback_ok hshows hmarked
  exact ⟨c', hrollback, _, hshows', hfollows'⟩

/-- Whatever a message looks at, the cursor stays where it is. -/
theorem elementAt_tracks (k : Nat) (c : Cursor σ α) (h : c.Tracks l w) :
    Run.Ends (fun _ c' => c'.Tracks l w) (fun _ c' => c'.Tracks l w)
      (onBuffer (Buffer.elementAt (c.offset + k)) c) := by
  obtain ⟨o, hshows, hfollows⟩ := h
  obtain ⟨o', hlook, hfollows'⟩ := hfollows.look_ok k
  have hagrees := elementAt_agrees hshows k (hfollows.modest _)
  rw [hlook] at hagrees
  exact (hagrees.ends hfollows hfollows').mono (fun _ _ h => h.2) (fun _ _ h => h.2.1)

section Kinds

variable [Element α κ]

variable [DecidableEq κ]

theorem context_tracks (h : c.Tracks l w) :
    ∃ text c', (context : Run (Cursor σ α) String) c = .ok text c' ∧ c'.Tracks l w :=
  context_ok elementAt_tracks h

theorem compose_tracks (h : c.Tracks l w) (make : String → Option Text.Span → String → Error) :
    ∃ e c', (compose make : Run (Cursor σ α) Error) c = .ok e c' ∧ c'.Tracks l w := by
  obtain ⟨found, context, c', hcompose, h'⟩ := compose_ok elementAt_tracks
    ((lookahead_tracks h 0).mono (fun _ _ ha => ha.2) fun _ _ he => he.2.1) make
  exact ⟨_, c', hcompose, h'⟩

theorem mismatch_tracks (h : c.Tracks l w) (expected : String) :
    ∃ e c', (mismatch expected : Run (Cursor σ α) Error) c = .ok e c' ∧ c'.Tracks l w :=
  compose_tracks h fun found span context => .mismatch expected found context span

theorem unexpectedOperand_tracks (h : c.Tracks l w) :
    ∃ e c', (unexpectedOperand : Run (Cursor σ α) Error) c = .ok e c' ∧ c'.Tracks l w :=
  compose_tracks h fun found span context => .unexpectedOperand found context span

/-- The next element is accepted if it is of the kind, and then the cursor stands behind it. If
it is not, it is still in view. -/
theorem accept_tracks (h : c.Tracks l w) (kind : κ) :
    Run.Ends
      (fun a c' =>
        Element.kind (w.element w.position) = kind ∧ a = some (w.element w.position) ∧
            c'.Tracks l w.advance ∨
          Element.kind (w.element w.position) ≠ kind ∧ a = none ∧ c'.Tracks l w ∧
            ∃ c'', lookahead 0 c' = .ok (w.element w.position) c'' ∧ c''.Tracks l w)
      (Excused l (w.position + 1) w) (accept kind c) := by
  obtain ⟨o, hshows, hfollows⟩ := h
  obtain ⟨o', hlook, hfollows'⟩ := hfollows.look_ok 0
  have hagrees := lookahead_agrees hshows 0 (hfollows.modest _)
  have hpassed : o.passed = w.position := by
    obtain ⟨e, he⟩ := hfollows
    exact he.passed
  have hahead := look_zero_ahead hlook
  rw [hlook, hpassed] at hagrees
  generalize hr : (lookahead 0 : Run (Cursor σ α) α) c = r at hagrees
  cases hagrees with
  | exceeded h' hneeded =>
    rw [accept_of_error hr]
    exact ⟨⟨_, _, rfl⟩, ⟨o, h', hfollows⟩, hneeded⟩
  | answer h' =>
    obtain ⟨rest, hrest⟩ := hahead
    by_cases hkind : Element.kind (w.element w.position) = kind
    · obtain ⟨c'', haccept, hshows''⟩ := accept_of_eq hr h' hrest hkind
      rw [haccept]
      exact .inl ⟨hkind, rfl, _, hshows'', hfollows'.pass (by simp [hrest])⟩
    · obtain ⟨c'', hlook', h''⟩ := lookahead_held (k := 0) h' (by rw [hrest]; rfl)
      rw [accept_of_ne hr hkind]
      exact .inr ⟨hkind, rfl, ⟨_, h', hfollows'⟩, c'', hlook', _, h'', hfollows'⟩

/-- The next element has to be of the kind, or else the error names what stands there. -/
theorem expect_tracks (h : c.Tracks l w) (kind : κ) :
    Run.Ends
      (fun a c' => Element.kind (w.element w.position) = kind ∧ a = w.element w.position ∧
        c'.Tracks l w.advance)
      (fun e c' => Excused l (w.position + 1) w e c' ∨
        Element.kind (w.element w.position) ≠ kind ∧ c'.Tracks l w ∧
          ∃ context, e = .error (.mismatch (Element.kindName α kind)
            (Element.describe (w.element w.position)) context (Element.span (w.element w.position))))
      (expect kind c) := by
  unfold expect
  refine Run.Ends.bind (accept_tracks h kind) ?_ (fun _ _ he => .inl he)
  rintro a c' (⟨hkind, rfl, h'⟩ | ⟨hkind, rfl, h', c₁, hlook, h₁⟩)
  · exact ⟨hkind, rfl, h'⟩
  · obtain ⟨context, c₂, hmismatch, h₂⟩ := compose_of_ok elementAt_tracks hlook h₁
      fun found span context => .mismatch (Element.kindName α kind) found context span
    rw [← mismatch_eq] at hmismatch
    simp only [Run.bind_apply, hmismatch, Run.fail_apply]
    exact .inr ⟨hkind, h₂, context, rfl⟩

end Kinds

end Cursor

end Dataflow.Reading
