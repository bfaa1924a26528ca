import Dataflow.Proofs.Lexeme
import Dataflow.Proofs.Walk

/-!
# Dataflow.Proofs.Scanning

**The lexer follows its rules.** Over a source that never fails, a lexer is at a place in a text,
and its next token is `Place.next`: no window, no mark and no bound on a loop shows, unless the
buffer would have to grow past its limit.

* `Lexer.Reads` — a lexer is at a place, with places to go back to;
* `Lexer.Gives` — what a computation on a lexer answers, and at which place it leaves it;
* one lemma for every rule, up to `next_reads`.

A dialect may give the end marker a role of its own, absurd as that is; then it can be consumed.
`Dialect.Plain` says that it has none, and then no more characters are ever in a buffer than
there are in the text, and two.
-/

namespace Dataflow.Lexer

open Reading Text

variable {σ β γ : Type} [Supply σ Char]

/-- What does not change while a lexer scans a text: a bound on its length, the dialect and the
operators. -/
structure Setting where
  total : Nat
  dialect : Dialect
  table : Operator.Table

/-- The lexer is at a place, with places to go back to, innermost first. -/
structure Reads (g : Setting) (l : Lexer σ) (p : Place) (saved : List Place) : Prop where
  dialect : l.dialect = g.dialect
  table : l.table = g.table
  position : l.position = p.position
  positions : l.saved = saved.map Place.position
  walk : ∃ w : Walk Char, l.input.Tracks g.dialect.limits w ∧ w.endMarker = endOfInput ∧
    (∀ c ∈ w.elements, c ≠ endOfInput) ∧ w.elements.length ≤ g.total ∧
    p.text = w.elements.drop w.position ∧
    saved.map Place.text = w.marks.map (fun m => w.elements.drop m) ∧
    (g.dialect.Plain → w.position ≤ g.total ∧ ∀ m ∈ w.marks, m ≤ g.total)

/-- A computation ran into the limit of a buffer. Where the end marker has no role, that takes a
text of a certain length. -/
def Excused (g : Setting) (e : Failure) : Prop :=
  (∃ requested limit, e = .error (.capacityExceeded requested limit)) ∧
    (g.dialect.Plain → g.dialect.limits.Exceeded (g.total + 2))

/-- A computation answers `b` and leaves the lexer at the place `p`, unless it runs into the limit
of the buffer. -/
def Gives (g : Setting) (saved : List Place) (r : EStateM.Result Failure (Lexer σ) β) (b : β)
    (p : Place) : Prop :=
  Run.Ends (fun a l => a = b ∧ Reads g l p saved) (fun e _ => Excused g e) r

section Basics

variable {g : Setting} {l : Lexer σ} {p p' : Place} {saved saved' : List Place} {b : β}

theorem Gives.of_ok {r : EStateM.Result Failure (Lexer σ) β} {l' : Lexer σ} (hr : r = .ok b l')
    (h : Reads g l' p saved) : Gives g saved r b p := by
  subst hr
  exact ⟨rfl, h⟩

theorem Gives.bind {x : Run (Lexer σ) β} {f : β → Run (Lexer σ) γ} {c : γ}
    (hx : Gives g saved (x l) b p)
    (hf : ∀ l', Reads g l' p saved → Gives g saved' (f b l') c p') :
    Gives g saved' ((x >>= f) l) c p' := by
  refine Run.Ends.bind hx ?_ (fun _ _ he => he)
  rintro a l' ⟨rfl, h⟩
  exact hf l' h

/-- A choice between two computations, with the same to do behind both. -/
theorem Gives.ite_bind {c : Prop} [Decidable c] {x y : Run (Lexer σ) γ}
    {k : γ → Run (Lexer σ) β} (h : Gives g saved (((if c then x else y) >>= k) l) b p) :
    Gives g saved ((if c then x >>= k else y >>= k) l) b p := by
  split <;> simp_all

/-- Reading the state of the lexer changes nothing. -/
theorem Gives.get_bind {f : Lexer σ → Run (Lexer σ) β} (h : Gives g saved (f l l) b p) :
    Gives g saved ((get >>= f) l) b p := h

theorem Gives.map {x : Run (Lexer σ) β} (f : β → γ) (hx : Gives g saved (x l) b p) :
    Gives g saved ((f <$> x) l) (f b) p := by
  rw [map_eq_pure_bind]
  exact hx.bind fun l' h => .of_ok rfl h

theorem Reads.text_ne (h : Reads g l p saved) : ∀ c ∈ p.text, c ≠ endOfInput := by
  obtain ⟨w, -, -, hne, -, htext, -⟩ := h.walk
  intro c hc
  rw [htext] at hc
  exact hne c (List.mem_of_mem_drop hc)

/-- The lexer at the start of a text. -/
theorem reads_ofSource {source : σ} {text : List Char} {d : Dialect} {t : Operator.Table}
    (hsource : Supply.Delivers source text) (hmarker : Source.endMarker source = endOfInput)
    (hne : ∀ c ∈ text, c ≠ endOfInput) :
    Reads ⟨text.length, d, t⟩ (ofSource source d t) ⟨text, {}⟩ [] where
  dialect := rfl
  table := rfl
  position := rfl
  positions := rfl
  walk := ⟨_, Cursor.tracks_ofSource hsource d.limits, hmarker, hne, Nat.le_refl _, rfl, rfl,
    fun _ => ⟨Nat.zero_le _, by simp⟩⟩

/-- No more characters than this are still to come. -/
theorem Reads.length_le (h : Reads g l p saved) : p.text.length ≤ l.remaining := by
  obtain ⟨w, ⟨o, hshows, e, hfollows⟩, -, -, -, htext, -⟩ := h.walk
  have hsize := hshows.size_eq
  have hahead := hfollows.length_ahead
  show p.text.length ≤ (l.input.buffer.ring.size - l.input.offset) +
    Source.remaining l.input.buffer.source
  rw [htext, List.length_drop, hshows.source]
  rcases hfollows.delivers with ⟨-, hle⟩ | ⟨-, hle, hdelivers⟩
  · omega
  · have hremaining := Supply.length_le hdelivers
    rw [List.length_drop] at hremaining
    omega

/-! ### Single steps -/

/-- The character at a place of the walk is the one ahead in the text. -/
theorem charAt_eq_element {w : Walk Char} {text : List Char} (hmarker : w.endMarker = endOfInput)
    (htext : text = w.elements.drop w.position) (k : Nat) :
    w.element (w.position + k) = charAt text k := by
  unfold Walk.element charAt
  rw [htext, hmarker, List.getD_eq_getElem?_getD, List.getD_eq_getElem?_getD, List.getElem?_drop]

theorem Excused.of_tracks {w : Walk Char} {n : Nat} {e : Failure} {c : Cursor σ Char}
    (h : Cursor.Excused g.dialect.limits n w e c) (hn : g.dialect.Plain → n ≤ g.total + 2) :
    Excused g e :=
  ⟨h.1, fun hplain => h.2.2.mono (hn hplain)⟩

theorem peek_reads (h : Reads g l p saved) {k : Nat} (hk : k ≤ p.text.length + 1) :
    Gives g saved (peek k l) (charAt p.text k) p := by
  obtain ⟨w, htracks, hmarker, hne, htotal, htext, hmarks, hplain⟩ := h.walk
  have hends := Cursor.lookahead_tracks htracks k
  unfold peek
  cases hr : (Cursor.lookahead k : Run (Cursor σ Char) Char) l.input with
  | ok a c =>
    rw [onInput_ok hr]
    obtain ⟨ha, htracks'⟩ := hends.of_ok hr
    refine ⟨ha.trans (charAt_eq_element hmarker htext k), h.dialect, h.table, h.position,
      h.positions, w, htracks', hmarker, hne, htotal, htext, hmarks, hplain⟩
  | error e c =>
    rw [onInput_error hr]
    refine Excused.of_tracks (hends.of_error hr) fun hp => ?_
    have := (hplain hp).1
    rw [htext, List.length_drop] at hk
    omega

/-- A character is consumed. It may be the end marker only where that has a role. -/
theorem bump_reads (h : Reads g l p saved) (hend : g.dialect.Plain → p.text ≠ []) :
    Gives g saved (bump l) (charAt p.text 0) (p.skip 1) := by
  obtain ⟨w, htracks, hmarker, hne, htotal, htext, hmarks, hplain⟩ := h.walk
  have hends := Cursor.consume_tracks htracks
  have hlength : g.dialect.Plain → w.position + 1 ≤ g.total := by
    intro hp
    have := List.length_pos_iff.2 (hend hp)
    rw [htext, List.length_drop] at this
    omega
  unfold bump
  rw [Run.bind_apply]
  cases hr : (Cursor.consume : Run (Cursor σ Char) Char) l.input with
  | error e c =>
    rw [onInput_error hr]
    refine Excused.of_tracks (hends.of_error hr) fun hp => ?_
    have := hlength hp
    omega
  | ok a c =>
    rw [onInput_ok hr]
    obtain ⟨ha, htracks'⟩ := hends.of_ok hr
    have hchar : a = charAt p.text 0 := ha.trans (charAt_eq_element hmarker htext 0)
    have hskip : (p.skip 1).text = w.advance.elements.drop w.advance.position := by
      show p.text.drop 1 = w.elements.drop (w.position + 1)
      rw [htext, List.drop_drop]
    have hwalk : ∃ w : Walk Char, c.Tracks g.dialect.limits w ∧ w.endMarker = endOfInput ∧
        (∀ c ∈ w.elements, c ≠ endOfInput) ∧ w.elements.length ≤ g.total ∧
        (p.skip 1).text = w.elements.drop w.position ∧
        saved.map Place.text = w.marks.map (fun m => w.elements.drop m) ∧
        (g.dialect.Plain → w.position ≤ g.total ∧ ∀ m ∈ w.marks, m ≤ g.total) :=
      ⟨w.advance, htracks', hmarker, hne, htotal, hskip, hmarks,
        fun hp => ⟨hlength hp, (hplain hp).2⟩⟩
    -- The end marker has no position, and there is none behind the text either.
    by_cases hc : a = endOfInput
    · have hnil : p.text = [] := by
        cases ht : p.text with
        | nil => rfl
        | cons c rest =>
          rw [hchar, ht] at hc
          exact absurd hc (h.text_ne c (by rw [ht]; exact List.mem_cons_self))
      have hsame : (p.skip 1).position = p.position := by simp [Place.skip, hnil]
      simp only [hc, ne_eq, not_true_eq_false, if_false, Run.pure_apply]
      exact ⟨by rw [← hchar, hc], h.dialect, h.table, h.position.trans hsame.symm, h.positions, hwalk⟩
    · obtain ⟨rest, ht⟩ : ∃ rest, p.text = a :: rest := by
        cases ht : p.text with
        | nil => exact absurd (by rw [hchar, ht]; rfl) hc
        | cons c rest =>
          rw [ht] at hchar
          exact ⟨rest, by rw [hchar]; rfl⟩
      have hnext : (p.skip 1).position = p.position.advance a := by simp [Place.skip, ht]
      simp only [hc, ne_eq, not_false_eq_true, if_true, Run.bind_apply, Run.modify_apply,
        Run.pure_apply]
      refine ⟨hchar, h.dialect, h.table, ?_, h.positions, hwalk⟩
      show l.position.advance a = _
      rw [hnext, h.position]

theorem mark_reads (h : Reads g l p saved) : Gives g (p :: saved) (mark l) () p := by
  obtain ⟨w, htracks, hmarker, hne, htotal, htext, hmarks, hplain⟩ := h.walk
  obtain ⟨c, hmark, htracks'⟩ := Cursor.mark_tracks htracks
  unfold mark
  simp only [Run.bind_apply, onInput_ok hmark, Run.modify_apply]
  refine ⟨rfl, h.dialect, h.table, h.position, ?_, _, htracks', hmarker, hne, htotal, htext, ?_, ?_⟩
  · show l.position :: l.saved = _
    rw [h.position, h.positions]
    rfl
  · show p.text :: saved.map Place.text = w.elements.drop w.position :: _
    rw [htext, hmarks]
  · intro hp
    refine ⟨(hplain hp).1, fun m hm => ?_⟩
    rcases List.mem_cons.1 hm with rfl | hm
    · exact (hplain hp).1
    · exact (hplain hp).2 m hm

theorem commit_reads {q : Place} (h : Reads g l p (q :: saved)) :
    Gives g saved (commit l) () p := by
  obtain ⟨w, htracks, hmarker, hne, htotal, htext, hmarks, hplain⟩ := h.walk
  cases hm : w.marks with
  | nil => simp [hm] at hmarks
  | cons m outer =>
    obtain ⟨c, hcommit, htracks'⟩ := Cursor.commit_tracks htracks hm
    rw [hm, List.map_cons, List.map_cons, List.cons.injEq] at hmarks
    unfold commit
    simp only [Run.bind_apply, onInput_ok hcommit, Run.modify_apply]
    refine ⟨rfl, h.dialect, h.table, h.position, ?_, _, htracks', hmarker, hne, htotal, htext,
      hmarks.2, ?_⟩
    · show l.saved.tail = _
      rw [h.positions]
      rfl
    · intro hp
      exact ⟨(hplain hp).1, fun k hk =>
        (hplain hp).2 k (by rw [hm]; exact List.mem_cons_of_mem m hk)⟩

theorem rollback_reads {q : Place} (h : Reads g l p (q :: saved)) :
    Gives g saved (rollback l) () q := by
  obtain ⟨w, htracks, hmarker, hne, htotal, htext, hmarks, hplain⟩ := h.walk
  cases hm : w.marks with
  | nil => simp [hm] at hmarks
  | cons m outer =>
    obtain ⟨c, hrollback, htracks'⟩ := Cursor.rollback_tracks htracks hm
    rw [hm, List.map_cons, List.map_cons, List.cons.injEq] at hmarks
    unfold rollback
    simp only [Run.bind_apply, onInput_ok hrollback, Run.modify_apply]
    refine ⟨rfl, h.dialect, h.table, ?_, ?_, _, htracks', hmarker, hne, htotal, hmarks.1,
      hmarks.2, ?_⟩
    · show l.saved.head?.getD l.position = _
      rw [h.positions]
      rfl
    · show l.saved.tail = _
      rw [h.positions]
      rfl
    · intro hp
      exact ⟨(hplain hp).2 m (by rw [hm]; exact List.mem_cons_self), fun k hk =>
        (hplain hp).2 k (by rw [hm]; exact List.mem_cons_of_mem m hk)⟩

/-! ### Loops -/

/-- A loop that comes closer to its end in every round. What holds of every round says what the
loop will come to. -/
theorem Gives.iterate {α : Type} {step : α → Run (Lexer σ) (Run.Round α β)}
    {bound : Lexer σ → Nat} {a : α} {I : α → Place → Prop} {m : α → Place → Nat}
    (hstep : ∀ a p l, Reads g l p saved → I a p →
      Gives g saved (step a l) (.done b) p' ∨
        ∃ a' q, m a' q < m a p ∧ I a' q ∧ Gives g saved (step a l) (.again a') q)
    (hbound : m a p ≤ bound l) (hI : I a p) (h : Reads g l p saved) :
    Gives g saved (Run.iterate bound a step l) b p' := by
  have key : ∀ n a p l, m a p < n → I a p → Reads g l p saved →
      Gives g saved (Run.iterateFor step n a l) b p' := by
    intro n
    induction n with
    | zero => intro a p l hm; exact absurd hm (Nat.not_lt_zero _)
    | succ n ih =>
      intro a p l hm hI h
      rw [Run.iterateFor]
      rcases hstep a p l h hI with hdone | ⟨a', q, hlt, hI', hagain⟩
      · exact hdone.bind fun l' h' => .of_ok rfl h'
      · exact hagain.bind fun l' h' => ih a' q l' (by omega) hI' h'
  exact key _ a p l (by omega) hI h

/-- Whether the next character is of a class. -/
theorem runLength_of_charAt {inClass : Char → Bool} {text : List Char}
    (h : inClass (charAt text 0) = false) : runLength inClass text = 0 := by
  cases text with
  | nil => rfl
  | cons c text => simp [runLength, show inClass c = false from h]

theorem takeRun_reads (h : Reads g l p saved) {inClass : Char → Bool}
    (hclass : inClass endOfInput = false) :
    Gives g saved (takeRun inClass l) (p.text.takeWhile inClass)
      (p.skip (runLength inClass p.text)) := by
  unfold takeRun
  refine Gives.iterate (m := fun _ q => q.text.length)
    (I := fun taken q => taken.reverse ++ q.text.takeWhile inClass = p.text.takeWhile inClass ∧
      q.skip (runLength inClass q.text) = p.skip (runLength inClass p.text))
    ?_ h.length_le ⟨rfl, rfl⟩ h
  rintro taken q l' h' ⟨htaken, hskip⟩
  cases ht : q.text with
  | nil =>
    left
    rw [ht] at htaken hskip
    refine (peek_reads h' (Nat.zero_le _)).bind fun l₁ h₁ => ?_
    rw [ht, charAt_nil, if_neg (by simp [hclass])]
    simp only [List.takeWhile_nil, List.append_nil] at htaken
    rw [← htaken, ← hskip]
    exact .of_ok rfl h₁
  | cons c rest =>
    rw [ht] at htaken hskip
    cases hc : inClass c with
    | false =>
      left
      refine (peek_reads h' (Nat.zero_le _)).bind fun l₁ h₁ => ?_
      rw [ht, charAt_cons_zero, if_neg (by simp [hc])]
      rw [List.takeWhile_cons_of_neg (by simp [hc]), List.append_nil] at htaken
      rw [runLength_of_charAt hc, Place.skip_zero] at hskip
      rw [← htaken, ← hskip]
      exact .of_ok rfl h₁
    | true =>
      refine .inr ⟨c :: taken, q.skip 1, ?_, ⟨?_, ?_⟩, ?_⟩
      · simp [ht]
      · rw [← htaken, Place.text_skip, ht, List.takeWhile_cons_of_pos hc]
        simp
      · rw [← hskip, Place.text_skip, ht, Place.skip_skip]
        simp [runLength, hc, Nat.add_comm]
      · refine (peek_reads h' (Nat.zero_le _)).bind fun l₁ h₁ => ?_
        rw [ht, charAt_cons_zero, if_pos hc]
        refine (bump_reads h₁ (by simp [ht])).bind fun l₂ h₂ => ?_
        rw [ht, charAt_cons_zero]
        exact .of_ok rfl h₂

theorem bumps_reads (h : Reads g l p saved) {n : Nat} (hn : n ≤ p.text.length) :
    Gives g saved (bumps n l) (p.text.take n) (p.skip n) := by
  induction n generalizing l p with
  | zero => exact .of_ok rfl h
  | succ n ih =>
    obtain ⟨c, rest, ht⟩ : ∃ c rest, p.text = c :: rest := by
      cases ht : p.text with
      | nil => simp [ht] at hn
      | cons c rest => exact ⟨c, rest, rfl⟩
    refine (bump_reads h (by simp [ht])).bind fun l₁ h₁ => ?_
    refine (ih h₁ (by simpa [ht] using hn)).bind fun l₂ h₂ => ?_
    rw [Place.skip_skip, Nat.add_comm 1 n] at h₂
    refine .of_ok ?_ h₂
    simp [ht]

/-- A single character, which may be the end marker where that has a role. -/
theorem bumps_one_reads (h : Reads g l p saved) (hend : g.dialect.Plain → p.text ≠ []) :
    Gives g saved (bumps 1 l) [charAt p.text 0] (p.skip 1) :=
  (bump_reads h hend).bind fun _ h₁ => .of_ok rfl h₁

/-- A token reaches up to the place of the lexer. -/
theorem tokenFrom_reads (h : Reads g l p saved) (start : Position) (kind : Token.Kind)
    (text : List Char) :
    Gives g saved (tokenFrom start kind text l)
      { text := String.ofList text, kind, span := ⟨start, p.position⟩ } p := by
  unfold tokenFrom
  refine .of_ok ?_ h
  simp only [Run.bind_apply, Run.get_apply, Run.pure_apply, h.position]

/-- A token that is written as it reads, from a place behind which the lexer is. -/
theorem tokenFrom_plain {n : Nat} (h : Reads g l (p.skip n) saved) (kind : Token.Kind)
    {text : List Char} (htext : text = p.text.take n) :
    Gives g saved (tokenFrom p.position kind text l) (p.token (.plain kind p.text n)) (p.skip n) := by
  subst htext
  exact tokenFrom_reads h p.position kind _

/-! ### Numbers -/

theorem length_pos_of_charAt {text : List Char} {k : Nat} (h : charAt text k ≠ endOfInput) :
    k < text.length := by
  by_cases hk : k < text.length
  · exact hk
  · refine absurd ?_ h
    rw [charAt, List.getD_eq_getElem?_getD, List.getElem?_eq_none (by omega)]
    rfl

theorem isDigit_endOfInput : Char.isDigit endOfInput = false := by decide

theorem ne_endOfInput_of_isDigit {c : Char} (h : c.isDigit = true) : c ≠ endOfInput := by
  rintro rfl
  simp [isDigit_endOfInput] at h

theorem ne_nil_of_charAt {text : List Char} (h : charAt text 0 ≠ endOfInput) : text ≠ [] :=
  List.ne_nil_of_length_pos (length_pos_of_charAt h)

/-- The sign in an exponent, behind its marker. -/
theorem sign_reads (h : Reads g l (p.skip 1) saved) :
    Gives g saved
      ((if charAt p.text 1 = g.dialect.numerals.negative ∨ charAt p.text 1 = '+' then bumps 1
        else pure [] : Run (Lexer σ) (List Char)) l)
      ((if charAt p.text 1 = g.dialect.numerals.negative ∨ charAt p.text 1 = '+' then
        [charAt p.text 1] else []))
      (p.skip (1 + signLength g.dialect.numerals p.text)) := by
  unfold signLength
  split
  · next hsign =>
    rw [← Place.skip_skip]
    have hchar : charAt (p.skip 1).text 0 = charAt p.text 1 := charAt_drop p.text 1 0
    rw [← hchar]
    refine bumps_one_reads h fun hp => ne_nil_of_charAt ?_
    rw [hchar]
    rcases hsign with hnegative | hplus
    · rw [hnegative]
      exact hp.negative
    · rw [hplus]
      decide
  · exact .of_ok rfl h

theorem take_two {text : List Char} (h : 1 < text.length) :
    text.take 2 = [charAt text 0, charAt text 1] := by
  match text, h with
  | c :: d :: rest, _ => rfl

theorem take_one {text : List Char} (h : 0 < text.length) :
    text.take 1 = [charAt text 0] := by
  match text, h with
  | c :: rest, _ => rfl

theorem exponent_reads (h : Reads g l p saved)
    (hmarker : g.dialect.numerals.isExponentMarker (charAt p.text 0) = true) :
    Gives g saved (exponent l) (p.text.take (exponentLength g.dialect.numerals p.text))
      (p.skip (exponentLength g.dialect.numerals p.text)) := by
  have hend : g.dialect.Plain → p.text ≠ [] := by
    intro hp hnil
    rw [hnil, charAt_nil, hp.exponent] at hmarker
    cases hmarker
  unfold exponent
  refine Gives.get_bind ?_
  rw [h.dialect]
  refine (mark_reads h).bind fun l₁ h₁ => ?_
  refine (bump_reads h₁ hend).bind fun l₂ h₂ => ?_
  refine (peek_reads h₂ (Nat.zero_le _)).bind fun l₃ h₃ => ?_
  rw [Place.text_skip, charAt_drop]
  refine Gives.ite_bind ((sign_reads h₃).bind fun l₄ h₄ => ?_)
  refine (peek_reads h₄ (Nat.zero_le _)).bind fun l₅ h₅ => ?_
  rw [Place.text_skip, charAt_drop, Nat.add_zero]
  unfold exponentLength
  cases hdigit : (charAt p.text (1 + signLength g.dialect.numerals p.text)).isDigit with
  | false =>
    have hzero : runLength Char.isDigit (p.text.drop (1 + signLength g.dialect.numerals p.text)) = 0 :=
      runLength_of_charAt (by rw [charAt_drop]; exact hdigit)
    simp only [hzero, if_true, Bool.false_eq_true, if_false]
    exact (rollback_reads h₅).bind fun l₆ h₆ => .of_ok rfl h₆
  | true =>
    have hlength := length_pos_of_charAt (ne_endOfInput_of_isDigit hdigit)
    have hpos : runLength Char.isDigit (p.text.drop (1 + signLength g.dialect.numerals p.text)) ≠ 0 := by
      rw [List.drop_eq_getElem_cons hlength]
      unfold runLength
      rw [List.takeWhile_cons_of_pos]
      · simp
      · rw [charAt, List.getD_eq_getElem?_getD, List.getElem?_eq_getElem hlength] at hdigit
        exact hdigit
    simp only [if_true, if_neg hpos]
    refine (takeRun_reads h₅ isDigit_endOfInput).bind fun l₆ h₆ => ?_
    refine (commit_reads h₆).bind fun l₇ h₇ => ?_
    rw [Place.skip_skip, Place.text_skip] at h₇
    refine .of_ok ?_ h₇
    -- The marker and the sign are the first characters of the exponent, as it is written.
    have hfront : charAt p.text 0 :: (if charAt p.text 1 = g.dialect.numerals.negative ∨
        charAt p.text 1 = '+' then [charAt p.text 1] else []) =
          p.text.take (1 + signLength g.dialect.numerals p.text) := by
      unfold signLength at hlength ⊢
      split
      · next hsign =>
        rw [if_pos hsign] at hlength
        exact (take_two (by omega)).symm
      · next hsign =>
        rw [if_neg hsign] at hlength
        exact (take_one (by omega)).symm
    rw [List.take_add, take_runLength, ← hfront]
    rfl

/-- A look at the character behind the next one, where the next one makes it worth while. -/
theorem probe_reads (h : Reads g l p saved) {c : Prop} [Decidable c] {inClass : Char → Bool}
    {b : Bool} (hb : b = true ↔ c ∧ inClass (charAt p.text 1) = true) :
    Gives g saved ((if c then inClass <$> peek 1 else pure false : Run (Lexer σ) Bool) l) b p := by
  split
  · next hc =>
    have hclass : inClass (charAt p.text 1) = b := by simp_all
    rw [← hclass]
    exact (peek_reads h (by omega)).map inClass
  · next hc =>
    have hfalse : b = false := by simp_all
    rw [hfalse]
    exact .of_ok rfl h

/-- The exponent at the front, if its marker stands there. -/
theorem power_reads (h : Reads g l p saved) :
    let n := if g.dialect.numerals.isExponentMarker (charAt p.text 0) then
      exponentLength g.dialect.numerals p.text else 0
    Gives g saved
      ((if g.dialect.numerals.isExponentMarker (charAt p.text 0) = true then exponent
        else pure [] : Run (Lexer σ) (List Char)) l) (p.text.take n) (p.skip n) := by
  split
  · next hmarker => exact exponent_reads h hmarker
  · next hmarker => exact .of_ok rfl h

theorem numberLexeme_eq (n : Numerals) (text : List Char) :
    numberLexeme n text =
      .plain (if fractionLength n (text.drop (runLength Char.isDigit text)) = 0 then .integer
        else .real) text
        (runLength Char.isDigit text + fractionLength n (text.drop (runLength Char.isDigit text))) :=
  rfl

/-- The length of a fraction and the exponent behind it. -/
theorem fractionLength_eq {n : Numerals} {text : List Char} {digits : Nat}
    (hdigits : digits = runLength Char.isDigit (text.drop 1))
    (h : charAt text 0 = n.decimal ∧ (charAt text 1).isDigit = true) :
    fractionLength n text = 1 + digits + if n.isExponentMarker (charAt (text.drop (1 + digits)) 0) then
      exponentLength n (text.drop (1 + digits)) else 0 := by
  subst hdigits
  unfold fractionLength
  rw [if_pos h]

/-- A number up to where an exponent can begin: its digits, and the character behind them if they have a
fraction. -/
def mantissa {σ : Type} [Source σ Char] (numerals : Numerals) :
    Run (Lexer σ) (List Char × Option Char) := do
  let whole ← takeRun Char.isDigit
  let fractional ←
    if (← peek 0) = numerals.decimal then
      Char.isDigit <$> peek 1
    else pure false
  if fractional then
    let separator ← bump
    let fraction ← takeRun Char.isDigit
    return (whole ++ separator :: fraction, some (← peek 0))
  else
    return (whole, none)

/-- What comes behind the digits of a number: an exponent, if there is a fraction and a marker stands
there. -/
def numberFrom {σ : Type} [Source σ Char] (start : Position) (numerals : Numerals) (digits : List Char) :
    Option Char → Run (Lexer σ) Token
  | some c => do
    let power ← if numerals.isExponentMarker c then exponent else pure []
    tokenFrom start .real (digits ++ power)
  | none => tokenFrom start .integer digits

theorem number_eq {σ : Type} [Source σ Char] : (number : Run (Lexer σ) Token) = (do
    let start := (← get).position
    let numerals := (← get).dialect.numerals
    let found ← mantissa numerals
    numberFrom start numerals found.1 found.2) := by
  have hite {c : Prop} [Decidable c] {β γ : Type} (x y : Run (Lexer σ) β) (f : β → Run (Lexer σ) γ) :
      (if c then x else y) >>= f = if c then x >>= f else y >>= f := by split <;> rfl
  unfold number mantissa
  simp only [bind_assoc, hite, pure_bind, numberFrom]

/-- The digits of a number with a fraction. -/
theorem mantissa_reads (h : Reads g l p saved) {whole digits : Nat}
    (hwhole : whole = runLength Char.isDigit p.text)
    (hdigits : digits = runLength Char.isDigit (p.text.drop (whole + 1)))
    (hfraction : charAt (p.text.drop whole) 0 = g.dialect.numerals.decimal ∧
      (charAt (p.text.drop whole) 1).isDigit = true) :
    Gives g saved (mantissa g.dialect.numerals l) (p.text.take (whole + 1 + digits),
      some (charAt (p.text.drop (whole + 1 + digits)) 0)) (p.skip (whole + 1 + digits)) := by
  have hlength := length_pos_of_charAt (ne_endOfInput_of_isDigit hfraction.2)
  have hne : (p.skip whole).text ≠ [] := List.ne_nil_of_length_pos (Nat.lt_of_le_of_lt (Nat.zero_le 1) hlength)
  unfold mantissa
  refine (takeRun_reads h isDigit_endOfInput).bind fun l₁ h₁ => ?_
  refine (peek_reads h₁ (Nat.zero_le _)).bind fun l₂ h₂ => ?_
  rw [← take_runLength]
  rw [← hwhole] at h₂ ⊢
  refine Gives.ite_bind ((probe_reads h₂ (iff_of_true rfl hfraction)).bind fun l₃ h₃ => ?_)
  dsimp only
  rw [if_pos rfl]
  refine (bump_reads h₃ fun _ => hne).bind fun l₄ h₄ => ?_
  refine (takeRun_reads h₄ isDigit_endOfInput).bind fun l₅ h₅ => ?_
  rw [Place.text_skip, Place.text_skip, List.drop_drop, ← hdigits, Place.skip_skip, Place.skip_skip,
    ← Nat.add_assoc] at h₅
  refine (peek_reads h₅ (Nat.zero_le _)).bind fun l₆ h₆ => ?_
  have htake : p.text.take (whole + 1 + digits) = p.text.take whole ++
      charAt (p.text.drop whole) 0 :: (p.text.drop (whole + 1)).takeWhile Char.isDigit := by
    rw [← take_runLength, ← hdigits, List.take_add, List.take_add, take_one (by omega), List.append_assoc]
    rfl
  rw [htake]
  refine .of_ok ?_ h₆
  rw [Place.text_skip, Place.text_skip, Place.text_skip, List.drop_drop]
  rfl

/-- The digits of a number without a fraction. -/
theorem mantissa_whole (h : Reads g l p saved)
    (hfraction : ¬ (charAt (p.text.drop (runLength Char.isDigit p.text)) 0 = g.dialect.numerals.decimal ∧
      (charAt (p.text.drop (runLength Char.isDigit p.text)) 1).isDigit = true)) :
    Gives g saved (mantissa g.dialect.numerals l) (p.text.take (runLength Char.isDigit p.text), none)
      (p.skip (runLength Char.isDigit p.text)) := by
  unfold mantissa
  refine (takeRun_reads h isDigit_endOfInput).bind fun l₁ h₁ => ?_
  refine (peek_reads h₁ (Nat.zero_le _)).bind fun l₂ h₂ => ?_
  rw [← take_runLength]
  refine Gives.ite_bind ((probe_reads h₂ (iff_of_false Bool.false_ne_true hfraction)).bind
    fun l₃ h₃ => ?_)
  exact .of_ok rfl h₃

theorem number_reads (h : Reads g l p saved) :
    let x := numberLexeme g.dialect.numerals p.text
    Gives g saved (number l) (p.token x) (p.skip x.length) := by
  intro x
  have hx : x = _ := numberLexeme_eq g.dialect.numerals p.text
  rw [number_eq]
  refine Gives.get_bind (Gives.get_bind ?_)
  rw [h.dialect, h.position]
  by_cases hfraction : charAt (p.text.drop (runLength Char.isDigit p.text)) 0 = g.dialect.numerals.decimal ∧
      (charAt (p.text.drop (runLength Char.isDigit p.text)) 1).isDigit = true
  · refine (mantissa_reads h rfl rfl hfraction).bind fun l₁ h₁ => ?_
    generalize hwhole : runLength Char.isDigit p.text = whole at *
    generalize hdigits : runLength Char.isDigit (p.text.drop (whole + 1)) = digits at *
    have hbehind : digits = runLength Char.isDigit ((p.text.drop whole).drop 1) := by
      rw [List.drop_drop, hdigits]
    have hlength := fractionLength_eq hbehind hfraction
    rw [List.drop_drop, ← Nat.add_assoc] at hlength
    refine Gives.ite_bind ((power_reads h₁).bind fun l₂ h₂ => ?_)
    rw [hlength, if_neg (by omega), ← Nat.add_assoc, ← Nat.add_assoc] at hx
    rw [Place.skip_skip, Place.text_skip] at h₂
    rw [hx]
    exact tokenFrom_plain h₂ .real List.take_add.symm
  · refine (mantissa_whole h hfraction).bind fun l₁ h₁ => ?_
    have hzero : fractionLength g.dialect.numerals (p.text.drop (runLength Char.isDigit p.text)) = 0 :=
      if_neg hfraction
    rw [hzero, if_pos rfl, Nat.add_zero] at hx
    rw [hx]
    exact tokenFrom_plain h₁ .integer rfl

/-! ### Names -/

theorem ne_endOfInput_of_isNameStart {c : Char} (h : isNameStart c = true) : c ≠ endOfInput := by
  rintro rfl
  simp [isNameStart_endOfInput] at h

theorem namePart_reads (h : Reads g l p saved) (hne : p.text ≠ []) :
    Gives g saved (namePart l) (p.text.take (partLength p.text))
      (p.skip (partLength p.text)) := by
  unfold namePart
  refine (bump_reads h fun _ => hne).bind fun l₁ h₁ => ?_
  refine (takeRun_reads h₁ isNamePart_endOfInput).bind fun l₂ h₂ => ?_
  rw [Place.skip_skip] at h₂
  refine .of_ok ?_ h₂
  unfold partLength
  rw [List.take_add, take_one (List.length_pos_iff.2 hne), take_runLength]
  rfl

theorem dottedLength_of {text : List Char}
    (h : charAt text 0 = '.' ∧ isNameStart (charAt text 1) = true) :
    dottedLength text = 1 + partLength (text.drop 1) +
      dottedLength (text.drop (1 + partLength (text.drop 1))) := by
  rw [dottedLength, if_pos h]

theorem dottedLength_of_not {text : List Char}
    (h : ¬ (charAt text 0 = '.' ∧ isNameStart (charAt text 1) = true)) :
    dottedLength text = 0 := by
  rw [dottedLength, if_neg h]

theorem dottedParts_reads (h : Reads g l p saved) :
    Gives g saved (dottedParts l) (p.text.take (dottedLength p.text))
      (p.skip (dottedLength p.text)) := by
  unfold dottedParts
  refine Gives.iterate (m := fun _ q => q.text.length)
    (I := fun parts q => parts ++ q.text.take (dottedLength q.text) =
        p.text.take (dottedLength p.text) ∧
      q.skip (dottedLength q.text) = p.skip (dottedLength p.text))
    ?_ h.length_le ⟨rfl, rfl⟩ h
  rintro parts q l' h' ⟨hparts, hskip⟩
  by_cases hdot : charAt q.text 0 = '.' ∧ isNameStart (charAt q.text 1) = true
  · have hlength := length_pos_of_charAt (ne_endOfInput_of_isNameStart hdot.2)
    have hfirst : partLength (q.text.drop 1) ≥ 1 := by unfold partLength; omega
    rw [dottedLength_of hdot] at hparts hskip
    refine .inr ⟨parts ++ '.' :: (q.text.drop 1).take (partLength (q.text.drop 1)),
      q.skip (1 + partLength (q.text.drop 1)), ?_, ⟨?_, ?_⟩, ?_⟩
    · rw [Place.text_skip, List.length_drop]
      omega
    · rw [← hparts, Place.text_skip, List.take_add, List.take_add, take_one (by omega), hdot.1]
      simp
    · rw [← hskip, Place.skip_skip]
      rfl
    · refine (peek_reads h' (Nat.zero_le _)).bind fun l₁ h₁ => ?_
      refine Gives.ite_bind ((probe_reads h₁ (iff_of_true rfl hdot)).bind fun l₂ h₂ => ?_)
      dsimp only
      rw [if_pos rfl]
      refine (bump_reads h₂ fun _ => List.ne_nil_of_length_pos (by omega)).bind fun l₃ h₃ => ?_
      have hne : (q.skip 1).text ≠ [] :=
        List.ne_nil_of_length_pos (by rw [Place.text_skip, List.length_drop]; omega)
      refine (namePart_reads h₃ hne).bind fun l₄ h₄ => ?_
      rw [Place.skip_skip] at h₄
      rw [hdot.1]
      exact .of_ok rfl h₄
  · left
    rw [dottedLength_of_not hdot] at hparts hskip
    refine (peek_reads h' (Nat.zero_le _)).bind fun l₁ h₁ => ?_
    refine Gives.ite_bind ((probe_reads h₁ (iff_of_false Bool.false_ne_true hdot)).bind
      fun l₂ h₂ => ?_)
    rw [List.take_zero, List.append_nil] at hparts
    rw [Place.skip_zero] at hskip
    rw [← hparts, ← hskip]
    exact .of_ok rfl h₂

theorem dottedLength_nil : dottedLength [] = 0 :=
  dottedLength_of_not (by simp [endOfInput])

theorem isEmpty_take (text : List Char) (n : Nat) (h : n ≠ 0 → text ≠ []) :
    (!(text.take n).isEmpty) = decide (n ≠ 0) := by
  by_cases hn : n = 0
  · subst hn
    rfl
  · have hempty : (text.take n).isEmpty = false := by
      rw [List.isEmpty_eq_false_iff]
      intro hnil
      exact (List.take_eq_nil_iff.1 hnil).elim hn (h hn)
    rw [hempty, decide_eq_true hn]
    rfl

/-- A name behind `n` characters that do not count as its first. -/
theorem identifier_reads {n : Nat} (h : Reads g l (p.skip n) saved)
    (hne : (p.skip n).text ≠ []) :
    let x := nameLexeme n p.text
    Gives g saved (identifier p.position (p.text.take n) l) (p.token x) (p.skip x.length) := by
  intro x
  have hlength := List.length_pos_iff.2 hne
  rw [Place.text_skip, List.length_drop] at hlength
  unfold identifier
  refine (namePart_reads h hne).bind fun l₁ h₁ => ?_
  refine (dottedParts_reads h₁).bind fun l₂ h₂ => ?_
  rw [Place.skip_skip, Place.skip_skip] at h₂
  dsimp only [Place.text_skip] at h₂ ⊢
  rw [List.drop_drop, ← Nat.add_assoc] at h₂
  rw [← List.take_add, List.drop_drop, ← List.take_add]
  have hx : x = .plain (nameKind (n ≠ 0) (dottedLength (p.text.drop
      (n + partLength (p.text.drop n))) ≠ 0) (String.ofList (p.text.take (n +
        partLength (p.text.drop n) + dottedLength (p.text.drop
          (n + partLength (p.text.drop n))))))) p.text (n + partLength (p.text.drop n) +
            dottedLength (p.text.drop (n + partLength (p.text.drop n)))) := rfl
  have hsign := isEmpty_take p.text n fun _ => List.ne_nil_of_length_pos (by omega)
  have hdots := isEmpty_take (p.text.drop (n + partLength (p.text.drop n)))
    (dottedLength (p.text.drop (n + partLength (p.text.drop n)))) (by
      intro hdotted hnil
      rw [hnil, dottedLength_nil] at hdotted
      exact hdotted rfl)
  rw [hx, hsign, hdots]
  exact tokenFrom_plain h₂ _ rfl

/-! ### Symbols -/

theorem ne_endOfInput_of_isSymbolic {c : Char} (h : isSymbolic c = true) : c ≠ endOfInput := by
  rintro rfl
  simp [isSymbolic_endOfInput] at h

theorem symbolLength_reads (h : Reads g l p saved) (hne : p.text ≠ []) :
    Gives g saved (symbolLength l)
      (symbolLengthFrom g.table [charAt p.text 0] 1 (p.text.drop 1)) p := by
  have hpos := List.length_pos_iff.2 hne
  unfold symbolLength
  refine (peek_reads h (Nat.zero_le _)).bind fun l₁ h₁ => ?_
  -- The run is what has been looked at, and from there on the rule finds the same length.
  refine Gives.iterate (m := fun a _ => p.text.length - a.1.length)
    (I := fun a q => q = p ∧ a.1 = p.text.take a.1.length ∧ a.1.length ≤ p.text.length ∧
      symbolLengthFrom g.table a.1 a.2 (p.text.drop a.1.length) =
        symbolLengthFrom g.table [charAt p.text 0] 1 (p.text.drop 1))
    ?_ (Nat.le_trans (Nat.sub_le _ _) h₁.length_le) ⟨rfl, (take_one hpos).symm, hpos, rfl⟩ h₁
  rintro ⟨run, best⟩ q l' h' ⟨rfl, hrun, hle, hlength⟩
  dsimp only at hrun hle hlength ⊢
  rw [← hlength]
  cases hrest : q.text.drop run.length with
  | nil =>
    left
    refine (peek_reads h' (by omega)).bind fun l₂ h₂ => ?_
    -- What is looked at is the end marker, which is no symbol character.
    have hend : charAt q.text run.length = endOfInput := charAt_of_drop hrest 0
    rw [hend, isSymbolic_endOfInput, if_neg Bool.false_ne_true]
    exact .of_ok rfl h₂
  | cons c rest =>
    obtain ⟨hlt, htake, hrest'⟩ := further_of_drop hrest
    have hc : charAt q.text run.length = c := charAt_of_drop hrest 0
    have hd : charAt q.text (run.length + 1) = charAt rest 0 := charAt_of_drop hrest 1
    have hrun' : run ++ [c] = q.text.take (run.length + 1) := by rw [← htake, ← hrun]
    rw [symbolLengthFrom]
    by_cases hgoes : isSymbolic c ∧ (arrow? c (charAt rest 0)).isNone ∧
        g.table.extendsToSymbol (String.ofList (run ++ [c]))
    · refine .inr ⟨(run ++ [c], if g.table.contains (String.ofList (run ++ [c])) then
        run.length + 1 else best), q, ?_, ⟨rfl, ?_, ?_, ?_⟩, ?_⟩
      · simp only [List.length_append, List.length_singleton]
        omega
      · simpa using hrun'
      · simp only [List.length_append, List.length_singleton]
        omega
      · rw [if_pos hgoes]
        simp [hrest']
      · refine (peek_reads h' (by omega)).bind fun l₂ h₂ => ?_
        rw [hc, if_pos hgoes.1]
        refine (peek_reads h₂ (by omega)).bind fun l₃ h₃ => ?_
        rw [hd, if_neg (by simp [Option.isNone_iff_eq_none.1 hgoes.2.1])]
        refine Gives.get_bind ?_
        rw [h₃.table, if_pos hgoes.2.2, List.length_append, List.length_singleton]
        exact .of_ok rfl h₃
    · -- Of the three tests, which one fails decides how far the lexer looks.
      left
      rw [if_neg hgoes]
      refine (peek_reads h' (by omega)).bind fun l₂ h₂ => ?_
      rw [hc]
      by_cases hsymbolic : isSymbolic c = true
      · rw [if_pos hsymbolic]
        refine (peek_reads h₂ (by omega)).bind fun l₃ h₃ => ?_
        rw [hd]
        by_cases harrow : (arrow? c (charAt rest 0)).isSome = true
        · rw [if_pos harrow]
          exact .of_ok rfl h₃
        · rw [if_neg harrow]
          refine Gives.get_bind ?_
          have hextends : ¬ g.table.extendsToSymbol (String.ofList (run ++ [c])) = true :=
            fun hextends => hgoes ⟨hsymbolic, by simpa using harrow, hextends⟩
          rw [h₃.table, if_neg hextends]
          exact .of_ok rfl h₃
      · rw [if_neg hsymbolic]
        exact .of_ok rfl h₂

theorem symbolLengthFrom_le {t : Operator.Table} {run : List Char} {best : Nat}
    {text : List Char} (h : best ≤ run.length) :
    symbolLengthFrom t run best text ≤ run.length + text.length := by
  induction text generalizing run best with
  | nil =>
    rw [symbolLengthFrom]
    omega
  | cons c rest ih =>
    rw [symbolLengthFrom]
    split
    · refine Nat.le_trans (ih ?_) ?_
      · rw [List.length_append, List.length_singleton]
        split <;> omega
      · rw [List.length_append, List.length_singleton, List.length_cons]
        omega
    · omega

theorem symbol_reads (h : Reads g l p saved) (hne : p.text ≠ []) :
    let x := symbolLexeme g.table p.text
    Gives g saved (symbol p.position l) (p.token x) (p.skip x.length) := by
  intro x
  have hpos := List.length_pos_iff.2 hne
  unfold symbol
  refine (symbolLength_reads h hne).bind fun l₁ h₁ => ?_
  have hle : symbolLengthFrom g.table [charAt p.text 0] 1 (p.text.drop 1) ≤ p.text.length := by
    refine Nat.le_trans (symbolLengthFrom_le (Nat.le_refl 1)) ?_
    rw [List.length_singleton, List.length_drop]
    omega
  refine (bumps_reads h₁ hle).bind fun l₂ h₂ => ?_
  exact tokenFrom_plain h₂ .symbol rfl

/-- A token of one character, which may be the end marker where that has a role. -/
theorem single_reads (h : Reads g l p saved) (hend : g.dialect.Plain → p.text ≠ [])
    (kind : Token.Kind) :
    Gives g saved (single p.position kind l) (p.token (singleLexeme kind p.text)) (p.skip 1) := by
  unfold single
  refine (bumps_one_reads h hend).bind fun l₁ h₁ => ?_
  exact tokenFrom_reads h₁ p.position kind _

/-! ### Literals -/

/-- What a computation comes to that may fail for a reason of its own: the answer and the place,
or the error. -/
def Meets (g : Setting) (saved : List Place) (r : EStateM.Result Failure (Lexer σ) β)
    (o : Except Error (β × Place)) : Prop :=
  Run.Ends (fun a l => ∃ p, o = .ok (a, p) ∧ Reads g l p saved)
    (fun e _ => Excused g e ∨ ∃ cause, o = .error cause ∧ e = .error cause) r

theorem Gives.meets {r : EStateM.Result Failure (Lexer σ) β} (h : Gives g saved r b p) :
    Meets g saved r (.ok (b, p)) := by
  refine h.mono ?_ (fun _ _ he => .inl he)
  rintro a l ⟨rfl, hl⟩
  exact ⟨p, rfl, hl⟩

theorem Gives.bind_meets {x : Run (Lexer σ) β} {f : β → Run (Lexer σ) γ}
    {o : Except Error (γ × Place)} (hx : Gives g saved (x l) b p)
    (hf : ∀ l', Reads g l' p saved → Meets g saved' (f b l') o) :
    Meets g saved' ((x >>= f) l) o := by
  refine Run.Ends.bind hx ?_ (fun _ _ he => .inl he)
  rintro a l' ⟨rfl, h⟩
  exact hf l' h

theorem Meets.bind_ok {x : Run (Lexer σ) β} {f : β → Run (Lexer σ) γ}
    {o : Except Error (β × Place)} {o' : Except Error (γ × Place)} (hx : Meets g saved (x l) o)
    (hf : ∀ a p l', o = .ok (a, p) → Reads g l' p saved → Meets g saved' (f a l') o')
    (he : ∀ e, o = .error e → o' = .error e) : Meets g saved' ((x >>= f) l) o' := by
  refine Run.Ends.bind hx ?_ ?_
  · rintro a l' ⟨p, ho, h⟩
    exact hf a p l' ho h
  · rintro e _ (hexcused | ⟨cause, ho, rfl⟩)
    · exact .inl hexcused
    · exact .inr ⟨cause, he cause ho, rfl⟩

/-- The end of the text is consumed, or the buffer's limit run into. -/
theorem bump_end (h : Reads g l p saved) (hnil : p.text = []) :
    Run.Ends (fun a _ => a = endOfInput) (fun e _ => Excused g e) (bump l) := by
  obtain ⟨w, htracks, hmarker, hne, htotal, htext, hmarks, hplain⟩ := h.walk
  have hends := Cursor.consume_tracks htracks
  unfold bump
  rw [Run.bind_apply]
  cases hr : (Cursor.consume : Run (Cursor σ Char) Char) l.input with
  | error e c =>
    rw [onInput_error hr]
    refine Excused.of_tracks (hends.of_error hr) fun hp => ?_
    have := (hplain hp).1
    omega
  | ok a c =>
    rw [onInput_ok hr]
    obtain ⟨ha, -⟩ := hends.of_ok hr
    have hend : a = endOfInput := by
      rw [ha, ← Nat.add_zero w.position, charAt_eq_element hmarker htext, hnil, charAt_nil]
    simp only [hend, ne_eq, not_true_eq_false, if_false, Run.pure_apply]
    rfl

/-- A loop that may fail for a reason of its own. -/
theorem Meets.iterate {α : Type} {step : α → Run (Lexer σ) (Run.Round α β)}
    {bound : Lexer σ → Nat} {a : α} {o : Except Error (β × Place)} {I : α → Place → Prop}
    {m : α → Place → Nat}
    (hstep : ∀ a p l, Reads g l p saved → I a p →
      Meets g saved (step a l) (o.map fun (b, p) => (.done b, p)) ∨
        ∃ a' q, m a' q < m a p ∧ I a' q ∧ Gives g saved (step a l) (.again a') q)
    (hbound : m a p ≤ bound l) (hI : I a p) (h : Reads g l p saved) :
    Meets g saved (Run.iterate bound a step l) o := by
  have key : ∀ n a p l, m a p < n → I a p → Reads g l p saved →
      Meets g saved (Run.iterateFor step n a l) o := by
    intro n
    induction n with
    | zero => intro a p l hm; exact absurd hm (Nat.not_lt_zero _)
    | succ n ih =>
      intro a p l hm hI h
      rw [Run.iterateFor]
      rcases hstep a p l h hI with hdone | ⟨a', q, hlt, hI', hagain⟩
      · refine hdone.bind_ok ?_ ?_
        · intro r q l' ho h'
          cases o with
          | error e => cases ho
          | ok answer =>
            cases ho
            exact ⟨_, rfl, h'⟩
        · intro e ho
          cases o with
          | error e' =>
            cases ho
            rfl
          | ok answer => cases ho
      · exact hagain.bind_meets fun l' h' => ih a' q l' (by omega) hI' h'
  exact key _ a p l (by omega) hI h

/-- The content of a literal behind what has been read of it, and the place behind its closing
quote. -/
def literalRest (quote : Char) (content : List Char) (p : Place) : Option (List Char × Place) :=
  (literalFrom quote p.text).map fun (more, n) => (content.reverse ++ more, p.skip n)

theorem literalRest_nil {quote : Char} {content : List Char} (hnil : p.text = []) :
    literalRest quote content p = none := by
  rw [literalRest, hnil, literalFrom]
  rfl

theorem literalRest_of_ne {quote c : Char} {content rest : List Char} (ht : p.text = c :: rest)
    (hc : c ≠ quote) : literalRest quote content p = literalRest quote (c :: content) (p.skip 1) := by
  unfold literalRest
  rw [Place.text_skip, ht, List.drop_one, List.tail_cons, literalFrom_of_ne hc]
  cases literalFrom quote rest with
  | none => rfl
  | some answer => simp [Place.skip_skip, Nat.add_comm]

theorem literalRest_of_doubled {quote : Char} {content rest : List Char}
    (ht : p.text = quote :: quote :: rest) :
    literalRest quote content p = literalRest quote (quote :: content) (p.skip 2) := by
  unfold literalRest
  rw [Place.text_skip, ht, literalFrom_doubled]
  show _ = Option.map _ (literalFrom quote rest)
  cases literalFrom quote rest with
  | none => rfl
  | some answer => simp [Place.skip_skip, Nat.add_comm]

theorem literalRest_of_closed {quote : Char} (content : List Char) {rest : List Char}
    (ht : p.text = quote :: rest) (hnext : ∀ rest', rest ≠ quote :: rest') :
    literalRest quote content p = some (content.reverse, p.skip 1) := by
  unfold literalRest
  rw [ht, literalFrom_closed hnext]
  simp

theorem literalLoop_reads (h : Reads g l p saved) (quote : Char) (start : Position) :
    Meets g saved
      (Run.iterate remaining [] (fun content => do
        let c ← bump
        if c = endOfInput then
          Run.fail (.unterminatedLiteral start)
        else if c ≠ quote then
          return .again (c :: content)
        else if (← peek 0) = quote then
          let _ ← bump
          return .again (c :: content)
        else
          return .done content.reverse : List Char → Run (Lexer σ) (Run.Round _ (List Char))) l)
      (match literalRest quote [] p with
        | some answer => .ok answer
        | none => .error (.unterminatedLiteral start)) := by
  -- From wherever the loop has come to, with what it has read, the rule gives the same answer.
  refine Meets.iterate (m := fun _ q => q.text.length)
    (I := fun content q => literalRest quote content q = literalRest quote [] p)
    ?_ h.length_le rfl h
  intro content q l' h' hI
  cases ht : q.text with
  | nil =>
    left
    rw [← hI, literalRest_nil ht]
    refine Run.Ends.bind (bump_end h' ht) ?_ (fun _ _ he => .inl he)
    rintro _ l₁ rfl
    rw [if_pos rfl, Run.fail_apply]
    exact .inr ⟨_, rfl, rfl⟩
  | cons c rest =>
    have hne : q.text ≠ [] := by simp [ht]
    have hc : c ≠ endOfInput := h'.text_ne c (by simp [ht])
    have hbump := bump_reads h' fun _ => hne
    rw [ht, charAt_cons_zero] at hbump
    have hrest : (q.skip 1).text = rest := by simp [ht]
    by_cases hquote : c = quote
    · subst hquote
      by_cases hnext : ∃ rest', rest = c :: rest'
      · obtain ⟨rest', rfl⟩ := hnext
        refine .inr ⟨c :: content, q.skip 2, ?_, ?_, ?_⟩
        · simp only [Place.text_skip, ht, List.drop_succ_cons, List.drop_zero, List.length_cons]
          omega
        · rw [← hI, literalRest_of_doubled ht]
        · refine hbump.bind fun l₁ h₁ => ?_
          rw [if_neg hc, if_neg (by simp)]
          refine (peek_reads h₁ (Nat.zero_le _)).bind fun l₂ h₂ => ?_
          rw [hrest, charAt_cons_zero, if_pos rfl]
          refine (bump_reads h₂ fun _ => by rw [hrest]; simp).bind fun l₃ h₃ => ?_
          rw [Place.skip_skip] at h₃
          exact .of_ok rfl h₃
      · left
        have hclosed := literalRest_of_closed content ht
          (fun rest' hrest' => hnext ⟨rest', hrest'⟩)
        rw [← hI, hclosed]
        refine hbump.bind_meets fun l₁ h₁ => ?_
        rw [if_neg hc, if_neg (by simp)]
        refine (peek_reads h₁ (Nat.zero_le _)).bind_meets fun l₂ h₂ => ?_
        have hdifferent : charAt (q.skip 1).text 0 ≠ c := by
          rw [hrest]
          cases rest with
          | nil => exact hc.symm
          | cons d rest' =>
            rintro rfl
            exact hnext ⟨rest', rfl⟩
        rw [if_neg hdifferent]
        exact (Gives.of_ok rfl h₂).meets
    · refine .inr ⟨c :: content, q.skip 1, ?_, ?_, ?_⟩
      · simp [ht]
      · rw [← hI, literalRest_of_ne ht hquote]
      · refine hbump.bind fun l₁ h₁ => ?_
        rw [if_neg hc, if_pos hquote]
        exact .of_ok rfl h₁

/-- What is found where a quote stands. -/
theorem lexeme_of_quote {d : Dialect} {t : Operator.Table} {text : List Char}
    (hquote : charAt text 0 = d.quote) :
    lexeme d t text = match literalFrom d.quote (text.drop 1) with
      | some (content, n) =>
        .ok { kind := .literal, content, quote := some d.quote, length := n + 1 }
      | none => .error .unterminated := by
  cases hfrom : literalFrom d.quote (text.drop 1) with
  | none => exact (Rule.unterminated hquote hfrom).eq
  | some found => exact (Rule.literal hquote hfrom).eq

theorem literal_reads (h : Reads g l p saved) (hquote : charAt p.text 0 = g.dialect.quote) :
    Meets g saved (literal l) (p.outcome (lexeme g.dialect g.table p.text)) := by
  have hend : g.dialect.Plain → p.text ≠ [] := fun hp =>
    ne_nil_of_charAt (by rw [hquote]; exact hp.quote)
  rw [lexeme_of_quote hquote]
  generalize g.dialect.quote = quote at hquote ⊢
  unfold literal
  rw [Run.bind_apply, Run.get_apply]
  dsimp only
  rw [h.position]
  refine (bump_reads h hend).bind_meets fun l₁ h₁ => ?_
  rw [hquote]
  refine (literalLoop_reads h₁ quote p.position).bind_ok ?_ ?_
  · intro content q l₂ ho h₂
    unfold literalRest at ho
    rw [Place.text_skip] at ho
    cases hfrom : literalFrom quote (p.text.drop 1) with
    | none =>
      rw [hfrom] at ho
      cases ho
    | some answer =>
      simp only [hfrom, Option.map_some, List.reverse_nil, List.nil_append, Except.ok.injEq,
        Prod.mk.injEq] at ho
      obtain ⟨rfl, rfl⟩ := ho
      rw [Place.skip_skip, Nat.add_comm] at h₂
      refine Gives.meets (.of_ok ?_ h₂)
      rw [Run.bind_apply, Run.get_apply]
      dsimp only
      rw [Run.pure_apply, h₂.position]
      rfl
  · intro e ho
    unfold literalRest at ho
    rw [Place.text_skip] at ho
    cases hfrom : literalFrom quote (p.text.drop 1) with
    | none =>
      simp only [hfrom, Option.map_none, Except.error.injEq] at ho
      subst ho
      rfl
    | some answer =>
      rw [hfrom] at ho
      cases ho

/-! ### All rules -/

theorem Meets.ite_bind {c : Prop} [Decidable c] {x y : Run (Lexer σ) γ}
    {k : γ → Run (Lexer σ) β} {o : Except Error (β × Place)}
    (h : Meets g saved (((if c then x else y) >>= k) l) o) :
    Meets g saved ((if c then x >>= k else y >>= k) l) o := by
  split <;> simp_all

/-- An answer that ends a loop. -/
theorem Meets.map_done {α : Type} {x : Run (Lexer σ) β} {o : Except Error (β × Place)}
    (hx : Meets g saved (x l) o) :
    Meets g saved ((x >>= fun b => pure (.done b) : Run (Lexer σ) (Run.Round α β)) l)
      (o.map fun (b, p) => (.done b, p)) := by
  refine hx.bind_ok ?_ ?_
  · rintro b p l' rfl h
    exact (Gives.of_ok rfl h).meets
  · rintro e rfl
    rfl

theorem Gives.done {α : Type} {x : Run (Lexer σ) β} (hx : Gives g saved (x l) b p) :
    Meets g saved ((x >>= fun b => pure (.done b) : Run (Lexer σ) (Run.Round α β)) l)
      (.ok (.done b, p)) :=
  hx.meets.map_done

/-- A dialect gives the end marker no role, so that where a role is, there is text. -/
theorem ne_nil_of_role {c : Char} (hc : charAt p.text 0 = c) (hrole : g.dialect.Plain → c ≠ endOfInput) :
    g.dialect.Plain → p.text ≠ [] := fun hp =>
  ne_nil_of_charAt (by rw [hc]; exact hrole hp)

theorem arrow?_some {c d : Char} {kind : Token.Kind} (h : arrow? c d = some kind) :
    d ≠ endOfInput := by
  unfold arrow? at h
  split at h
  · next hc =>
    rw [hc.2]
    decide
  · split at h
    · next hc =>
      rw [hc.2]
      decide
    · cases h

theorem punctuation_reads (h : Reads g l p saved) (hbreak : charAt p.text 0 = '\n' →
      g.dialect.isBlank '\n' = true → g.dialect.breaksPlainly = false)
    (hquote : charAt p.text 0 ≠ g.dialect.quote) :
    Meets g saved (punctuation (charAt p.text 0) p.position l)
      ((p.outcome (punctuationLexeme g.dialect g.table p.text)).map fun (b, q) => (.done b, q)) := by
  unfold punctuation punctuationLexeme
  rw [Run.bind_apply, Run.get_apply]
  dsimp only
  rw [h.dialect]
  refine (peek_reads h (by omega)).bind_meets fun l₁ h₁ => ?_
  cases harrow : arrow? (charAt p.text 0) (charAt p.text 1) with
  | some kind =>
    have hlength := length_pos_of_charAt (arrow?_some harrow)
    refine Gives.bind_meets (bumps_reads h₁ (n := 2) (by omega)) fun l₂ h₂ => ?_
    exact (tokenFrom_plain h₂ kind rfl).done
  | none =>
  dsimp only
  cases hopening : g.dialect.opening? (charAt p.text 0) with
  | some container =>
    have hend : g.dialect.Plain → p.text ≠ [] := fun hp => ne_nil_of_charAt fun hc => by
      rw [hc, hp.opening] at hopening
      cases hopening
    exact (single_reads h₁ hend _).done
  | none =>
  dsimp only
  cases hclosing : g.dialect.closing? (charAt p.text 0) with
  | some container =>
    have hend : g.dialect.Plain → p.text ≠ [] := fun hp => ne_nil_of_charAt fun hc => by
      rw [hc, hp.closing] at hclosing
      cases hclosing
    exact (single_reads h₁ hend _).done
  | none =>
  dsimp only
  by_cases hexecutor : charAt p.text 0 = g.dialect.executor
  · rw [if_pos hexecutor, if_pos hexecutor]
    exact (single_reads h₁ (ne_nil_of_role hexecutor fun hp => hp.executor) _).done
  by_cases hseparator : charAt p.text 0 = g.dialect.separator
  · rw [if_neg hexecutor, if_neg hexecutor, if_pos hseparator, if_pos hseparator]
    exact (single_reads h₁ (ne_nil_of_role hseparator fun hp => hp.separator) _).done
  by_cases hnewline : charAt p.text 0 = '\n'
  · -- A line break that gets here has no role, and so it has been skipped before.
    have hblank : g.dialect.isBlank '\n' = true := by
      rw [hnewline] at hexecutor hseparator
      have htext : Text.isBlank '\n' = true := by decide
      simp [Dialect.isBlank, htext, hexecutor, hseparator]
    have hplainly : g.dialect.breaksPlainly = true := by
      rw [hnewline] at hopening hclosing hquote
      simp [Dialect.breaksPlainly, hopening, hclosing, hquote.symm]
    rw [hbreak hnewline hblank] at hplainly
    cases hplainly
  rw [if_neg hexecutor, if_neg hexecutor, if_neg hseparator, if_neg hseparator, if_neg hnewline]
  by_cases hend : charAt p.text 0 = endOfInput
  · rw [if_pos hend, if_pos hend]
    exact (Gives.of_ok rfl h₁).meets
  rw [if_neg hend, if_neg hend]
  by_cases hsymbolic : isSymbolic (charAt p.text 0) = true
  · rw [if_pos hsymbolic, if_pos hsymbolic]
    exact (symbol_reads h₁ (ne_nil_of_charAt hend)).done
  · rw [if_neg hsymbolic, if_neg hsymbolic, Run.fail_apply]
    exact .inr ⟨_, rfl, rfl⟩

/-- A line break that is nothing but a blank is skipped with all blanks behind it. -/
theorem punctuation_break (h : Reads g l p saved) (hbreak : charAt p.text 0 = '\n')
    (hblank : g.dialect.isBlank '\n' = true) (hplainly : g.dialect.breaksPlainly = true) :
    Gives g saved (punctuation (charAt p.text 0) p.position l) (.again ())
      (p.skip (1 + runLength g.dialect.isBlank (p.text.drop 1))) := by
  simp only [Dialect.isBlank, Dialect.breaksPlainly, Bool.and_eq_true, decide_eq_true_eq,
    Option.isNone_iff_eq_none] at hblank hplainly
  obtain ⟨⟨-, hopening⟩, hclosing⟩ := hplainly
  obtain ⟨⟨-, hexecutor⟩, hseparator⟩ := hblank
  have harrow (c : Char) : arrow? '\n' c = none := by simp [arrow?]
  unfold punctuation
  rw [hbreak]
  refine Gives.get_bind ?_
  rw [h.dialect]
  refine (peek_reads h (by omega)).bind fun l₁ h₁ => ?_
  rw [harrow]
  dsimp only
  rw [hopening]
  dsimp only
  rw [hclosing]
  dsimp only
  rw [if_neg hexecutor, if_neg hseparator, if_pos rfl]
  have hne : p.text ≠ [] := ne_nil_of_charAt (by rw [hbreak]; decide)
  refine (bump_reads h₁ fun _ => hne).bind fun l₂ h₂ => ?_
  refine (takeRun_reads h₂ (isBlank_endOfInput g.dialect)).bind fun l₃ h₃ => ?_
  rw [Place.skip_skip] at h₃
  exact .of_ok rfl h₃

theorem skips_eq_true_iff (d : Dialect) (c : Char) : d.skips c = true ↔
    c ≠ '\n' ∧ d.isBlank c = true ∨ c = '\n' ∧ d.isBlank '\n' = true ∧ d.breaksPlainly = true := by
  by_cases hc : c = '\n' <;> simp [Dialect.skips, hc]

/-- A round of scanning skips a blank, or a line break with all blanks behind it. -/
theorem scanRound_blank (h : Reads g l p saved)
    (hskips : g.dialect.skips (charAt p.text 0) = true) :
    ∃ n, 0 < n ∧ n ≤ p.text.length ∧ (∀ c ∈ p.text.take n, g.dialect.skips c = true) ∧
      Gives g saved (scanRound () l) (.again ()) (p.skip n) := by
  unfold scanRound
  rcases (skips_eq_true_iff _ _).1 hskips with hblank | ⟨hbreak, hisBlank, hplainly⟩
  · have hend : charAt p.text 0 ≠ endOfInput := by
      intro hc
      rw [hc, isBlank_endOfInput] at hblank
      exact Bool.false_ne_true hblank.2
    have hlength := length_pos_of_charAt hend
    refine ⟨1, Nat.one_pos, hlength, ?_, ?_⟩
    · rw [take_one hlength]
      simp [hskips]
    · refine (peek_reads h (Nat.zero_le _)).bind fun l₁ h₁ => ?_
      refine Gives.get_bind (Gives.get_bind ?_)
      rw [h₁.dialect, if_pos hblank]
      exact (bump_reads h₁ fun _ => ne_nil_of_charAt hend).bind fun l₂ h₂ => .of_ok rfl h₂
  · have hblank : ¬ (charAt p.text 0 ≠ '\n' ∧ g.dialect.isBlank (charAt p.text 0) = true) :=
      fun hand => hand.1 hbreak
    have hlength := length_pos_of_charAt (show charAt p.text 0 ≠ endOfInput by rw [hbreak]; decide)
    have hrun : runLength g.dialect.isBlank (p.text.drop 1) ≤ p.text.length - 1 := by
      rw [← List.length_drop]
      exact (List.takeWhile_prefix _).length_le
    refine ⟨1 + runLength g.dialect.isBlank (p.text.drop 1), by omega, by omega, ?_, ?_⟩
    · intro c hc
      rw [List.take_add, take_one hlength, take_runLength, hbreak, List.mem_append,
        List.mem_singleton] at hc
      have hc : g.dialect.isBlank c = true := by
        rcases hc with rfl | hc
        · exact hisBlank
        · exact of_mem_takeWhile hc
      simp [Dialect.skips, hc, hplainly]
    · have hquote : charAt p.text 0 ≠ g.dialect.quote := by
        simp only [Dialect.breaksPlainly, Bool.and_eq_true, decide_eq_true_eq] at hplainly
        rw [hbreak]
        exact Ne.symm hplainly.1.1
      refine (peek_reads h (Nat.zero_le _)).bind fun l₁ h₁ => ?_
      refine Gives.get_bind (Gives.get_bind ?_)
      rw [h₁.dialect, h₁.position, if_neg hblank, if_neg hquote, if_neg (by rw [hbreak]; decide)]
      refine Gives.ite_bind ((probe_reads h₁ (iff_of_false Bool.false_ne_true ?_)).bind
        fun l₂ h₂ => ?_)
      · rw [hbreak]
        rintro ⟨hsign, -⟩
        revert hsign
        decide
      · have hname : isNameStart (charAt p.text 0) = false := by
          rw [hbreak]
          rfl
        dsimp only
        rw [if_neg Bool.false_ne_true, hname, if_neg Bool.false_ne_true]
        exact punctuation_break h₂ hbreak hisBlank hplainly

/-- A round of scanning finds what stands at its place, where that is not skipped. -/
theorem scanRound_token (h : Reads g l p saved)
    (hskips : g.dialect.skips (charAt p.text 0) = false) :
    Meets g saved (scanRound () l)
      ((p.next g.dialect g.table).map fun (b, q) => (.done b, q)) := by
  have hnone := mt (skips_eq_true_iff g.dialect (charAt p.text 0)).2 (Bool.eq_false_iff.1 hskips)
  obtain ⟨hblank, hbreak⟩ := not_or.1 hnone
  unfold scanRound
  rw [Place.next_of_not_skips hskips]
  refine (peek_reads h (Nat.zero_le _)).bind_meets fun l₁ h₁ => ?_
  rw [Run.bind_apply, Run.get_apply]
  dsimp only
  rw [Run.bind_apply, Run.get_apply]
  dsimp only
  rw [h₁.dialect, h₁.position, if_neg hblank]
  by_cases hquote : charAt p.text 0 = g.dialect.quote
  · rw [if_pos hquote]
    exact (literal_reads h₁ hquote).map_done
  rw [if_neg hquote]
  unfold lexeme
  rw [if_neg hquote]
  by_cases hdigit : (charAt p.text 0).isDigit = true
  · rw [if_pos hdigit, if_pos hdigit]
    exact (number_reads h₁).done
  rw [if_neg hdigit, if_neg hdigit]
  by_cases hsigned : (charAt p.text 0 = '@' ∨ charAt p.text 0 = '#') ∧
      isNameStart (charAt p.text 1) = true
  · refine Meets.ite_bind ((probe_reads h₁ (iff_of_true rfl hsigned)).bind_meets fun l₂ h₂ => ?_)
    rw [if_pos rfl, if_pos hsigned]
    have hlength := length_pos_of_charAt (ne_endOfInput_of_isNameStart hsigned.2)
    refine (bumps_reads h₂ (n := 1) (by omega)).bind_meets fun l₃ h₃ => ?_
    have hne : (p.skip 1).text ≠ [] :=
      List.ne_nil_of_length_pos (by rw [Place.text_skip, List.length_drop]; omega)
    exact (identifier_reads h₃ hne).done
  · refine Meets.ite_bind ((probe_reads h₁ (iff_of_false Bool.false_ne_true hsigned)).bind_meets
      fun l₂ h₂ => ?_)
    rw [if_neg Bool.false_ne_true, if_neg hsigned]
    by_cases hname : isNameStart (charAt p.text 0) = true
    · rw [if_pos hname, if_pos hname]
      have hne := ne_nil_of_charAt (ne_endOfInput_of_isNameStart hname)
      exact (identifier_reads (n := 0) h₂ hne).done
    · rw [if_neg hname, if_neg hname]
      refine punctuation_reads h₂ ?_ hquote
      intro hc hisBlank
      cases hplainly : g.dialect.breaksPlainly with
      | false => rfl
      | true => exact absurd ⟨hc, hisBlank, hplainly⟩ hbreak

/-- One round of scanning skips blanks or finds what stands at its place. -/
theorem scanRound_reads (h : Reads g l p saved) :
    Meets g saved (scanRound () l)
        ((p.next g.dialect g.table).map fun (b, q) => (.done b, q)) ∨
      ∃ n, 0 < n ∧ n ≤ p.text.length ∧ (∀ c ∈ p.text.take n, g.dialect.skips c = true) ∧
        Gives g saved (scanRound () l) (.again ()) (p.skip n) := by
  cases hskips : g.dialect.skips (charAt p.text 0) with
  | false => exact .inl (scanRound_token h hskips)
  | true => exact .inr (scanRound_blank h hskips)

theorem scan_reads (h : Reads g l p saved) :
    Meets g saved (scan l) (p.next g.dialect g.table) := by
  unfold scan
  refine Meets.iterate (m := fun _ q => q.text.length)
    (I := fun _ q => q.next g.dialect g.table = p.next g.dialect g.table) ?_ h.length_le rfl h
  rintro ⟨⟩ q l' h' hI
  rcases scanRound_reads h' with hdone | ⟨n, hpos, hle, hskips, hagain⟩
  · left
    rw [← hI]
    exact hdone
  · refine .inr ⟨(), q.skip n, ?_, (Place.next_skip hskips).trans hI, hagain⟩
    rw [Place.text_skip, List.length_drop]
    omega

/-- **The lexer follows its rules.** The next token is the next one of the place where the lexer
is, and then the lexer is behind it. -/
theorem next_reads (h : Reads g l p saved) :
    Meets g saved (next l) (p.next g.dialect g.table) := by
  unfold next
  refine (scan_reads h).bind_ok ?_ (fun _ he => he)
  intro token q l₁ ho h₁
  rw [ho]
  simp only [Run.bind_apply, Run.modify_apply, Run.pure_apply]
  exact Gives.meets (.of_ok rfl ⟨h₁.dialect, h₁.table, h₁.position, h₁.positions, h₁.walk⟩)

end Basics

end Dataflow.Lexer
