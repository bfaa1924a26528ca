import Dataflow.Proofs.Scanning

/-!
# Dataflow.Proofs.Twins

**Two lexers on the same text**, over whatever sources and with whatever buffers. As long as neither
of them meets a bound, they do the same: the same tokens and errors, the same positions, the same
counts.

* `Twin` — the lexers are at the same character of the same text;
* `Concur`, `Agree` — how two runs end together, and computations that always do. Every rule of the
  lexer looks at the text through `peek` and `bump` only, so that `Agree` goes through its code as it
  stands, and no rule has to be understood for it;
* `next_agree` — the same next token. That no loop runs out of rounds is left to `next_reads`
  (`Twin.next_not_stalled`).

What is said of errors goes as far as what is said of tokens: behind them, too, the lexers are twins.
-/

namespace Dataflow.Lexer

open Reading Text

variable {σ τ α β γ : Type} [Supply σ Char] [Supply τ Char]

/-- The lexers are at the same character of the same text, with so many places to go back to, and tell
the same of it. -/
structure Twin (stream : List Char) (depth : Nat) (l : Lexer σ) (l' : Lexer τ) : Prop where
  dialect : l'.dialect = { l.dialect with limits := l'.dialect.limits }
  table : l'.table = l.table
  position : l'.position = l.position
  saved : l'.saved = l.saved
  depth_eq : l.saved.length = depth
  statistics : l'.statistics = l.statistics
  walk : ∃ w : Walk Char, w.elements = stream ∧ w.endMarker = endOfInput ∧ w.marks.length = depth ∧
    l.input.Tracks l.dialect.limits w ∧ l'.input.Tracks l'.dialect.limits w

/-- How two runs end together, if no bound is met. Errors are found where there is nothing to go back
to. -/
inductive Concur (stream : List Char) (Q : β → Lexer σ → Lexer τ → Prop) :
    EStateM.Result Failure (Lexer σ) β → EStateM.Result Failure (Lexer τ) β → Prop
  | answer {b : β} {l : Lexer σ} {l' : Lexer τ} (h : Q b l l') : Concur stream Q (.ok b l) (.ok b l')
  | failure {e : Failure} {l : Lexer σ} {l' : Lexer τ} (h : Twin stream 0 l l') :
    Concur stream Q (.error e l) (.error e l')
  | first {e : Failure} {l : Lexer σ} {r : EStateM.Result Failure (Lexer τ) β} (h : e.MeetsBound) :
    Concur stream Q (.error e l) r
  | second {e : Failure} {l' : Lexer τ} {r : EStateM.Result Failure (Lexer σ) β}
    (h : e.MeetsBound) : Concur stream Q r (.error e l')

/-- The computations do the same on twins, which then have so many places to go back to. -/
def Agree (stream : List Char) (depth depth' : Nat) (x : Run (Lexer σ) β) (x' : Run (Lexer τ) β) :
    Prop :=
  ∀ l l', Twin stream depth l l' → Concur stream (fun _ => Twin stream depth') (x l) (x' l')

variable {stream : List Char} {i j k : Nat}

namespace Agree

theorem pure (b : β) :
    Agree stream i i (Pure.pure b : Run (Lexer σ) β) (Pure.pure b : Run (Lexer τ) β) :=
  fun _ _ h => .answer h

theorem fail (e : Error) :
    Agree stream 0 i (Run.fail e : Run (Lexer σ) β) (Run.fail e : Run (Lexer τ) β) :=
  fun _ _ h => .failure h

theorem bind {x : Run (Lexer σ) β} {x' : Run (Lexer τ) β} {f : β → Run (Lexer σ) γ}
    {f' : β → Run (Lexer τ) γ} (hx : Agree stream i j x x') (hf : ∀ b, Agree stream j k (f b) (f' b)) :
    Agree stream i k (x >>= f) (x' >>= f') := by
  intro l l' h
  have hx := hx l l' h
  rw [Run.bind_apply, Run.bind_apply]
  generalize x l = r at hx
  generalize x' l' = r' at hx
  cases hx with
  | answer h => exact hf _ _ _ h
  | failure h => exact .failure h
  | first h => exact .first h
  | second h => exact .second h

theorem map {x : Run (Lexer σ) β} {x' : Run (Lexer τ) β} (hx : Agree stream i j x x') (f : β → γ) :
    Agree stream i j (f <$> x) (f <$> x') := by
  rw [map_eq_pure_bind, map_eq_pure_bind]
  exact hx.bind fun b => .pure (f b)

theorem ite {P : Prop} [Decidable P] {x y : Run (Lexer σ) β} {x' y' : Run (Lexer τ) β}
    (hx : Agree stream i j x x') (hy : Agree stream i j y y') :
    Agree stream i j (if P then x else y) (if P then x' else y') := by
  by_cases hP : P
  · rw [if_pos hP, if_pos hP]
    exact hx
  · rw [if_neg hP, if_neg hP]
    exact hy

/-- The bounds of loops may differ. -/
theorem iterate {step : α → Run (Lexer σ) (Run.Round α β)} {step' : α → Run (Lexer τ) (Run.Round α β)}
    (hstep : ∀ a, Agree stream i i (step a) (step' a)) (bound : Lexer σ → Nat) (bound' : Lexer τ → Nat) (a : α) :
    Agree stream i i (Run.iterate bound a step) (Run.iterate bound' a step') := by
  have hrounds : ∀ rounds rounds' a, Agree stream i i (Run.iterateFor step rounds a)
      (Run.iterateFor step' rounds' a) := by
    intro rounds
    induction rounds with
    | zero => exact fun rounds' a l l' _ => .first (.inl rfl)
    | succ rounds ih =>
      intro rounds' a
      cases rounds' with
      | zero => exact fun l l' _ => .second (.inl rfl)
      | succ rounds' =>
        unfold Run.iterateFor
        refine (hstep a).bind fun round => ?_
        cases round with
        | again a => exact ih rounds' a
        | done b => exact .pure b
  exact fun l l' h => hrounds _ _ a l l' h

/-- Twins may be asked for what they share. -/
theorem get {f : Lexer σ → Run (Lexer σ) β} {f' : Lexer τ → Run (Lexer τ) β}
    (hf : ∀ l l', Twin stream i l l' → Agree stream i j (f l) (f' l')) :
    Agree stream i j (MonadState.get >>= f) (MonadState.get >>= f') :=
  fun l l' h => hf l l' h l l' h

end Agree

/-- Nothing but the limits tells the dialects of twins apart. -/
theorem Twin.role {l : Lexer σ} {l' : Lexer τ} (h : Twin stream i l l') {A : Type} (f : Dialect → A)
    (hf : ∀ (d : Dialect) limits, f { d with limits } = f d) : f l'.dialect = f l.dialect := by
  rw [h.dialect, hf]

/-! ### Single steps -/

theorem peek_agree (k : Nat) : Agree stream i i (peek k : Run (Lexer σ) Char) (peek k : Run (Lexer τ) Char) := by
  intro l l' h
  obtain ⟨w, htext, hend, hdepth, hw, hw'⟩ := h.walk
  have hends := Cursor.lookahead_tracks hw k
  have hends' := Cursor.lookahead_tracks hw' k
  unfold peek
  cases hr : (Cursor.lookahead k : Run (Cursor σ Char) Char) l.input with
  | error e c =>
    rw [onInput_error hr]
    exact .first (.inr (hends.of_error hr).1)
  | ok a c =>
    cases hr' : (Cursor.lookahead k : Run (Cursor τ Char) Char) l'.input with
    | error e c' =>
      rw [onInput_error hr']
      exact .second (.inr (hends'.of_error hr').1)
    | ok a' c' =>
      obtain ⟨rfl, hc⟩ := hends.of_ok hr
      obtain ⟨rfl, hc'⟩ := hends'.of_ok hr'
      rw [onInput_ok hr, onInput_ok hr']
      exact .answer ⟨h.dialect, h.table, h.position, h.saved, h.depth_eq, h.statistics, w, htext, hend, hdepth,
        hc, hc'⟩

theorem bump_agree : Agree stream i i (bump : Run (Lexer σ) Char) (bump : Run (Lexer τ) Char) := by
  intro l l' h
  obtain ⟨w, htext, hend, hdepth, hw, hw'⟩ := h.walk
  have hends := Cursor.consume_tracks hw
  have hends' := Cursor.consume_tracks hw'
  unfold bump
  rw [Run.bind_apply, Run.bind_apply]
  cases hr : (Cursor.consume : Run (Cursor σ Char) Char) l.input with
  | error e c =>
    rw [onInput_error hr]
    exact .first (.inr (hends.of_error hr).1)
  | ok a c =>
    cases hr' : (Cursor.consume : Run (Cursor τ Char) Char) l'.input with
    | error e c' =>
      rw [onInput_error hr']
      exact .second (.inr (hends'.of_error hr').1)
    | ok a' c' =>
      obtain ⟨rfl, hc⟩ := hends.of_ok hr
      obtain ⟨rfl, hc'⟩ := hends'.of_ok hr'
      rw [onInput_ok hr, onInput_ok hr']
      dsimp only
      by_cases hlast : w.element w.position = endOfInput
      · rw [if_neg fun hne => hne hlast, if_neg fun hne => hne hlast]
        exact .answer ⟨h.dialect, h.table, h.position, h.saved, h.depth_eq, h.statistics, w.advance,
          htext, hend, hdepth, hc, hc'⟩
      · rw [if_pos hlast, if_pos hlast]
        refine .answer ⟨h.dialect, h.table, ?_, h.saved, h.depth_eq, ?_, w.advance, htext, hend, hdepth,
          hc, hc'⟩
        · exact congrArg (Position.advance · _) h.position
        · show { l'.statistics with characters := l'.statistics.characters + 1 } = _
          rw [h.statistics]

theorem bumps_agree (n : Nat) :
    Agree stream i i (bumps n : Run (Lexer σ) (List Char)) (bumps n : Run (Lexer τ) (List Char)) := by
  induction n with
  | zero => exact .pure []
  | succ n ih => exact bump_agree.bind fun c => ih.bind fun cs => .pure (c :: cs)

theorem takeRun_agree (inClass : Char → Bool) :
    Agree stream i i (takeRun inClass : Run (Lexer σ) (List Char)) (takeRun inClass : Run (Lexer τ) _) := by
  refine .iterate (fun taken => (peek_agree 0).bind fun c => ?_) _ _ []
  exact .ite (bump_agree.bind fun c => .pure _) (.pure _)

theorem tokenFrom_agree (start : Position) (kind : Token.Kind) (text : List Char) :
    Agree stream i i (tokenFrom start kind text : Run (Lexer σ) Token)
      (tokenFrom start kind text : Run (Lexer τ) Token) := by
  refine .get fun l l' h => ?_
  rw [h.position]
  exact .pure _

theorem single_agree (start : Position) (kind : Token.Kind) :
    Agree stream i i (single start kind : Run (Lexer σ) Token) (single start kind : Run (Lexer τ) Token) :=
  (bumps_agree 1).bind fun text => tokenFrom_agree start kind text

/-! ### Marks -/

theorem mark_agree :
    Agree stream i (i + 1) (mark : Run (Lexer σ) Unit) (mark : Run (Lexer τ) Unit) := by
  intro l l' h
  obtain ⟨w, htext, hend, hdepth, hw, hw'⟩ := h.walk
  obtain ⟨c, hmark, hc⟩ := Cursor.mark_tracks hw
  obtain ⟨c', hmark', hc'⟩ := Cursor.mark_tracks hw'
  unfold mark
  rw [Run.bind_apply, Run.bind_apply, onInput_ok hmark, onInput_ok hmark']
  refine .answer ⟨h.dialect, h.table, h.position, ?_, congrArg (· + 1) h.depth_eq, h.statistics,
    { w with marks := w.position :: w.marks }, htext, hend, congrArg (· + 1) hdepth, hc, hc'⟩
  exact congr (congrArg List.cons h.position) h.saved

theorem commit_agree :
    Agree stream (i + 1) i (commit : Run (Lexer σ) Unit) (commit : Run (Lexer τ) Unit) := by
  intro l l' h
  obtain ⟨w, htext, hend, hdepth, hw, hw'⟩ := h.walk
  obtain ⟨m, outer, hm⟩ := List.exists_cons_of_length_eq_add_one hdepth
  rw [hm, List.length_cons, Nat.add_right_cancel_iff] at hdepth
  obtain ⟨c, hcommit, hc⟩ := Cursor.commit_tracks hw hm
  obtain ⟨c', hcommit', hc'⟩ := Cursor.commit_tracks hw' hm
  unfold commit
  rw [Run.bind_apply, Run.bind_apply, onInput_ok hcommit, onInput_ok hcommit']
  refine .answer ⟨h.dialect, h.table, h.position, congrArg List.tail h.saved, ?_, h.statistics,
    { w with marks := outer }, htext, hend, hdepth, hc, hc'⟩
  exact List.length_tail.trans (congrArg (· - 1) h.depth_eq)

theorem rollback_agree :
    Agree stream (i + 1) i (rollback : Run (Lexer σ) Unit) (rollback : Run (Lexer τ) Unit) := by
  intro l l' h
  obtain ⟨w, htext, hend, hdepth, hw, hw'⟩ := h.walk
  obtain ⟨m, outer, hm⟩ := List.exists_cons_of_length_eq_add_one hdepth
  rw [hm, List.length_cons, Nat.add_right_cancel_iff] at hdepth
  obtain ⟨c, hrollback, hc⟩ := Cursor.rollback_tracks hw hm
  obtain ⟨c', hrollback', hc'⟩ := Cursor.rollback_tracks hw' hm
  unfold rollback
  rw [Run.bind_apply, Run.bind_apply, onInput_ok hrollback, onInput_ok hrollback']
  refine .answer ⟨h.dialect, h.table, ?_, congrArg List.tail h.saved, ?_, ?_,
    { w with position := m, marks := outer }, htext, hend, hdepth, hc, hc'⟩
  · show l'.saved.head?.getD l'.position = l.saved.head?.getD l.position
    rw [h.saved, h.position]
  · exact List.length_tail.trans (congrArg (· - 1) h.depth_eq)
  · show { l'.statistics with rollbacks := l'.statistics.rollbacks + 1 } = _
    rw [h.statistics]

/-! ### What is seen of a lexer -/

/-- What is seen of a lexer that is asked for a token: the token or the error, and where it then is and
what it has counted. -/
structure Answer where
  result : Except Failure Token
  position : Position
  statistics : Statistics

/-- What is seen of a lexer that is asked for `n` tokens, whether or not there are errors. -/
def answers {σ : Type} [Source σ Char] : (n : Nat) → Lexer σ → List Answer
  | 0, _ => []
  | n + 1, l =>
    match next l with
    | .ok token l => ⟨.ok token, l.position, l.statistics⟩ :: answers n l
    | .error e l => ⟨.error e, l.position, l.statistics⟩ :: answers n l

/-- One of the answers is that a buffer would have to grow past its limit. -/
def Exceeds (seen : List Answer) : Prop :=
  ∃ a ∈ seen, ∃ requested limit, a.result = .error (.error (.capacityExceeded requested limit))

instance (seen : List Answer) : Decidable (Exceeds seen) :=
  inferInstanceAs (Decidable (∃ a ∈ seen, _))

theorem Exceeds.cons {seen : List Answer} (h : Exceeds seen) (a : Answer) : Exceeds (a :: seen) := by
  obtain ⟨a', hmem, ha'⟩ := h
  exact ⟨a', List.mem_cons_of_mem a hmem, ha'⟩

theorem exceeds_of_bound {e : Failure} (h : e.MeetsBound) (hstalled : e ≠ .stalled)
    (position : Position) (statistics : Statistics) (seen : List Answer) :
    Exceeds (⟨.error e, position, statistics⟩ :: seen) := by
  obtain ⟨requested, limit, rfl⟩ := h.resolve_left hstalled
  exact ⟨_, List.mem_cons_self, requested, limit, rfl⟩

/-! ### Rules -/

theorem literal_agree : Agree stream 0 0 (literal : Run (Lexer σ) Token) (literal : Run (Lexer τ) Token) := by
  refine .get fun l l' h => ?_
  rw [h.position]
  refine bump_agree.bind fun quote => ?_
  refine Agree.bind (.iterate (fun content => ?_) _ _ []) fun content => ?_
  · refine bump_agree.bind fun c => .ite (.fail _) (.ite (.pure _) ?_)
    refine (peek_agree 0).bind fun c' => .ite ?_ (.pure _)
    exact bump_agree.bind fun _ => .pure _
  · refine .get fun l l' h => ?_
    rw [h.position]
    exact .pure _

theorem exponent_agree :
    Agree stream 0 0 (exponent : Run (Lexer σ) (List Char)) (exponent : Run (Lexer τ) (List Char)) := by
  refine .get fun l l' h => ?_
  rw [h.role Dialect.numerals fun _ _ => rfl]
  refine mark_agree.bind fun _ => bump_agree.bind fun marker => (peek_agree 0).bind fun c => ?_
  refine .ite ((bumps_agree 1).bind ?digits) (?digits [])
  intro sign
  refine (peek_agree 0).bind fun c => .ite ?_ (rollback_agree.bind fun _ => .pure _)
  exact (takeRun_agree _).bind fun digits => commit_agree.bind fun _ => .pure _

theorem number_agree : Agree stream 0 0 (number : Run (Lexer σ) Token) (number : Run (Lexer τ) Token) := by
  refine .get fun l l' h => .get fun l₁ l₁' h₁ => ?_
  rw [h.position, h₁.role Dialect.numerals fun _ _ => rfl]
  refine (takeRun_agree _).bind fun whole => (peek_agree 0).bind fun c => ?_
  refine .ite (((peek_agree 1).map _).bind ?token) (?token false)
  intro fractional
  refine .ite ?_ (tokenFrom_agree _ _ _)
  refine bump_agree.bind fun separator => (takeRun_agree _).bind fun fraction => ?_
  refine (peek_agree 0).bind fun c => ?_
  exact .ite (exponent_agree.bind fun power => tokenFrom_agree _ _ _) (tokenFrom_agree _ _ _)

theorem namePart_agree :
    Agree stream i i (namePart : Run (Lexer σ) (List Char)) (namePart : Run (Lexer τ) (List Char)) :=
  bump_agree.bind fun _ => (takeRun_agree _).bind fun _ => .pure _

theorem dottedParts_agree :
    Agree stream i i (dottedParts : Run (Lexer σ) (List Char)) (dottedParts : Run (Lexer τ) (List Char)) := by
  refine .iterate (fun parts => (peek_agree 0).bind fun c => ?_) _ _ []
  refine .ite (((peek_agree 1).map _).bind ?part) (?part false)
  intro dotted
  exact .ite (bump_agree.bind fun dot => namePart_agree.bind fun part => .pure _) (.pure _)

theorem identifier_agree (start : Position) (sign : List Char) :
    Agree stream i i (identifier start sign : Run (Lexer σ) Token)
      (identifier start sign : Run (Lexer τ) Token) :=
  namePart_agree.bind fun _ => dottedParts_agree.bind fun _ => tokenFrom_agree _ _ _

theorem symbolLength_agree :
    Agree stream i i (symbolLength : Run (Lexer σ) Nat) (symbolLength : Run (Lexer τ) Nat) := by
  refine (peek_agree 0).bind fun first => .iterate ?_ _ _ ([first], 1)
  rintro ⟨run, best⟩
  refine (peek_agree _).bind fun c => .ite ?_ (.pure _)
  refine (peek_agree _).bind fun c' => .ite (.pure _) (.get fun l l' h => ?_)
  rw [h.table]
  exact .ite (.pure _) (.pure _)

theorem symbol_agree (start : Position) :
    Agree stream i i (symbol start : Run (Lexer σ) Token) (symbol start : Run (Lexer τ) Token) :=
  symbolLength_agree.bind fun n => (bumps_agree n).bind fun _ => tokenFrom_agree _ _ _

theorem punctuation_agree (c : Char) (start : Position) :
    Agree stream 0 0 (punctuation c start : Run (Lexer σ) (Run.Round Unit Token))
      (punctuation c start : Run (Lexer τ) (Run.Round Unit Token)) := by
  refine .get fun l l' h => (peek_agree 1).bind fun c' => ?_
  cases arrow? c c' with
  | some kind =>
    exact (bumps_agree 2).bind fun _ => (tokenFrom_agree _ _ _).bind fun _ => .pure _
  | none =>
  dsimp only
  rw [h.role (fun d => d.opening? c) fun _ _ => rfl]
  cases l.dialect.opening? c with
  | some container => exact (single_agree _ _).bind fun token => .pure _
  | none =>
  dsimp only
  rw [h.role (fun d => d.closing? c) fun _ _ => rfl]
  cases l.dialect.closing? c with
  | some container => exact (single_agree _ _).bind fun token => .pure _
  | none =>
  dsimp only
  rw [h.role Dialect.executor fun _ _ => rfl, h.role Dialect.separator fun _ _ => rfl,
    h.role Dialect.isBlank fun _ _ => rfl]
  refine .ite ((single_agree _ _).bind fun token => .pure _) ?_
  refine .ite ((single_agree _ _).bind fun token => .pure _) ?_
  refine .ite (bump_agree.bind fun _ => (takeRun_agree _).bind fun _ => .pure _) ?_
  exact .ite (.pure _) (.ite ((symbol_agree _).bind fun token => .pure _) (.fail _))

theorem scanRound_agree : Agree stream 0 0 (scanRound () : Run (Lexer σ) (Run.Round Unit Token))
    (scanRound () : Run (Lexer τ) (Run.Round Unit Token)) := by
  refine (peek_agree 0).bind fun c => .get fun l l' h => .get fun l₁ l₁' h₁ => ?_
  dsimp only
  rw [h.position, h₁.role Dialect.isBlank fun _ _ => rfl, h₁.role Dialect.quote fun _ _ => rfl]
  refine .ite (bump_agree.bind fun _ => .pure _) ?_
  refine .ite (literal_agree.bind fun token => .pure _) ?_
  refine .ite (number_agree.bind fun token => .pure _) ?_
  refine .ite (((peek_agree 1).map _).bind ?name) (?name false)
  intro signed
  refine .ite ((bumps_agree 1).bind fun sign => (identifier_agree _ _).bind fun token => .pure _) ?_
  exact .ite ((identifier_agree _ _).bind fun token => .pure _) (punctuation_agree _ _)

/-- **Twins scan the same**, if no bound is met. -/
theorem next_agree : Agree stream 0 0 (next : Run (Lexer σ) Token) (next : Run (Lexer τ) Token) := by
  refine (Agree.iterate (fun _ => scanRound_agree) _ _ ()).bind fun token l l' h => ?_
  refine .answer ⟨h.dialect, h.table, h.position, h.saved, h.depth_eq, ?_, h.walk⟩
  show { l'.statistics with tokens := l'.statistics.tokens + 1 } = _
  rw [h.statistics]

/-! ### Tokens in a row -/

section Stalls

variable {l : Lexer σ} {l' : Lexer τ}

theorem Twin.symm (h : Twin stream i l l') : Twin stream i l' l := by
  obtain ⟨w, htext, hend, hdepth, hw, hw'⟩ := h.walk
  exact {
    dialect := by rw [h.dialect]
    table := h.table.symm
    position := h.position.symm
    saved := h.saved.symm
    depth_eq := (congrArg List.length h.saved).trans h.depth_eq
    statistics := h.statistics.symm
    walk := ⟨w, htext, hend, hdepth, hw', hw⟩ }

/-- No loop runs out of rounds. -/
theorem Twin.next_not_stalled (h : Twin stream 0 l l') (hne : ∀ c ∈ stream, c ≠ endOfInput)
    (t : Lexer σ) : next l ≠ .error .stalled t := by
  obtain ⟨w, rfl, hend, hdepth, hw, -⟩ := h.walk
  have hmarks := List.length_eq_zero_iff.1 hdepth
  have hreads : Reads ⟨max w.elements.length w.position, l.dialect, l.table⟩ l
      ⟨w.elements.drop w.position, l.position⟩ [] := {
    dialect := rfl
    table := rfl
    position := rfl
    positions := List.length_eq_zero_iff.1 h.depth_eq
    walk := ⟨w, hw, hend, hne, Nat.le_max_left _ _, rfl, by rw [hmarks]; rfl,
      fun _ => ⟨Nat.le_max_right _ _, by simp [hmarks]⟩⟩ }
  have hmeets := next_reads hreads
  intro hstalled
  rw [hstalled] at hmeets
  obtain ⟨⟨_, _, hexceeded⟩, -⟩ | ⟨cause, -, hcause⟩ := hmeets
  · cases hexceeded
  · cases hcause

end Stalls

/-- **Twins answer the same**, as often as they are asked. -/
theorem answers_eq {l : Lexer σ} {l' : Lexer τ} (h : Twin stream 0 l l')
    (hne : ∀ c ∈ stream, c ≠ endOfInput) (n : Nat) :
    Exceeds (answers n l) ∨ Exceeds (answers n l') ∨ answers n l = answers n l' := by
  induction n generalizing l l' with
  | zero => exact .inr (.inr rfl)
  | succ n ih =>
    have hnext := next_agree l l' h
    have hstalled := h.next_not_stalled hne
    have hstalled' := h.symm.next_not_stalled hne
    unfold answers
    generalize next l = r at hnext hstalled
    generalize next l' = r' at hnext hstalled'
    cases hnext with
    | answer ht =>
      dsimp only
      rw [ht.position, ht.statistics]
      exact (ih ht).imp (·.cons _) (Or.imp (·.cons _) (congrArg _))
    | failure ht =>
      dsimp only
      rw [ht.position, ht.statistics]
      exact (ih ht).imp (·.cons _) (Or.imp (·.cons _) (congrArg _))
    | first he =>
      refine .inl (exceeds_of_bound he ?_ _ _ _)
      rintro rfl
      exact hstalled _ rfl
    | second he =>
      refine .inr (.inl (exceeds_of_bound he ?_ _ _ _))
      rintro rfl
      exact hstalled' _ rfl

/-- Lexers at the start of the same text are twins. -/
theorem twin_ofSource {source : σ} {source' : τ} (hsource : Supply.Delivers source stream)
    (hsource' : Supply.Delivers source' stream) (hmarker : Source.endMarker source = endOfInput)
    (hmarker' : Source.endMarker source' = endOfInput) (d : Dialect) (limits limits' : Limits)
    (table : Operator.Table) :
    Twin stream 0 (ofSource source { d with limits } table)
      (ofSource source' { d with limits := limits' } table) where
  dialect := rfl
  table := rfl
  position := rfl
  saved := rfl
  depth_eq := rfl
  statistics := rfl
  walk := by
    have hw := Cursor.tracks_ofSource hsource limits
    have hw' := Cursor.tracks_ofSource hsource' limits'
    rw [hmarker] at hw
    rw [hmarker'] at hw'
    exact ⟨_, rfl, rfl, rfl, hw, hw'⟩

end Dataflow.Lexer
