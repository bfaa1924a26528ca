import Dataflow.Lexer.Scan
import Dataflow.Proofs.Holding

/-!
# Dataflow.Proofs.LexerMemory

**A lexer in bounded memory.** Between two tokens a lexer has no marks, and within a token it looks
ahead by a registered symbol at most, and back over an exponent at most. So the buffer is too small
only for a symbol or an exponent that is too long, however long the text and its tokens are.

* `Bounds` — how long these may be, and `Bounds.Fit` — the limits that go with them;
* `Outgrows` — a lexer has met a symbol or an exponent that is longer;
* `Calm` — what holds of a lexer without marks. Every rule keeps it (`Run.Leads`), and fails for lack
  of room only where the bounds are outgrown;
* `exponent_leads` — the one rule that sets a mark. A separator has been consumed right before the
  fraction and the exponent, so that no drop is due then, and little is behind the mark.
-/

namespace Dataflow

open Reading Text

/-- How long some parts of a text are at most. -/
structure Bounds where
  /-- The tokens of a run of names and separators at the start of a statement. -/
  targets : Nat
  /-- The characters of a registered symbol. -/
  symbol : Nat
  /-- The characters of an exponent. -/
  exponent : Nat

/-- Under these limits a buffer has room for what the bounds allow. -/
structure Bounds.Fit (b : Bounds) (l : Limits) : Prop where
  exponent : 2 ≤ b.exponent
  room : 4 * l.effectiveInitial + 4 + max b.targets (max b.exponent b.symbol) ≤ l.ceiling

namespace Lexer

/-- An exponent: a marker, a sign or none, and digits. -/
def Numerals.IsExponent (n : Numerals) (text : List Char) : Prop :=
  ∃ marker sign digits, text = marker :: sign ++ digits ∧ n.isExponentMarker marker = true ∧
    (sign = [] ∨ sign = [n.negative] ∨ sign = ['+']) ∧ digits ≠ [] ∧ ∀ c ∈ digits, c.isDigit = true

variable {σ β : Type}

/-- The lexer has met a symbol that is longer than the bounds allow, or an exponent. -/
def Outgrows (b : Bounds) (l : Lexer σ) : Prop :=
  (∃ symbol ∈ l.table.symbols, b.symbol < symbol.length) ∨
    l.dialect.numerals.IsExponent l.input.heldBack ∧ b.exponent < l.input.heldBack.length

/-- If a buffer is too small, that is for something that outgrows the bounds. -/
def Blames (b : Bounds) (e : Failure) (l : Lexer σ) : Prop := e.Exceeded → l.Outgrows b

variable [Supply σ Char] {b : Bounds} {d : Dialect} {settled : Bool}

/-- The source goes on delivering. -/
def Delivering (s : σ) : Prop := ∃ elements, Supply.Delivers s elements

/-- A lexer without marks, for which no drop is due if it is settled. -/
structure Calm (d : Dialect) (settled : Bool) (l : Lexer σ) : Prop where
  dialect : l.dialect = d
  input : l.input.Sound Delivering d.limits
  marks : l.input.marks = []
  settled : settled = true → l.input.Settled

/-- A lexer with one mark, from which `held` has been consumed. -/
structure Trying (d : Dialect) (held : List Char) (l : Lexer σ) : Prop where
  dialect : l.dialect = d
  input : l.input.Spans Delivering d.limits held

theorem calm_ofSource {source : σ} (h : Delivering source) (d : Dialect) (t : Operator.Table)
    (settled : Bool) : Calm d settled (ofSource source d t) where
  dialect := rfl
  input := Cursor.sound_ofSource h d.limits
  marks := rfl
  settled _ := Cursor.settled_ofSource source d.limits

theorem Calm.weaken {l : Lexer σ} (h : Calm d true l) (settled : Bool) : Calm d settled l :=
  ⟨h.dialect, h.input, h.marks, fun _ => h.settled rfl⟩

theorem Calm.register {l : Lexer σ} (h : Calm d settled l) (op : Operator) :
    Calm d settled (l.register op).2 :=
  ⟨h.dialect, h.input, h.marks, h.settled⟩

omit [Supply σ Char] in
theorem blames_stalled (b : Bounds) (l : Lexer σ) : Blames b .stalled l := by
  rintro ⟨_, _, he⟩
  cases he

omit [Supply σ Char] in
theorem fail_leads {P : Lexer σ → Prop} {Q : β → Lexer σ → Prop} {e : Error}
    (he : ∀ requested limit, e ≠ .capacityExceeded requested limit) :
    Run.Leads (Blames b) P Q (Run.fail e : Run (Lexer σ) β) := by
  rintro l - ⟨requested, limit, heq⟩
  cases heq
  exact absurd rfl (he requested limit)

/-! ### Steps without marks -/

/-- Looking ahead is refused only if what is asked for does not fit under the ceiling. -/
theorem peek_ends {l : Lexer σ} (h : Calm d settled l) (k : Nat) :
    Run.Ends
      (fun c l' => Calm d settled l' ∧ l'.table = l.table ∧ (k = 0 → l'.input.next? = some c))
      (fun e l' => l'.table = l.table ∧ (e.Exceeded → d.limits.ceiling < k + 1)) (peek k l) := by
  have hlook := h.input.lookahead_free Supply.feeds h.marks k
  unfold peek
  cases hr : (Cursor.lookahead k : Run (Cursor σ Char) Char) l.input with
  | error e input =>
    rw [onInput_error hr]
    exact ⟨rfl, fun hexceeded => (hlook.of_error hr hexceeded).resolve_left id⟩
  | ok c input =>
    rw [onInput_ok hr]
    obtain ⟨hsound, hstays, hnext⟩ := hlook.of_ok hr
    exact ⟨⟨h.dialect, hsound, hstays.marks.trans h.marks, fun hs => hstays.settled (h.settled hs)⟩,
      rfl, hnext⟩

theorem peek_leads (hfit : b.Fit d.limits) {k : Nat} (hk : k ≤ 1) :
    Run.Leads (Blames b) (Calm d settled) (fun _ => Calm d settled) (peek k : Run (Lexer σ) Char) := by
  intro l h
  refine (peek_ends h k).mono (fun _ _ ha => ha.1) ?_
  rintro e l' ⟨-, he⟩ hexceeded
  have := he hexceeded
  have := hfit.room
  omega

/-- The character that has been looked at is at the cursor. -/
theorem peek_facing (hfit : b.Fit d.limits) :
    Run.Leads (Blames b) (Calm d settled) (fun c l => Calm d settled l ∧ l.input.next? = some c)
      (peek 0 : Run (Lexer σ) Char) := by
  intro l h
  refine ((peek_ends h 0).and (peek_leads hfit (Nat.zero_le 1) l h)).mono ?_ fun _ _ he => he.2
  rintro c l' ⟨⟨hcalm, -, hnext⟩, -⟩
  exact ⟨hcalm, hnext rfl⟩

theorem bump_leads (hfit : b.Fit d.limits) :
    Run.Leads (Blames b) (Calm d settled) (fun _ => Calm d true) (bump : Run (Lexer σ) Char) := by
  intro l h
  have hconsume := h.input.consume_free Supply.feeds h.marks
  unfold bump
  rw [Run.bind_apply]
  cases hr : (Cursor.consume : Run (Cursor σ Char) Char) l.input with
  | error e input =>
    rw [onInput_error hr]
    intro hexceeded
    have := (hconsume.of_error hr hexceeded).resolve_left id
    have := hfit.room
    omega
  | ok c input =>
    rw [onInput_ok hr]
    obtain ⟨hsound, hadvances⟩ := hconsume.of_ok hr
    have hcalm : Calm d true { l with input } :=
      ⟨h.dialect, hsound, hadvances.marks.trans h.marks, fun _ => hadvances.settled h.marks⟩
    dsimp only
    split
    · exact ⟨hcalm.dialect, hcalm.input, hcalm.marks, hcalm.settled⟩
    · exact hcalm

/-- What is consumed without marks leaves the lexer calm. -/
theorem bump_keeps (hfit : b.Fit d.limits) :
    Run.Leads (Blames b) (Calm d settled) (fun _ => Calm d settled) (bump : Run (Lexer σ) Char) :=
  (bump_leads hfit).mono (fun _ h => h) fun _ _ h => h.weaken settled

theorem bumps_leads (hfit : b.Fit d.limits) (n : Nat) :
    Run.Leads (Blames b) (Calm d settled) (fun _ => Calm d settled)
      (bumps n : Run (Lexer σ) (List Char)) := by
  induction n with
  | zero => exact .pure []
  | succ n ih => exact (bump_keeps hfit).bind fun c => ih.bind fun cs => .pure (c :: cs)

theorem takeRun_leads (hfit : b.Fit d.limits) (inClass : Char → Bool) :
    Run.Leads (Blames b) (Calm d settled) (fun _ => Calm d settled)
      (takeRun inClass : Run (Lexer σ) (List Char)) := by
  refine .iterate _ _ (fun taken => (peek_leads hfit (Nat.zero_le 1)).bind fun c => ?_)
    (blames_stalled b)
  exact .ite ((bump_keeps hfit).bind fun c => .pure _) (.pure _)

omit [Supply σ Char] in
theorem tokenFrom_leads {P : Lexer σ → Prop} (start : Position) (kind : Token.Kind)
    (text : List Char) :
    Run.Leads (Blames b) P (fun _ => P) (tokenFrom start kind text : Run (Lexer σ) Token) :=
  .get fun _ _ => .pure _

theorem single_leads (hfit : b.Fit d.limits) (start : Position) (kind : Token.Kind) :
    Run.Leads (Blames b) (Calm d settled) (fun _ => Calm d settled)
      (single start kind : Run (Lexer σ) Token) :=
  (bumps_leads hfit 1).bind fun text => tokenFrom_leads start kind text

/-! ### Steps under a mark -/

/-- What is held back is part of an exponent. -/
def Numerals.Allows (n : Numerals) (b : Bounds) (held : List Char) : Prop :=
  held.length ≤ b.exponent ∨ n.IsExponent held

omit [Supply σ Char] in
/-- A refusal under a mark is to blame on the exponent that is held back. -/
theorem blames_of_overruns (hfit : b.Fit d.limits) {held : List Char}
    (hheld : d.numerals.Allows b held) {e : Failure} {l : Lexer σ} (hdialect : l.dialect = d)
    (h : e.Exceeded → False ∨ l.input.heldBack = held ∧ l.input.Overruns d.limits) : Blames b e l := by
  intro hexceeded
  obtain ⟨hback, hoverruns⟩ := (h hexceeded).resolve_left id
  have hroom := hfit.room
  rw [Cursor.Overruns, hback] at hoverruns
  have hlong : b.exponent < held.length := by
    simp only [contextRadius] at hoverruns
    omega
  right
  rw [hdialect, hback]
  exact ⟨hheld.resolve_left (Nat.not_le.2 hlong), hlong⟩

theorem mark_leads (c : Char) :
    Run.Leads (Blames b) (fun l => Calm d true l ∧ l.input.next? = some c)
      (fun _ l => Trying d [] l ∧ l.input.next? = some c) (mark : Run (Lexer σ) Unit) := by
  rintro l ⟨h, hnext⟩
  obtain ⟨input, hmark, hspans, hsame⟩ := h.input.mark h.marks (h.settled rfl)
  unfold mark
  rw [Run.bind_apply, onInput_ok hmark]
  exact ⟨⟨h.dialect, hspans⟩, hsame.trans hnext⟩

variable {held : List Char}

theorem peek_trying (hfit : b.Fit d.limits) (hheld : d.numerals.Allows b held) :
    Run.Leads (Blames b) (Trying d held) (fun c l => Trying d held l ∧ l.input.next? = some c)
      (peek 0 : Run (Lexer σ) Char) := by
  intro l h
  have hlook := h.input.peek Supply.feeds
  unfold peek
  cases hr : (Cursor.lookahead 0 : Run (Cursor σ Char) Char) l.input with
  | error e input =>
    rw [onInput_error hr]
    exact blames_of_overruns hfit hheld h.dialect (hlook.of_error hr)
  | ok c input =>
    rw [onInput_ok hr]
    obtain ⟨hspans, hnext⟩ := hlook.of_ok hr
    exact ⟨⟨h.dialect, hspans⟩, hnext⟩

/-- The character that has been looked at is consumed. -/
theorem bump_trying (hfit : b.Fit d.limits) (hheld : d.numerals.Allows b held) (c : Char) :
    Run.Leads (Blames b) (fun l => Trying d held l ∧ l.input.next? = some c)
      (fun a l => a = c ∧ Trying d (held ++ [c]) l) (bump : Run (Lexer σ) Char) := by
  rintro l ⟨h, hnext⟩
  have hconsume := h.input.consume Supply.feeds
  unfold bump
  rw [Run.bind_apply]
  cases hr : (Cursor.consume : Run (Cursor σ Char) Char) l.input with
  | error e input =>
    rw [onInput_error hr]
    exact blames_of_overruns hfit hheld h.dialect (hconsume.of_error hr)
  | ok a input =>
    rw [onInput_ok hr]
    obtain ⟨hspans, hsame⟩ := hconsume.of_ok hr
    obtain rfl := hsame c hnext
    dsimp only
    split <;> exact ⟨rfl, h.dialect, hspans⟩

theorem bumps_trying (hfit : b.Fit d.limits) (hheld : d.numerals.Allows b held) (c : Char) :
    Run.Leads (Blames b) (fun l => Trying d held l ∧ l.input.next? = some c)
      (fun cs l => cs = [c] ∧ Trying d (held ++ [c]) l) (bumps 1 : Run (Lexer σ) (List Char)) := by
  refine (bump_trying hfit hheld c).bind fun a => ?_
  rintro l ⟨rfl, h⟩
  exact ⟨rfl, h⟩

theorem commit_leads : Run.Leads (Blames b) (Trying d held) (fun _ => Calm d false)
    (commit : Run (Lexer σ) Unit) := by
  intro l h
  obtain ⟨input, hcommit, hsound, hmarks⟩ := h.input.commit
  unfold commit
  rw [Run.bind_apply, onInput_ok hcommit]
  exact ⟨h.dialect, hsound, hmarks, nofun⟩

theorem rollback_leads : Run.Leads (Blames b) (Trying d held) (fun _ => Calm d false)
    (rollback : Run (Lexer σ) Unit) := by
  intro l h
  obtain ⟨input, hrollback, hsound, hmarks⟩ := h.input.rollback
  unfold rollback
  rw [Run.bind_apply, onInput_ok hrollback]
  exact ⟨h.dialect, hsound, hmarks, nofun⟩

/-- A marker and a sign, and any digits behind them, are part of an exponent. -/
theorem Numerals.allows_digits (hfit : b.Fit d.limits) {marker : Char} {sign digits : List Char}
    (hmarker : d.numerals.isExponentMarker marker = true)
    (hsign : sign = [] ∨ sign = [d.numerals.negative] ∨ sign = ['+'])
    (hdigits : ∀ c ∈ digits, c.isDigit = true) :
    d.numerals.Allows b (marker :: sign ++ digits) := by
  cases digits with
  | nil =>
    have := hfit.exponent
    left
    rcases hsign with rfl | rfl | rfl <;> simp <;> omega
  | cons c digits => exact .inr ⟨marker, sign, c :: digits, rfl, hmarker, hsign, by simp, hdigits⟩

theorem digits_trying (hfit : b.Fit d.limits) {marker : Char} {sign : List Char}
    (hmarker : d.numerals.isExponentMarker marker = true)
    (hsign : sign = [] ∨ sign = [d.numerals.negative] ∨ sign = ['+']) :
    Run.Leads (Blames b) (Trying d (marker :: sign))
      (fun digits => Trying d (marker :: sign ++ digits))
      (takeRun Char.isDigit : Run (Lexer σ) (List Char)) := by
  intro l h
  refine Run.Ends.iterate (I := fun taken l => (∀ c ∈ taken, c.isDigit = true) ∧
    Trying d (marker :: sign ++ taken.reverse) l) ?_ (blames_stalled b) ⟨by simp, by simpa using h⟩
  rintro taken l ⟨hdigits, h⟩
  have hallows : d.numerals.Allows b (marker :: sign ++ taken.reverse) :=
    Numerals.allows_digits hfit hmarker hsign (by simpa using hdigits)
  refine (peek_trying hfit hallows l h).bind (fun c l₁ h₁ => ?_) fun _ _ he => he
  split
  · next hc =>
    refine (bump_trying hfit hallows c l₁ h₁).bind ?_ fun _ _ he => he
    rintro a l₂ ⟨rfl, h₂⟩
    refine ⟨?_, ?_⟩
    · intro c' hc'
      rcases List.mem_cons.1 hc' with rfl | hc'
      · exact hc
      · exact hdigits c' hc'
    · rw [List.reverse_cons, ← List.append_assoc]
      exact h₂
  · exact h₁.1

/-- **An exponent** is tried where no drop is due. -/
theorem exponent_leads (hfit : b.Fit d.limits) {marker : Char}
    (hmarker : d.numerals.isExponentMarker marker = true) :
    Run.Leads (Blames b) (fun l => Calm d true l ∧ l.input.next? = some marker)
      (fun _ => Calm d false) (exponent : Run (Lexer σ) (List Char)) := by
  have hnone : d.numerals.Allows b [] := .inl (Nat.zero_le _)
  have hsome : d.numerals.Allows b [marker] := by
    have := hfit.exponent
    exact .inl (by simp; omega)
  refine .get fun l h => ?_
  rw [h.1.dialect]
  refine (mark_leads marker).bind fun _ => (bump_trying hfit hnone marker).bind fun a => ?_
  rintro l₁ ⟨rfl, h₁⟩
  -- The rest, behind the sign.
  have hrest : ∀ sign, (sign = [] ∨ sign = [d.numerals.negative] ∨ sign = ['+']) →
      Run.Leads (Blames b) (Trying d (a :: sign)) (fun _ => Calm d false) (do
        if (← peek 0).isDigit then
          let digits ← takeRun Char.isDigit
          commit
          return a :: sign ++ digits
        else
          rollback
          return [] : Run (Lexer σ) (List Char)) := by
    intro sign hsign
    have hallows : d.numerals.Allows b (a :: sign ++ []) :=
      Numerals.allows_digits hfit hmarker hsign (by simp)
    rw [List.append_nil] at hallows
    refine (peek_trying hfit hallows).bind fun c => .ite ?_ ?_
    · refine ((digits_trying hfit hmarker hsign).mono (fun _ h => h.1) fun _ _ h => h).bind
        fun digits => commit_leads.bind fun _ => .pure _
    · exact (rollback_leads.mono (fun _ h => h.1) fun _ _ h => h).bind fun _ => .pure _
  refine (peek_trying hfit hsome l₁ h₁).bind (fun c l₂ h₂ => ?_) fun _ _ he => he
  split
  · next hc =>
    refine (bumps_trying hfit hsome c l₂ h₂).bind ?_ fun _ _ he => he
    rintro _ l₃ ⟨rfl, h₃⟩
    refine hrest [c] ?_ l₃ h₃
    rcases hc with rfl | rfl
    · exact .inr (.inl rfl)
    · exact .inr (.inr rfl)
  · exact hrest [] (.inl rfl) l₂ h₂.1

/-! ### Rules -/

theorem number_leads (hfit : b.Fit d.limits) :
    Run.Leads (Blames b) (Calm d false) (fun _ => Calm d false)
      (number : Run (Lexer σ) Token) := by
  refine .get fun l hl => .get fun l₁ hl₁ => ?_
  rw [hl₁.dialect]
  refine (takeRun_leads hfit _).bind fun whole => (peek_leads hfit (Nat.zero_le 1)).bind fun c => ?_
  refine .ite (((peek_leads hfit (Nat.le_refl 1)).map _).bind ?token) (?token false)
  intro fractional
  refine .ite ?_ (tokenFrom_leads _ _ _)
  refine (bump_leads hfit).bind fun separator => (takeRun_leads hfit _).bind fun fraction => ?_
  refine (peek_facing hfit).bind fun c => ?_
  split
  · next hc => exact (exponent_leads hfit hc).bind fun power => tokenFrom_leads _ _ _
  · exact (tokenFrom_leads _ _ _).mono (fun _ h => h.1.weaken false) fun _ _ h => h

theorem literal_leads (hfit : b.Fit d.limits) :
    Run.Leads (Blames b) (Calm d false) (fun _ => Calm d false) (literal : Run (Lexer σ) Token) := by
  refine .get fun l hl => (bump_keeps hfit).bind fun quote => ?_
  refine Run.Leads.bind (.iterate _ _ (fun content => ?_) (blames_stalled b)) fun content =>
    .get fun _ _ => .pure _
  refine (bump_keeps hfit).bind fun c => .ite (fail_leads nofun) (.ite (.pure _) ?_)
  refine (peek_leads hfit (Nat.zero_le 1)).bind fun c' => .ite ?_ (.pure _)
  exact (bump_keeps hfit).bind fun _ => .pure _

theorem namePart_leads (hfit : b.Fit d.limits) :
    Run.Leads (Blames b) (Calm d false) (fun _ => Calm d false)
      (namePart : Run (Lexer σ) (List Char)) :=
  (bump_keeps hfit).bind fun _ => (takeRun_leads hfit _).bind fun _ => .pure _

theorem dottedParts_leads (hfit : b.Fit d.limits) :
    Run.Leads (Blames b) (Calm d false) (fun _ => Calm d false)
      (dottedParts : Run (Lexer σ) (List Char)) := by
  refine .iterate _ _ (fun parts => (peek_leads hfit (Nat.zero_le 1)).bind fun c => ?_)
    (blames_stalled b)
  refine .ite (((peek_leads hfit (Nat.le_refl 1)).map _).bind ?part) (?part false)
  intro dotted
  exact .ite ((bump_keeps hfit).bind fun dot => (namePart_leads hfit).bind fun part => .pure _)
    (.pure _)

theorem identifier_leads (hfit : b.Fit d.limits) (start : Position) (sign : List Char) :
    Run.Leads (Blames b) (Calm d false) (fun _ => Calm d false)
      (identifier start sign : Run (Lexer σ) Token) :=
  (namePart_leads hfit).bind fun _ => (dottedParts_leads hfit).bind fun _ => tokenFrom_leads _ _ _

/-- The lexer has looked at so much of a symbol. A run of more than one character begins a registered
one. -/
def Seeking (d : Dialect) (run : List Char) (l : Lexer σ) : Prop :=
  Calm d false l ∧ (run.length ≤ 1 ∨ l.table.extendsToSymbol (String.ofList run) = true)

theorem peek_seeking (hfit : b.Fit d.limits) {run : List Char} {k : Nat} (hk : k ≤ run.length + 1) :
    Run.Leads (Blames b) (Seeking d run) (fun _ => Seeking d run) (peek k : Run (Lexer σ) Char) := by
  have hroom := hfit.room
  rintro l ⟨h, hrun⟩
  refine (peek_ends h k).mono ?_ ?_
  · rintro c l' ⟨h', htable, -⟩
    exact ⟨h', by rw [htable]; exact hrun⟩
  · rintro e l' ⟨htable, he⟩ hexceeded
    have := he hexceeded
    rcases hrun with hshort | hextends
    · omega
    · unfold Operator.Table.extendsToSymbol at hextends
      obtain ⟨symbol, hmem, hbegins⟩ := List.any_eq_true.1 hextends
      have hlength := (List.isPrefixOf_iff_prefix.1 hbegins).length_le
      rw [String.toList_ofList, String.length_toList] at hlength
      exact .inl ⟨symbol, by rw [htable]; exact hmem, by omega⟩

/-- **A symbol** is looked for as far as a registered one goes. -/
theorem symbolLength_leads (hfit : b.Fit d.limits) :
    Run.Leads (Blames b) (Calm d false) (fun _ => Calm d false)
      (symbolLength : Run (Lexer σ) Nat) := by
  refine (peek_leads hfit (Nat.zero_le 1)).bind fun first l h => ?_
  refine Run.Ends.iterate (I := fun (found : List Char × Nat) (l : Lexer σ) => Seeking d found.1 l)
    ?_ (blames_stalled b) ⟨h, .inl (Nat.le_refl 1)⟩
  rintro ⟨run, best⟩ l h
  refine (peek_seeking hfit (Nat.le_succ _) l h).bind (fun c l₁ h₁ => ?_) fun _ _ he => he
  split
  · refine (peek_seeking hfit (Nat.le_refl _) l₁ h₁).bind (fun c' l₂ h₂ => ?_) fun _ _ he => he
    split
    · exact h₂.1
    · rw [Run.bind_apply, Run.get_apply]
      dsimp only
      split
      · next hextends => exact ⟨h₂.1, .inr hextends⟩
      · exact h₂.1
  · exact h₁.1

theorem symbol_leads (hfit : b.Fit d.limits) (start : Position) :
    Run.Leads (Blames b) (Calm d false) (fun _ => Calm d false)
      (symbol start : Run (Lexer σ) Token) :=
  (symbolLength_leads hfit).bind fun n => (bumps_leads hfit n).bind fun _ => tokenFrom_leads _ _ _

theorem punctuation_leads (hfit : b.Fit d.limits) (c : Char) (start : Position) :
    Run.Leads (Blames b) (Calm d false) (fun _ => Calm d false)
      (punctuation c start : Run (Lexer σ) (Run.Round Unit Token)) := by
  refine .get fun l hl => (peek_leads hfit (Nat.le_refl 1)).bind fun c' => ?_
  split
  · exact (bumps_leads hfit 2).bind fun _ => (tokenFrom_leads _ _ _).bind fun _ => .pure _
  split
  · exact (single_leads hfit _ _).bind fun token => .pure _
  split
  · exact (single_leads hfit _ _).bind fun token => .pure _
  refine .ite ((single_leads hfit _ _).bind fun token => .pure _) ?_
  refine .ite ((single_leads hfit _ _).bind fun token => .pure _) ?_
  refine .ite ((bump_keeps hfit).bind fun _ => (takeRun_leads hfit _).bind fun _ => .pure _) ?_
  exact .ite (.pure _) (.ite ((symbol_leads hfit _).bind fun token => .pure _) (fail_leads nofun))

theorem scanRound_leads (hfit : b.Fit d.limits) :
    Run.Leads (Blames b) (Calm d false) (fun _ => Calm d false)
      (scanRound () : Run (Lexer σ) (Run.Round Unit Token)) := by
  refine (peek_leads hfit (Nat.zero_le 1)).bind fun c => .get fun l hl => .get fun l₁ hl₁ => ?_
  refine .ite ((bump_keeps hfit).bind fun _ => .pure _) ?_
  refine .ite ((literal_leads hfit).bind fun token => .pure _) ?_
  refine .ite ((number_leads hfit).bind fun token => .pure _) ?_
  refine .ite (((peek_leads hfit (Nat.le_refl 1)).map _).bind ?name) (?name false)
  intro signed
  refine .ite ((bumps_leads hfit 1).bind fun sign => (identifier_leads hfit _ _).bind fun token =>
    .pure _) ?_
  exact .ite ((identifier_leads hfit _ _).bind fun token => .pure _) (punctuation_leads hfit _ _)

/-- **A token** takes no more room than the bounds allow. -/
theorem next_leads (hfit : b.Fit d.limits) :
    Run.Leads (Blames b) (Calm d false) (fun _ => Calm d false) (next : Run (Lexer σ) Token) := by
  refine Run.Leads.bind (.iterate _ _ (fun _ => scanRound_leads hfit) (blames_stalled b))
    fun token l h => ?_
  exact ⟨h.dialect, h.input, h.marks, h.settled⟩

theorem nexts_leads (hfit : b.Fit d.limits) (n : Nat) :
    Run.Leads (Blames b) (Calm d false) (fun tokens l => tokens.length = n ∧ Calm d false l)
      (nexts n : Run (Lexer σ) (List Token)) := by
  induction n with
  | zero => exact fun l h => ⟨rfl, h⟩
  | succ n ih =>
    refine (next_leads hfit).bind fun token => ih.bind fun tokens l h => ?_
    exact ⟨congrArg (· + 1) h.1, h.2⟩

/-- A lexer hands out as many tokens as it is asked for, at once. -/
theorem readFully_leads (hfit : b.Fit d.limits) (n : Nat) :
    Run.Leads (Blames b) (Calm d false) (fun tokens l => tokens.length ≤ n ∧ Calm d false l)
      (Source.readFully n : Run (Lexer σ) (List Token)) := by
  have hportions : ∀ portions wanted, Run.Leads (Blames b) (Calm d false)
      (fun tokens l => tokens.length ≤ wanted ∧ Calm d false l)
      (Source.readPortions portions wanted : Run (Lexer σ) (List Token)) := by
    intro portions
    induction portions with
    | zero => exact fun wanted l h => ⟨Nat.zero_le _, h⟩
    | succ portions ih =>
      intro wanted
      unfold Source.readPortions
      split
      · exact fun l h => ⟨Nat.zero_le _, h⟩
      refine Run.Leads.bind (nexts_leads hfit wanted) fun portion l h => ?_
      obtain ⟨hlength, hcalm⟩ := h
      split
      · exact ⟨Nat.zero_le _, hcalm⟩
      · refine (ih (wanted - portion.length) l hcalm).bind (fun rest l' h' => ?_) fun _ _ he => he
        refine ⟨?_, h'.2⟩
        rw [List.length_append, hlength]
        have := h'.1
        omega
  exact hportions n n

/-- A lexer is a source of tokens that fails for lack of room only where the bounds are outgrown. -/
theorem feeds (hfit : b.Fit d.limits) :
    Feeds (fun l : Lexer σ => Calm d false l) (Blames b) := readFully_leads hfit

end Lexer

end Dataflow
