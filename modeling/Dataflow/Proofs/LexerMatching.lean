import Dataflow.Lexer.Scan
import Dataflow.Proofs.Matching

/-!
# Dataflow.Proofs.LexerMatching

**Two lexers side by side.** The rules of a lexer look at the text by `peek` and `bump` only, and try by
`mark`, `commit` and `rollback`; beyond that they know the roles of characters, the operators and the
position. If that keeps two lexers related (`Lexer.Respected`), scanning does, whatever the relation is.
There is one lemma for each rule, in the order of the code.

The relation may depend on how many places there are to go back to. A rule that fails does so where there
is none. A property of a single lexer is the relation of two lexers that are the same and have it
(`Lexer.Has`).
-/

/-- What a lexer finds wrong with the text itself. -/
def Dataflow.Error.isLexical : Dataflow.Error → Bool
  | .unexpectedCharacter .. | .unterminatedLiteral _ => true
  | _ => false

namespace Dataflow.Lexer

open Reading Text

variable {σ τ α β : Type} [Source σ Char] [Source τ Char]

/-- The lexer with one more token counted. -/
def tally {σ : Type} (l : Lexer σ) : Lexer σ :=
  { l with statistics := { l.statistics with tokens := l.statistics.tokens + 1 } }

/-- All that a lexer is made of keeps lexers related by `R`, with so many places to go back to. -/
structure Respected (k : Run.Tolerance (Lexer σ) (Lexer τ)) (R : Nat → Lexer σ → Lexer τ → Prop) :
    Prop where
  peek (i n : Nat) : Run.Matches k (R i) (fun _ => R i) (peek n) (peek n)
  bump (i : Nat) : Run.Matches k (R i) (fun _ => R i) bump bump
  mark (i : Nat) : Run.Matches k (R i) (fun _ => R (i + 1)) mark mark
  commit (i : Nat) : Run.Matches k (R (i + 1)) (fun _ => R i) commit commit
  rollback (i : Nat) : Run.Matches k (R (i + 1)) (fun _ => R i) rollback rollback
  tally {l : Lexer σ} {l' : Lexer τ} : R 0 l l' → R 0 l.tally l'.tally
  dialect {i : Nat} {l : Lexer σ} {l' : Lexer τ} :
    R i l l' → l'.dialect = { l.dialect with limits := l'.dialect.limits }
  table {i : Nat} {l : Lexer σ} {l' : Lexer τ} : R i l l' → l'.table = l.table
  position {i : Nat} {l : Lexer σ} {l' : Lexer τ} : R i l l' → l'.position = l.position
  rounds (i : Nat) : k.excused .stalled ∨
    ∀ l l', R i l l' → l'.remaining = l.remaining ∧ k.alike .stalled .stalled l l'
  failed {l : Lexer σ} {l' : Lexer τ} :
    R 0 l l' → ∀ e : Error, e.isLexical = true → k.alike (.error e) (.error e) l l'

variable {k : Run.Tolerance (Lexer σ) (Lexer τ)} {R : Nat → Lexer σ → Lexer τ → Prop}

/-- A computation keeps lexers related. -/
abbrev Kept (k : Run.Tolerance (Lexer σ) (Lexer τ)) (R : Nat → Lexer σ → Lexer τ → Prop) (i : Nat)
    (x : Run (Lexer σ) β) (x' : Run (Lexer τ) β) : Prop :=
  Run.Matches k (R i) (fun _ => R i) x x'

section

variable (h : Respected k R) {i : Nat}

include h

/-- Nothing but the limits tells the dialects apart. -/
theorem Respected.role {l : Lexer σ} {l' : Lexer τ} (hl : R i l l') {A : Type} (f : Dialect → A)
    (hf : ∀ (d : Dialect) limits, f { d with limits } = f d) : f l'.dialect = f l.dialect := by
  rw [h.dialect hl, hf]

theorem fail_matches {Q : β → Lexer σ → Lexer τ → Prop} {e : Error} (he : e.isLexical = true) :
    Run.Matches k (R 0) Q (Run.fail e) (Run.fail e) :=
  fun _ _ hl => .failure (h.failed hl e he)

theorem iterate_matches {step : α → Run (Lexer σ) (Run.Round α β)}
    {step' : α → Run (Lexer τ) (Run.Round α β)} (a : α) (hstep : ∀ a, Kept k R i (step a) (step' a)) :
    Kept k R i (Run.iterate remaining a step) (Run.iterate remaining a step') :=
  .iterate (h.rounds i) a hstep

theorem bumps_kept (n : Nat) : Kept k R i (bumps n) (bumps n) := by
  induction n with
  | zero => exact .pure []
  | succ n ih => exact (h.bump i).bind fun c => ih.bind fun cs => .pure (c :: cs)

theorem takeRun_kept (inClass : Char → Bool) : Kept k R i (takeRun inClass) (takeRun inClass) :=
  iterate_matches h _ fun _ => (h.peek i 0).bind fun _ => .ite ((h.bump i).bind fun _ => .pure _) (.pure _)

theorem tokenFrom_kept (start : Position) (kind : Token.Kind) (text : List Char) :
    Kept k R i (tokenFrom start kind text) (tokenFrom start kind text) := by
  refine .get fun l l' hl => ?_
  rw [h.position hl]
  exact .pure _

theorem single_kept (start : Position) (kind : Token.Kind) :
    Kept k R i (single start kind) (single start kind) :=
  (bumps_kept h 1).bind fun text => tokenFrom_kept h start kind text

/-! ### Rules -/

theorem literal_kept : Kept k R 0 literal literal := by
  refine .get fun l l' hl => ?_
  rw [h.position hl]
  refine (h.bump 0).bind fun quote => .bind (iterate_matches h [] fun content => ?_) fun content => ?_
  · refine (h.bump 0).bind fun c => .ite (fail_matches h rfl) (.ite (.pure _) ?_)
    exact (h.peek 0 0).bind fun c' => .ite ((h.bump 0).bind fun _ => .pure _) (.pure _)
  · refine .get fun l l' hl => ?_
    rw [h.position hl]
    exact .pure _

theorem exponent_kept : Kept k R 0 exponent exponent := by
  refine .get fun l l' hl => ?_
  rw [h.role hl Dialect.numerals fun _ _ => rfl]
  refine (h.mark 0).bind fun _ => (h.bump 1).bind fun marker => (h.peek 1 0).bind fun c => ?_
  refine .ite ((bumps_kept h 1).bind ?digits) (?digits [])
  intro sign
  refine (h.peek 1 0).bind fun c => .ite ?_ ((h.rollback 0).bind fun _ => .pure _)
  exact (takeRun_kept h _).bind fun digits => (h.commit 0).bind fun _ => .pure _

theorem number_kept : Kept k R 0 number number := by
  refine .get fun l l' hl => .get fun l₁ l₁' hl₁ => ?_
  rw [h.position hl, h.role hl₁ Dialect.numerals fun _ _ => rfl]
  refine (takeRun_kept h _).bind fun whole => (h.peek 0 0).bind fun c => ?_
  refine .ite (((h.peek 0 1).map _).bind ?token) (?token false)
  intro fractional
  refine .ite ?_ (tokenFrom_kept h _ _ _)
  refine (h.bump 0).bind fun separator => (takeRun_kept h _).bind fun fraction => ?_
  refine (h.peek 0 0).bind fun c => ?_
  exact .ite ((exponent_kept h).bind fun power => tokenFrom_kept h _ _ _) (tokenFrom_kept h _ _ _)

theorem namePart_kept : Kept k R i namePart namePart :=
  (h.bump i).bind fun _ => (takeRun_kept h _).bind fun _ => .pure _

theorem dottedParts_kept : Kept k R i dottedParts dottedParts := by
  refine iterate_matches h [] fun parts => (h.peek i 0).bind fun c => ?_
  refine .ite (((h.peek i 1).map _).bind ?part) (?part false)
  intro dotted
  exact .ite ((h.bump i).bind fun dot => (namePart_kept h).bind fun part => .pure _) (.pure _)

theorem identifier_kept (start : Position) (sign : List Char) :
    Kept k R i (identifier start sign) (identifier start sign) :=
  (namePart_kept h).bind fun _ => (dottedParts_kept h).bind fun _ => tokenFrom_kept h _ _ _

theorem symbolLength_kept : Kept k R i symbolLength symbolLength := by
  refine (h.peek i 0).bind fun first => iterate_matches h ([first], 1) ?_
  rintro ⟨run, best⟩
  refine (h.peek i _).bind fun c => .ite ?_ (.pure _)
  refine (h.peek i _).bind fun c' => .ite (.pure _) (.get fun l l' hl => ?_)
  rw [h.table hl]
  exact .ite (.pure _) (.pure _)

theorem symbol_kept (start : Position) : Kept k R i (symbol start) (symbol start) :=
  (symbolLength_kept h).bind fun n => (bumps_kept h n).bind fun _ => tokenFrom_kept h _ _ _

theorem punctuation_kept (c : Char) (start : Position) :
    Kept k R 0 (punctuation c start) (punctuation c start) := by
  refine .get fun l l' hl => (h.peek 0 1).bind fun c' => ?_
  cases arrow? c c' with
  | some kind => exact (bumps_kept h 2).bind fun _ => (tokenFrom_kept h _ _ _).bind fun _ => .pure _
  | none =>
  dsimp only
  rw [h.role hl (fun d => d.opening? c) fun _ _ => rfl]
  cases l.dialect.opening? c with
  | some container => exact (single_kept h _ _).bind fun token => .pure _
  | none =>
  dsimp only
  rw [h.role hl (fun d => d.closing? c) fun _ _ => rfl]
  cases l.dialect.closing? c with
  | some container => exact (single_kept h _ _).bind fun token => .pure _
  | none =>
  dsimp only
  rw [h.role hl Dialect.executor fun _ _ => rfl, h.role hl Dialect.separator fun _ _ => rfl,
    h.role hl Dialect.isBlank fun _ _ => rfl]
  refine .ite ((single_kept h _ _).bind fun token => .pure _) ?_
  refine .ite ((single_kept h _ _).bind fun token => .pure _) ?_
  refine .ite ((h.bump 0).bind fun _ => (takeRun_kept h _).bind fun _ => .pure _) ?_
  exact .ite (.pure _) (.ite ((symbol_kept h _).bind fun token => .pure _) (fail_matches h rfl))

/-! ### All rules -/

theorem scanRound_kept (round : Unit) : Kept k R 0 (scanRound round) (scanRound round) := by
  refine (h.peek 0 0).bind fun c => .get fun l l' hl => .get fun l₁ l₁' hl₁ => ?_
  dsimp only
  rw [h.position hl, h.role hl₁ Dialect.isBlank fun _ _ => rfl, h.role hl₁ Dialect.quote fun _ _ => rfl]
  refine .ite ((h.bump 0).bind fun _ => .pure _) ?_
  refine .ite ((literal_kept h).bind fun token => .pure _) ?_
  refine .ite ((number_kept h).bind fun token => .pure _) ?_
  refine .ite (((h.peek 0 1).map _).bind ?name) (?name false)
  intro signed
  refine .ite ((bumps_kept h 1).bind fun sign => (identifier_kept h _ _).bind fun token => .pure _) ?_
  exact .ite ((identifier_kept h _ _).bind fun token => .pure _) (punctuation_kept h _ _)

/-- **A token.** -/
theorem next_kept : Kept k R 0 next next :=
  (iterate_matches h () (scanRound_kept h)).bind fun _ _ _ hl => .answer (h.tally hl)

theorem nexts_kept (n : Nat) : Kept k R 0 (nexts n) (nexts n) := by
  induction n with
  | zero => exact .pure []
  | succ n ih => exact (next_kept h).bind fun token => ih.bind fun tokens => .pure (token :: tokens)

end

/-! ### One lexer -/

section

variable {d : Dialect}

/-- The lexer has the dialect, and `C` holds of its cursor. -/
def Has (d : Dialect) (C : Cursor σ Char → Prop) (l : Lexer σ) : Prop := l.dialect = d ∧ C l.input

omit [Source σ Char] in
theorem onInput_has {C : Cursor σ Char → Prop} {x : Run (Cursor σ Char) β}
    (hx : Run.Leads (fun _ => C) C (fun _ => C) x) :
    Run.Leads (fun _ => Has d C) (Has d C) (fun _ => Has d C) (onInput x) := by
  rintro ⟨input, _, _, _, _, _⟩ ⟨hd, hinput⟩
  have hx := hx input hinput
  unfold onInput
  dsimp only
  generalize x input = r at hx
  cases r with
  | ok b c => exact ⟨hd, hx⟩
  | error e c => exact ⟨hd, hx⟩

/-- **One lexer.** Whatever comes of it, it keeps its dialect, and what its cursor keeps. -/
theorem respected_has {C : Cursor σ Char → Prop}
    (hlookahead : ∀ n, Run.Leads (fun _ => C) C (fun _ => C) (Cursor.lookahead n : Run (Cursor σ Char) Char))
    (hconsume : Run.Leads (fun _ => C) C (fun _ => C) (Cursor.consume : Run (Cursor σ Char) Char))
    (hmark : Run.Leads (fun _ => C) C (fun _ => C) (Cursor.mark : Run (Cursor σ Char) Unit))
    (hcommit : Run.Leads (fun _ => C) C (fun _ => C) (Cursor.commit : Run (Cursor σ Char) Unit))
    (hrollback : Run.Leads (fun _ => C) C (fun _ => C) (Cursor.rollback : Run (Cursor σ Char) Unit)) :
    Respected (σ := σ) (.both (Has d C)) fun _ => Run.Both (Has d C) where
  peek _ n := .of_leads (onInput_has (hlookahead n))
  bump _ := .of_leads <| (onInput_has hconsume).bind fun c l h => by
    by_cases hc : c ≠ endOfInput
    · rw [if_pos hc]
      exact h
    · rw [if_neg hc]
      exact h
  mark _ := .of_leads <| (onInput_has hmark).bind fun _ _ h => h
  commit _ := .of_leads <| (onInput_has hcommit).bind fun _ _ h => h
  rollback _ := .of_leads <| (onInput_has hrollback).bind fun _ _ h => h
  tally := by
    rintro l _ ⟨rfl, h⟩
    exact ⟨rfl, h⟩
  dialect h := by rw [h.1]
  table h := by rw [h.1]
  position h := by rw [h.1]
  rounds _ := .inr fun l l' h => ⟨by rw [h.1], rfl, h⟩
  failed h _ _ := ⟨rfl, h⟩

end

end Dataflow.Lexer
