import Dataflow.Lexer.Scan
import Dataflow.Proofs.Runs

/-!
# Dataflow.Proofs.Constancy

**Scanning leaves the operators alone.** The rules for symbols ask the operator table, and no rule
changes it: only `Lexer.register` does. So the operators that a token was scanned with are the ones
that were registered before it was scanned (`next_constant`).
-/

namespace Dataflow.Lexer

open Reading Text

variable {σ β : Type} {t : Operator.Table}

/-- The computation leaves the operators as they are. -/
abbrev Constant (t : Operator.Table) (x : Run (Lexer σ) β) : Prop :=
  Run.Leads (fun _ l => l.table = t) (fun l => l.table = t) (fun _ l => l.table = t) x

/-! ### Single steps -/

theorem onInput_constant (x : Run (Cursor σ Char) β) : Constant t (onInput x) := by
  intro l h
  cases hx : x l.input with
  | ok b input =>
    rw [onInput_ok hx]
    exact h
  | error e input =>
    rw [onInput_error hx]
    exact h

theorem modify_constant {f : Lexer σ → Lexer σ} (hf : ∀ l, (f l).table = l.table) :
    Constant t (modify f) := by
  intro l h
  exact (hf l).trans h

theorem fail_constant (e : Error) : Constant t (Run.fail e : Run (Lexer σ) β) :=
  fun _ h => h

theorem tokenFrom_constant (start : Position) (kind : Token.Kind) (text : List Char) :
    Constant t (tokenFrom start kind text : Run (Lexer σ) Token) :=
  .get fun _ _ => .pure _

theorem mark_constant : Constant t (mark : Run (Lexer σ) Unit) :=
  (onInput_constant _).bind fun _ => modify_constant fun _ => rfl

theorem commit_constant : Constant t (commit : Run (Lexer σ) Unit) :=
  (onInput_constant _).bind fun _ => modify_constant fun _ => rfl

theorem rollback_constant : Constant t (rollback : Run (Lexer σ) Unit) :=
  (onInput_constant _).bind fun _ => modify_constant fun _ => rfl

variable [Source σ Char]

theorem iterate_constant {α : Type} {step : α → Run (Lexer σ) (Run.Round α β)} (a : α)
    (hstep : ∀ a, Constant t (step a)) : Constant t (Run.iterate remaining a step) :=
  .iterate_of _ _ hstep fun _ h => h

theorem peek_constant (k : Nat) : Constant t (peek k : Run (Lexer σ) Char) := onInput_constant _

theorem bump_constant : Constant t (bump : Run (Lexer σ) Char) := by
  refine (onInput_constant _).bind fun c => .ite (Run.Leads.bind (modify_constant ?_) fun _ => ?_) ?_
  · exact fun _ => rfl
  · exact .pure _
  · exact .pure _

theorem bumps_constant (n : Nat) : Constant t (bumps n : Run (Lexer σ) (List Char)) := by
  induction n with
  | zero => exact .pure _
  | succ n ih => exact bump_constant.bind fun _ => ih.bind fun _ => .pure _

theorem takeRun_constant (inClass : Char → Bool) :
    Constant t (takeRun inClass : Run (Lexer σ) (List Char)) :=
  iterate_constant _ fun _ => (peek_constant 0).bind fun _ =>
    .ite (bump_constant.bind fun _ => .pure _) (.pure _)

/-! ### Rules -/

theorem literal_constant : Constant t (literal : Run (Lexer σ) Token) := by
  refine .get fun _ _ => bump_constant.bind fun quote => ?_
  refine (iterate_constant _ fun content => bump_constant.bind fun c => ?_).bind fun _ =>
    .get fun _ _ => .pure _
  refine .ite (fail_constant _) (.ite (.pure _) ((peek_constant 0).bind fun _ => ?_))
  exact .ite (bump_constant.bind fun _ => .pure _) (.pure _)

theorem exponent_constant : Constant t (exponent : Run (Lexer σ) (List Char)) := by
  refine .get fun _ _ => mark_constant.bind fun _ => bump_constant.bind fun marker =>
    (peek_constant 0).bind fun c => ?_
  have hrest : ∀ sign : List Char, Constant t (do
      if (← peek 0).isDigit then
        let digits ← takeRun Char.isDigit
        commit
        return marker :: sign ++ digits
      else
        rollback
        return [] : Run (Lexer σ) (List Char)) := fun sign =>
    (peek_constant 0).bind fun _ => .ite
      ((takeRun_constant _).bind fun _ => commit_constant.bind fun _ => .pure _)
      (rollback_constant.bind fun _ => .pure _)
  exact .ite ((bumps_constant 1).bind hrest) (hrest [])

theorem number_constant : Constant t (number : Run (Lexer σ) Token) := by
  refine .get fun _ _ => .get fun l _ => (takeRun_constant _).bind fun whole =>
    (peek_constant 0).bind fun _ => ?_
  refine .ite (((peek_constant 1).map _).bind ?token) (?token false)
  intro fractional
  refine .ite (bump_constant.bind fun _ => (takeRun_constant _).bind fun fraction => ?_)
    (tokenFrom_constant _ _ _)
  refine (peek_constant 0).bind fun _ => ?_
  exact .ite (exponent_constant.bind fun _ => tokenFrom_constant _ _ _) (tokenFrom_constant _ _ _)

theorem namePart_constant : Constant t (namePart : Run (Lexer σ) (List Char)) :=
  bump_constant.bind fun _ => (takeRun_constant _).bind fun _ => .pure _

theorem dottedParts_constant : Constant t (dottedParts : Run (Lexer σ) (List Char)) := by
  refine iterate_constant _ fun parts => (peek_constant 0).bind fun _ => ?_
  refine .ite (((peek_constant 1).map _).bind ?part) (?part false)
  intro dotted
  exact .ite (bump_constant.bind fun _ => namePart_constant.bind fun _ => .pure _) (.pure _)

theorem identifier_constant (start : Position) (sign : List Char) :
    Constant t (identifier start sign : Run (Lexer σ) Token) :=
  namePart_constant.bind fun _ => dottedParts_constant.bind fun _ => tokenFrom_constant _ _ _

theorem symbolLength_constant : Constant t (symbolLength : Run (Lexer σ) Nat) := by
  refine (peek_constant 0).bind fun first => iterate_constant _ fun found => ?_
  refine (peek_constant _).bind fun c => .ite ((peek_constant _).bind fun c' => ?_) (.pure _)
  exact .ite (.pure _) (.get fun _ _ => .ite (.pure _) (.pure _))

theorem single_constant (start : Position) (kind : Token.Kind) :
    Constant t (single start kind : Run (Lexer σ) Token) :=
  (bumps_constant 1).bind fun _ => tokenFrom_constant _ _ _

theorem punctuation_constant (c : Char) (start : Position) :
    Constant t (punctuation c start : Run (Lexer σ) (Run.Round Unit Token)) := by
  refine .get fun l _ => (peek_constant 1).bind fun c' => ?_
  split
  · exact (bumps_constant 2).bind fun _ => (tokenFrom_constant _ _ _).bind fun _ => .pure _
  split
  · exact (single_constant _ _).bind fun _ => .pure _
  split
  · exact (single_constant _ _).bind fun _ => .pure _
  refine .ite ((single_constant _ _).bind fun _ => .pure _) ?_
  refine .ite ((single_constant _ _).bind fun _ => .pure _) ?_
  refine .ite (bump_constant.bind fun _ => (takeRun_constant _).bind fun _ => .pure _) ?_
  refine .ite (.pure _) (.ite ?_ (fail_constant _))
  exact (symbolLength_constant.bind fun n => (bumps_constant n).bind fun _ =>
    tokenFrom_constant _ _ _).bind fun _ => .pure _

theorem scanRound_constant :
    Constant t (scanRound () : Run (Lexer σ) (Run.Round Unit Token)) := by
  refine (peek_constant 0).bind fun c => .get fun _ _ => .get fun l _ => ?_
  refine .ite (bump_constant.bind fun _ => .pure _) ?_
  refine .ite (literal_constant.bind fun _ => .pure _) ?_
  refine .ite (number_constant.bind fun _ => .pure _) ?_
  refine .ite (((peek_constant 1).map _).bind ?name) (?name false)
  intro signed
  refine .ite ((bumps_constant 1).bind fun _ => (identifier_constant _ _).bind fun _ => .pure _) ?_
  exact .ite ((identifier_constant _ _).bind fun _ => .pure _) (punctuation_constant _ _)

/-- **Scanning a token** leaves the operators as they are, also where it fails. -/
theorem next_constant : Constant t (next : Run (Lexer σ) Token) := by
  refine Run.Leads.bind (iterate_constant _ fun _ => scanRound_constant) fun token => ?_
  exact Run.Leads.bind (modify_constant fun _ => rfl) fun _ => .pure token

theorem nexts_constant (n : Nat) : Constant t (nexts n : Run (Lexer σ) (List Token)) := by
  induction n with
  | zero => exact .pure _
  | succ n ih => exact next_constant.bind fun _ => ih.bind fun _ => .pure _

theorem table_of_next {l l' : Lexer σ} {token : Token} (h : next l = .ok token l') :
    l'.table = l.table :=
  (next_constant l rfl).of_ok h

end Dataflow.Lexer
