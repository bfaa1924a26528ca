import Dataflow.Lexer.Dialect
import Dataflow.Operator.Table
import Dataflow.Token

/-!
# Dataflow.Lexer.Basic

The state of a lexer and the single steps that its rules are made of.

* `Lexer` — the cursor over the characters, the dialect, the operators known so far, the position
  of the next character, and counters;
* `Lexer.peek`, `Lexer.bump` — looking at a character, and consuming one;
* `Lexer.mark`, `Lexer.commit`, `Lexer.rollback` — trying a rule and taking it back. A position
  is saved with every mark, so that the position always goes with the cursor;
* `Lexer.takeRun` — consuming a run of characters of one class.
-/

namespace Dataflow

open Reading Text

/-- What a lexer has done since its start. -/
structure Lexer.Statistics where
  /-- Tokens scanned, the end of the input included each time it was met. -/
  tokens : Nat := 0
  /-- Characters consumed; those taken back are counted, and counted again. -/
  characters : Nat := 0
  /-- How often a rule was tried and taken back. -/
  rollbacks : Nat := 0
deriving DecidableEq

/-- A lexer over a source of characters. -/
structure Lexer (σ : Type) where
  input : Cursor σ Char
  dialect : Lexer.Dialect
  table : Operator.Table
  /-- The position of the character at the cursor. -/
  position : Position := {}
  /-- The positions that go with the marks of the cursor, innermost first. -/
  saved : List Position := []
  statistics : Lexer.Statistics := {}

namespace Lexer

variable {σ β : Type}

/-- A computation on the cursor. -/
def onInput (x : Run (Cursor σ Char) β) : Run (Lexer σ) β
  | ⟨input, dialect, table, position, saved, statistics⟩ =>
    match x input with
    | .ok b input => .ok b ⟨input, dialect, table, position, saved, statistics⟩
    | .error e input => .error e ⟨input, dialect, table, position, saved, statistics⟩

theorem onInput_ok {x : Run (Cursor σ Char) β} {l : Lexer σ} {a : β} {input : Cursor σ Char}
    (h : x l.input = .ok a input) : onInput x l = .ok a { l with input } := by
  simp [onInput, h]

theorem onInput_error {x : Run (Cursor σ Char) β} {l : Lexer σ} {e : Failure}
    {input : Cursor σ Char} (h : x l.input = .error e input) :
    onInput x l = .error e { l with input } := by
  simp [onInput, h]

variable [Source σ Char]

/-- A lexer at the start of a source. -/
def ofSource (source : σ) (dialect : Dialect) (table : Operator.Table) : Lexer σ where
  input := Cursor.ofSource source dialect.limits
  dialect := dialect
  table := table

/-- The lexer at the start of another source, with other operators. -/
def reset (l : Lexer σ) (source : σ) (table : Operator.Table) : Lexer σ where
  input := l.input.reset source
  dialect := l.dialect
  table := table

/-- Adds an operator, and returns the one whose place it takes. -/
def register (l : Lexer σ) (op : Operator) : Option Operator × Lexer σ :=
  let (replaced, table) := l.table.register op
  (replaced, { l with table })

/-- No more characters than this can still be consumed. -/
def remaining (l : Lexer σ) : Nat := l.input.remaining

/-- The character `k` places ahead. -/
def peek (k : Nat) : Run (Lexer σ) Char :=
  onInput (Cursor.lookahead k)

/-- Consumes a character. The position moves on and the character is counted, unless it is the
end of the input. -/
def bump : Run (Lexer σ) Char := do
  let c ← onInput Cursor.consume
  if c ≠ endOfInput then
    modify fun l =>
      { l with
        position := l.position.advance c
        statistics := { l.statistics with characters := l.statistics.characters + 1 } }
  return c

/-- Consumes `n` characters. -/
def bumps : (n : Nat) → Run (Lexer σ) (List Char)
  | 0 => pure []
  | n + 1 => do
    let c ← bump
    return c :: (← bumps n)

/-- Marks the character at the cursor. -/
def mark : Run (Lexer σ) Unit := do
  onInput Cursor.mark
  modify fun l => { l with saved := l.position :: l.saved }

/-- Keeps what has been consumed since the innermost mark. -/
def commit : Run (Lexer σ) Unit := do
  onInput Cursor.commit
  modify fun l => { l with saved := l.saved.tail }

/-- Takes back what has been consumed since the innermost mark. -/
def rollback : Run (Lexer σ) Unit := do
  onInput Cursor.rollback
  modify fun l =>
    { l with
      position := l.saved.head?.getD l.position
      saved := l.saved.tail
      statistics := { l.statistics with rollbacks := l.statistics.rollbacks + 1 } }

/-- Consumes characters as long as they are of a class. -/
def takeRun (inClass : Char → Bool) : Run (Lexer σ) (List Char) :=
  Run.iterate remaining [] fun taken => do
    if inClass (← peek 0) then
      return .again ((← bump) :: taken)
    else
      return .done taken.reverse

/-- A token of the given text that reaches from `start` up to the cursor. -/
def tokenFrom (start : Position) (kind : Token.Kind) (text : List Char) : Run (Lexer σ) Token := do
  return { text := String.ofList text, kind, span := ⟨start, (← get).position⟩ }

end Lexer

end Dataflow
