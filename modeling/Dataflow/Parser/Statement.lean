import Dataflow.Parser.Expression

/-!
# Dataflow.Parser.Statement

Statements, and what the netlist is told of them.

```text
define entity Label symbol notation [precedence] [in names] [out names] [bus names]
define architecture Name entity { statement ; … }
instantiate entity [in bindings] [out bindings] [bus names]
signal names
bus names
name, … <- expression
expression
```

* `entityDefinition`, `architectureBy`, `instantiation`, `declaration`, `assignmentOrExpression`
  — one kind of statement each;
* `statementBy`, `statement` — any statement, given how to read those inside it, and closed off;
* `parseStatement` — the next statement and its end, or nothing at the end of the input;
* `parseAll` — all statements up to the end of the input.
-/

namespace Dataflow.Parser

open Reading Circuit Session

variable {σ : Type} [Source σ Char]

/-! ## Names -/

/-- A name of letters. -/
def name : Run (Session σ) String := do
  if (← peekKind).isTextIdentifier then
    return (← consume).text
  else
    mismatch "identifier"

/-- Names with separators between them. -/
def names : Run (Session σ) (List String) := do
  let first ← name
  Run.iterate remaining [first] fun names => do
    if ← accept .separator then
      return .again ((← name) :: names)
    else
      return .done names.reverse

/-- Names behind a word, if the word is there. -/
def namesAfterWord (word : String) : Run (Session σ) (List String) := do
  if ← acceptWord word then names else return []

/-- Names behind the reserved word for buses, if it is there. -/
def busNames : Run (Session σ) (List String) := do
  if ← accept .bus then names else return []

/-- What refers to an entity: its label, or its symbol, which may be quoted. -/
def entityReference : Run (Session σ) String := do
  let kind ← peekKind
  if kind.isIdentifier ∨ kind = .literal then
    return (← consume).text
  else
    mismatch "entity name"

/-- The tokens of symbol characters that stand side by side at the cursor, from `stop` on: a
symbol can be written before the table knows that it is one. -/
def adjacentSymbols (text : String) (stop : Text.Position) : Run (Session σ) String :=
  Run.iterate remaining (text, stop) fun (text, stop) => do
    let token ← peek
    if token.kind = .symbol ∧ token.span.start = stop then
      let token ← consume
      return .again (text ++ token.text, token.span.stop)
    else
      return .done text

/-- The symbol in a definition: a word, a quoted text, or symbol characters. -/
def definedSymbol : Run (Session σ) String := do
  let kind ← peekKind
  if kind = .literal ∨ kind.isTextIdentifier then
    return (← consume).text
  else if kind = .symbol then
    let first ← consume
    adjacentSymbols first.text first.span.stop
  else
    mismatch "operator symbol"

/-! ## Definitions -/

/-- The notation in a definition. -/
def definedNotation : Run (Session σ) Notation := do
  let token ← peek
  match Notation.ofName? token.text with
  | some form =>
    if token.kind = .identifier then
      let _ ← consume
      return form
    else
      mismatch "notation"
  | none => mismatch "notation"

/-- The least number that is too large for a precedence. -/
def precedenceLimit : Nat := 4294967296

/-- The number that decimal digits write. -/
def decimal (digits : String) : Nat :=
  digits.toList.foldl (fun n c => 10 * n + (c.toNat - '0'.toNat)) 0

/-- The precedence in a definition, zero if there is none. -/
def definedPrecedence : Run (Session σ) Nat := do
  if (← peekKind) = .integer then
    let precedence := decimal (← peek).text
    if precedence < precedenceLimit then
      let _ ← consume
      return precedence
    else
      mismatch "precedence"
  else
    return 0

/-- The definition of an entity, behind the words that announce it. Once the netlist has accepted
the entity, its symbol is registered. -/
def entityDefinition : Run (Session σ) Statement := do
  let label ← name
  let symbol ← definedSymbol
  let form ← definedNotation
  let precedence ← definedPrecedence
  let inputs ← namesAfterWord "in"
  let outputs ← namesAfterWord "out"
  let buses ← busNames
  let e : Entity := { label, symbol, form, precedence, inputs, outputs, buses }
  tell (.defineEntity e)
  modify fun s => s.insertOperator e.operator
  return .entity e

/-- The statements of a body and the bracket that closes it, behind the bracket that opened it.
Without an executor behind a statement, the body has to end there. -/
def bodyBy (read : Run (Session σ) Statement) : Run (Session σ) (List Statement) :=
  Run.iterate remaining [] fun statements => do
    skip .executor
    if ← accept (.closing .set) then
      return .done statements.reverse
    let statements := (← read) :: statements
    if ← accept .executor then
      return .again statements
    else
      expect (.closing .set)
      return .done statements.reverse

/-- The definition of an architecture, behind the words that announce it. -/
def architectureBy (read : Run (Session σ) Statement) : Run (Session σ) Statement := do
  let name ← name
  let entity ← entityReference
  expect (.opening .set)
  tell (.beginArchitecture name entity)
  let body ← bodyBy read
  tell .endArchitecture
  return .architecture name entity body

/-- A definition, behind the reserved word for it. -/
def definitionBy (read : Run (Session σ) Statement) : Run (Session σ) Statement := do
  if ← acceptWord "entity" then
    entityDefinition
  else if ← acceptWord "architecture" then
    architectureBy read
  else
    mismatch "entity or architecture"

/-! ## Instances -/

/-- A label and the arrow behind it, if both are there. -/
def bindingLabel : Run (Session σ) (Option String) := do
  if (← peekKind) = .identifier then
    if (← kindAt 1) = .association then
      let label := (← consume).text
      let _ ← consume
      return some label
    else
      return none
  else
    return none

/-- Bindings with separators between them, given how to read what is bound. -/
def bindingsBy (read : Run (Session σ) Expr) : Run (Session σ) (List Binding) :=
  Run.iterate remaining [] fun bindings => do
    let label ← bindingLabel
    let value ← read
    let bindings := { label, value } :: bindings
    if ← accept .separator then
      return .again bindings
    else
      return .done bindings.reverse

/-- Bindings behind a word, if the word is there. -/
def bindingsAfterWord (word : String) (read : Run (Session σ) Expr) :
    Run (Session σ) (List Binding) := do
  if ← acceptWord word then bindingsBy read else return []

/-- A signal that an output is bound to. -/
def outputSignal : Run (Session σ) Expr := do
  let name ← name
  tell (.useSignal name)

/-- An instance of an entity: expressions bound to its inputs, signals to its outputs, and
buses. -/
def instantiation : Run (Session σ) Statement := do
  expect .instantiate
  let entity ← entityReference
  let inputs ← bindingsAfterWord "in" expression
  let outputs ← bindingsAfterWord "out" outputSignal
  let buses ← (← busNames).mapM fun name => tell (.useBus name)
  let nodes ← tell (.instantiate entity inputs outputs buses)
  return .instantiation entity nodes

/-! ## Assignments -/

/-- Names with separators between them and the arrow behind them, or nothing. -/
def tryTargets : Run (Session σ) (Option (List String)) :=
  Run.iterate remaining [] fun names => do
    if (← peekKind).isTextIdentifier then
      let names := (← consume).text :: names
      if ← accept .separator then
        return .again names
      else if ← accept .assignment then
        return .done (some names.reverse)
      else
        return .done none
    else
      return .done none

/-- The targets of an assignment and the arrow. Where there is none, nothing is consumed. -/
def assignmentTargets : Run (Session σ) (Option (List String)) := do
  onTokens Cursor.mark
  match ← tryTargets with
  | some names =>
    onTokens Cursor.commit
    return some names
  | none =>
    onTokens Cursor.rollback
    return none

/-- Signals driven by an expression, or an expression alone. -/
def assignmentOrExpression : Run (Session σ) Statement := do
  match ← assignmentTargets with
  | some names =>
    let targets ← names.mapM fun name => tell (.useSignal name)
    let value ← expression
    tell (.assign targets value)
    return .assignment targets value
  | none => return .expression (← expression)

/-! ## Statements -/

/-- A statement, given how to read those inside it. -/
def statementBy (read : Run (Session σ) Statement) : Run (Session σ) Statement := do
  match ← peekKind with
  | .define =>
    let _ ← consume
    definitionBy read
  | .instantiate => instantiation
  | .signal =>
    let _ ← consume
    return .signals (← (← names).mapM fun name => tell (.declareSignal name))
  | .bus =>
    let _ ← consume
    return .buses (← (← names).mapM fun name => tell (.declareBus name))
  | _ => assignmentOrExpression

/-- A statement in which others stand inside each other to at most the given depth. -/
def statement : (depth : Nat) → Run (Session σ) Statement
  | 0 => throw .stalled
  | depth + 1 => statementBy (statement depth)

/-- The next statement and its end, or nothing at the end of the input. -/
def parseStatement : Run (Session σ) (Option Statement) := do
  skip .executor
  if (← peekKind) = .endOfFile then
    return none
  let s ← statement ((← get).remaining + 1)
  if ← accept .executor then
    return some s
  else if (← peekKind) = .endOfFile then
    return some s
  else
    mismatch "Executor"

/-- All statements up to the end of the input. -/
def parseAll : Run (Session σ) (List Statement) :=
  Run.iterate remaining [] fun statements => do
    match ← parseStatement with
    | some s => return .again (s :: statements)
    | none => return .done statements.reverse

end Dataflow.Parser
