import Dataflow.Parser.Session

/-!
# Dataflow.Parser.Expression

Expressions of operators that are looked up while they are read. Which symbols are operators, and
how tightly they bind, is up to the table at the moment when a token is looked at.

An expression is read by precedence, with a stack of operands and a stack of the operators
between them. The operand of an operator in front is an expression again, in which only tighter
operators take part; such an expression has a *bound*.

* `Stacks`, `reduce` — the stacks, and the application of the topmost operator;
* `operandBy`, `groupBy`, `callBy` — an operand, given how to read an expression inside it;
* `climbBy` — an expression with or without a bound, given how to read one inside it;
* `climb`, `expression` — the same closed off. Each expression inside another one starts behind
  a token of its own, so there are no more levels than tokens.
-/

namespace Dataflow.Parser

open Reading Circuit Session

variable {σ : Type} [Source σ Char]

/-- How to read an expression with a bound, or without one. -/
abbrev ExprReader (σ : Type) := Option Nat → Run (Session σ) Expr

/-! ## Operators -/

/-- Whether an operator of the given precedence takes part in an expression with this bound. -/
def binds (bound : Option Nat) (precedence : Nat) : Bool :=
  bound.all (precedence < ·)

/-- The registration of the token at the cursor for a fixity, if it is a name and has one. -/
def operatorAt (fixity : Fixity) : Run (Session σ) (Option Operator) := do
  let token ← peek
  if token.kind.isIdentifier then
    return (← get).table.get? token.text fixity
  else
    return none

/-- Whether an operator that waits for its right operand has to be applied before the next one
is put on top of it: it binds tighter, or as tight and the row groups to the left. -/
def reducesBefore (top next : Operator) : Bool :=
  top.precedence < next.precedence ||
    (top.precedence = next.precedence && !next.isRightAssociative)

/-- The operands read so far and the operators between them, last one first. Between two reads
there is one operand more than there are operators. -/
structure Stacks where
  operands : List Expr
  operators : List Operator

/-- Takes the last operand off. -/
def popOperand : List Expr → Run (Session σ) (Expr × List Expr)
  | [] => Run.violate .noOperand
  | e :: rest => return (e, rest)

/-- Applies the last operator to the last two operands. -/
def reduce (s : Stacks) : Run (Session σ) Stacks := do
  match s.operators with
  | [] => Run.violate .noOperator
  | op :: operators =>
    let (right, rest) ← popOperand s.operands
    let (left, rest) ← popOperand rest
    let node ← tell (.applyOperator op [left, right])
    return { operands := node :: rest, operators }

/-- Applies operators from the top as long as `first` says so; there are no more than
`operators.length` of them. -/
def reduceWhile (first : Operator → Bool) : Nat → Stacks → Run (Session σ) Stacks
  | 0, s => pure s
  | n + 1, s => do
    if s.operators.head?.any first then
      reduceWhile first n (← reduce s)
    else
      return s

/-- Applies the operators that come before `next`. -/
def reduceFor (next : Operator) (s : Stacks) : Run (Session σ) Stacks :=
  reduceWhile (reducesBefore · next) s.operators.length s

/-- Applies all operators. -/
def reduceAll (s : Stacks) : Run (Session σ) Stacks :=
  reduceWhile (fun _ => true) s.operators.length s

/-! ## Operands -/

/-- The items of a group and the bracket that closes it, behind the bracket that opened it. -/
def itemsBy (read : ExprReader σ) (container : Container) : Run (Session σ) (List Expr) := do
  if ← accept (.closing container) then
    return []
  Run.iterate remaining [] fun items => do
    let items := (← read none) :: items
    if ← accept .separator then
      return .again items
    else
      expect (.closing container)
      return .done items.reverse

/-- A group in brackets: its shape and its items. -/
def groupBy (read : ExprReader σ) : Run (Session σ) (Container × List Expr) := do
  let token ← consume
  match token.kind with
  | .opening container => return (container, ← itemsBy read container)
  | other => Run.violate (.groupWithoutBracket other.text)

/-- A name with operands in brackets behind it. -/
def callBy (read : ExprReader σ) : Run (Session σ) Expr := do
  let name := (← consume).text
  let (_, arguments) ← groupBy read
  let op := ((← get).table.resolve? name arguments.length).getD
    (.adHoc name arguments.length)
  tell (.applyOperator op arguments)

/-- An operator in front of its operand, and the operand, in which only tighter operators take
part. -/
def prefixedBy (read : ExprReader σ) (op : Operator) : Run (Session σ) Expr := do
  let _ ← consume
  let operand ← read (some op.precedence)
  tell (.applyOperator op [operand])

/-- The kind of constant that a token of the given kind is. -/
def constantKind? : Token.Kind → Option ConstantKind
  | .literal => some .literal
  | .integer => some .integer
  | .real => some .real
  | _ => none

/-- A name as an operand: a call, an operator in front of its operand, or a signal. A symbol is
called only if it is registered, and is never a signal. -/
def namedBy (read : ExprReader σ) (kind : Token.Kind) : Run (Session σ) Expr := do
  let name := (← peek).text
  let known := (← get).table.contains name
  if (← kindAt 1) = .opening .list ∧ (known ∨ kind ≠ .symbol) then
    callBy read
  else
    match ← operatorAt .prefixOp with
    | some op => prefixedBy read op
    | none =>
      if kind = .symbol then
        unexpectedOperand
      else
        let name := (← consume).text
        tell (.useSignal name)

/-- An operand: a constant, a group, or what begins with a name. A list of one item only groups,
and is that item. -/
def operandBy (read : ExprReader σ) : Run (Session σ) Expr := do
  let kind ← peekKind
  match constantKind? kind with
  | some constant =>
    let text := (← consume).text
    tell (.constant constant text)
  | none =>
    if kind.isOpening then
      match ← groupBy read with
      | (.list, [item]) => return item
      | (container, items) => tell (.encapsulate container items)
    else if kind.isIdentifier then
      namedBy read kind
    else
      unexpectedOperand

/-! ## Expressions -/

/-- The operators between operands, and the operands behind them, as far as the bound lets
them. -/
def infixesBy (read : ExprReader σ) (bound : Option Nat) (s : Stacks) : Run (Session σ) Stacks :=
  Run.iterate remaining s fun s => do
    match ← operatorAt .infixOp with
    | none => return .done s
    | some op =>
      if binds bound op.precedence then
        let s ← reduceFor op s
        let _ ← consume
        let operand ← operandBy read
        return .again { operands := operand :: s.operands, operators := op :: s.operators }
      else
        return .done s

/-- The operators behind an operand, as far as the bound lets them, each applied to all that
stands before it. Says also whether there were any. -/
def postfixesBy (bound : Option Nat) (operand : Expr) : Run (Session σ) (Expr × Bool) :=
  Run.iterate remaining (operand, false) fun (operand, applied) => do
    match ← operatorAt .postfixOp with
    | none => return .done (operand, applied)
    | some op =>
      if binds bound op.precedence then
        let _ ← consume
        return .again (← tell (.applyOperator op [operand]), true)
      else
        return .done (operand, applied)

/-- An expression: operands with operators between them, then operators behind all of it, and if
there were any, again operators between and operands, of which what has been read is the
first. -/
def climbBy (read : ExprReader σ) (bound : Option Nat) : Run (Session σ) Expr := do
  let first ← operandBy read
  Run.iterate remaining first fun first => do
    let reading ← infixesBy read bound { operands := [first], operators := [] }
    let reading ← reduceAll reading
    let (whole, _) ← popOperand reading.operands
    let (whole, applied) ← postfixesBy bound whole
    let more := (← operatorAt .infixOp).any fun op => binds bound op.precedence
    if applied && more then
      return .again whole
    else
      return .done whole

/-- An expression in which others stand inside each other to at most the given depth. -/
def climb : (depth : Nat) → ExprReader σ
  | 0, _ => throw .stalled
  | depth + 1, bound => climbBy (climb depth) bound

/-- An expression. -/
def expression : Run (Session σ) Expr := fun s =>
  climb (s.remaining + 1) none s

end Dataflow.Parser
