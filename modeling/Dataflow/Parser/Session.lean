import Dataflow.Circuit.Call
import Dataflow.Circuit.Statement
import Dataflow.Lexer.Scan

/-!
# Dataflow.Parser.Session

The state of a parser: a cursor over the tokens of a lexer, and the netlist that is told what has
been read. The operators belong to the lexer, so that what is registered counts for the next
token that is scanned.

* `Session` — the state, with the trace of calls to the netlist;
* `Session.tell` — tells the netlist something. The call goes into the trace first, so that the
  trace also has the call that was refused;
* `Session.peekKind`, `Session.accept`, `Session.expect`, … — steps on the tokens.
-/

namespace Dataflow

open Reading Circuit

/-- A parser at work on a source of characters. -/
structure Session (σ : Type) where
  tokens : Cursor (Lexer σ) Token
  netlist : Netlist := {}
  /-- The calls to the netlist, last one first. -/
  calls : List Call := []

namespace Session

variable {σ β : Type}

/-- A computation on the cursor. -/
def onTokens (x : Run (Cursor (Lexer σ) Token) β) : Run (Session σ) β
  | ⟨tokens, netlist, calls⟩ =>
    match x tokens with
    | .ok b tokens => .ok b ⟨tokens, netlist, calls⟩
    | .error e tokens => .error e ⟨tokens, netlist, calls⟩

theorem onTokens_ok {x : Run (Cursor (Lexer σ) Token) β} {s : Session σ} {a : β}
    {tokens : Cursor (Lexer σ) Token} (h : x s.tokens = .ok a tokens) :
    onTokens x s = .ok a { s with tokens } := by
  simp [onTokens, h]

theorem onTokens_error {x : Run (Cursor (Lexer σ) Token) β} {s : Session σ} {e : Failure}
    {tokens : Cursor (Lexer σ) Token} (h : x s.tokens = .error e tokens) :
    onTokens x s = .error e { s with tokens } := by
  simp [onTokens, h]

variable [Source σ Char]

/-- A session at the start of a source, with an empty netlist. -/
def ofSource (source : σ) (dialect : Lexer.Dialect) (table : Operator.Table) : Session σ where
  tokens := Cursor.ofSource (Lexer.ofSource source dialect table) dialect.limits

/-- The lexer that the tokens come from. -/
def lexer (s : Session σ) : Lexer σ := s.tokens.source

/-- The session at the start of another source, with other operators and the same dialect. The
netlist goes on. -/
def reset (s : Session σ) (source : σ) (table : Operator.Table) : Session σ :=
  { s with tokens := s.tokens.reset (Lexer.ofSource source s.lexer.dialect table) }

/-- The operators known so far. -/
def table (s : Session σ) : Operator.Table := s.lexer.table

/-- The session with an operator added. Tokens that have been scanned stay as they are. -/
def insertOperator (s : Session σ) (op : Operator) : Session σ :=
  { s with tokens := s.tokens.mapSource fun l => (l.register op).2 }

/-- No more tokens than this can still be consumed before the end of the input. -/
def remaining (s : Session σ) : Nat := s.tokens.remaining

/-- The calls to the netlist in the order in which they were made. -/
def trace (s : Session σ) : List Call := s.calls.reverse

/-! ## The netlist -/

/-- Tells the netlist something, and passes its answer or its refusal on. -/
def tell (call : Call) : Run (Session σ) call.Reply
  | ⟨tokens, netlist, calls⟩ =>
    match Netlist.perform call netlist with
    | .ok reply netlist => .ok reply ⟨tokens, netlist, call :: calls⟩
    | .error e netlist => .error (.error (.build e)) ⟨tokens, netlist, call :: calls⟩

/-! ## The tokens -/

/-- The token at the cursor. -/
def peek : Run (Session σ) Token := onTokens Cursor.peek

/-- The kind of the token `k` places ahead. -/
def kindAt (k : Nat) : Run (Session σ) Token.Kind := onTokens (Cursor.kindAt k)

/-- The kind of the token at the cursor. -/
def peekKind : Run (Session σ) Token.Kind := kindAt 0

/-- The token at the cursor, which then stands behind it. -/
def consume : Run (Session σ) Token := onTokens Cursor.consume

/-- Consumes the token at the cursor if it is of the given kind. -/
def accept (kind : Token.Kind) : Run (Session σ) Bool :=
  return (← onTokens (Cursor.accept kind)).isSome

/-- Consumes the token at the cursor, which has to be of the given kind. -/
def expect (kind : Token.Kind) : Run (Session σ) Unit := do
  let _ ← onTokens (Cursor.expect kind)

/-- Consumes the token at the cursor if it is the given word. -/
def acceptWord (word : String) : Run (Session σ) Bool := do
  if (← peek).isWord word then
    let _ ← consume
    return true
  else
    return false

/-- Ends with the error that something else is expected at the cursor. -/
def mismatch (expected : String) : Run (Session σ) β := do
  Run.fail (← onTokens (Cursor.mismatch expected))

/-- Ends with the error that an operand is expected at the cursor. -/
def unexpectedOperand : Run (Session σ) β := do
  Run.fail (← onTokens Cursor.unexpectedOperand)

/-- Skips tokens of one kind. -/
def skip (kind : Token.Kind) : Run (Session σ) Unit :=
  Run.iterate remaining () fun _ => do
    if ← accept kind then return .again () else return .done ()

end Session

end Dataflow
