import Dataflow.Lexer.Basic
import Dataflow.Text.Alphanumeric
import Dataflow.Text.Blank
import Dataflow.Text.Letter
import Dataflow.Text.Symbolic

/-!
# Dataflow.Lexer.Scan

The rules of the lexer. At each token the rules are tried in a fixed order, and each decides by
the next one or two characters whether it applies; within a rule the token is as long as
possible.

* `literal`, `number`, `identifier`, `symbol` — the rules for tokens of more than one character;
* `symbol` asks the operator table how far a run of symbol characters belongs together, so that
  an operator is read as one token as soon as it is registered;
* `scanRound`, `scan` — all the rules in order, with blanks between the tokens;
* `next` — the next token. Behind the end of the input it is the end, again and again.

A lexer is itself a source, of tokens.
-/

namespace Dataflow.Lexer

open Reading Text

variable {σ : Type} [Source σ Char]

/-! ## Classes of characters -/

/-- What can begin a name. -/
def isNameStart (c : Char) : Bool := c = '_' || isLetter c

/-- What can go on a name. -/
def isNamePart (c : Char) : Bool := c = '_' || isAlphanumeric c

/-- A blank character that has no role in the dialect. -/
def Dialect.isBlank (d : Dialect) (c : Char) : Bool :=
  Text.isBlank c && c ≠ d.executor && c ≠ d.separator

/-- The arrow that two characters form. -/
def arrow? (first second : Char) : Option Token.Kind :=
  if first = '<' ∧ second = '-' then some .assignment
  else if first = '-' ∧ second = '>' then some .association
  else none

/-! ## Rules -/

/-- A literal: the content up to a quote that is not doubled. -/
def literal : Run (Lexer σ) Token := do
  let start := (← get).position
  let quote ← bump
  let content ← Run.iterate remaining [] fun content => do
    let c ← bump
    if c = endOfInput then
      Run.fail (.unterminatedLiteral start)
    else if c ≠ quote then
      return .again (c :: content)
    else if (← peek 0) = quote then
      let _ ← bump
      return .again (c :: content)
    else
      return .done content.reverse
  return .literal (String.ofList content) quote ⟨start, (← get).position⟩

/-- An exponent: a marker, a sign or none, and digits. Without digits nothing is consumed, and
the number ends before the marker. -/
def exponent : Run (Lexer σ) (List Char) := do
  let numerals := (← get).dialect.numerals
  mark
  let marker ← bump
  let c ← peek 0
  let sign ← if c = numerals.negative ∨ c = '+' then bumps 1 else pure []
  if (← peek 0).isDigit then
    let digits ← takeRun Char.isDigit
    commit
    return marker :: sign ++ digits
  else
    rollback
    return []

/-- A number: digits and, if a decimal separator with a digit behind it follows, a fraction and
possibly an exponent. -/
def number : Run (Lexer σ) Token := do
  let start := (← get).position
  let numerals := (← get).dialect.numerals
  let whole ← takeRun Char.isDigit
  let fractional ←
    if (← peek 0) = numerals.decimal then
      Char.isDigit <$> peek 1
    else pure false
  if fractional then
    let separator ← bump
    let fraction ← takeRun Char.isDigit
    let power ← if numerals.isExponentMarker (← peek 0) then exponent else pure []
    tokenFrom start .real (whole ++ separator :: fraction ++ power)
  else
    tokenFrom start .integer whole

/-- One part of a name: a character that need not be looked at again, and all that goes on a
name. -/
def namePart : Run (Lexer σ) (List Char) := do
  let first ← bump
  return first :: (← takeRun isNamePart)

/-- The parts of a name behind the first, each with the dot in front of it. -/
def dottedParts : Run (Lexer σ) (List Char) :=
  Run.iterate remaining [] fun parts => do
    let dotted ←
      if (← peek 0) = '.' then
        isNameStart <$> peek 1
      else pure false
    if dotted then
      let dot ← bump
      return .again (parts ++ dot :: (← namePart))
    else
      return .done parts

/-- The kind of a name: with dots it is qualified, and without dots or a sign in front it may be
a reserved word. -/
def nameKind (signed dotted : Bool) (name : String) : Token.Kind :=
  if dotted then .qualified
  else if signed then .identifier
  else (Token.Kind.keyword? name).getD .identifier

/-- A name, behind the sign that stands in front of it, if any. -/
def identifier (start : Position) (sign : List Char) : Run (Lexer σ) Token := do
  let first ← namePart
  let dotted ← dottedParts
  let name := sign ++ first ++ dotted
  tokenFrom start (nameKind (!sign.isEmpty) (!dotted.isEmpty) (String.ofList name)) name

/-- The length of the longest registered symbol at the cursor, or one. The characters behind the
first have to be symbol characters at which no arrow starts, and the search ends where no
registered symbol goes on with them. -/
def symbolLength : Run (Lexer σ) Nat := do
  let first ← peek 0
  Run.iterate remaining ([first], 1) fun (run, best) => do
    let c ← peek run.length
    if isSymbolic c then
      if (arrow? c (← peek (run.length + 1))).isSome then
        return .done best
      let run := run ++ [c]
      let text := String.ofList run
      let table := (← get).table
      if table.extendsToSymbol text then
        return .again (run, if table.contains text then run.length else best)
      else
        return .done best
    else
      return .done best

/-- A run of symbol characters that is registered as one symbol, or else a single one. -/
def symbol (start : Position) : Run (Lexer σ) Token := do
  tokenFrom start .symbol (← bumps (← symbolLength))

/-- A token of a single character. -/
def single (start : Position) (kind : Token.Kind) : Run (Lexer σ) Token := do
  tokenFrom start kind (← bumps 1)

/-! ## All rules -/

/-- The rules behind those for literals, numbers and names: arrows, characters with a role, line
breaks, the end of the input, and symbols. -/
def punctuation (c : Char) (start : Position) : Run (Lexer σ) (Run.Round Unit Token) := do
  let dialect := (← get).dialect
  match arrow? c (← peek 1) with
  | some kind => return .done (← tokenFrom start kind (← bumps 2))
  | none =>
  match dialect.opening? c with
  | some container => return .done (← single start (.opening container))
  | none =>
  match dialect.closing? c with
  | some container => return .done (← single start (.closing container))
  | none =>
    if c = dialect.executor then
      return .done (← single start .executor)
    else if c = dialect.separator then
      return .done (← single start .separator)
    else if c = '\n' then
      let _ ← bump
      let _ ← takeRun dialect.isBlank
      return .again ()
    else if c = endOfInput then
      return .done (.endOfFile (.point start))
    else if isSymbolic c then
      return .done (← symbol start)
    else
      Run.fail (.unexpectedCharacter c start)

/-- One round of scanning: blanks are skipped, or a token is scanned by the first rule that
applies. -/
def scanRound (_ : Unit) : Run (Lexer σ) (Run.Round Unit Token) := do
  let c ← peek 0
  let start := (← get).position
  let dialect := (← get).dialect
  if c ≠ '\n' ∧ dialect.isBlank c then
    let _ ← bump
    return .again ()
  else if c = dialect.quote then
    return .done (← literal)
  else if c.isDigit then
    return .done (← number)
  else
    let signed ←
      if c = '@' ∨ c = '#' then
        isNameStart <$> peek 1
      else pure false
    if signed then
      return .done (← identifier start (← bumps 1))
    else if isNameStart c then
      return .done (← identifier start [])
    else
      punctuation c start

/-- Scans a token. -/
def scan : Run (Lexer σ) Token :=
  Run.iterate remaining () scanRound

/-- Scans a token and counts it. -/
def next : Run (Lexer σ) Token := do
  let token ← scan
  modify fun l =>
    { l with statistics := { l.statistics with tokens := l.statistics.tokens + 1 } }
  return token

/-- Scans `n` tokens. -/
def nexts : (n : Nat) → Run (Lexer σ) (List Token)
  | 0 => pure []
  | n + 1 => do
    let token ← next
    return token :: (← nexts n)

/-- A lexer supplies tokens, and never falls short: behind the end there are tokens for the
end. -/
instance : Source (Lexer σ) Token where
  read := nexts
  endMarker l := .endOfFile (.point l.position)
  remaining := remaining

end Dataflow.Lexer
