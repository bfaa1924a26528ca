import Dataflow.Container
import Dataflow.Reading.Cursor

/-!
# Dataflow.Token

The tokens of the language: a kind, the text that was scanned, and the range it covers.

* `Token.Kind` — what a token is; brackets carry the shape of the group that they enclose;
* `Token.Kind.keyword?` — the reserved words;
* `Token` — a scanned token. The text of a literal is its content, without the quotes around it
  and with each doubled quote inside it written once;
* `Token.describe` — how messages show a token: as it could stand in the source.
-/

namespace Dataflow

open Text

namespace Token

/-- What a token is. -/
inductive Kind where
  /-- A quoted literal. -/
  | literal
  /-- A run of digits. -/
  | integer
  /-- Digits, a decimal separator and digits, with or without an exponent. -/
  | real
  /-- A name without dots, also one marked by a sign in front. -/
  | identifier
  /-- Names joined by dots. -/
  | qualified
  /-- One or more symbol characters. -/
  | symbol
  /-- The reserved word `define`. -/
  | define
  /-- The reserved word `instantiate`. -/
  | instantiate
  /-- The reserved word `signal`. -/
  | signal
  /-- The reserved word `bus`. -/
  | bus
  /-- The arrow that points to the left. -/
  | assignment
  /-- The arrow that points to the right. -/
  | association
  /-- A bracket that opens a group. -/
  | opening (container : Container)
  /-- A bracket that closes a group. -/
  | closing (container : Container)
  /-- The end of a statement. -/
  | executor
  /-- What stands between the members of a list. -/
  | separator
  /-- The end of the input, again and again. -/
  | endOfFile
deriving DecidableEq

namespace Kind

/-- The kind of a reserved word. -/
def keyword? (word : String) : Option Kind :=
  if word = "define" then some .define
  else if word = "instantiate" then some .instantiate
  else if word = "signal" then some .signal
  else if word = "bus" then some .bus
  else none

/-- The name of the kind in messages about what is expected. -/
def name : Kind → String
  | literal => "Literal"
  | integer => "Integer"
  | real => "Real"
  | identifier => "Identifier"
  | qualified => "QualifiedIdentifier"
  | symbol => "SymbolIdentifier"
  | define => "Define"
  | instantiate => "Instantiate"
  | signal => "Signal"
  | bus => "Bus"
  | assignment => "Assignment"
  | association => "Association"
  | opening c => "Open(" ++ c.title ++ ")"
  | closing c => "Close(" ++ c.title ++ ")"
  | executor => "Executor"
  | separator => "Separator"
  | endOfFile => "EndOfFile"

/-- The name of the kind in running text, which spells brackets out. -/
def text : Kind → String
  | opening c => "open " ++ c.name
  | closing c => "close " ++ c.name
  | kind => kind.name

/-- A bracket that opens a group of any shape. -/
def isOpening : Kind → Bool
  | opening _ => true
  | _ => false

/-- A bracket that closes a group of any shape. -/
def isClosing : Kind → Bool
  | closing _ => true
  | _ => false

/-- A name of letters or of symbol characters. -/
def isIdentifier : Kind → Bool
  | identifier | qualified | symbol => true
  | _ => false

/-- A name of letters. -/
def isTextIdentifier : Kind → Bool
  | identifier | qualified => true
  | _ => false

def isKeyword : Kind → Bool
  | define | instantiate | signal | bus => true
  | _ => false

def isNumber : Kind → Bool
  | integer | real => true
  | _ => false

/-- A literal or a number. -/
def isConstant (k : Kind) : Bool :=
  k = .literal || k.isNumber

end Kind

end Token

/-- A scanned token. -/
structure Token where
  text : String
  kind : Token.Kind
  span : Span
  /-- The quote that a literal was written with. -/
  quote : Option Char := none
deriving DecidableEq

namespace Token

/-- A literal with the given content. -/
def literal (text : String) (quote : Char) (span : Span) : Token :=
  { text, kind := .literal, span, quote := some quote }

/-- The end of the input, at a range. -/
def endOfFile (span : Span) : Token :=
  { text := "", kind := .endOfFile, span }

/-- Whether the token is the word `word`, not reserved and without dots. -/
def isWord (t : Token) (word : String) : Bool :=
  t.kind = .identifier ∧ t.text = word

/-- The content of a literal between quotes, with every quote in it doubled. -/
def quoted (quote : Char) (content : List Char) : List Char :=
  quote :: content.flatMap (fun c => if c = quote then [quote, c] else [c]) ++ [quote]

/-- The token as it could stand in the source. -/
def describe (t : Token) : String :=
  match t.kind with
  | .endOfFile => "end of input"
  | .literal => String.ofList (quoted (t.quote.getD '\x22') t.text.toList)
  | _ => t.text

/-- The kind and the quoted text of the token. -/
def label (t : Token) : String :=
  t.kind.text ++ "(" ++ quoteString t.text ++ ")"

instance : Reading.Element Token Kind where
  kind := kind
  kindName := Kind.name
  describe := describe
  span t := some t.span

end Token

end Dataflow
