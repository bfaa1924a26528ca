import Dataflow.Container
import Dataflow.Reading.Limits
import Dataflow.Text.Lowercase

/-!
# Dataflow.Lexer.Dialect

The punctuation of the language, which is a matter of choice: every character with a role of its
own is part of a `Dialect`, and the rules of the lexer name only the roles.

* `Brackets` — the two characters around a group;
* `Numerals` — the characters inside numbers;
* `Dialect` — all roles, and the limits of the buffers that the text is read through;
* `Dialect.opening?`, `Dialect.closing?` — the shape of group that a character opens or closes.
-/

namespace Dataflow.Lexer

open Reading Text

/-- The characters around a group. -/
structure Brackets where
  opening : Char
  closing : Char
deriving DecidableEq

/-- The characters inside numbers. -/
structure Numerals where
  /-- Stands between whole and fractional digits. -/
  decimal : Char := '.'
  /-- The sign of a negative exponent; a plus sign may always stand in its place. -/
  negative : Char := '-'
  /-- Announces an exponent, in either case. -/
  exponent : Char := 'e'
deriving DecidableEq

/-- Whether `c` announces an exponent: its lowercase form has to be that of the marker. -/
def Numerals.isExponentMarker (n : Numerals) (c : Char) : Bool :=
  lowercase c = lowercase n.exponent

/-- The characters that have a role of their own, and the limits of the buffers. -/
structure Dialect where
  /-- Ends a statement. -/
  executor : Char := ';'
  /-- Stands between the members of a list. -/
  separator : Char := ','
  /-- Stands around a literal, and is doubled inside it. -/
  quote : Char := '\x22'
  list : Brackets := ⟨'(', ')'⟩
  vector : Brackets := ⟨'[', ']'⟩
  set : Brackets := ⟨'{', '}'⟩
  scalar : Brackets := ⟨'⟨', '⟩'⟩
  numerals : Numerals := {}
  /-- The limits of the buffer of characters, and of a parser's buffer of tokens. -/
  limits : Limits := {}
deriving DecidableEq

namespace Dialect

/-- The brackets around a group of the given shape. -/
def brackets (d : Dialect) : Container → Brackets
  | .list => d.list
  | .vector => d.vector
  | .set => d.set
  | .scalar => d.scalar

/-- The first shape of group that `c` opens. -/
def opening? (d : Dialect) (c : Char) : Option Container :=
  Container.all.find? (fun k => (d.brackets k).opening = c)

/-- The first shape of group that `c` closes. -/
def closing? (d : Dialect) (c : Char) : Option Container :=
  Container.all.find? (fun k => (d.brackets k).closing = c)

end Dialect

end Dataflow.Lexer
