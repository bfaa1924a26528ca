import Dataflow.Text.Combining
import Dataflow.Text.Unprintable

/-!
# Dataflow.Text.Quoted

How messages show a string or a character: between quotation marks, with every character that
could mislead a reader written as an escape.

* `escape` — one character inside the given quotation marks;
* `quoteString`, `quoteChar` — a string in double quotation marks, a character in single ones.
-/

namespace Dataflow.Text

/-- The hexadecimal escape of a code point: lowercase digits without leading zeros. -/
def hexEscape (c : Char) : List Char :=
  ['\\', 'u', '{'] ++ Nat.toDigits 16 c.toNat ++ ['}']

/-- A character as it stands between two `delimiter`s. The delimiter and the backslash take a
backslash in front; tab, line break, carriage return and the zero character have letters of their
own; combining characters and characters without a visible form are given by code point. -/
def escape (delimiter c : Char) : List Char :=
  if c = '\t' then ['\\', 't']
  else if c = '\n' then ['\\', 'n']
  else if c = '\r' then ['\\', 'r']
  else if c = '\x00' then ['\\', '0']
  else if c = '\\' ∨ c = delimiter then ['\\', c]
  else if isCombining c || isUnprintable c then hexEscape c
  else [c]

/-- A text between two `delimiter`s, each of its characters escaped. -/
def quote (delimiter : Char) (text : List Char) : List Char :=
  delimiter :: text.flatMap (escape delimiter) ++ [delimiter]

/-- A string in double quotation marks. -/
def quoteString (s : String) : String :=
  String.ofList (quote '\x22' s.toList)

/-- A character in single quotation marks. -/
def quoteChar (c : Char) : String :=
  String.ofList (quote '\x27' [c])

end Dataflow.Text
