import Dataflow.Circuit.BuildError
import Dataflow.Text.Position

/-!
# Dataflow.Error

Everything that can go wrong between the bytes of a reader and the netlist.

* `InputError` — a reader fails or its bytes are not UTF-8;
* `Error` — what a user of the library has to expect, with the words for it in `Error.message`;
* `Violation` — a broken rule of the library's own use, such as giving back a mark that was never
  set;
* `Failure` — how a computation can end without an answer: with an error, with a violation, or by
  running out of the steps that a loop is allowed.
-/

namespace Dataflow

open Text Circuit

/-- Why no further character could be had from a reader. -/
inductive InputError where
  /-- The reader failed, and says why in its own words. -/
  | reader (message : String)
  /-- The bytes end inside a character. -/
  | truncated
  /-- No character begins with this byte. -/
  | invalidLead (byte : UInt8)
  /-- Only the first `valid` bytes of a character could belong together. -/
  | invalidSequence (valid : Nat)
deriving DecidableEq

namespace InputError

/-- A byte as two lowercase hexadecimal digits. -/
def hexByte (b : UInt8) : String :=
  String.ofList [Nat.digitChar (b.toNat / 16), Nat.digitChar (b.toNat % 16)]

def message : InputError → String
  | reader message => message
  | truncated => "truncated UTF-8 sequence"
  | invalidLead byte => "invalid UTF-8 lead byte 0x" ++ hexByte byte
  | invalidSequence valid =>
    "invalid utf-8 sequence of " ++ toString valid ++ " bytes from index 0"

end InputError

/-- The errors of scanning and parsing. -/
inductive Error where
  /-- Looking so far ahead, or back to the oldest mark, takes a larger buffer than is allowed. -/
  | capacityExceeded (requested limit : Nat)
  /-- No token begins with this character. -/
  | unexpectedCharacter (character : Char) (position : Position)
  /-- The input ends inside the literal that opened at `position`. -/
  | unterminatedLiteral (position : Position)
  /-- Something else than `found` has to stand here. -/
  | mismatch (expected found context : String) (span : Option Span)
  /-- No operand begins with what stands here. -/
  | unexpectedOperand (found context : String) (span : Option Span)
  | input (cause : InputError)
  | build (cause : BuildError)
deriving DecidableEq

namespace Error

/-- The end of a message about a token: where the token starts, if that is known. -/
def place : Option Span → String
  | none => ""
  | some span => " at " ++ span.start.text

def message : Error → String
  | capacityExceeded requested limit =>
    "buffer capacity exceeded: " ++ toString requested ++ " elements needed, limit is " ++
      toString limit
  | unexpectedCharacter character position =>
    "unexpected character " ++ quoteChar character ++ " at " ++ position.text
  | unterminatedLiteral position => "unterminated literal starting at " ++ position.text
  | mismatch expected found context span =>
    "expected " ++ expected ++ ", found " ++ quoteString found ++ " near \x60" ++ context ++
      "\x60" ++ place span
  | unexpectedOperand found context span =>
    "unexpected operand " ++ quoteString found ++ " near \x60" ++ context ++ "\x60" ++ place span
  | input cause => "input error: " ++ cause.message
  | build cause => cause.message

end Error

/-- A rule of use that the caller has broken. -/
inductive Violation where
  | commitWithoutMark
  | rollbackWithoutMark
  /-- More elements were to be dropped than are held. -/
  | removal (wanted held : Nat)
  /-- A group was to be read where no bracket opens. -/
  | groupWithoutBracket (found : String)
  /-- An operator was to be applied with too few operands at hand. -/
  | noOperand
  /-- An operator was to be applied where none is waiting. -/
  | noOperator
deriving DecidableEq

def Violation.message : Violation → String
  | commitWithoutMark => "commit without an outstanding mark"
  | rollbackWithoutMark => "rollback without an outstanding mark"
  | removal wanted held =>
    "cannot remove " ++ toString wanted ++ " elements from a buffer holding " ++ toString held
  | groupWithoutBracket found => "group starts at " ++ found
  | noOperand => "operand stack underflow"
  | noOperator => "reduce with an empty operator stack"

/-- How a computation ends that gives no answer. -/
inductive Failure where
  | error (e : Error)
  | violation (v : Violation)
  /-- A loop has used up the steps that its input could account for. -/
  | stalled
deriving DecidableEq

end Dataflow
