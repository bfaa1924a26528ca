import Dataflow.Error

/-!
# Dataflow.Text.Utf8

One character of UTF-8: how many bytes it takes, which bytes may follow which, and the character
that they stand for.

* `Utf8.width?` — the length of a character, by its first byte;
* `Utf8.validPrefix` — how many bytes from the first on fit together;
* `Utf8.decode` — the character, when all of them do.
-/

namespace Dataflow.Text.Utf8

/-- The number of bytes of the character that begins with `lead`. Bytes that only continue a
character, and those that could begin only an over-long form or a value above the last code
point, begin none. -/
def width? (lead : UInt8) : Option Nat :=
  if lead ≤ 0x7f then some 1
  else if 0xc2 ≤ lead ∧ lead ≤ 0xdf then some 2
  else if 0xe0 ≤ lead ∧ lead ≤ 0xef then some 3
  else if 0xf0 ≤ lead ∧ lead ≤ 0xf4 then some 4
  else none

/-- The first and the last byte that may stand second, behind `lead`. The narrower ranges keep
out over-long forms, surrogates and values above the last code point. -/
def secondRange (lead : UInt8) : UInt8 × UInt8 :=
  if lead = 0xe0 then (0xa0, 0xbf)
  else if lead = 0xed then (0x80, 0x9f)
  else if lead = 0xf0 then (0x90, 0xbf)
  else if lead = 0xf4 then (0x80, 0x8f)
  else (0x80, 0xbf)

/-- Whether `b` may stand second, behind `lead`. -/
def isSecond (lead b : UInt8) : Bool :=
  (secondRange lead).1 ≤ b ∧ b ≤ (secondRange lead).2

/-- Whether `b` may stand third or fourth. -/
def isContinuation (b : UInt8) : Bool := 0x80 ≤ b ∧ b ≤ 0xbf

/-- How many of the bytes, the first of them a `lead`, fit together as the beginning of one
character. -/
def validPrefix (lead : UInt8) : List UInt8 → Nat
  | [] => 1
  | second :: rest =>
    if isSecond lead second then 2 + (rest.takeWhile isContinuation).length else 1

/-- The payload of a first byte: what is left without the bits that tell the width. -/
def leadBits (lead : UInt8) : List UInt8 → Nat
  | [] => lead.toNat
  | [_] => lead.toNat % 0x20
  | [_, _] => lead.toNat % 0x10
  | _ => lead.toNat % 0x08

/-- The code point of a character from its first byte and the bytes behind it, six bits each. -/
def codePoint (lead : UInt8) (rest : List UInt8) : Nat :=
  rest.foldl (fun code b => code * 0x40 + b.toNat % 0x40) (leadBits lead rest)

/-- The character of the given bytes, or how many of them fit together. -/
def decode (lead : UInt8) (rest : List UInt8) : Except InputError Char :=
  if validPrefix lead rest = rest.length + 1 then .ok (Char.ofNat (codePoint lead rest))
  else .error (.invalidSequence (validPrefix lead rest))

end Dataflow.Text.Utf8
