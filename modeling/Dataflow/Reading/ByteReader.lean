import Dataflow.Reading.Source
import Dataflow.Text.Utf8

/-!
# Dataflow.Reading.ByteReader

The characters of a reader of UTF-8 bytes. Bytes arrive in portions of any size, with
interruptions and failures between them; characters are decoded one at a time, and no more bytes
are taken than the next character needs.

* `Arrival` — what one request for bytes comes to;
* `ByteReader` — the bytes that have arrived and are not yet used, and the arrivals to come;
* `ByteReader.nextByte`, `ByteReader.nextChar`, `ByteReader.readChars` — one byte, one character,
  a portion of characters. The end, once reported, is final; a failure is not.
-/

namespace Dataflow.Reading

open Text

/-- What one request for bytes comes to. -/
inductive Arrival where
  /-- Some bytes; none at all report the end. -/
  | bytes (portion : List UInt8)
  /-- The request was interrupted and is to be made again. -/
  | interrupted
  /-- The request failed, for a reason in the reader's own words. -/
  | failed (message : String)

/-- How many bytes arrive. -/
def Arrival.size : Arrival → Nat
  | bytes portion => portion.length
  | _ => 0

/-- A supply of characters from bytes. -/
structure ByteReader where
  /-- Bytes that have arrived and are not yet used. -/
  held : List UInt8 := []
  /-- What further requests will come to; behind them all, the end. -/
  arrivals : List Arrival
  /-- Whether the end has been met between two characters. -/
  ended : Bool := false

namespace ByteReader

/-- Requests bytes until some arrive, and takes the first of them. -/
def request : List Arrival → EStateM.Result Failure ByteReader (Option UInt8)
  | [] => .ok none { arrivals := [] }
  | .interrupted :: rest => request rest
  | .failed message :: rest => .error (.error (.input (.reader message))) { arrivals := rest }
  | .bytes [] :: rest => .ok none { arrivals := rest }
  | .bytes (b :: held) :: rest => .ok (some b) { held, arrivals := rest }

/-- Takes the next byte, or meets the end. Asked only while the end is not final. -/
def nextByte : Run ByteReader (Option UInt8)
  | { held := [], arrivals, .. } => request arrivals
  | { held := b :: held, arrivals, ended } => .ok (some b) { held, arrivals, ended }

/-- Takes `n` more bytes of a character that has begun. -/
def continuation : (n : Nat) → Run ByteReader (List UInt8)
  | 0 => pure []
  | n + 1 => do
    match ← nextByte with
    | none => Run.fail (.input .truncated)
    | some b => return b :: (← continuation n)

/-- Takes the bytes of one character and decodes them, or meets the end. -/
def nextChar : Run ByteReader (Option Char) := do
  match ← nextByte with
  | none => return none
  | some lead =>
    match Utf8.width? lead with
    | none => Run.fail (.input (.invalidLead lead))
    | some width =>
      match Utf8.decode lead (← continuation (width - 1)) with
      | .error e => Run.fail (.input e)
      | .ok c => return some (admitted c)

/-- Takes up to `n` characters. A failure loses those taken before it. -/
def readChars : (n : Nat) → Run ByteReader (List Char)
  | 0 => pure []
  | n + 1 => do
    if (← get).ended then return []
    match ← nextChar with
    | none =>
      modify fun r => { r with ended := true }
      return []
    | some c => return c :: (← readChars n)

/-- The bytes not yet used. -/
def unused (r : ByteReader) : Nat :=
  r.arrivals.foldr (fun a n => a.size + n) r.held.length

instance : Source ByteReader Char where
  read := readChars
  endMarker _ := endOfInput
  remaining := unused

end ByteReader

/-- A supply of characters of either kind: a text at hand, or a reader of bytes. -/
inductive Feed where
  | text (items : Items Char)
  | reader (bytes : ByteReader)

namespace Feed

/-- A portion from whichever supply it is. -/
def read (n : Nat) : Run Feed (List Char)
  | text items =>
    match Source.read n items with
    | .ok cs items => .ok cs (text items)
    | .error e items => .error e (text items)
  | reader bytes =>
    match Source.read n bytes with
    | .ok cs bytes => .ok cs (reader bytes)
    | .error e bytes => .error e (reader bytes)

instance : Source Feed Char where
  read := read
  endMarker
    | text items => Source.endMarker items
    | reader bytes => Source.endMarker bytes
  remaining
    | text items => Source.remaining items
    | reader bytes => Source.remaining bytes

end Feed

end Dataflow.Reading
