import Dataflow.Reading.Buffer
import Dataflow.Reading.Marks
import Dataflow.Text.Position
import Dataflow.Text.Quoted

/-!
# Dataflow.Reading.Cursor

A place in a stream of elements, with lookahead and with marks to go back to. The same cursor
walks the characters of a text and the tokens of a lexer.

Elements behind the cursor stay in the window while a mark is outstanding. Without marks they are
dropped now and then (`compactAfter`), and earlier where they would make the ring grow; up to
`contextRadius` of them are kept where possible, for the context that messages show.

* `Element` — what a cursor has to know of the elements it walks over: the kind by which they are
  matched, and how messages show them;
* `Cursor` — the window, the marks, and the offset of the next element in the window;
* `Cursor.consume`, `Cursor.lookahead`, `Cursor.accept`, `Cursor.expect` — reading;
* `Cursor.mark`, `Cursor.commit`, `Cursor.rollback` — going back;
* `Cursor.mismatch`, `Cursor.unexpectedOperand` — the errors for what stands at the cursor.
-/

namespace Dataflow.Reading

open Text

/-- Elements of type `α` that are told apart by kinds of type `κ`. -/
class Element (α : Type) (κ : outParam Type) where
  kind : α → κ
  /-- The name of a kind in a message. -/
  kindName : κ → String
  /-- The element as messages show it. -/
  describe : α → String
  /-- The range of the text that the element covers, where that is known. -/
  span : α → Option Span := fun _ => none
  /-- What stands between two neighbours in the context that messages show. -/
  separator : String := " "

/-- Characters are their own kinds, and stand side by side in a context. -/
instance : Element Char Char where
  kind c := c
  kindName := quoteChar
  describe c := if c = endOfInput then "end of input" else c.toString
  separator := ""

/-- How many elements a message shows on each side of the one at the cursor. -/
def contextRadius : Nat := 3

/-- A place in a stream. -/
structure Cursor (σ α : Type) where
  /-- The window on the source. -/
  buffer : Buffer σ α
  /-- Offsets to go back to, innermost first. -/
  marks : Marks := []
  /-- Where in the window the next element stands. -/
  offset : Nat := 0
  /-- Elements consumed since those behind the cursor were last dropped. -/
  consumed : Nat := 0
  /-- After how many consumed elements those behind the cursor are dropped. -/
  compactAfter : Nat

namespace Cursor

variable {σ α κ β : Type}

/-- A computation on the window. -/
def onBuffer (x : Run (Buffer σ α) β) : Run (Cursor σ α) β
  | ⟨buffer, marks, offset, consumed, compactAfter⟩ =>
    match x buffer with
    | .ok b buffer => .ok b ⟨buffer, marks, offset, consumed, compactAfter⟩
    | .error e buffer => .error e ⟨buffer, marks, offset, consumed, compactAfter⟩

theorem onBuffer_ok {x : Run (Buffer σ α) β} {c : Cursor σ α} {a : β} {buffer : Buffer σ α}
    (h : x c.buffer = .ok a buffer) : onBuffer x c = .ok a { c with buffer } := by
  simp [onBuffer, h]

theorem onBuffer_error {x : Run (Buffer σ α) β} {c : Cursor σ α} {e : Failure}
    {buffer : Buffer σ α} (h : x c.buffer = .error e buffer) :
    onBuffer x c = .error e { c with buffer } := by
  simp [onBuffer, h]

/-- A computation on the marks. -/
def onMarks (x : Run Marks β) : Run (Cursor σ α) β
  | ⟨buffer, marks, offset, consumed, compactAfter⟩ =>
    match x marks with
    | .ok b marks => .ok b ⟨buffer, marks, offset, consumed, compactAfter⟩
    | .error e marks => .error e ⟨buffer, marks, offset, consumed, compactAfter⟩

/-- A computation on the source. What stands in the window stays as it is. -/
def onSource (x : Run σ β) : Run (Cursor σ α) β :=
  onBuffer (Buffer.onSource x)

variable [Source σ α] [Element α κ] [DecidableEq κ]

/-- A cursor at the start of a source. -/
def ofSource (source : σ) (limits : Limits) : Cursor σ α where
  buffer := Buffer.ofSource source limits
  compactAfter := limits.effectiveInitial * 4

/-- The cursor at the start of another source, without marks. The window keeps its capacity. -/
def reset (c : Cursor σ α) (source : σ) : Cursor σ α where
  buffer := c.buffer.reset source
  compactAfter := c.compactAfter

/-- How many elements stand in the window behind the cursor. -/
def retained (c : Cursor σ α) : Nat := c.offset

/-- The source that the elements come from. -/
def source (c : Cursor σ α) : σ := c.buffer.source

/-- The cursor over a changed source. What stands in the window stays as it is. -/
def mapSource (c : Cursor σ α) (f : σ → σ) : Cursor σ α :=
  { c with buffer := { c.buffer with source := f c.buffer.source } }

/-- No more elements than this can still be consumed before the end markers. -/
def remaining (c : Cursor σ α) : Nat :=
  (c.buffer.size - c.offset) + Source.remaining c.buffer.source

/-- Drops what stands behind the cursor, except for the last `keep` elements. -/
def dropConsumed (keep : Nat) : Run (Cursor σ α) Unit := do
  let c ← get
  onBuffer (Buffer.removeFront (c.offset - keep))
  modify fun c => { c with offset := keep, consumed := 0 }

omit [Source σ α] in
theorem dropConsumed_apply (keep : Nat) (c : Cursor σ α) : dropConsumed keep c =
    if c.buffer.size < c.offset - keep then
      .error (.violation (.removal (c.offset - keep) c.buffer.size)) c
    else .ok () { c with
      buffer := { c.buffer with ring := c.buffer.ring.dropFront (c.offset - keep) }
      offset := keep
      consumed := 0 } := by
  have hremove := Buffer.removeFront_apply (c.offset - keep) c.buffer
  unfold dropConsumed
  rw [Run.bind_apply, Run.get_apply]
  dsimp only
  rw [Run.bind_apply]
  split at hremove
  · next hsize => rw [onBuffer_error hremove, if_pos hsize]
  · next hsize =>
    rw [onBuffer_ok hremove, if_neg hsize]
    rfl

/-- How many elements behind the cursor can stay when the ring is not to grow for the element
`k` ahead. -/
def keepable (c : Cursor σ α) (k : Nat) : Nat :=
  min (min contextRadius c.offset) (c.buffer.capacity - (k + 1))

/-- Drops elements behind the cursor where the ring would have to grow for the element `k`
ahead, unless a mark may still go back to them. -/
def makeRoom (k : Nat) : Run (Cursor σ α) Unit := do
  let c ← get
  if c.marks.isEmpty ∧ c.buffer.capacity ≤ c.offset + k ∧ c.keepable k < c.offset then
    dropConsumed (c.keepable k)

omit [Source σ α] in
theorem makeRoom_apply (k : Nat) (c : Cursor σ α) : makeRoom k c =
    if c.marks.isEmpty ∧ c.buffer.capacity ≤ c.offset + k ∧ c.keepable k < c.offset then
      dropConsumed (c.keepable k) c
    else .ok () c := by
  unfold makeRoom
  rw [Run.bind_apply, Run.get_apply]
  dsimp only
  split <;> rfl

/-- The element `k` places ahead, which is not consumed. -/
def lookahead (k : Nat) : Run (Cursor σ α) α := do
  makeRoom k
  onBuffer (Buffer.elementAt ((← get).offset + k))

/-- The element at the cursor, which is not consumed. -/
def peek : Run (Cursor σ α) α := lookahead 0

/-- The kind of the element `k` places ahead. -/
def kindAt (k : Nat) : Run (Cursor σ α) κ :=
  return Element.kind (← lookahead k)

/-- The element at the cursor, which then stands behind it. -/
def consume : Run (Cursor σ α) α := do
  makeRoom 0
  let a ← onBuffer (Buffer.elementAt (← get).offset)
  modify fun c => { c with offset := c.offset + 1, consumed := c.consumed + 1 }
  let c ← get
  if c.marks.isEmpty ∧ c.compactAfter < c.consumed then
    dropConsumed 0
  return a

/-- Consumes the element at the cursor if it is of the given kind. -/
def accept (kind : κ) : Run (Cursor σ α) (Option α) := do
  if Element.kind (← peek) = kind then
    return some (← consume)
  else
    return none

/-! ## Messages -/

/-- What a message says of the element at the cursor. -/
def current : Run (Cursor σ α) (String × Option Span) := fun c =>
  match (peek : Run (Cursor σ α) α) c with
  | .ok a c => .ok (Element.describe a, Element.span a) c
  | .error _ c => .ok ("unreadable input", none) c

/-- The elements from `k` ahead on, `n` of them, up to the first that is of the end marker's kind
or cannot be read. -/
def ahead (endKind : κ) : (n k : Nat) → Run (Cursor σ α) (List α)
  | 0, _ => pure []
  | n + 1, k => fun c =>
    match (onBuffer (Buffer.elementAt (c.offset + k)) : Run (Cursor σ α) α) c with
    | .error _ c => .ok [] c
    | .ok a c =>
      if Element.kind a = endKind then .ok [a] c
      else (return a :: (← ahead endKind n (k + 1))) c

/-- The elements around the cursor, as messages show them: those behind it that are still in the
window, the one at the cursor, and those ahead of it up to the end of the input. -/
def context : Run (Cursor σ α) String := do
  let c ← get
  let radius := min contextRadius c.offset
  let behind := (List.range radius).filterMap fun i => c.buffer.buffered? (c.offset - radius + i)
  let ahead ← ahead (Element.kind (Source.endMarker c.buffer.source)) (contextRadius + 1) 0
  return (Element.separator α).intercalate ((behind ++ ahead).map Element.describe)

/-- The error for an element at the cursor where something else is expected. -/
def mismatch (expected : String) : Run (Cursor σ α) Error := do
  let (found, span) ← current
  return .mismatch expected found (← context) span

/-- The error for an element at the cursor where an operand is expected. -/
def unexpectedOperand : Run (Cursor σ α) Error := do
  let (found, span) ← current
  return .unexpectedOperand found (← context) span

/-- Consumes the element at the cursor, which has to be of the given kind. -/
def expect (kind : κ) : Run (Cursor σ α) α := do
  match ← accept kind with
  | some a => return a
  | none => Run.fail (← mismatch (Element.kindName α kind))

/-! ## Marks -/

/-- Marks the place of the cursor. -/
def mark : Run (Cursor σ α) Unit := do
  onMarks (Marks.mark (← get).offset)

/-- Gives the innermost mark up. -/
def commit : Run (Cursor σ α) Unit := onMarks Marks.commit

/-- Goes back to the innermost mark. -/
def rollback : Run (Cursor σ α) Unit := do
  let offset ← onMarks Marks.rollback
  modify fun c => { c with offset }

end Cursor

end Dataflow.Reading
