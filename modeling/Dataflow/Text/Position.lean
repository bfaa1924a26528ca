/-!
# Dataflow.Text.Position

Where something stands in a text. Lines and columns count from zero, columns in characters.

* `Position` — a line and a column, ordered line first;
* `Position.advance`, `Position.after` — the position behind one character or behind several;
* `Span` — the half-open range between two positions.
-/

namespace Dataflow.Text

/-- A place in a text: its line and its column in that line, both from zero. -/
structure Position where
  line : Nat := 0
  column : Nat := 0
deriving DecidableEq, Inhabited

namespace Position

/-- The position behind `c`: a line break starts a new line, any other character takes one
column. -/
def advance (p : Position) (c : Char) : Position :=
  if c = '\n' then ⟨p.line + 1, 0⟩ else ⟨p.line, p.column + 1⟩

/-- The position behind all of `text`, when `text` starts at `p`. -/
def after (p : Position) (text : List Char) : Position :=
  text.foldl advance p

@[simp] theorem after_nil (p : Position) : p.after [] = p := rfl

@[simp] theorem after_cons (p : Position) (c : Char) (text : List Char) :
    p.after (c :: text) = (p.advance c).after text := rfl

@[simp] theorem after_append (p : Position) (first second : List Char) :
    p.after (first ++ second) = (p.after first).after second :=
  List.foldl_append

/-- Positions are compared by line, and in one line by column. -/
instance : LT Position where
  lt p q := p.line < q.line ∨ p.line = q.line ∧ p.column < q.column

instance (p q : Position) : Decidable (p < q) :=
  inferInstanceAs (Decidable (_ ∨ _))

theorem lt_iff {p q : Position} :
    p < q ↔ p.line < q.line ∨ p.line = q.line ∧ p.column < q.column := Iff.rfl

/-- The first of two positions. -/
def earlier (p q : Position) : Position := if q < p then q else p

/-- The last of two positions. -/
def later (p q : Position) : Position := if p < q then q else p

/-- The text `line:column`. -/
def text (p : Position) : String :=
  toString p.line ++ ":" ++ toString p.column

end Position

/-- The half-open range of a text from `start` up to, but without, `stop`. -/
structure Span where
  start : Position := {}
  stop : Position := {}
deriving DecidableEq, Inhabited

namespace Span

/-- The empty range at `p`. -/
def point (p : Position) : Span := ⟨p, p⟩

/-- Whether the range covers nothing, that is, stops where it starts. -/
def isEmpty (s : Span) : Bool := s.start = s.stop

@[simp] theorem isEmpty_point (p : Position) : (point p).isEmpty = true := by
  simp [isEmpty, point]

/-- The smallest range that covers both. -/
def merge (s t : Span) : Span := ⟨s.start.earlier t.start, s.stop.later t.stop⟩

/-- The text `start to stop`. -/
def text (s : Span) : String := s.start.text ++ " to " ++ s.stop.text

end Span

end Dataflow.Text
