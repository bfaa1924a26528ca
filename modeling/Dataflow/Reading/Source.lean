import Dataflow.Run

/-!
# Dataflow.Reading.Source

Supplies of elements, read front to back in portions of any size.

* `Source` — what a supply offers: reading a portion, the marker that stands for everything
  behind its end, and a bound on what is still to come;
* `Source.readFully` — reads until a wanted number of elements is reached or the supply ends;
* `Source.readPadded` — the same with end markers in place of what is missing;
* `Items` — the supply of a given list;
* `Items.ofText` — the characters of a text;
* `Paced` — a supply that hands out only so many elements at a time.
-/

namespace Dataflow.Reading

/-- A supply of elements of type `α`, with the state `σ`. -/
class Source (σ : Type) (α : outParam Type) where
  /-- Reads up to `n` elements. Where some are wanted, none at all means the end. -/
  read : (n : Nat) → Run σ (List α)
  /-- The element that stands for everything behind the end. -/
  endMarker : σ → α
  /-- No more elements than this are still to come before the end. -/
  remaining : σ → Nat

namespace Source

variable {σ α : Type} [Source σ α]

/-- Reads portion after portion until `wanted` elements are there or a portion is empty. Every
portion but the last holds an element, so `wanted` portions are enough. -/
def readPortions : (portions wanted : Nat) → Run σ (List α)
  | 0, _ => pure []
  | portions + 1, wanted =>
    if wanted = 0 then pure []
    else do
      let portion ← read wanted
      if portion.isEmpty then pure []
      else return portion ++ (← readPortions portions (wanted - portion.length))

/-- Reads `wanted` elements, or as many as there are before the end. -/
def readFully (wanted : Nat) : Run σ (List α) :=
  readPortions wanted wanted

/-- The elements followed by end markers up to the length `n`. -/
def padded (n : Nat) (endMarker : α) (elements : List α) : List α :=
  elements ++ List.replicate (n - elements.length) endMarker

@[simp] theorem length_padded {n : Nat} {endMarker : α} {elements : List α}
    (h : elements.length ≤ n) : (padded n endMarker elements).length = n := by
  simp [padded, h]

end Source

/-- The supply of the elements of a list. They are counted once, so that no reader has to walk
the list to learn how many are left. -/
structure Items (α : Type) where
  rest : List α
  endMarker : α
  count : Nat := rest.length
  count_eq : count = rest.length := by rfl

namespace Items

variable {α : Type}

/-- The supply behind its first `n` elements. -/
def drop (s : Items α) (n : Nat) : Items α where
  rest := s.rest.drop n
  endMarker := s.endMarker
  count := s.count - n
  count_eq := by simp [s.count_eq]

@[ext] theorem ext {s t : Items α} (rest : s.rest = t.rest)
    (endMarker : s.endMarker = t.endMarker) : s = t := by
  obtain ⟨_, _, _, rfl⟩ := s
  obtain ⟨_, _, _, rfl⟩ := t
  cases rest
  cases endMarker
  rfl

instance : Source (Items α) α where
  read n := fun s => .ok (s.rest.take n) (s.drop n)
  endMarker s := s.endMarker
  remaining s := s.count

theorem read_apply (s : Items α) (n : Nat) :
    Source.read n s = .ok (s.rest.take n) (s.drop n) := rfl

@[simp] theorem rest_drop (s : Items α) (n : Nat) : (s.drop n).rest = s.rest.drop n := rfl

@[simp] theorem remaining_eq (s : Items α) : Source.remaining s = s.rest.length := s.count_eq

end Items

/-- The character that stands behind the end of every text. It is a noncharacter. -/
def endOfInput : Char := '\uffff'

/-- A character as a text supplies it: the character that marks the end cannot be part of a text,
and the replacement character takes its place. -/
def admitted (c : Char) : Char :=
  if c = endOfInput then '\ufffd' else c

theorem admitted_ne_endOfInput (c : Char) : admitted c ≠ endOfInput := by
  unfold admitted
  split
  · decide
  · assumption

theorem admitted_of_ne {c : Char} (h : c ≠ endOfInput) : admitted c = c := if_neg h

/-- The supply of the characters of a text. -/
def Items.ofText (text : String) : Items Char where
  rest := text.toList.map admitted
  endMarker := endOfInput

/-- A supply that hands out at most `pace` elements at a time, if a pace is set. -/
structure Paced (σ : Type) where
  source : σ
  pace : Option Nat := none

namespace Paced

variable {σ α β : Type}

/-- How many elements a reader who wants `n` is given at most. -/
def portion (pace : Option Nat) (n : Nat) : Nat :=
  match pace with
  | none => n
  | some most => min n most

/-- A computation on the supply behind the pace. -/
def onSource (x : Run σ β) : Run (Paced σ) β
  | ⟨source, pace⟩ =>
    match x source with
    | .ok b source => .ok b ⟨source, pace⟩
    | .error e source => .error e ⟨source, pace⟩

instance [Source σ α] : Source (Paced σ) α where
  read n := fun s => onSource (Source.read (portion s.pace n)) s
  endMarker s := Source.endMarker s.source
  remaining s := Source.remaining s.source

end Paced

end Dataflow.Reading
