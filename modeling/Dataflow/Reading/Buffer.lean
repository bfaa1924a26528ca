import Dataflow.Reading.Limits
import Dataflow.Reading.Ring
import Dataflow.Reading.Source

/-!
# Dataflow.Reading.Buffer

A window on a source: the elements that have been read and are still wanted, in a ring that grows
as far as its limit. An element is read when it is first asked for, never earlier, and behind the
end of the source there is an end marker at every index.

* `Buffer` — the source, the ring over it, and whether the source is known to have ended;
* `Buffer.elementAt` — the element at an index of the window, read if need be;
* `Buffer.buffered?` — the same without reading;
* `Buffer.removeFront`, `Buffer.reset` — moving the window on, and to another source.
-/

namespace Dataflow.Reading

/-- A window on a source. -/
structure Buffer (σ α : Type) where
  source : σ
  ring : Ring α
  /-- Growing never takes the capacity past this; a ring may begin with more. -/
  limit : Nat
  /-- Whether the source has come to its end; it is not read any more then. -/
  exhausted : Bool := false

namespace Buffer

variable {σ α β : Type}

/-- A computation on the source. The elements in the window stay as they are. -/
def onSource (x : Run σ β) : Run (Buffer σ α) β
  | ⟨source, ring, limit, exhausted⟩ =>
    match x source with
    | .ok b source => .ok b ⟨source, ring, limit, exhausted⟩
    | .error e source => .error e ⟨source, ring, limit, exhausted⟩

theorem onSource_ok {x : Run σ β} {b : Buffer σ α} {a : β} {source : σ}
    (h : x b.source = .ok a source) : onSource x b = .ok a { b with source } := by
  simp [onSource, h]

theorem onSource_error {x : Run σ β} {b : Buffer σ α} {e : Failure} {source : σ}
    (h : x b.source = .error e source) : onSource x b = .error e { b with source } := by
  simp [onSource, h]

variable [Source σ α]

/-- An empty window at the start of a source. -/
def ofSource (source : σ) (limits : Limits) : Buffer σ α where
  source := source
  ring := Ring.empty limits.effectiveInitial (Source.endMarker source)
  limit := limits.largest

/-- The number of elements in the window. -/
def size (b : Buffer σ α) : Nat := b.ring.size

/-- The number of elements that there is room for. -/
def capacity (b : Buffer σ α) : Nat := b.ring.capacity

/-- Makes room for `needed` elements by doubling the capacity, unless that takes it past the
limit. -/
def grow (needed : Nat) : Run (Buffer σ α) Unit := do
  let b ← get
  if b.capacity < needed then
    let capacity := doubledTo b.capacity needed
    if b.limit < capacity then
      Run.fail (.capacityExceeded capacity b.limit)
    set { b with ring := b.ring.regrow capacity (Source.endMarker b.source) }

theorem grow_apply (needed : Nat) (b : Buffer σ α) : grow needed b =
    if b.capacity < needed then
      if b.limit < doubledTo b.capacity needed then
        .error (.error (.capacityExceeded (doubledTo b.capacity needed) b.limit)) b
      else .ok () { b with ring := b.ring.regrow (doubledTo b.capacity needed) (Source.endMarker b.source) }
    else .ok () b := by
  unfold grow
  simp only [Run.bind_apply, Run.get_apply]
  split
  · split <;> rfl
  · rfl

/-- Reads the next `n` elements into the window, for which there has to be room. A source that
falls short has ended; end markers take the place of what it did not deliver. -/
def pull (n : Nat) : Run (Buffer σ α) Unit := do
  let elements ← if (← get).exhausted then pure [] else onSource (Source.readFully n)
  modify fun ⟨source, ring, limit, exhausted⟩ =>
    { source, limit
      ring := ring.pushAll (Source.padded n (Source.endMarker source) elements)
      exhausted := exhausted || elements.length < n }

/-- The element at index `i`. What is missing up to there is read first. -/
def elementAt (i : Nat) : Run (Buffer σ α) α := do
  let b ← get
  if b.size ≤ i then
    grow (i + 1)
    pull (i + 1 - b.size)
  return (← get).ring.nth i

/-- The element at index `i`, if it has been read. -/
def buffered? (b : Buffer σ α) (i : Nat) : Option α := b.ring.get? i

/-- Takes the first `n` elements out of the window. -/
def removeFront (n : Nat) : Run (Buffer σ α) Unit := do
  let b ← get
  if b.size < n then
    Run.violate (.removal n b.size)
  set { b with ring := b.ring.dropFront n }

omit [Source σ α] in
theorem removeFront_apply (n : Nat) (b : Buffer σ α) : removeFront n b =
    if b.size < n then .error (.violation (.removal n b.size)) b
    else .ok () { b with ring := b.ring.dropFront n } := by
  unfold removeFront
  simp only [Run.bind_apply, Run.get_apply]
  split <;> rfl

/-- An empty window at the start of another source. The capacity stays as it has grown. -/
def reset (b : Buffer σ α) (source : σ) : Buffer σ α where
  source := source
  ring := b.ring.dropFront b.size
  limit := b.limit
  exhausted := false

end Buffer

end Dataflow.Reading
