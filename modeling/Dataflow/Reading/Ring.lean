/-!
# Dataflow.Reading.Ring

A circular queue in an array of slots. Elements join at the back and leave at the front; the
slots in use start at `head` and go round past the last slot to the first.

* `Ring` — the queue, with the facts about its numbers that every operation keeps;
* `Ring.toList` — the elements from front to back, which is all that a ring means. Every
  operation is described by what it does to this list: `toList_push`, `toList_dropFront`,
  `toList_regrow`;
* `Ring.nth` — the element at an index, counted from the front.
-/

namespace Dataflow.Reading

/-- A queue of `size` elements in the slots from `head` on, round the end of the array. -/
structure Ring (α : Type) where
  slots : Array α
  head : Nat
  size : Nat
  size_le : size ≤ slots.size
  head_lt : head < slots.size

namespace Ring

variable {α : Type}

/-- The number of elements that there is room for. -/
def capacity (r : Ring α) : Nat := r.slots.size

theorem capacity_pos (r : Ring α) : 0 < r.capacity :=
  Nat.lt_of_le_of_lt (Nat.zero_le _) r.head_lt

theorem size_le_capacity (r : Ring α) : r.size ≤ r.capacity := r.size_le

/-- The slot of the element at index `i`. -/
def slot (r : Ring α) (i : Nat) : Nat := (r.head + i) % r.slots.size

theorem slot_lt (r : Ring α) (i : Nat) : r.slot i < r.slots.size :=
  Nat.mod_lt _ r.capacity_pos

/-- What the slot for index `i` holds; an element of the ring only below its size. -/
def nth (r : Ring α) (i : Nat) : α :=
  have := r.slot_lt i
  r.slots[r.slot i]

/-- The element at index `i`, if there are so many. -/
def get? (r : Ring α) (i : Nat) : Option α :=
  if i < r.size then some (r.nth i) else none

/-- The elements from front to back. -/
def toList (r : Ring α) : List α := (List.range r.size).map r.nth

/-- An empty ring of the given capacity, but at least one slot. The filler stands in the slots
that are not in use. -/
def empty (capacity : Nat) (filler : α) : Ring α where
  slots := Array.replicate (max capacity 1) filler
  head := 0
  size := 0
  size_le := by simp
  head_lt := by rw [Array.size_replicate]; omega

/-- Puts an element at the back, if there is room. -/
def push (r : Ring α) (a : α) : Ring α :=
  if h : r.size < r.slots.size then
    { slots := r.slots.set (r.slot r.size) a (r.slot_lt _)
      head := r.head
      size := r.size + 1
      size_le := by rw [Array.size_set]; exact h
      head_lt := by rw [Array.size_set]; exact r.head_lt }
  else r

/-- Puts several elements at the back, one after the other. -/
def pushAll (r : Ring α) (elements : List α) : Ring α :=
  elements.foldl push r

/-- Takes `n` elements away from the front, or all if there are fewer. -/
def dropFront (r : Ring α) (n : Nat) : Ring α where
  slots := r.slots
  head := r.slot n
  size := r.size - n
  size_le := Nat.le_trans (Nat.sub_le _ _) r.size_le
  head_lt := r.slot_lt n

/-- The same elements in a ring of another capacity. -/
def regrow (r : Ring α) (capacity : Nat) (filler : α) : Ring α :=
  (empty capacity filler).pushAll r.toList

/-! ## The list of elements -/

@[simp] theorem length_toList (r : Ring α) : r.toList.length = r.size := by
  simp [toList]

theorem size_eq_of_toList_eq {r s : Ring α} (h : s.toList = r.toList) : s.size = r.size := by
  rw [← length_toList, h, length_toList]

theorem getElem?_toList (r : Ring α) (i : Nat) : r.toList[i]? = r.get? i := by
  unfold toList get?
  by_cases h : i < r.size <;> simp [h]

theorem getElem?_slot (r : Ring α) (i : Nat) : r.slots[r.slot i]? = some (r.nth i) := by
  simp [nth, r.slot_lt i]

theorem nth_eq {r s : Ring α} {i j : Nat} (h : r.slots[r.slot i]? = s.slots[s.slot j]?) :
    r.nth i = s.nth j := by
  simpa [getElem?_slot] using h

@[simp] theorem toList_empty (capacity : Nat) (filler : α) :
    (empty capacity filler).toList = [] := rfl

@[simp] theorem size_empty (capacity : Nat) (filler : α) : (empty capacity filler).size = 0 := rfl

@[simp] theorem capacity_empty (capacity : Nat) (filler : α) :
    (empty capacity filler).capacity = max capacity 1 := by
  simp [empty, Ring.capacity]

@[simp] theorem capacity_push (r : Ring α) (a : α) : (r.push a).capacity = r.capacity := by
  unfold push capacity
  split <;> simp

theorem size_push {r : Ring α} (room : r.size < r.capacity) (a : α) :
    (r.push a).size = r.size + 1 := by
  have room' : r.size < r.slots.size := room
  simp [push, room']

/-- An element pushed with room to spare becomes the last one. -/
theorem toList_push {r : Ring α} (room : r.size < r.capacity) (a : α) :
    (r.push a).toList = r.toList ++ [a] := by
  have room' : r.size < r.slots.size := room
  have ne : ∀ i < r.size, r.slot r.size ≠ r.slot i := by
    intro i hi h
    unfold slot at h
    have hd := r.head_lt
    have low : ∀ k, k < r.slots.size → (r.head + k) % r.slots.size =
        if r.head + k < r.slots.size then r.head + k else r.head + k - r.slots.size := by
      intro k hk
      split
      · exact Nat.mod_eq_of_lt ‹_›
      · rw [Nat.mod_eq_sub_mod (by omega), Nat.mod_eq_of_lt (by omega)]
    rw [low _ room', low i (by omega)] at h
    split at h <;> split at h <;> omega
  rw [toList, size_push room, List.range_succ, List.map_append]
  congr 1
  · refine List.map_congr_left fun i hi => nth_eq ?_
    have hi : i < r.size := List.mem_range.1 hi
    have hslot : (r.push a).slot i = r.slot i := by simp [push, room', slot]
    rw [hslot]
    simp [push, room', ne i hi]
  · have hslot : (r.push a).slot r.size = r.slot r.size := by simp [push, room', slot]
    have last := (r.push a).getElem?_slot r.size
    rw [hslot] at last
    simp [push, room', r.slot_lt r.size] at last
    simp [push, room', ← last]

/-- Elements pushed with room for all of them follow in order. -/
theorem toList_pushAll {r : Ring α} {elements : List α}
    (room : r.size + elements.length ≤ r.capacity) :
    (r.pushAll elements).toList = r.toList ++ elements := by
  induction elements generalizing r with
  | nil => simp [pushAll]
  | cons a rest ih =>
    have room' : r.size < r.capacity := by simp at room; omega
    show (Ring.pushAll (r.push a) rest).toList = _
    rw [ih (by rw [size_push room', capacity_push]; simp at room; omega), toList_push room']
    simp

theorem capacity_pushAll (r : Ring α) (elements : List α) :
    (r.pushAll elements).capacity = r.capacity := by
  induction elements generalizing r with
  | nil => rfl
  | cons a rest ih => exact (ih (r.push a)).trans (capacity_push r a)

@[simp] theorem capacity_dropFront (r : Ring α) (n : Nat) :
    (r.dropFront n).capacity = r.capacity := rfl

@[simp] theorem size_dropFront (r : Ring α) (n : Nat) : (r.dropFront n).size = r.size - n := rfl

/-- Taking elements away leaves the later ones in order. -/
theorem toList_dropFront (r : Ring α) (n : Nat) : (r.dropFront n).toList = r.toList.drop n := by
  apply List.ext_getElem?
  intro i
  rw [List.getElem?_drop, getElem?_toList, getElem?_toList]
  unfold get?
  have : (i < (r.dropFront n).size) = (n + i < r.size) := by simp; omega
  simp only [this]
  split
  · congr 1
    refine nth_eq ?_
    have : (r.dropFront n).slot i = r.slot (n + i) := by
      simp [slot, dropFront, Nat.mod_add_mod, Nat.add_assoc]
    rw [this]
    rfl
  · rfl

theorem capacity_regrow (r : Ring α) (capacity : Nat) (filler : α) :
    (r.regrow capacity filler).capacity = max capacity 1 := by
  simp [regrow, capacity_pushAll]

/-- A change of capacity keeps all the elements, if they still fit. -/
theorem toList_regrow {r : Ring α} {capacity : Nat} (fits : r.size ≤ capacity) (filler : α) :
    (r.regrow capacity filler).toList = r.toList := by
  rw [regrow, toList_pushAll (by simp; omega)]
  simp

end Ring

end Dataflow.Reading
