/-!
# Dataflow.Reading.Limits

How large a buffer begins and how large it may grow. Capacities are doubled, and the first one is
a power of two, so every capacity is.

* `doubledTo` — doubles a capacity until it is large enough;
* `Limits` — the first and the largest capacity.
-/

namespace Dataflow.Reading

/-- Doubles `capacity`, at most `times` times, until it is at least `needed`. -/
def doubledUpTo : (times capacity needed : Nat) → Nat
  | 0, capacity, _ => capacity
  | times + 1, capacity, needed =>
    if needed ≤ capacity then capacity else doubledUpTo times (2 * capacity) needed

/-- Doubles `capacity` until it is at least `needed`. A capacity of one or more grows by at least
one each time, so `needed` doublings are enough. -/
def doubledTo (capacity needed : Nat) : Nat :=
  doubledUpTo needed capacity needed

theorem le_doubledUpTo {times capacity needed : Nat} (positive : 0 < capacity)
    (enough : needed ≤ capacity + times) : needed ≤ doubledUpTo times capacity needed := by
  induction times generalizing capacity with
  | zero => simpa [doubledUpTo] using enough
  | succ times ih =>
    unfold doubledUpTo
    split
    · assumption
    · exact ih (by omega) (by omega)

/-- The result is large enough. -/
theorem le_doubledTo {capacity : Nat} (positive : 0 < capacity) (needed : Nat) :
    needed ≤ doubledTo capacity needed :=
  le_doubledUpTo positive (by omega)

theorem doubledUpTo_pos {times capacity needed : Nat} (positive : 0 < capacity) :
    0 < doubledUpTo times capacity needed := by
  induction times generalizing capacity with
  | zero => simpa [doubledUpTo] using positive
  | succ times ih =>
    unfold doubledUpTo
    split
    · exact positive
    · exact ih (by omega)

theorem doubledTo_pos {capacity : Nat} (positive : 0 < capacity) (needed : Nat) :
    0 < doubledTo capacity needed :=
  doubledUpTo_pos positive

/-- Bounds on the capacity of a buffer, in elements. -/
structure Limits where
  /-- The capacity to begin with, before it is rounded up to a power of two. -/
  initial : Nat := 16
  /-- The capacity that growing never exceeds. -/
  largest : Nat := 1048576
deriving DecidableEq

namespace Limits

/-- The capacity that a buffer really begins with: the least power of two that is at least the
wanted one. -/
def effectiveInitial (l : Limits) : Nat :=
  doubledTo 1 l.initial

theorem effectiveInitial_pos (l : Limits) : 0 < l.effectiveInitial :=
  doubledTo_pos Nat.zero_lt_one _

end Limits

end Dataflow.Reading
