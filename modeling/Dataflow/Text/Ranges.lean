/-!
# Dataflow.Text.Ranges

Sets of characters given by tables of code points. A table lists closed ranges in ascending
order, so that a look-up can stop at the first range that begins above the code point it looks
for; the common characters stand at the front of every table and are decided in a few steps. The
tables of character classes in this library are those of Unicode 17.0.

* `Ranges` — a table of closed ranges of code points;
* `Ranges.Ascending` — no range is empty, and each one ends below the next one's start;
* `Ranges.has` — the look-up, which on an ascending table is membership in one of the ranges
  (`Ranges.has_iff`).
-/

namespace Dataflow.Text

/-- A set of code points: closed ranges `(first, last)`, meant to be `Ascending`. -/
abbrev Ranges := List (Nat × Nat)

namespace Ranges

/-- No range is empty, and every range ends before each later one begins. -/
def Ascending (ranges : Ranges) : Prop :=
  (∀ r ∈ ranges, r.1 ≤ r.2) ∧ ranges.Pairwise (fun a b => a.2 < b.1)

instance (ranges : Ranges) : Decidable ranges.Ascending :=
  inferInstanceAs (Decidable (_ ∧ _))

/-- Whether some range of an ascending table holds `code`. The look-up ends at the first range
that starts above `code`: no later range can hold it either. -/
def has : Ranges → Nat → Bool
  | [], _ => false
  | (first, last) :: rest, code =>
    if code < first then false else if code ≤ last then true else has rest code

/-- On an ascending table the early end of the look-up loses nothing. -/
theorem has_iff {ranges : Ranges} (ascending : ranges.Ascending) (code : Nat) :
    ranges.has code = true ↔ ∃ r ∈ ranges, r.1 ≤ code ∧ code ≤ r.2 := by
  induction ranges with
  | nil => simp [has]
  | cons r rest ih =>
    obtain ⟨first, last⟩ := r
    have tail : Ascending rest :=
      ⟨fun s hs => ascending.1 s (List.mem_cons_of_mem _ hs), (List.pairwise_cons.1 ascending.2).2⟩
    have above : ∀ s ∈ rest, last < s.1 := (List.pairwise_cons.1 ascending.2).1
    have ordered : first ≤ last := ascending.1 (first, last) List.mem_cons_self
    simp only [has, List.mem_cons, exists_eq_or_imp]
    by_cases low : code < first
    · simp only [low, if_true, Bool.false_eq_true, false_iff, not_or, not_and, not_exists]
      exact ⟨fun h => absurd h (by omega), fun s hs h => by have := above s hs; omega⟩
    · by_cases high : code ≤ last
      · simp [low, high, Nat.not_lt.1 low]
      · simp [low, high, ih tail]

end Ranges

end Dataflow.Text
