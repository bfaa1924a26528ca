import Dataflow.Lexer.Scan

/-!
# Dataflow.Proofs.Classes

**What a character cannot be.** The classes of characters are tables of ranges. Whether two of them have a
character in common is found out by going through both tables once (`Ranges.apart`). So a symbol character
begins no name, unless it is the underscore (`isNameStart_of_isSymbolic`).

The blanks are few. What holds of each of them is decided one by one (`forall_blank`).
-/

namespace Dataflow

namespace Text

namespace Ranges

variable {ranges others : Ranges} {code : Nat}

/-- The table without the ranges at its front that end below the code point. -/
def above : Ranges → Nat → Ranges
  | [], _ => []
  | r :: rest, code => if r.2 < code then above rest code else r :: rest

/-- Whether no code point is in both tables. -/
def apart : Ranges → Ranges → Bool
  | [], _ => true
  | r :: rest, others => (others.above r.1).head?.all (r.2 < ·.1) && apart rest (others.above r.1)

theorem has_above {first : Nat} (h : ranges.has code = true) (hfirst : first ≤ code) :
    (ranges.above first).has code = true := by
  induction ranges with
  | nil => exact h
  | cons r rest ih =>
    rw [above]
    split
    · next hbelow =>
      rw [has] at h
      split at h
      · cases h
      · rw [if_neg (by omega)] at h
        exact ih h
    · exact h

/-- Looking a code point up in a table says that it is in none that is apart from it. -/
theorem not_has_of_apart (h : apart ranges others = true) (hcode : ranges.has code = true) :
    others.has code = false := by
  induction ranges generalizing others with
  | nil => cases hcode
  | cons r rest ih =>
    obtain ⟨hhead, hrest⟩ := (Bool.and_eq_true_iff).1 h
    refine Bool.eq_false_iff.2 fun hother => ?_
    rw [has] at hcode
    split at hcode
    · cases hcode
    · next hfirst =>
      have habove := has_above hother (Nat.le_of_not_lt hfirst)
      split at hcode
      · next hlast =>
        -- The first range that is left begins above the code point.
        cases hothers : others.above r.1 with
        | nil =>
          rw [hothers] at habove
          cases habove
        | cons s more =>
          rw [hothers] at habove hhead
          have hbelow : r.2 < s.1 := of_decide_eq_true hhead
          rw [has, if_pos (by omega)] at habove
          cases habove
      · exact Bool.false_ne_true ((ih hrest hcode).symm.trans habove)

/-- The code points of a table. -/
def codes (ranges : Ranges) : List Nat := ranges.flatMap fun r => List.range' r.1 (r.2 + 1 - r.1)

theorem mem_codes_of_has (h : ranges.has code = true) : code ∈ ranges.codes := by
  induction ranges with
  | nil => cases h
  | cons r rest ih =>
    rw [codes, List.flatMap_cons, List.mem_append]
    rw [has] at h
    split at h
    · cases h
    · next hfirst =>
      split at h
      · next hlast => exact .inl (List.mem_range'_1.2 ⟨Nat.le_of_not_lt hfirst, by omega⟩)
      · exact .inr (ih h)

end Ranges

/-- What holds of the blanks one by one. -/
theorem forall_blank {P : Char → Prop} (h : ∀ code ∈ blanks.codes, P (Char.ofNat code)) {c : Char}
    (hc : isBlank c = true) : P c := by
  rw [← Char.ofNat_toNat c]
  exact h _ (Ranges.mem_codes_of_has hc)

end Text

namespace Lexer

open Text

theorem apart_symbolics_letters : Ranges.apart symbolics letters = true := by decide +kernel

/-- A symbol character begins a name only if it is the underscore. -/
theorem isNameStart_of_isSymbolic {c : Char} (h : isSymbolic c = true) (hc : c ≠ '_') : isNameStart c = false := by
  have hletter : isLetter c = false := Ranges.not_has_of_apart apart_symbolics_letters h
  rw [isNameStart, hletter, Bool.or_false]
  exact decide_eq_false hc

/-- No symbol character is a digit. -/
theorem isDigit_of_isSymbolic {c : Char} (h : isSymbolic c = true) : c.isDigit = false := by
  have hnone : Ranges.has [(48, 57)] c.toNat = false := Ranges.not_has_of_apart (by decide +kernel) h
  refine Bool.eq_false_iff.2 fun hdigit => ?_
  rw [Char.isDigit, Bool.and_eq_true] at hdigit
  have hfirst : 48 ≤ c.toNat := of_decide_eq_true hdigit.1
  have hlast : c.toNat ≤ 57 := of_decide_eq_true hdigit.2
  rw [Ranges.has, if_neg (Nat.not_lt.2 hfirst), if_pos hlast] at hnone
  cases hnone

/-- No symbol character is blank. -/
theorem isBlank_of_isSymbolic {c : Char} (h : isSymbolic c = true) : isBlank c = false :=
  Ranges.not_has_of_apart (by decide +kernel : Ranges.apart symbolics blanks = true) h

end Lexer

end Dataflow
