import Dataflow.Proofs.Bordering
import Dataflow.Proofs.Tiling

/-!
# Dataflow.Proofs.Numbers

**A number is as long as it can be.** The rule for numbers decides its optional parts by one or two
characters of lookahead, and an exponent by trying it. What it takes is the longest beginning of the
text that is a number at all, however the text goes on, and where a marker turns out to announce
nothing the lexer is back in front of it.

* `Digits`, `Numeral` — the texts that are numbers, by how far they go;
* `LongestNumeral` — the longest number at the front of a text;
* `numberLexeme_longest` — the rule on the text finds it. A longer number would have gone through the
  same separator and marker, since none of the characters inside numbers is a digit
  (`Numerals.Apart`);
* `Rolls` — what a computation does to the count of rollbacks: only `exponent` changes it, and only
  when it has nothing to answer;
* `next_at_number` — the token, the place behind it, and the count.
-/

namespace Dataflow

open Reading Text

/-! ### Digits are no capital letters -/

theorem Text.lowercase_of_isDigit {c : Char} (h : c.isDigit = true) : lowercase c = [c] := by
  have hcode : c.toNat < 0x41 := by
    rw [Char.isDigit, Bool.and_eq_true, decide_eq_true_eq, decide_eq_true_eq] at h
    have hle : c.val.toNat ≤ 57 := h.2
    show c.val.toNat < 0x41
    omega
  have hne : c ≠ '\u0130' := by
    rintro rfl
    exact absurd hcode (by decide)
  have hself : lowercaseCode caseRuns c.toNat = c.toNat := by
    rw [caseRuns, lowercaseCode, if_neg (by show ¬ 0x5a < c.toNat; omega),
      if_neg fun hrun => absurd hrun.1 (by show ¬ 0x41 ≤ c.toNat; omega)]
  rw [lowercase, if_neg hne, hself, Char.ofNat_toNat]

namespace Lexer

/-- None of the characters inside numbers is a digit. -/
structure Numerals.Apart (n : Numerals) : Prop where
  decimal : n.decimal.isDigit = false
  negative : n.negative.isDigit = false
  exponent : n.exponent.isDigit = false

/-- No capital letter of the marker is a digit either. -/
theorem Numerals.Apart.isDigit_marker {n : Numerals} (hn : n.Apart) {c : Char}
    (h : n.isExponentMarker c = true) : c.isDigit = false := by
  refine Bool.eq_false_iff.2 fun hdigit => ?_
  have hlower : lowercase c = lowercase n.exponent := of_decide_eq_true h
  have hruns : ∀ r ∈ caseRuns, 0x39 < r.lower := by decide +kernel
  have hcode : c.toNat ≤ 0x39 := by
    rw [Char.isDigit, Bool.and_eq_true, decide_eq_true_eq, decide_eq_true_eq] at hdigit
    exact hdigit.2
  have hzero : c ≠ Char.ofNat 0 := by
    rintro rfl
    exact absurd hdigit (by decide)
  have hsame := eq_of_lowercase (lowercase_of_isDigit hdigit) hzero
    (fun r hr => .inr (Nat.lt_of_le_of_lt hcode (hruns r hr))) hlower
  have hexponent := hn.exponent
  rw [hsame, hdigit] at hexponent
  cases hexponent

/-! ### Numbers as texts -/

/-- A run of digits, of at least one. -/
structure Digits (ds : List Char) : Prop where
  ne_nil : ds ≠ []
  isDigit : ∀ c ∈ ds, c.isDigit = true

/-- How far a number goes. -/
inductive Extent where
  | whole
  | fraction
  | power
deriving DecidableEq

/-- Only whole numbers are integers. -/
def Extent.kind : Extent → Token.Kind
  | whole => .integer
  | fraction | power => .real

/-- The texts that are numbers. -/
inductive Numeral (n : Numerals) : Extent → List Char → Prop
  | whole {ds : List Char} (hds : Digits ds) : Numeral n .whole ds
  | fraction {ds es : List Char} (hds : Digits ds) (hes : Digits es) :
    Numeral n .fraction (ds ++ n.decimal :: es)
  | power {ds es fs : List Char} {m : Char} (hds : Digits ds) (hes : Digits es)
    (hm : n.isExponentMarker m = true) (hfs : Digits fs) :
    Numeral n .power (ds ++ n.decimal :: (es ++ m :: fs))
  | signed {ds es fs : List Char} {m sign : Char} (hds : Digits ds) (hes : Digits es)
    (hm : n.isExponentMarker m = true) (hsign : sign = n.negative ∨ sign = '+') (hfs : Digits fs) :
    Numeral n .power (ds ++ n.decimal :: (es ++ m :: sign :: fs))

/-- The first `k` characters are a number of this extent, and there is no longer one. -/
structure LongestNumeral (n : Numerals) (text : List Char) (x : Extent) (k : Nat) : Prop where
  le_length : k ≤ text.length
  numeral : Numeral n x (text.take k)
  longest : ∀ y w, Numeral n y w → w <+: text → w.length ≤ k

/-! ### Runs of digits at the front -/

variable {n : Numerals} {ds es fs rest text : List Char}

theorem Digits.charAt (h : Digits ds) (rest : List Char) :
    (charAt (ds ++ rest) 0).isDigit = true := by
  cases ds with
  | nil => exact absurd rfl h.ne_nil
  | cons d ds => exact h.isDigit d List.mem_cons_self

theorem Digits.le_runLength (h : Digits ds) (rest : List Char) :
    ds.length ≤ runLength Char.isDigit (ds ++ rest) := by
  rw [runLength, List.takeWhile_append_of_pos h.isDigit, List.length_append]
  exact Nat.le_add_right _ _

/-- The digits end where something else stands. -/
theorem Digits.runLength_eq (h : Digits ds) (hrest : (Lexer.charAt rest 0).isDigit = false) :
    runLength Char.isDigit (ds ++ rest) = ds.length := by
  have hnone := runLength_of_charAt hrest
  rw [runLength] at hnone ⊢
  rw [List.takeWhile_append_of_pos h.isDigit, List.length_append, hnone, Nat.add_zero]

theorem Digits.length_pos (h : Digits ds) : 0 < ds.length := List.length_pos_iff.2 h.ne_nil

/-- The run of digits at the front. -/
theorem digits_take (h : (charAt text 0).isDigit = true) :
    Digits (text.take (runLength Char.isDigit text)) := by
  rw [take_runLength]
  refine ⟨?_, fun c hc => of_mem_takeWhile hc⟩
  cases text with
  | nil => exact absurd h (by decide)
  | cons c rest => simp [show c.isDigit = true from h]

/-! ### The longest number -/

/-- A fraction with a digit in it stands behind the whole digits. -/
def HasFraction (n : Numerals) (text : List Char) : Prop :=
  charAt text 0 = n.decimal ∧ (charAt text 1).isDigit = true

theorem hasFraction_of_digits (hes : Digits es) (rest : List Char) :
    HasFraction n (n.decimal :: (es ++ rest)) :=
  ⟨rfl, hes.charAt rest⟩

theorem fractionLength_of_not (h : ¬ HasFraction n text) : fractionLength n text = 0 := if_neg h

/-- A fraction goes as far as its digits, at least. -/
theorem le_fractionLength (hes : Digits es) (rest : List Char) :
    1 + es.length ≤ fractionLength n (n.decimal :: (es ++ rest)) := by
  rw [fractionLength_eq rfl (hasFraction_of_digits hes rest)]
  have hle := hes.le_runLength rest
  simp only [List.drop_succ_cons, List.drop_zero]
  omega

/-- A fraction takes the exponent with it whose marker stands behind its digits. -/
theorem fractionLength_marker (hn : n.Apart) (hes : Digits es) {m : Char}
    (hm : n.isExponentMarker m = true) (rest : List Char) :
    fractionLength n (n.decimal :: (es ++ m :: rest)) =
      1 + es.length + exponentLength n (m :: rest) := by
  have hrun : runLength Char.isDigit (es ++ m :: rest) = es.length :=
    hes.runLength_eq (hn.isDigit_marker hm)
  have hdrop : (n.decimal :: (es ++ m :: rest)).drop (1 + es.length) = m :: rest := by
    rw [Nat.add_comm, List.drop_succ_cons, List.drop_left]
  rw [fractionLength_eq rfl (hasFraction_of_digits hes _), List.drop_succ_cons, List.drop_zero, hrun,
    hdrop, charAt_cons_zero, if_pos hm]

theorem isDigit_plus : Char.isDigit '+' = false := by decide

/-- Where a digit follows the marker there is no sign. -/
theorem signLength_of_digits (hn : n.Apart) (hfs : Digits fs) (m : Char) (rest : List Char) :
    signLength n (m :: (fs ++ rest)) = 0 := by
  have hdigit := hfs.charAt rest
  refine if_neg fun hsign => ?_
  rw [charAt_cons_succ] at hsign
  rcases hsign with hnegative | hplus
  · rw [hnegative, hn.negative] at hdigit
    cases hdigit
  · rw [hplus, isDigit_plus] at hdigit
    cases hdigit

theorem le_exponentLength (hn : n.Apart) (hfs : Digits fs) (m : Char) (rest : List Char) :
    1 + fs.length ≤ exponentLength n (m :: (fs ++ rest)) := by
  have hle := hfs.le_runLength rest
  have hpos := hfs.length_pos
  simp only [exponentLength, signLength_of_digits hn hfs, Nat.add_zero, List.drop_succ_cons,
    List.drop_zero]
  rw [if_neg (by omega)]
  omega

theorem le_exponentLength_signed (hfs : Digits fs) (m : Char) {sign : Char}
    (hsign : sign = n.negative ∨ sign = '+') (rest : List Char) :
    2 + fs.length ≤ exponentLength n (m :: sign :: (fs ++ rest)) := by
  have hle := hfs.le_runLength rest
  have hpos := hfs.length_pos
  have hone : signLength n (m :: sign :: (fs ++ rest)) = 1 := if_pos hsign
  simp only [exponentLength, hone, List.drop_succ_cons, List.drop_zero]
  rw [if_neg (by omega)]
  omega

theorem length_numberLexeme (n : Numerals) (text : List Char) :
    (numberLexeme n text).length = runLength Char.isDigit text +
      fractionLength n (text.drop (runLength Char.isDigit text)) := rfl

/-- The rule takes a fraction wherever one stands. -/
theorem length_numberLexeme_fraction (hn : n.Apart) (hds : Digits ds) (rest : List Char) :
    (numberLexeme n (ds ++ n.decimal :: rest)).length =
      ds.length + fractionLength n (n.decimal :: rest) := by
  have hrun : runLength Char.isDigit (ds ++ n.decimal :: rest) = ds.length :=
    hds.runLength_eq hn.decimal
  rw [length_numberLexeme, hrun, List.drop_left]

/-- No number at the front goes further than the rule. -/
theorem Numeral.length_le (hn : n.Apart) {y : Extent} {w : List Char} (h : Numeral n y w)
    (rest : List Char) : w.length ≤ (numberLexeme n (w ++ rest)).length := by
  cases h with
  | whole hds =>
    have hle := hds.le_runLength rest
    rw [length_numberLexeme]
    omega
  | @fraction ds es hds hes =>
    have hle := le_fractionLength (n := n) hes rest
    have hlength := length_numberLexeme_fraction hn hds (es ++ rest)
    simp only [List.append_assoc, List.cons_append, List.length_append, List.length_cons]
    omega
  | @power ds es fs m hds hes hm hfs =>
    have hle := le_exponentLength hn hfs m rest
    have hlength := length_numberLexeme_fraction hn hds (es ++ m :: (fs ++ rest))
    rw [fractionLength_marker hn hes hm] at hlength
    simp only [List.append_assoc, List.cons_append, List.length_append, List.length_cons]
    omega
  | @signed ds es fs m sign hds hes hm hsign hfs =>
    have hle := le_exponentLength_signed hfs m hsign rest
    have hlength := length_numberLexeme_fraction hn hds (es ++ m :: sign :: (fs ++ rest))
    rw [fractionLength_marker hn hes hm] at hlength
    simp only [List.append_assoc, List.cons_append, List.length_append, List.length_cons]
    omega

/-- What the rule takes for an exponent is one. -/
theorem take_exponentLength (h : exponentLength n text ≠ 0) :
    exponentLength n text ≤ text.length ∧ ∃ fs, Digits fs ∧
      (text.take (exponentLength n text) = charAt text 0 :: fs ∨
        ∃ sign, (sign = n.negative ∨ sign = '+') ∧
          text.take (exponentLength n text) = charAt text 0 :: sign :: fs) := by
  have hdigits : runLength Char.isDigit (text.drop (1 + signLength n text)) ≠ 0 := by
    intro hzero
    exact h (if_pos hzero)
  have hexponent : exponentLength n text = 1 + signLength n text +
      runLength Char.isDigit (text.drop (1 + signLength n text)) := if_neg hdigits
  have hdigit : (charAt (text.drop (1 + signLength n text)) 0).isDigit = true := by
    refine (Bool.not_eq_false _).mp fun hnot => hdigits (runLength_of_charAt hnot)
  have hlength := length_pos_of_charAt (ne_endOfInput_of_isDigit hdigit)
  rw [List.length_drop] at hlength
  have hrun := runLength_le Char.isDigit (text.drop (1 + signLength n text))
  rw [List.length_drop] at hrun
  rw [hexponent]
  refine ⟨by omega, _, digits_take hdigit, ?_⟩
  by_cases hsign : charAt text 1 = n.negative ∨ charAt text 1 = '+'
  · have hone : signLength n text = 1 := if_pos hsign
    rw [hone] at hlength ⊢
    refine .inr ⟨charAt text 1, hsign, ?_⟩
    rw [List.take_add, take_two (by omega)]
    rfl
  · have hzero : signLength n text = 0 := if_neg hsign
    rw [hzero] at hlength ⊢
    refine .inl ?_
    rw [List.take_add, take_one (by omega)]
    rfl

instance (n : Numerals) (text : List Char) : Decidable (HasFraction n text) :=
  inferInstanceAs (Decidable (_ ∧ _))

/-- What stands behind the fraction at the front. -/
def behindFraction (text : List Char) : List Char :=
  text.drop (1 + runLength Char.isDigit (text.drop 1))

/-- How many exponents are tried in vain behind the fraction at the front. -/
def fractionRejections (n : Numerals) (text : List Char) : Nat :=
  if HasFraction n text ∧ n.isExponentMarker (charAt (behindFraction text) 0) = true ∧
    exponentLength n (behindFraction text) = 0 then 1 else 0

/-- How many exponents are tried in vain for the number at the front. -/
def rejections (n : Numerals) (text : List Char) : Nat :=
  fractionRejections n (text.drop (runLength Char.isDigit text))

/-- The fraction at the front, without an exponent. -/
theorem take_fraction (h : HasFraction n text) :
    1 + runLength Char.isDigit (text.drop 1) ≤ text.length ∧ ∃ es, Digits es ∧
      text.take (1 + runLength Char.isDigit (text.drop 1)) = n.decimal :: es := by
  have hdigit : (charAt (text.drop 1) 0).isDigit = true := by
    rw [charAt_drop]
    exact h.2
  have hlength := length_pos_of_charAt (ne_endOfInput_of_isDigit h.2)
  have hrun := runLength_le Char.isDigit (text.drop 1)
  rw [List.length_drop] at hrun
  refine ⟨by omega, _, digits_take hdigit, ?_⟩
  rw [List.take_add, take_one (by omega), h.1]
  rfl

/-- What the rule finds is the longest number, if it is one. -/
theorem longestNumeral_of (hn : n.Apart) {x : Extent} {k : Nat}
    (hk : (numberLexeme n text).length = k) (hle : k ≤ text.length)
    (hnumeral : Numeral n x (text.take k)) : LongestNumeral n text x k := by
  refine ⟨hle, hnumeral, ?_⟩
  intro y w hw hprefix
  obtain ⟨rest, hsplit⟩ := hprefix
  have hlength := hw.length_le hn rest
  rw [hsplit, hk] at hlength
  exact hlength

/-- The rule, where there is no fraction. -/
theorem numberLexeme_whole (h : ¬ HasFraction n (text.drop (runLength Char.isDigit text))) :
    numberLexeme n text = .plain .integer text (runLength Char.isDigit text) := by
  rw [numberLexeme_eq, fractionLength_of_not h, if_pos rfl, Nat.add_zero]

/-- The rule, where there is a fraction. -/
theorem numberLexeme_fraction {whole : Nat} (hwhole : whole = runLength Char.isDigit text)
    (h : HasFraction n (text.drop whole)) :
    let behind := text.drop whole
    numberLexeme n text = .plain .real text (whole + (1 + runLength Char.isDigit (behind.drop 1) +
      if n.isExponentMarker (charAt (behindFraction behind) 0) then
        exponentLength n (behindFraction behind) else 0)) := by
  intro behind
  have hlength := fractionLength_eq rfl h
  rw [numberLexeme_eq, ← hwhole, hlength, if_neg (by omega)]
  rfl

/-- **The rule finds the longest number**, and tries an exponent in vain where the number ends with its
fraction though a marker stands behind it. -/
theorem numberLexeme_longest (hn : n.Apart) (hdigit : (charAt text 0).isDigit = true) :
    ∃ x k, LongestNumeral n text x k ∧ numberLexeme n text = .plain x.kind text k ∧
      rejections n text =
        if x = .fraction ∧ n.isExponentMarker (charAt text k) = true then 1 else 0 := by
  generalize hwhole : runLength Char.isDigit text = whole
  have hwholeDigits : Digits (text.take whole) := hwhole ▸ digits_take hdigit
  have hwholeLe : whole ≤ text.length := hwhole ▸ runLength_le Char.isDigit text
  have hrejections : rejections n text = fractionRejections n (text.drop whole) := by
    rw [rejections, hwhole]
  by_cases hfraction : HasFraction n (text.drop whole)
  · obtain ⟨hfractionLe, es, hes, htake⟩ := take_fraction hfraction
    have hlexeme := numberLexeme_fraction hwhole.symm hfraction
    dsimp only at hlexeme
    generalize hdigits : 1 + runLength Char.isDigit ((text.drop whole).drop 1) = digits at *
    have hbehind : behindFraction (text.drop whole) = text.drop (whole + digits) := by
      rw [behindFraction, hdigits, List.drop_drop]
    have hfront : text.take (whole + digits) = text.take whole ++ n.decimal :: es := by
      rw [List.take_add, htake]
    rw [List.length_drop] at hfractionLe
    rw [hbehind, charAt_drop, Nat.add_zero] at hlexeme
    rw [fractionRejections, hbehind, charAt_drop, Nat.add_zero] at hrejections
    by_cases hmarker : n.isExponentMarker (charAt text (whole + digits)) = true
    · rw [if_pos hmarker] at hlexeme
      by_cases hexponent : exponentLength n (text.drop (whole + digits)) = 0
      · -- The marker begins no exponent: this is the one rejection.
        rw [hexponent, Nat.add_zero] at hlexeme
        refine ⟨.fraction, whole + digits, ?_, hlexeme, ?_⟩
        · refine longestNumeral_of hn (congrArg Lexeme.length hlexeme) (by omega) ?_
          rw [hfront]
          exact .fraction hwholeDigits hes
        · rw [hrejections, if_pos ⟨hfraction, hmarker, hexponent⟩, if_pos ⟨rfl, hmarker⟩]
      · obtain ⟨hexponentLe, fs, hfs, hforms⟩ := take_exponentLength hexponent
        rw [List.length_drop] at hexponentLe
        rw [charAt_drop, Nat.add_zero] at hforms
        rw [← Nat.add_assoc] at hlexeme
        refine ⟨.power, _, ?_, hlexeme, ?_⟩
        · refine longestNumeral_of hn (congrArg Lexeme.length hlexeme) (by omega) ?_
          rw [List.take_add, hfront]
          rcases hforms with hplain | ⟨sign, hsign, hsigned⟩
          · rw [hplain, List.append_assoc]
            exact .power hwholeDigits hes hmarker hfs
          · rw [hsigned, List.append_assoc]
            exact .signed hwholeDigits hes hmarker hsign hfs
        · rw [hrejections, if_neg fun h => hexponent h.2.2, if_neg fun h => nomatch h.1]
    · rw [if_neg hmarker, Nat.add_zero] at hlexeme
      refine ⟨.fraction, whole + digits, ?_, hlexeme, ?_⟩
      · refine longestNumeral_of hn (congrArg Lexeme.length hlexeme) (by omega) ?_
        rw [hfront]
        exact .fraction hwholeDigits hes
      · rw [hrejections, if_neg fun h => hmarker h.2.1, if_neg fun h => hmarker h.2]
  · have hlexeme : numberLexeme n text = _ := numberLexeme_whole (hwhole ▸ hfraction)
    rw [hwhole] at hlexeme
    refine ⟨.whole, whole, ?_, hlexeme, ?_⟩
    · exact longestNumeral_of hn (congrArg Lexeme.length hlexeme) hwholeLe (.whole hwholeDigits)
    · rw [hrejections, fractionRejections, if_neg fun h => hfraction h.1, if_neg fun h => nomatch h.1]

/-! ### Counting rollbacks -/

section Rollbacks

variable {σ β : Type} {m : Nat}

/-- The computation takes nothing back. -/
abbrev Unrolled (m : Nat) (x : Run (Lexer σ) β) : Prop :=
  Run.Leads (fun _ _ => True) (fun l => l.statistics.rollbacks = m)
    (fun _ l => l.statistics.rollbacks = m) x

theorem onInput_unrolled (x : Run (Cursor σ Char) β) : Unrolled m (onInput x) := by
  intro l h
  cases hx : x l.input with
  | ok b input =>
    rw [onInput_ok hx]
    exact h
  | error e input =>
    rw [onInput_error hx]
    exact trivial

theorem modify_unrolled {f : Lexer σ → Lexer σ}
    (hf : ∀ l, (f l).statistics.rollbacks = l.statistics.rollbacks) : Unrolled m (modify f) := by
  intro l h
  exact (hf l).trans h

theorem tokenFrom_unrolled (start : Position) (kind : Token.Kind) (text : List Char) :
    Unrolled m (tokenFrom start kind text : Run (Lexer σ) Token) :=
  .get fun _ _ => .pure _

theorem mark_unrolled : Unrolled m (mark : Run (Lexer σ) Unit) :=
  (onInput_unrolled _).bind fun _ => modify_unrolled fun _ => rfl

theorem commit_unrolled : Unrolled m (commit : Run (Lexer σ) Unit) :=
  (onInput_unrolled _).bind fun _ => modify_unrolled fun _ => rfl

/-- Only taking back is counted. -/
theorem rollback_rolls : Run.Leads (fun _ _ => True) (fun l => l.statistics.rollbacks = m)
    (fun _ l => l.statistics.rollbacks = m + 1) (rollback : Run (Lexer σ) Unit) := by
  refine (onInput_unrolled _).bind fun _ l h => ?_
  exact congrArg (· + 1) h

variable [Source σ Char]

theorem peek_unrolled (k : Nat) : Unrolled m (peek k : Run (Lexer σ) Char) := onInput_unrolled _

theorem bump_unrolled : Unrolled m (bump : Run (Lexer σ) Char) := by
  refine (onInput_unrolled _).bind fun c => .ite (Run.Leads.bind (modify_unrolled ?_) fun _ => ?_) ?_
  · exact fun _ => rfl
  · exact .pure _
  · exact .pure _

theorem takeRun_unrolled (inClass : Char → Bool) :
    Unrolled m (takeRun inClass : Run (Lexer σ) (List Char)) :=
  .iterate _ _ (fun _ => (peek_unrolled 0).bind fun _ =>
    .ite (bump_unrolled.bind fun _ => .pure _) (.pure _)) fun _ => trivial

theorem mantissa_unrolled (n : Numerals) :
    Unrolled m (mantissa n : Run (Lexer σ) (List Char × Option Char)) := by
  refine (takeRun_unrolled _).bind fun whole => (peek_unrolled 0).bind fun _ => ?_
  refine .ite (((peek_unrolled 1).map _).bind ?behind) (?behind false)
  intro fractional
  refine .ite (bump_unrolled.bind fun _ => (takeRun_unrolled _).bind fun _ => ?_) (.pure _)
  exact (peek_unrolled 0).bind fun _ => .pure _

/-- What stands behind the sign of an exponent: digits, or the exponent is taken back. -/
theorem power_rolls (marker : Char) (sign : List Char) :
    Run.Leads (fun _ _ => True) (fun l => l.statistics.rollbacks = m)
      (fun power l => l.statistics.rollbacks = m + if power = [] then 1 else 0)
      (do
        if (← peek 0).isDigit then
          let digits ← takeRun Char.isDigit
          commit
          return marker :: sign ++ digits
        else
          rollback
          return [] : Run (Lexer σ) (List Char)) := by
  refine (peek_unrolled 0).bind fun c => ?_
  split
  · exact (takeRun_unrolled _).bind fun digits => commit_unrolled.bind fun _ l h => h
  · exact rollback_rolls.bind fun _ l h => h

/-- An exponent is taken back if, and only if, it comes to nothing. -/
theorem exponent_rolls : Run.Leads (fun _ _ => True) (fun l => l.statistics.rollbacks = m)
    (fun power l => l.statistics.rollbacks = m + if power = [] then 1 else 0)
    (exponent : Run (Lexer σ) (List Char)) := by
  refine .get fun l _ => mark_unrolled.bind fun _ => bump_unrolled.bind fun marker =>
    (peek_unrolled 0).bind fun c => ?_
  have hsign : Unrolled m (bumps 1 : Run (Lexer σ) (List Char)) :=
    bump_unrolled.bind fun _ => .pure _
  exact .ite (hsign.bind (power_rolls marker)) (power_rolls marker [])

/-- The round takes nothing back if there is another one. -/
abbrev Skipping (m : Nat) (x : Run (Lexer σ) (Run.Round Unit Token)) : Prop :=
  Run.Leads (fun _ _ => True) (fun l => l.statistics.rollbacks = m)
    (fun round l => round = .again () → l.statistics.rollbacks = m) x

omit [Source σ Char] in
theorem skipping_of_done {α : Type} (x : Run (Lexer σ) α) (f : α → Run (Lexer σ) Token) :
    Skipping m (x >>= fun a => f a >>= fun token => pure (.done token)) := by
  intro l _
  refine Run.Ends.bind (.of_true (x l)) (fun a l₁ _ => ?_) fun _ _ he => he
  exact Run.Ends.bind (.of_true (f a l₁)) (fun token l₂ _ => nofun) fun _ _ he => he

omit [Source σ Char] in
theorem skipping_of_token (x : Run (Lexer σ) Token) :
    Skipping m (x >>= fun token => pure (.done token)) := by
  intro l _
  exact Run.Ends.bind (.of_true (x l)) (fun token l₁ _ => nofun) fun _ _ he => he

theorem punctuation_skipping (c : Char) (start : Position) :
    Skipping m (punctuation c start : Run (Lexer σ) (Run.Round Unit Token)) := by
  refine .get fun l _ => (peek_unrolled 1).bind fun c' => ?_
  split
  · exact skipping_of_done _ _
  split
  · exact skipping_of_token _
  split
  · exact skipping_of_token _
  refine .ite (skipping_of_token _) (.ite (skipping_of_token _) (.ite ?_ (.ite ?_ (.ite (skipping_of_token _) ?_))))
  · exact bump_unrolled.bind fun _ => (takeRun_unrolled _).bind fun _ l h _ => h
  · exact fun l _ => nofun
  · exact fun l _ => trivial

theorem scanRound_skipping : Skipping m (scanRound () : Run (Lexer σ) (Run.Round Unit Token)) := by
  refine (peek_unrolled 0).bind fun c => .get fun l _ => .get fun l _ => ?_
  refine .ite (bump_unrolled.bind fun _ l h _ => h) (.ite (skipping_of_token _) (.ite (skipping_of_token _) ?_))
  refine .ite (((peek_unrolled 1).map _).bind ?name) (?name false)
  intro signed
  exact .ite (skipping_of_done _ _) (.ite (skipping_of_token _) (punctuation_skipping c _))

end Rollbacks

section Numbers

variable {σ : Type} [Supply σ Char] {g : Setting} {l : Lexer σ} {p q : Place} {saved : List Place}

/-- Behind a fraction, an exponent that is tried in vain is counted. -/
theorem numberFrom_rolls (h : Reads g l q saved) (start : Position) (digits : List Char) :
    Run.Ends (fun _ l' => l'.statistics.rollbacks = l.statistics.rollbacks +
        if g.dialect.numerals.isExponentMarker (charAt q.text 0) = true ∧
          exponentLength g.dialect.numerals q.text = 0 then 1 else 0) (fun _ _ => True)
      (numberFrom start g.dialect.numerals digits (some (charAt q.text 0)) l) := by
  unfold numberFrom
  dsimp only
  by_cases hmarker : g.dialect.numerals.isExponentMarker (charAt q.text 0) = true
  · rw [if_pos hmarker]
    refine ((exponent_reads h hmarker).and (exponent_rolls l rfl)).bind ?_ fun _ _ _ => trivial
    intro power l₁ hpower
    obtain ⟨⟨hanswer, -⟩, hcount⟩ := hpower
    refine (tokenFrom_unrolled start .real (digits ++ power) l₁ hcount).mono ?_ fun _ _ _ => trivial
    intro token l₂ hl₂
    have hnil : power = [] ↔ exponentLength g.dialect.numerals q.text = 0 := by
      rw [hanswer, List.take_eq_nil_iff]
      refine ⟨fun hnil => hnil.elim id ?_, .inl⟩
      intro htext
      simp [htext, exponentLength, runLength]
    rw [hl₂]
    simp only [hnil, hmarker, true_and]
  · rw [if_neg hmarker, if_neg fun hand => hmarker hand.1, pure_bind]
    exact tokenFrom_unrolled start .real _ l rfl

/-- The exponents that are tried in vain are counted. -/
theorem number_rolls (h : Reads g l p saved) :
    Run.Ends (fun _ l' => l'.statistics.rollbacks =
      l.statistics.rollbacks + rejections g.dialect.numerals p.text) (fun _ _ => True) (number l) := by
  rw [number_eq, Run.bind_apply, Run.get_apply]
  dsimp only
  rw [Run.bind_apply, Run.get_apply]
  dsimp only
  rw [h.dialect, h.position, rejections, fractionRejections]
  have hrolls := mantissa_unrolled g.dialect.numerals l rfl
  by_cases hfraction : HasFraction g.dialect.numerals (p.text.drop (runLength Char.isDigit p.text))
  · refine ((mantissa_reads h rfl rfl hfraction).and hrolls).bind ?_ fun _ _ _ => trivial
    intro found l₁ hfound
    obtain ⟨⟨hdigits, hreads⟩, hcount⟩ := hfound
    subst hdigits
    rw [← hcount, behindFraction, List.drop_drop, List.drop_drop, ← Nat.add_assoc]
    simp only [hfraction, true_and]
    exact numberFrom_rolls hreads _ _
  · refine ((mantissa_whole h hfraction).and hrolls).bind ?_ fun _ _ _ => trivial
    intro found l₁ hfound
    obtain ⟨⟨hdigits, -⟩, hcount⟩ := hfound
    subst hdigits
    rw [if_neg fun hand => hfraction hand.1]
    exact tokenFrom_unrolled _ .integer _ l₁ hcount

/-- The rule for numbers is the first that applies at the front of the text. -/
structure AtNumber (d : Dialect) (text : List Char) : Prop where
  isDigit : (charAt text 0).isDigit = true
  quote : charAt text 0 ≠ d.quote

theorem AtNumber.lexeme_eq {d : Dialect} {text : List Char} (h : AtNumber d text) (t : Operator.Table) :
    lexeme d t text = .ok (numberLexeme d.numerals text) := by
  simp [lexeme, h.isDigit, h.quote]

/-- The round in which a number is found. -/
theorem scanRound_rolls (h : Reads g l q saved) (hskips : g.dialect.skips (charAt q.text 0) = false)
    (hat : AtNumber g.dialect q.text) :
    Run.Ends (fun round l' => round ≠ .again () ∧ l'.statistics.rollbacks =
        l.statistics.rollbacks + rejections g.dialect.numerals q.text) (fun _ _ => True)
      (scanRound () l) := by
  have hblank : ¬ (charAt q.text 0 ≠ '\n' ∧ g.dialect.isBlank (charAt q.text 0) = true) := by
    intro hand
    rw [(skips_eq_true_iff _ _).2 (.inl hand)] at hskips
    cases hskips
  unfold scanRound
  refine ((peek_reads h (Nat.zero_le _)).and (peek_unrolled 0 l rfl)).bind ?_ fun _ _ _ => trivial
  intro c l₁ hc
  obtain ⟨⟨hchar, hreads⟩, hcount⟩ := hc
  subst hchar
  rw [Run.bind_apply, Run.get_apply]
  dsimp only
  rw [Run.bind_apply, Run.get_apply]
  dsimp only
  rw [hreads.dialect, if_neg hblank, if_neg hat.quote, if_pos hat.isDigit, ← hcount]
  exact (number_rolls hreads).bind (fun token l₂ htoken => ⟨nofun, htoken⟩) fun _ _ _ => trivial

/-- The blanks in front of a number are skipped round by round. -/
theorem scan_rolls (h : Reads g l p saved) (hq : p.skip (blankLength g.dialect p.text) = q)
    (hat : AtNumber g.dialect q.text) :
    Run.Ends (fun _ l' => l'.statistics.rollbacks =
      l.statistics.rollbacks + rejections g.dialect.numerals q.text) (fun _ _ => True) (scan l) := by
  unfold scan
  refine Run.Ends.iterate_below
    (I := fun k (_ : Unit) l' => ∃ p', Reads g l' p' saved ∧ p'.text.length = k ∧
      p'.skip (blankLength g.dialect p'.text) = q ∧ l'.statistics.rollbacks = l.statistics.rollbacks)
    ?_ h.length_le ⟨p, h, rfl, hq, rfl⟩
  intro k _ l' hinv
  obtain ⟨p', h', rfl, hq', hcount⟩ := hinv
  cases hskips : g.dialect.skips (charAt p'.text 0) with
  | true =>
    obtain ⟨n, hpos, hle, hall, hagain⟩ := scanRound_blank h' hskips
    refine (hagain.and (scanRound_skipping l' hcount)).mono ?_ fun _ _ _ => trivial
    intro round l₁ hround
    obtain ⟨⟨rfl, h₁⟩, hkeeps⟩ := hround
    refine ⟨_, ?_, p'.skip n, h₁, rfl, (Place.skip_blanks hall hle).trans hq', hkeeps rfl⟩
    rw [Place.text_skip, List.length_drop]
    omega
  | false =>
    have hsame : p' = q := by
      rw [← hq', blankLength, runLength_of_charAt hskips, Place.skip_zero]
    subst hsame
    refine (scanRound_rolls h' hskips hat).mono ?_ fun _ _ _ => trivial
    intro round l₁ hround
    cases round with
    | again => exact absurd rfl hround.1
    | done token => rw [hround.2, hcount]

/-- **Numbers are as long as they can be.** Where the rule for numbers is reached behind the blanks, the
next token is the longest number there, an integer or a real number as it has a fraction or not, and the
lexer is right behind it, with the same places to go back to. A rollback is counted where the number ends
with its fraction though a marker stands behind it, and only there. -/
theorem next_at_number (h : Reads g l p saved) (hn : g.dialect.numerals.Apart)
    (hq : p.skip (blankLength g.dialect p.text) = q) (hat : AtNumber g.dialect q.text) :
    ∃ x k, LongestNumeral g.dialect.numerals q.text x k ∧
      Run.Ends
        (fun token l' => token = q.token (.plain x.kind q.text k) ∧ Reads g l' (q.skip k) saved ∧
          l'.statistics.rollbacks = l.statistics.rollbacks +
            if x = .fraction ∧ g.dialect.numerals.isExponentMarker (charAt q.text k) = true then 1
            else 0)
        (fun e _ => Excused g e) (next l) := by
  obtain ⟨x, k, hlongest, hlexeme, hrejections⟩ := numberLexeme_longest hn hat.isDigit
  refine ⟨x, k, hlongest, ?_⟩
  have hnext : p.next g.dialect g.table =
      .ok (q.token (.plain x.kind q.text k), q.skip k) := by
    rw [Place.next, hq, hat.lexeme_eq, hlexeme]
    rfl
  have hrolls : Run.Ends (fun _ l' => l'.statistics.rollbacks =
      l.statistics.rollbacks + rejections g.dialect.numerals q.text) (fun _ _ => True) (next l) :=
    (scan_rolls h hq hat).bind (fun token l₁ hl₁ => hl₁) fun _ _ _ => trivial
  have hmeets := next_reads h
  rw [hnext] at hmeets
  refine (hmeets.and hrolls).mono ?_ ?_
  · intro token l' hboth
    obtain ⟨⟨r, hr, hreads⟩, hcount⟩ := hboth
    cases hr
    exact ⟨rfl, hreads, hcount.trans (by rw [hrejections])⟩
  · intro e l' hboth
    rcases hboth.1 with hexcused | ⟨cause, hcause, -⟩
    · exact hexcused
    · cases hcause

/-- Behind a line break, and with a marker and a sign that announce nothing. -/
theorem next_at_unfinished_exponent :
    let text := " \n1.50E-x".toList
    let g : Setting := ⟨text.length, {}, .standard⟩
    let l := ofSource (Items.ofText " \n1.50E-x") g.dialect g.table
    let q := (⟨text, {}⟩ : Place).skip (blankLength g.dialect text)
    Reads g l ⟨text, {}⟩ [] ∧ g.dialect.numerals.Apart ∧ AtNumber g.dialect q.text ∧
      ∃ x k, LongestNumeral g.dialect.numerals q.text x k ∧
        Run.Ends
          (fun token l' => token = q.token (.plain x.kind q.text k) ∧ Reads g l' (q.skip k) [] ∧
            l'.statistics.rollbacks = l.statistics.rollbacks +
              if x = .fraction ∧ g.dialect.numerals.isExponentMarker (charAt q.text k) = true then 1
              else 0)
          (fun e _ => Excused g e) (next l) := by
  intro text g l q
  have hmarker : endOfInput ∉ text := by decide
  have hreads : Reads g l ⟨text, {}⟩ [] := reads_ofSource rfl rfl fun c hc hend => hmarker (hend ▸ hc)
  have hapart : g.dialect.numerals.Apart := by constructor <;> decide
  have hat : AtNumber g.dialect q.text := by constructor <;> decide +kernel
  exact ⟨hreads, hapart, hat, next_at_number hreads hapart rfl hat⟩

end Numbers

end Lexer

end Dataflow
