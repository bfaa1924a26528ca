import Dataflow.Proofs.Classes
import Dataflow.Proofs.Scanning

/-!
# Dataflow.Proofs.Bordering

**A blank or an executor ends a token as the end of the text does.** Put one of them and any further
characters behind a text: what stands at its front is scanned as before (`lexeme_border`). No class of
characters that goes on a literal, a number or a name has one of them in it, and where a rule looks one
or two characters further, they tell it as much as the end marker.

A literal that the text does not close may be closed by what follows; so nothing is said of a text that
is refused. And an executor may be in the middle of a registered symbol. In front of one, a symbol has to
end before the text does.
-/

namespace Dataflow.Lexer

open Reading Text

variable {text more : List Char} {b : Char}

/-- The characters that a border begins with: a blank or an executor. -/
def Parts (b : Char) : Prop := isBlank b = true ∨ b = ';'

namespace Parts

variable (h : Parts b)

include h

/-- What holds of the executor and of the blanks one by one. -/
theorem of_forall {P : Char → Prop} (hexecutor : P ';')
    (hblanks : ∀ code ∈ blanks.codes, P (Char.ofNat code)) : P b := by
  rcases h with h | rfl
  · exact forall_blank hblanks h
  · exact hexecutor

theorem isDigit : b.isDigit = false := by
  apply h.of_forall <;> decide

theorem isExponentMarker : ({} : Numerals).isExponentMarker b = false := by
  apply h.of_forall <;> decide +kernel

theorem isNamePart : isNamePart b = false := by
  apply h.of_forall <;> decide +kernel

theorem isNameStart : isNameStart b = false := by
  apply h.of_forall <;> decide +kernel

theorem ne_dot : b ≠ '.' := by
  apply h.of_forall <;> decide

/-- It is no sign either. -/
theorem not_sign : decide (b = '-' ∨ b = '+') = decide (endOfInput = '-' ∨ endOfInput = '+') := by
  apply h.of_forall <;> decide

/-- No arrow ends with it. -/
theorem arrow? (c : Char) : Lexer.arrow? c b = Lexer.arrow? c endOfInput := by
  have hminus : b ≠ '-' := by
    apply h.of_forall <;> decide
  have hgreater : b ≠ '>' := by
    apply h.of_forall <;> decide
  simp [Lexer.arrow?, endOfInput, hminus, hgreater]

end Parts

/-! ### Single characters -/

theorem charAt_append {k : Nat} (hk : k < text.length) :
    charAt (text ++ more) k = charAt text k := by
  unfold charAt
  rw [List.getD_eq_getElem?_getD, List.getD_eq_getElem?_getD, List.getElem?_append_left hk]

theorem charAt_border (b : Char) (text more : List Char) :
    charAt (text ++ b :: more) text.length = b := by
  unfold charAt
  rw [List.getD_eq_getElem?_getD, List.getElem?_append_right (Nat.le_refl _), Nat.sub_self]
  rfl

theorem charAt_length (text : List Char) : charAt text text.length = endOfInput := by
  unfold charAt
  rw [List.getD_eq_getElem?_getD, List.getElem?_eq_none (Nat.le_refl _)]
  rfl

/-- What does not tell the border from the end marker finds the same up to the border. -/
theorem apply_charAt {β : Type} {f : Char → β} (hf : f b = f endOfInput) {k : Nat}
    (hk : k ≤ text.length) : f (charAt (text ++ b :: more) k) = f (charAt text k) := by
  rcases Nat.lt_or_eq_of_le hk with hk | rfl
  · rw [charAt_append hk]
  · rw [charAt_border, charAt_length, hf]

theorem drop_border {n : Nat} (hn : n ≤ text.length) :
    (text ++ b :: more).drop n = text.drop n ++ b :: more :=
  List.drop_append_of_le_length hn

theorem take_border {n : Nat} (hn : n ≤ text.length) :
    (text ++ b :: more).take n = text.take n :=
  List.take_append_of_le_length hn

theorem runLength_le (inClass : Char → Bool) (text : List Char) :
    runLength inClass text ≤ text.length :=
  (List.takeWhile_prefix inClass).length_le

theorem runLength_border {inClass : Char → Bool} (hborder : inClass b = false) :
    runLength inClass (text ++ b :: more) = runLength inClass text := by
  induction text with
  | nil => simp [runLength, hborder]
  | cons c text ih =>
    unfold runLength at ih ⊢
    cases hc : inClass c <;> simp [hc, ih]

/-! ### Literals -/

/-- A literal that the text closes. -/
theorem literalFrom_border {quote : Char} (hquote : b ≠ quote) {content : List Char} {n : Nat}
    (more : List Char) (h : literalFrom quote text = some (content, n)) :
    literalFrom quote (text ++ b :: more) = some (content, n) ∧ n ≤ text.length := by
  induction text using literalFrom.induct quote generalizing content n with
  | case1 => cases h
  | case2 c rest hc ih =>
    rw [literalFrom_of_ne hc, Option.map_eq_some_iff] at h
    obtain ⟨⟨content', n'⟩, hrest, heq⟩ := h
    cases heq
    obtain ⟨hsame, hle⟩ := ih hrest
    rw [List.cons_append, literalFrom_of_ne hc, hsame]
    exact ⟨rfl, Nat.succ_le_succ hle⟩
  | case3 c hc =>
    obtain rfl := Decidable.not_not.1 hc
    rw [literalFrom_closed (by simp)] at h
    cases h
    refine ⟨literalFrom_closed ?_, Nat.le_refl 1⟩
    intro rest' hrest
    cases hrest
    exact absurd rfl hquote
  | case4 c hc rest ih =>
    obtain rfl := Decidable.not_not.1 hc
    rw [literalFrom_doubled, Option.map_eq_some_iff] at h
    obtain ⟨⟨content', n'⟩, hrest, heq⟩ := h
    cases heq
    obtain ⟨hsame, hle⟩ := ih hrest
    rw [List.cons_append, List.cons_append, literalFrom_doubled, hsame]
    exact ⟨rfl, Nat.succ_le_succ (Nat.succ_le_succ hle)⟩
  | case5 c hc d rest hd =>
    obtain rfl := Decidable.not_not.1 hc
    rw [literalFrom_closed (by rintro rest' ⟨⟩; exact hd rfl)] at h
    cases h
    exact ⟨literalFrom_closed (by rintro rest' ⟨⟩; exact hd rfl), by simp⟩

/-! ### Numbers -/

section Tokens

variable (hb : Parts b)

include hb

theorem signLength_border (h : 0 < text.length) :
    signLength {} (text ++ b :: more) = signLength {} text := by
  have hsame := @apply_charAt text more b _ (fun c => decide (c = '-' ∨ c = '+')) hb.not_sign 1 h
  unfold signLength
  split
  · next hsign => rw [if_pos (by simpa [hsign] using hsame)]
  · next hsign => rw [if_neg (by simpa [hsign] using hsame)]

omit hb in
theorem signLength_lt (h : 0 < text.length) : signLength {} text < text.length := by
  unfold signLength
  split
  · next hsign =>
    refine length_pos_of_charAt ?_
    rcases hsign with hsign | hsign <;> rw [hsign] <;> decide
  · exact h

theorem exponentLength_border (more : List Char) (h : 0 < text.length) :
    exponentLength {} (text ++ b :: more) = exponentLength {} text ∧
      exponentLength {} text ≤ text.length := by
  have hsign := signLength_lt h
  have hdigits := runLength_le Char.isDigit (text.drop (1 + signLength {} text))
  rw [List.length_drop] at hdigits
  unfold exponentLength
  rw [signLength_border hb h, drop_border (by omega), runLength_border hb.isDigit]
  refine ⟨rfl, ?_⟩
  dsimp only
  split <;> omega

theorem fractionLength_border (text more : List Char) :
    fractionLength {} (text ++ b :: more) = fractionLength {} text ∧
      fractionLength {} text ≤ text.length := by
  by_cases hempty : text = []
  · subst hempty
    refine ⟨?_, Nat.le_refl 0⟩
    rw [List.nil_append, fractionLength, fractionLength, if_neg fun hpoint => hb.ne_dot hpoint.1,
      if_neg fun hpoint => absurd hpoint.1 (by decide)]
  have hpos := List.length_pos_iff.2 hempty
  have hpoint : charAt (text ++ b :: more) 0 = charAt text 0 := charAt_append hpos
  have hdigit : (charAt (text ++ b :: more) 1).isDigit = (charAt text 1).isDigit :=
    apply_charAt (hb.isDigit.trans (by decide)) hpos
  unfold fractionLength
  rw [hpoint, hdigit]
  by_cases hfraction : charAt text 0 = ({} : Numerals).decimal ∧ (charAt text 1).isDigit = true
  · rw [if_pos hfraction, if_pos hfraction]
    have hdigits := runLength_le Char.isDigit (text.drop 1)
    rw [List.length_drop] at hdigits
    replace hdigits : 1 + runLength Char.isDigit (text.drop 1) ≤ text.length := by omega
    dsimp only
    rw [drop_border (n := 1) hpos, runLength_border hb.isDigit, drop_border hdigits]
    generalize 1 + runLength Char.isDigit (text.drop 1) = digits at *
    -- The exponent begins at the border at the latest, and that does not announce it.
    have hmarker : ({} : Numerals).isExponentMarker (charAt (text.drop digits ++ b :: more) 0) =
        ({} : Numerals).isExponentMarker (charAt (text.drop digits) 0) :=
      apply_charAt (hb.isExponentMarker.trans Numerals.isExponentMarker_endOfInput.symm)
        (Nat.zero_le _)
    rw [hmarker]
    by_cases hpower : ({} : Numerals).isExponentMarker (charAt (text.drop digits) 0) = true
    · rw [if_pos hpower, if_pos hpower]
      have hsome : 0 < (text.drop digits).length := by
        refine length_pos_of_charAt ?_
        intro hend
        rw [hend, Numerals.isExponentMarker_endOfInput] at hpower
        exact Bool.false_ne_true hpower
      obtain ⟨hsame, hle⟩ := exponentLength_border hb more hsome
      rw [List.length_drop] at hle hsome
      exact ⟨congrArg _ hsame, by omega⟩
    · rw [if_neg hpower, if_neg hpower]
      exact ⟨rfl, by omega⟩
  · rw [if_neg hfraction, if_neg hfraction]
    exact ⟨rfl, Nat.zero_le _⟩

omit hb in
/-- The same token in front of the border, which takes no more than the text. -/
def Holds (x y : Lexeme) (text : List Char) : Prop := x = y ∧ y.length ≤ text.length

omit hb in
theorem plain_border {kind : Token.Kind} {n : Nat} (hn : n ≤ text.length) :
    Holds (.plain kind (text ++ b :: more) n) (.plain kind text n) text := by
  refine ⟨?_, hn⟩
  unfold Lexeme.plain
  rw [take_border hn]

theorem numberLexeme_border (text more : List Char) :
    Holds (numberLexeme {} (text ++ b :: more)) (numberLexeme {} text) text := by
  have hwhole := runLength_le Char.isDigit text
  obtain ⟨hsame, hle⟩ := fractionLength_border hb (text.drop (runLength Char.isDigit text)) more
  rw [List.length_drop] at hle
  rw [numberLexeme_eq, numberLexeme_eq, runLength_border hb.isDigit, drop_border hwhole, hsame]
  exact plain_border (by omega)

/-! ### Names -/

theorem partLength_border (more : List Char) (h : 0 < text.length) :
    partLength (text ++ b :: more) = partLength text ∧ partLength text ≤ text.length := by
  have hle := runLength_le isNamePart (text.drop 1)
  rw [List.length_drop] at hle
  unfold partLength
  rw [drop_border (n := 1) h, runLength_border hb.isNamePart]
  exact ⟨rfl, by omega⟩

/-- Whether another part of a name begins at the front. -/
theorem dotted_border (text more : List Char) :
    (charAt (text ++ b :: more) 0 = '.' ∧ isNameStart (charAt (text ++ b :: more) 1) = true) ↔
      charAt text 0 = '.' ∧ isNameStart (charAt text 1) = true := by
  by_cases hempty : text = []
  · subst hempty
    refine iff_of_false ?_ ?_
    · rintro ⟨hdot, -⟩
      exact absurd (show b = '.' from hdot) hb.ne_dot
    · rintro ⟨hdot, -⟩
      exact absurd (show endOfInput = '.' from hdot) (by decide)
  · have hpos := List.length_pos_iff.2 hempty
    have hstart : isNameStart (charAt (text ++ b :: more) 1) = isNameStart (charAt text 1) :=
      apply_charAt (hb.isNameStart.trans isNameStart_endOfInput.symm) hpos
    rw [charAt_append hpos, hstart]

theorem dottedLength_border (text more : List Char) :
    dottedLength (text ++ b :: more) = dottedLength text ∧
      dottedLength text ≤ text.length := by
  induction text using dottedLength.induct with
  | case1 text hdot ih =>
    have hlength := length_pos_of_charAt (ne_endOfInput_of_isNameStart hdot.2)
    obtain ⟨hpart, hle⟩ := partLength_border hb more
      (show 0 < (text.drop 1).length by rw [List.length_drop]; omega)
    rw [List.length_drop] at hle
    obtain ⟨hsame, hrest⟩ := ih
    rw [List.length_drop] at hrest
    rw [dottedLength_of ((dotted_border hb text more).2 hdot), dottedLength_of hdot,
      drop_border (by omega), hpart, drop_border (by omega), hsame]
    exact ⟨rfl, by omega⟩
  | case2 text hdot =>
    rw [dottedLength_of_not fun h => hdot ((dotted_border hb text more).1 h),
      dottedLength_of_not hdot]
    exact ⟨rfl, Nat.zero_le _⟩

theorem nameLexeme_border {sign : Nat} (more : List Char) (h : sign < text.length) :
    Holds (nameLexeme sign (text ++ b :: more)) (nameLexeme sign text) text := by
  obtain ⟨hpart, hle⟩ := partLength_border hb more
    (show 0 < (text.drop sign).length by rw [List.length_drop]; omega)
  rw [List.length_drop] at hle
  obtain ⟨hdotted, hrest⟩ :=
    dottedLength_border hb (text.drop (sign + partLength (text.drop sign))) more
  rw [List.length_drop] at hrest
  unfold nameLexeme
  dsimp only
  rw [drop_border (Nat.le_of_lt h), hpart, drop_border (by omega), hdotted,
    take_border (by omega)]
  exact plain_border (by omega)

/-! ### Symbols and the rest -/

/-- No arrow begins in front of the border or at the end. -/
theorem arrow?_border {k : Nat} (hk : k ≤ text.length) (c : Char) :
    arrow? c (charAt (text ++ b :: more) k) = arrow? c (charAt text k) :=
  apply_charAt (f := arrow? c) (hb.arrow? c) hk

omit hb in
/-- A run of symbol characters ends in the text, or at the border if that is none of them. -/
def Halts (b : Char) (text : List Char) : Prop := isSymbolic b = true → ∃ a ∈ text, isSymbolic a = false

omit hb in
theorem halts_of_isBlank (h : isBlank b = true) (text : List Char) : Halts b text := by
  intro hsymbolic
  rw [isBlank_of_isSymbolic hsymbolic] at h
  cases h

theorem symbolLengthFrom_border (t : Operator.Table) (run : List Char) (best : Nat) (more : List Char)
    (h : Halts b text) :
    symbolLengthFrom t run best (text ++ b :: more) = symbolLengthFrom t run best text := by
  induction text generalizing run best with
  | nil =>
    have hborder : ¬ isSymbolic b = true := fun hsymbolic => by simpa using h hsymbolic
    rw [List.nil_append, symbolLengthFrom, symbolLengthFrom, if_neg fun h => hborder h.1]
  | cons c rest ih =>
    rw [List.cons_append, symbolLengthFrom, symbolLengthFrom, arrow?_border hb (Nat.zero_le _)]
    split
    · next hgoes =>
      refine ih _ _ fun hsymbolic => ?_
      obtain ⟨a, ha, hother⟩ := h hsymbolic
      rcases List.mem_cons.1 ha with rfl | ha
      · exact absurd (hgoes.1.symm.trans hother) Bool.false_ne_true.symm
      · exact ⟨a, ha, hother⟩
    · rfl

omit hb in
theorem symbolLexeme_le (t : Operator.Table) (h : 0 < text.length) :
    (symbolLexeme t text).length ≤ text.length := by
  refine Nat.le_trans (symbolLengthFrom_le (Nat.le_refl 1)) ?_
  rw [List.length_singleton, List.length_drop]
  omega

theorem symbolLexeme_border (t : Operator.Table) (more : List Char) (h : 0 < text.length)
    (hfirst : isSymbolic (charAt text 0) = true) (hstops : Halts b text) :
    symbolLexeme t (text ++ b :: more) = symbolLexeme t text := by
  have hrest : Halts b (text.drop 1) := by
    intro hsymbolic
    obtain ⟨a, ha, hother⟩ := hstops hsymbolic
    cases text with
    | nil => cases ha
    | cons c rest =>
      rcases List.mem_cons.1 ha with rfl | ha
      · exact absurd (hfirst.symm.trans hother) Bool.false_ne_true.symm
      · exact ⟨a, ha, hother⟩
  have hle := symbolLexeme_le t h
  unfold symbolLexeme at hle ⊢
  rw [charAt_append h, drop_border (n := 1) h, symbolLengthFrom_border hb t _ _ more hrest]
  exact (plain_border hle).1

omit hb in
theorem singleLexeme_border (kind : Token.Kind) (more : List Char) (h : 0 < text.length) :
    Holds (singleLexeme kind (text ++ b :: more)) (singleLexeme kind text) text := by
  refine ⟨?_, h⟩
  unfold singleLexeme
  rw [charAt_append h]

theorem punctuationLexeme_border {d : Dialect} {t : Operator.Table} {x : Lexeme} (more : List Char)
    (h : 0 < text.length) (hx : punctuationLexeme d t text = .ok x)
    (hstops : x.kind = .symbol → Halts b text) :
    punctuationLexeme d t (text ++ b :: more) = .ok x := by
  have hfirst : charAt (text ++ b :: more) 0 = charAt text 0 := charAt_append h
  have hsecond : arrow? (charAt text 0) (charAt (text ++ b :: more) 1) =
      arrow? (charAt text 0) (charAt text 1) := arrow?_border hb h (charAt text 0)
  cases harrow : arrow? (charAt text 0) (charAt text 1) with
  | some kind =>
    have hlength := length_pos_of_charAt (arrow?_some harrow)
    cases (PunctuationRule.arrow harrow).eq.symm.trans hx
    rw [← (plain_border hlength).1]
    exact (PunctuationRule.arrow (by rw [hfirst, hsecond, harrow])).eq
  | none =>
    refine punctuationLexeme_congr hfirst harrow (hsecond.trans harrow) hx ?_
    rintro hsymbolic rfl
    exact symbolLexeme_border hb t more h hsymbolic (hstops rfl)

omit hb in
theorem punctuationLexeme_le {d : Dialect} {t : Operator.Table} {x : Lexeme}
    (hx : punctuationLexeme d t text = .ok x) (h : 0 < text.length) : x.length ≤ text.length := by
  cases punctuationLexeme_rule hx with
  | arrow harrow => exact length_pos_of_charAt (arrow?_some harrow)
  | opening | closing | executor | separator => exact h
  | ending => exact Nat.zero_le _
  | symbol => exact symbolLexeme_le t h

/-- **A token in front of the border** is the token in front of the end of the text. -/
theorem lexeme_border {d : Dialect} {t : Operator.Table} {x : Lexeme} (hquote : b ≠ d.quote)
    (hnumerals : d.numerals = {}) (more : List Char)
    (hne : text ≠ []) (hx : lexeme d t text = .ok x) (hstops : x.kind = .symbol → Halts b text) :
    lexeme d t (text ++ b :: more) = .ok x ∧ x.length ≤ text.length := by
  have h := List.length_pos_iff.2 hne
  have hfirst : charAt (text ++ b :: more) 0 = charAt text 0 := charAt_append h
  have hsecond : isNameStart (charAt (text ++ b :: more) 1) = isNameStart (charAt text 1) :=
    apply_charAt (hb.isNameStart.trans isNameStart_endOfInput.symm) h
  cases lexeme_rule hx with
  | @literal content n hopening hclosed =>
    obtain ⟨hsame, hle⟩ := literalFrom_border hquote more hclosed
    rw [List.length_drop] at hle
    refine ⟨(Rule.literal (hfirst.trans hopening) ?_).eq, Nat.add_le_of_le_sub h hle⟩
    rw [drop_border (n := 1) h, hsame]
  | number hopening hdigit =>
    obtain ⟨hsame, hle⟩ := numberLexeme_border hb text more
    rw [← hnumerals] at hsame hle
    rw [← hsame]
    exact ⟨(Rule.number (by rwa [hfirst]) (by rwa [hfirst])).eq, by rwa [hsame]⟩
  | signed hopening hdigit hsign =>
    obtain ⟨hsame, hle⟩ := nameLexeme_border hb more
      (length_pos_of_charAt (ne_endOfInput_of_isNameStart hsign.2))
    rw [← hsame]
    exact ⟨(Rule.signed (by rwa [hfirst]) (by rwa [hfirst]) (by rwa [hfirst, hsecond])).eq, by rwa [hsame]⟩
  | name hopening hdigit hsign hstart =>
    obtain ⟨hsame, hle⟩ := nameLexeme_border hb more h
    rw [← hsame]
    exact ⟨(Rule.name (by rwa [hfirst]) (by rwa [hfirst]) (by rwa [hfirst, hsecond]) (by rwa [hfirst])).eq,
      by rwa [hsame]⟩
  | punctuation hword hpunctuation =>
    have hword' : Wordless d (text ++ b :: more) := ⟨by rw [hfirst]; exact hword.quote,
      by rw [hfirst, hword.digit], by rw [hfirst, hsecond]; exact hword.sign, by rw [hfirst, hword.start]⟩
    exact ⟨(Rule.punctuation hword' (punctuationLexeme_border hb more h hpunctuation hstops)).eq,
      punctuationLexeme_le hpunctuation h⟩

end Tokens

end Dataflow.Lexer
