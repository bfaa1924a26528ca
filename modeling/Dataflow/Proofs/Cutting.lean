import Dataflow.Proofs.Bordering
import Dataflow.Proofs.Tiling

/-!
# Dataflow.Proofs.Cutting

**A token is scanned again when it is cut out of its text.** Take the characters of a token from the
front of a text and put anything behind them that no token goes on with: the same token stands there
(`lexeme_cut`). Every rule takes as much as its classes of characters allow, and where it has stopped
it has looked at one or two characters further on; what now stands there has to say "stop" as well.

* `Severs` — a text that goes on none of the tokens in front of it. Symbols ask for more, since they
  may grow by any symbol character;
* `lexeme_length_le` — a token does not reach beyond the text;
* `runLength_cut`, …, `symbolLengthFrom_cut` — one rule each;
* `Token.Word` — what a token says, wherever it stands, and `Token.Word.Lexes` — how it is scanned
  from its own spelling.
-/

namespace Dataflow.Lexer

open Reading Text

variable {d : Dialect} {t : Operator.Table} {n : Numerals} {text rest : List Char}

/-- No literal, number or name goes on with this text, and no arrow. -/
structure Severs (d : Dialect) (rest : List Char) : Prop where
  quote : charAt rest 0 ≠ d.quote
  digit : (charAt rest 0).isDigit = false
  decimal : charAt rest 0 ≠ d.numerals.decimal
  marker : d.numerals.isExponentMarker (charAt rest 0) = false
  start : isNameStart (charAt rest 0) = false
  part : isNamePart (charAt rest 0) = false
  dot : charAt rest 0 ≠ '.'
  arrow : ∀ c, arrow? c (charAt rest 0) = none

/-! ### Lengths -/

theorem exponentLength_le (n : Numerals) (text : List Char) :
    exponentLength n text ≤ text.length := by
  have hdigits := runLength_le Char.isDigit (text.drop (1 + signLength n text))
  rw [List.length_drop] at hdigits
  unfold exponentLength
  dsimp only
  split <;> omega

theorem fractionLength_le (n : Numerals) (text : List Char) :
    fractionLength n text ≤ text.length := by
  unfold fractionLength
  split
  · next hfraction =>
    have hlength := length_pos_of_charAt (ne_endOfInput_of_isDigit hfraction.2)
    have hdigits := runLength_le Char.isDigit (text.drop 1)
    have hpower := exponentLength_le n (text.drop (1 + runLength Char.isDigit (text.drop 1)))
    rw [List.length_drop] at hdigits hpower
    dsimp only
    split <;> omega
  · exact Nat.zero_le _

theorem numberLexeme_length_le (n : Numerals) (text : List Char) :
    (numberLexeme n text).length ≤ text.length := by
  have hwhole := runLength_le Char.isDigit text
  have hfraction := fractionLength_le n (text.drop (runLength Char.isDigit text))
  rw [List.length_drop] at hfraction
  show runLength Char.isDigit text + fractionLength n _ ≤ _
  omega

theorem dottedLength_le (text : List Char) : dottedLength text ≤ text.length :=
  (dottedLength_border (.inr rfl) text []).2

theorem nameLexeme_length_le {sign : Nat} (h : isNameStart (charAt text sign) = true) :
    (nameLexeme sign text).length ≤ text.length :=
  (nameLexeme_border (.inr rfl) [] (length_pos_of_charAt (ne_endOfInput_of_isNameStart h))).2

/-- A token does not reach beyond the end of the text. -/
theorem lexeme_length_le {x : Lexeme} (h : lexeme d t text = .ok x) (hne : text ≠ []) :
    x.length ≤ text.length := by
  have hpos := List.length_pos_iff.2 hne
  cases lexeme_rule h with
  | @literal content k _ hclosed =>
    have hle := (spelling_of_literalFrom hclosed).1
    rw [List.length_drop] at hle
    show k + 1 ≤ text.length
    omega
  | number => exact numberLexeme_length_le _ _
  | signed _ _ hsign => exact nameLexeme_length_le hsign.2
  | name _ _ _ hstart => exact nameLexeme_length_le hstart
  | punctuation _ hpunctuation => exact punctuationLexeme_le hpunctuation hpos

/-! ### Cutting -/

theorem charAt_cut {k m : Nat} (hk : k < m) (hm : m ≤ text.length) :
    charAt (text.take m ++ rest) k = charAt text k := by
  unfold charAt
  rw [List.getD_eq_getElem?_getD, List.getD_eq_getElem?_getD,
    List.getElem?_append_left (by rw [List.length_take]; omega), List.getElem?_take_of_lt hk]

/-- The second character is the same one, or the cut is right in front of it. -/
theorem charAt_one_cut (rest : List Char) {m : Nat} (hpos : 0 < m) (hm : m ≤ text.length) :
    charAt (text.take m ++ rest) 1 = charAt text 1 ∨
      charAt (text.take m ++ rest) 1 = charAt rest 0 := by
  by_cases hone : 1 < m
  · exact .inl (charAt_cut hone hm)
  · obtain rfl : m = 1 := by omega
    obtain ⟨c, text, rfl⟩ := List.exists_cons_of_length_pos hm
    exact .inr rfl

theorem drop_cut {k m : Nat} (hk : k ≤ m) (hm : m ≤ text.length) :
    (text.take m ++ rest).drop k = (text.drop k).take (m - k) ++ rest := by
  rw [List.drop_append_of_le_length (by rw [List.length_take]; omega), List.drop_take]

theorem take_cut {m : Nat} (hm : m ≤ text.length) : (text.take m ++ rest).take m = text.take m := by
  rw [List.take_append_of_le_length (by rw [List.length_take]; omega), List.take_take, Nat.min_self]

theorem Lexeme.plain_length (kind : Token.Kind) (text : List Char) (m : Nat) :
    (Lexeme.plain kind text m).length = m := rfl

theorem plain_cut {kind : Token.Kind} {m : Nat} (hm : m ≤ text.length) :
    Lexeme.plain kind (text.take m ++ rest) m = .plain kind text m := by
  unfold Lexeme.plain
  rw [take_cut hm]

theorem runLength_cut {inClass : Char → Bool} (hrest : inClass (charAt rest 0) = false) {m : Nat}
    (h : runLength inClass text ≤ m) :
    runLength inClass (text.take m ++ rest) = runLength inClass text := by
  induction text generalizing m with
  | nil =>
    rw [List.take_nil, List.nil_append, runLength_of_charAt hrest]
    rfl
  | cons c text ih =>
    by_cases hc : inClass c = true
    · have hcons (more : List Char) :
          runLength inClass (c :: more) = runLength inClass more + 1 := by
        simp [runLength, hc]
      rw [hcons] at h
      obtain ⟨m, rfl⟩ : ∃ k, m = k + 1 := ⟨m - 1, by omega⟩
      rw [List.take_succ_cons, List.cons_append, hcons, hcons, ih (by omega)]
    · have hstop (more : List Char) : runLength inClass (c :: more) = 0 := by
        simp [runLength, hc]
      rw [hstop]
      cases m with
      | zero => exact runLength_of_charAt hrest
      | succ m => exact hstop _

/-! ### Literals -/

theorem literalFrom_cut {quote : Char} (hrest : charAt rest 0 ≠ quote) {content : List Char} {m : Nat}
    (h : literalFrom quote text = some (content, m)) :
    literalFrom quote (text.take m ++ rest) = some (content, m) := by
  -- A quote in front of the rest is not doubled by it.
  have hclosed : literalFrom quote (quote :: rest) = some ([], 1) := by
    refine literalFrom_closed ?_
    rintro rest' rfl
    exact hrest rfl
  induction text using literalFrom.induct quote generalizing content m with
  | case1 => cases h
  | case2 c text hc ih =>
    rw [literalFrom_of_ne hc, Option.map_eq_some_iff] at h
    obtain ⟨⟨content', m'⟩, hfound, heq⟩ := h
    cases heq
    rw [List.take_succ_cons, List.cons_append, literalFrom_of_ne hc, ih hfound]
    rfl
  | case3 c hc =>
    obtain rfl := Decidable.not_not.1 hc
    rw [literalFrom_closed (by simp)] at h
    cases h
    exact hclosed
  | case4 c hc text ih =>
    obtain rfl := Decidable.not_not.1 hc
    rw [literalFrom_doubled, Option.map_eq_some_iff] at h
    obtain ⟨⟨content', m'⟩, hfound, heq⟩ := h
    cases heq
    rw [List.take_succ_cons, List.take_succ_cons, List.cons_append, List.cons_append,
      literalFrom_doubled, ih hfound]
    rfl
  | case5 c hc c' text hc' =>
    obtain rfl := Decidable.not_not.1 hc
    rw [literalFrom_closed (by rintro text' ⟨⟩; exact hc' rfl)] at h
    cases h
    exact hclosed

/-! ### Numbers -/

theorem exponentLength_cut (hrest : Severs d rest) (hsome : exponentLength n text ≠ 0) :
    exponentLength n (text.take (exponentLength n text) ++ rest) = exponentLength n text := by
  have hle := exponentLength_le n text
  have hdigits : runLength Char.isDigit (text.drop (1 + signLength n text)) ≠ 0 := by
    intro hnone
    refine hsome ?_
    unfold exponentLength
    simp only [hnone, if_true]
  have hlength : exponentLength n text = 1 + signLength n text +
      runLength Char.isDigit (text.drop (1 + signLength n text)) := by
    unfold exponentLength
    simp only [if_neg hdigits]
  have hsign : signLength n (text.take (exponentLength n text) ++ rest) = signLength n text := by
    unfold signLength
    rw [charAt_cut (by omega) hle]
  generalize exponentLength n text = m at *
  unfold exponentLength
  rw [hsign, drop_cut (by omega) hle, runLength_cut hrest.digit (by omega)]
  simp only [if_neg hdigits]
  exact hlength.symm

/-- The exponent at the front, if its marker stands there. -/
theorem powerLength_cut (hrest : Severs d rest) {m : Nat}
    (hm : m = if d.numerals.isExponentMarker (charAt text 0) then exponentLength d.numerals text else 0) :
    (if d.numerals.isExponentMarker (charAt (text.take m ++ rest) 0) then
      exponentLength d.numerals (text.take m ++ rest) else 0) = m := by
  by_cases hzero : m = 0
  · rw [hzero, List.take_zero, List.nil_append, hrest.marker, if_neg Bool.false_ne_true]
  · have hmarker : d.numerals.isExponentMarker (charAt text 0) = true := by
      refine (Bool.not_eq_false _).mp fun hfalse => hzero ?_
      rw [hm, hfalse, if_neg Bool.false_ne_true]
    rw [if_pos hmarker] at hm
    subst hm
    rw [charAt_cut (Nat.pos_of_ne_zero hzero) (exponentLength_le _ _), if_pos hmarker,
      exponentLength_cut hrest hzero]

theorem fractionLength_cut (hrest : Severs d rest) :
    fractionLength d.numerals (text.take (fractionLength d.numerals text) ++ rest) =
      fractionLength d.numerals text := by
  have hle := fractionLength_le d.numerals text
  by_cases hfraction : charAt text 0 = d.numerals.decimal ∧ (charAt text 1).isDigit = true
  · have hdigit : 0 < runLength Char.isDigit (text.drop 1) := by
      have hlength := length_pos_of_charAt (ne_endOfInput_of_isDigit hfraction.2)
      obtain ⟨c, more, hcons⟩ := List.exists_cons_of_length_pos
        (show 0 < (text.drop 1).length by rw [List.length_drop]; omega)
      have hc : charAt (text.drop 1) 0 = charAt text 1 := charAt_drop text 1 0
      rw [hcons, charAt_cons_zero] at hc
      rw [hcons]
      exact runLength_pos (hc ▸ hfraction.2) more
    -- The fraction, and the exponent behind it.
    generalize hdigits : 1 + runLength Char.isDigit (text.drop 1) = digits at *
    generalize hpower : (if d.numerals.isExponentMarker (charAt (text.drop digits) 0) then
      exponentLength d.numerals (text.drop digits) else 0) = power
    have hlength : fractionLength d.numerals text = digits + power := by
      unfold fractionLength
      rw [if_pos hfraction, hdigits]
      exact congrArg (digits + ·) hpower
    rw [hlength] at hle ⊢
    have hcut := powerLength_cut hrest hpower.symm
    unfold fractionLength
    rw [charAt_cut (by omega) hle, charAt_cut (by omega) hle, if_pos hfraction,
      drop_cut (by omega) hle, runLength_cut hrest.digit (by omega), hdigits]
    dsimp only
    rw [drop_cut (by omega) hle, Nat.add_sub_cancel_left, hcut]
  · have hzero : fractionLength d.numerals text = 0 := by
      unfold fractionLength
      rw [if_neg hfraction]
    rw [hzero, List.take_zero, List.nil_append]
    unfold fractionLength
    exact if_neg fun h => hrest.decimal h.1

theorem numberLexeme_cut (hrest : Severs d rest) :
    numberLexeme d.numerals (text.take (numberLexeme d.numerals text).length ++ rest) =
      numberLexeme d.numerals text := by
  have hle := numberLexeme_length_le d.numerals text
  have hcut := @fractionLength_cut d (text.drop (runLength Char.isDigit text)) rest hrest
  rw [numberLexeme_eq d.numerals text] at hle ⊢
  dsimp only [Lexeme.plain] at hle
  generalize hwhole : runLength Char.isDigit text = whole at *
  generalize fractionLength d.numerals (text.drop whole) = fraction at *
  show numberLexeme d.numerals (text.take (whole + fraction) ++ rest) = _
  rw [numberLexeme_eq, runLength_cut hrest.digit (by omega), hwhole, drop_cut (by omega) hle,
    Nat.add_sub_cancel_left, hcut, plain_cut hle]

/-! ### Names -/

theorem partLength_cut (hrest : Severs d rest) {m : Nat} (h : partLength text ≤ m)
    (hm : m ≤ text.length) : partLength (text.take m ++ rest) = partLength text := by
  unfold partLength at h ⊢
  rw [drop_cut (by omega) hm, runLength_cut hrest.part (by omega)]

theorem dottedLength_cut (hrest : Severs d rest) :
    dottedLength (text.take (dottedLength text) ++ rest) = dottedLength text := by
  induction text using dottedLength.induct with
  | case1 text hdot ih =>
    have hle := dottedLength_le text
    have hpart : 0 < partLength (text.drop 1) :=
      Nat.lt_of_lt_of_le Nat.zero_lt_one (Nat.le_add_right 1 _)
    rw [dottedLength_of hdot] at hle ⊢
    generalize hm : 1 + partLength (text.drop 1) + _ = m at *
    have hagain : charAt (text.take m ++ rest) 0 = '.' ∧
        isNameStart (charAt (text.take m ++ rest) 1) = true := by
      rw [charAt_cut (by omega) hle, charAt_cut (by omega) hle]
      exact hdot
    rw [dottedLength_of hagain, drop_cut (by omega) hle, partLength_cut hrest (by omega)
      (by rw [List.length_drop]; omega), drop_cut (by omega) hle, ← hm, Nat.add_sub_cancel_left, ih]
  | case2 text hdot =>
    rw [dottedLength_of_not hdot, List.take_zero, List.nil_append,
      dottedLength_of_not fun h => hrest.dot h.1]

theorem nameLexeme_cut (hrest : Severs d rest) {sign : Nat}
    (hstart : isNameStart (charAt text sign) = true) :
    nameLexeme sign (text.take (nameLexeme sign text).length ++ rest) = nameLexeme sign text := by
  have hle := nameLexeme_length_le hstart
  generalize hm : (nameLexeme sign text).length = m at *
  unfold nameLexeme at hm ⊢
  dsimp only [Lexeme.plain] at hm ⊢
  generalize hpart : partLength (text.drop sign) = part at *
  have hcut := @dottedLength_cut d (text.drop (sign + part)) rest hrest
  generalize dottedLength (text.drop (sign + part)) = dotted at *
  have hfirst : partLength ((text.take m ++ rest).drop sign) = part := by
    rw [drop_cut (by omega) hle, partLength_cut hrest (by omega) (by rw [List.length_drop]; omega),
      hpart]
  have hbehind : m - (sign + part) = dotted := by omega
  rw [hfirst, drop_cut (by omega) hle, hbehind, hcut, hm, take_cut hle]

/-! ### Symbols -/

/-- Only a registered symbol that is longer than the run is taken for longer than `best`. -/
theorem symbolLengthFrom_cases (t : Operator.Table) (run : List Char) (best : Nat)
    (text : List Char) :
    symbolLengthFrom t run best text = best ∨ run.length < symbolLengthFrom t run best text := by
  induction text generalizing run best with
  | nil => exact .inl rfl
  | cons c text ih =>
    rw [symbolLengthFrom]
    split
    · split
      · exact .inr (lt_symbolLengthFrom (Nat.lt_succ_self _) (by rw [List.length_append]; omega))
      · refine (ih (run ++ [c]) best).imp id fun h => ?_
        rw [List.length_append] at h
        exact Nat.lt_of_succ_lt h
    · exact .inl rfl

theorem symbolLengthFrom_stop (hrest : isSymbolic (charAt rest 0) = false) (run : List Char)
    (best : Nat) : symbolLengthFrom t run best rest = best := by
  cases rest with
  | nil => rfl
  | cons c rest => exact if_neg fun h => absurd h.1 (by simpa using hrest)

/-- In front of what is no symbol character, a symbol is as long as it was. -/
theorem symbolLengthFrom_cut (hrest : Severs d rest) (hstop : isSymbolic (charAt rest 0) = false)
    (run : List Char) {best m : Nat} (hbest : best ≤ run.length)
    (hm : symbolLengthFrom t run best text = run.length + m) :
    symbolLengthFrom t run best (text.take m ++ rest) = run.length + m := by
  induction text generalizing run best m with
  | nil =>
    rw [List.take_nil, List.nil_append, symbolLengthFrom_stop hstop]
    exact hm
  | cons c text ih =>
    cases m with
    | zero =>
      rw [List.take_zero, List.nil_append, symbolLengthFrom_stop hstop]
      rcases symbolLengthFrom_cases t run best (c :: text) with hsame | hlonger
      · exact hsame.symm.trans hm
      · omega
    | succ m =>
      rw [symbolLengthFrom] at hm
      split at hm
      · next hgoes =>
        have hrun : (run ++ [c]).length = run.length + 1 := by simp
        have hagain := ih (run ++ [c]) (by rw [hrun]; split <;> omega)
          (hm.trans (show run.length + (m + 1) = (run ++ [c]).length + m by rw [hrun]; omega))
        -- What stands behind `c` is the same, or it is what stands behind the cut.
        have harrow : (arrow? c (charAt (text.take m ++ rest) 0)).isNone = true := by
          cases text with
          | nil => rw [List.take_nil, List.nil_append, hrest.arrow c]; rfl
          | cons c' text =>
            cases m with
            | zero => rw [List.take_zero, List.nil_append, hrest.arrow c]; rfl
            | succ m => exact hgoes.2.1
        rw [List.take_succ_cons, List.cons_append, symbolLengthFrom,
          if_pos ⟨hgoes.1, harrow, hgoes.2.2⟩, hagain, hrun]
        omega
      · omega

theorem symbolLexeme_cut (hrest : Severs d rest) (hstop : isSymbolic (charAt rest 0) = false)
    (hne : text ≠ []) :
    symbolLexeme t (text.take (symbolLexeme t text).length ++ rest) = symbolLexeme t text := by
  have hle := symbolLexeme_le t (List.length_pos_iff.2 hne)
  unfold symbolLexeme at hle ⊢
  dsimp only [Lexeme.plain] at hle
  have hpos : 0 < symbolLengthFrom t [charAt text 0] 1 (text.drop 1) :=
    lt_symbolLengthFrom Nat.zero_lt_one (Nat.succ_pos _)
  obtain ⟨m, hm⟩ : ∃ m, symbolLengthFrom t [charAt text 0] 1 (text.drop 1) = 1 + m :=
    ⟨symbolLengthFrom t [charAt text 0] 1 (text.drop 1) - 1, by omega⟩
  have hcut := symbolLengthFrom_cut hrest hstop [charAt text 0] (Nat.le_refl 1) hm
  rw [hm] at hle ⊢
  dsimp only [Lexeme.plain_length]
  rw [charAt_cut (by omega) hle, drop_cut (by omega) hle, Nat.add_sub_cancel_left, hcut]
  exact plain_cut hle

/-! ### All rules -/

theorem punctuationLexeme_cut (hrest : Severs d rest) {x : Lexeme}
    (h : punctuationLexeme d t text = .ok x) (hne : text ≠ []) (hend : x.kind ≠ .endOfFile)
    (hstop : x.kind = .symbol → isSymbolic (charAt rest 0) = false) (hpos : 0 < x.length) :
    punctuationLexeme d t (text.take x.length ++ rest) = .ok x := by
  have hle := punctuationLexeme_le h (List.length_pos_iff.2 hne)
  have hfirst : charAt (text.take x.length ++ rest) 0 = charAt text 0 := charAt_cut hpos hle
  cases harrow : arrow? (charAt text 0) (charAt text 1) with
  | some kind =>
    cases (PunctuationRule.arrow harrow).eq.symm.trans h
    have hsecond : charAt (text.take 2 ++ rest) 1 = charAt text 1 := charAt_cut Nat.one_lt_two hle
    have hfirst : charAt (text.take 2 ++ rest) 0 = charAt text 0 := hfirst
    have harrow' : arrow? (charAt (text.take 2 ++ rest) 0) (charAt (text.take 2 ++ rest) 1) =
        some kind := by rw [hfirst, hsecond, harrow]
    exact (PunctuationRule.arrow harrow').eq.trans (congrArg Except.ok (plain_cut hle))
  | none =>
    have hnone : arrow? (charAt text 0) (charAt (text.take x.length ++ rest) 1) = none := by
      rcases charAt_one_cut rest hpos hle with hsecond | hsecond
      · rw [hsecond, harrow]
      · rw [hsecond, hrest.arrow]
    refine punctuationLexeme_congr hfirst harrow hnone h ?_
    rintro - rfl
    exact symbolLexeme_cut hrest (hstop rfl) hne

/-- **A token that is cut out of its text** is the same token in front of every text that severs
it. -/
theorem lexeme_cut (hrest : Severs d rest) {x : Lexeme} (h : lexeme d t text = .ok x)
    (hne : text ≠ []) (hend : x.kind ≠ .endOfFile)
    (hstop : x.kind = .symbol → isSymbolic (charAt rest 0) = false) :
    lexeme d t (text.take x.length ++ rest) = .ok x := by
  have hle := lexeme_length_le h hne
  have hpos := lexeme_length_pos h hend
  have hfirst : charAt (text.take x.length ++ rest) 0 = charAt text 0 := charAt_cut hpos hle
  have hunsigned (hno : ¬ ((charAt text 0 = '@' ∨ charAt text 0 = '#') ∧
        isNameStart (charAt text 1) = true)) :
      ¬ ((charAt text 0 = '@' ∨ charAt text 0 = '#') ∧
        isNameStart (charAt (text.take x.length ++ rest) 1) = true) := by
    rintro ⟨hsign, hstart⟩
    rcases charAt_one_cut rest hpos hle with hsecond | hsecond
    · exact hno ⟨hsign, hsecond ▸ hstart⟩
    · rw [hsecond, hrest.start] at hstart
      exact Bool.false_ne_true hstart
  cases lexeme_rule h with
  | @literal content k hquote hclosed =>
    have hdrop : (text.take (k + 1) ++ rest).drop 1 = (text.drop 1).take k ++ rest :=
      drop_cut (Nat.le_add_left 1 k) hle
    refine (Rule.literal (hfirst.trans hquote) ?_).eq
    rw [hdrop, literalFrom_cut hrest.quote hclosed]
  | number hquote hdigit =>
    rw [(Rule.number (by rwa [hfirst]) (by rwa [hfirst])).eq, numberLexeme_cut hrest]
  | signed hquote hdigit hsign =>
    have htwo : 1 < (nameLexeme 1 text).length := by
      show 2 ≤ 1 + partLength _ + _
      unfold partLength
      omega
    have hsecond : charAt (text.take _ ++ rest) 1 = charAt text 1 := charAt_cut htwo hle
    rw [(Rule.signed (by rwa [hfirst]) (by rwa [hfirst]) (by rwa [hfirst, hsecond])).eq,
      nameLexeme_cut hrest hsign.2]
  | name hquote hdigit hsign hstart =>
    rw [(Rule.name (by rwa [hfirst]) (by rwa [hfirst]) (by rw [hfirst]; exact hunsigned hsign)
      (by rwa [hfirst])).eq, nameLexeme_cut hrest hstart]
  | punctuation hword hpunctuation =>
    have hword' : Wordless d (text.take x.length ++ rest) := ⟨by rw [hfirst]; exact hword.quote,
      by rw [hfirst, hword.digit], by rw [hfirst]; exact hunsigned hword.sign, by rw [hfirst, hword.start]⟩
    exact (Rule.punctuation hword' (punctuationLexeme_cut hrest hpunctuation hne hend hstop hpos)).eq

end Dataflow.Lexer
