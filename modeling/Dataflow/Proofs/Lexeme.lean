import Dataflow.Lexer.Scan

/-!
# Dataflow.Proofs.Lexeme

**The rules of the lexer, on the text itself.** Scanning moves a cursor over a buffer, tries and
takes back; what token it finds depends on nothing but the text ahead, the dialect and the
operators. Here every rule is a function of these three, that says how many characters the token
takes:

* `blankLength` — what is skipped in front of a token;
* `exponentLength`, `numberLength`, `nameLength`, `symbolLength`, `literalFrom` — one rule each;
* `lexeme` — all rules in order, and `Rule` — which of them applies (`lexeme_rule`, `Rule.eq`);
* `Place.next` — the next token of a place in a text, and the place behind it.

Characters behind the end of the text count as the end marker, so that no rule has to ask whether
there are any. That the lexer follows these rules is shown in `Dataflow.Proofs.Scanning`.
-/

namespace Dataflow.Token.Kind

/-- A kind that no single character has a role as. Its tokens are never the end marker, whatever the
dialect takes that for. -/
@[simp] def isSolid : Kind → Bool
  | opening _ | closing _ | executor | separator | endOfFile => false
  | _ => true

theorem isSolid_of_isIdentifier {kind : Kind} (h : kind.isIdentifier = true) :
    kind.isSolid = true := by
  cases kind <;> first | rfl | cases h

theorem isSolid_of_isTextIdentifier {kind : Kind} (h : kind.isTextIdentifier = true) :
    kind.isSolid = true := by
  cases kind <;> first | rfl | cases h

theorem ne_endOfFile_of_isSolid {kind : Kind} (h : kind.isSolid = true) : kind ≠ .endOfFile := by
  rintro rfl
  cases h

end Dataflow.Token.Kind

namespace Dataflow.Lexer

open Reading Text

/-- The character `k` places ahead, or the end marker. -/
def charAt (text : List Char) (k : Nat) : Char := text.getD k endOfInput

@[simp] theorem charAt_nil (k : Nat) : charAt [] k = endOfInput := rfl

@[simp] theorem charAt_cons_zero (c : Char) (text : List Char) : charAt (c :: text) 0 = c := rfl

@[simp] theorem charAt_cons_succ (c : Char) (text : List Char) (k : Nat) :
    charAt (c :: text) (k + 1) = charAt text k := rfl

theorem charAt_drop (text : List Char) (n k : Nat) :
    charAt (text.drop n) k = charAt text (n + k) := by
  simp [charAt, List.getD_eq_getElem?_getD]

/-- What is left of a text has the characters that stand there. -/
theorem charAt_of_drop {text rest : List Char} {n : Nat} (h : text.drop n = rest) (k : Nat) :
    charAt text (n + k) = charAt rest k := by
  rw [← charAt_drop, h]

/-- A text that is not over at a place goes one character further. -/
theorem further_of_drop {text rest : List Char} {c : Char} {n : Nat} (h : text.drop n = c :: rest) :
    n < text.length ∧ text.take n ++ [c] = text.take (n + 1) ∧ text.drop (n + 1) = rest := by
  refine ⟨Nat.lt_of_not_le fun hle => ?_, ?_, ?_⟩
  · rw [List.drop_eq_nil_of_le hle] at h
    cases h
  · rw [List.take_add, h]
    rfl
  · rw [← List.drop_drop, h]
    rfl

/-- The length of the longest run at the front that is of a class. -/
def runLength (inClass : Char → Bool) (text : List Char) : Nat :=
  (text.takeWhile inClass).length

theorem take_runLength (inClass : Char → Bool) (text : List Char) :
    text.take (runLength inClass text) = text.takeWhile inClass := by
  induction text with
  | nil => rfl
  | cons c text ih =>
    unfold runLength at ih ⊢
    cases h : inClass c <;> simp [h, ih]

theorem drop_runLength (inClass : Char → Bool) (text : List Char) :
    text.drop (runLength inClass text) = text.dropWhile inClass := by
  induction text with
  | nil => rfl
  | cons c text ih =>
    unfold runLength at ih ⊢
    cases h : inClass c <;> simp [h, ih]

/-- A run goes on behind any part of it. -/
theorem runLength_of_take {inClass : Char → Bool} {text : List Char} {n : Nat}
    (h : ∀ c ∈ text.take n, inClass c = true) (hle : n ≤ text.length) :
    n + runLength inClass (text.drop n) = runLength inClass text := by
  have hlength : (text.take n).length = n := List.length_take_of_le hle
  have hsplit := congrArg (runLength inClass) (List.take_append_drop n text)
  rw [← hsplit, runLength, runLength, List.takeWhile_append_of_pos h, List.length_append, hlength]

theorem of_mem_takeWhile {inClass : Char → Bool} {text : List Char} {c : Char}
    (h : c ∈ text.takeWhile inClass) : inClass c = true :=
  List.all_eq_true.1 List.all_takeWhile c h

/-! ### The end marker -/

set_option maxRecDepth 4000 in
theorem isNamePart_endOfInput : isNamePart endOfInput = false := by cbv

set_option maxRecDepth 4000 in
theorem isNameStart_endOfInput : isNameStart endOfInput = false := by cbv

set_option maxRecDepth 4000 in
theorem isSymbolic_endOfInput : isSymbolic endOfInput = false := by cbv

theorem not_sign_endOfInput : ¬ (endOfInput = '@' ∨ endOfInput = '#') := by decide

theorem Numerals.isExponentMarker_endOfInput :
    ({} : Numerals).isExponentMarker endOfInput = false := by decide +kernel

/-! ### The rules -/

/-- What a lexer finds at the front of a text. -/
structure Lexeme where
  kind : Token.Kind
  /-- The text of the token. -/
  content : List Char
  quote : Option Char := none
  /-- How many characters it takes. -/
  length : Nat
deriving DecidableEq

/-- Why there is no token at the front of a text. -/
inductive Fault where
  | unexpected (c : Char)
  | unterminated
deriving DecidableEq

/-- A token that is written as it reads. -/
def Lexeme.plain (kind : Token.Kind) (text : List Char) (length : Nat) : Lexeme where
  kind := kind
  content := text.take length
  length := length

/-- The content of a literal behind its opening quote, and how many characters it takes with its
closing quote; nothing if no quote closes it. -/
def literalFrom (quote : Char) : List Char → Option (List Char × Nat)
  | [] => none
  | c :: rest =>
    if c ≠ quote then (literalFrom quote rest).map fun (content, n) => (c :: content, n + 1)
    else
      match rest with
      | [] => some ([], 1)
      | d :: rest =>
        if d = quote then (literalFrom quote rest).map fun (content, n) => (c :: content, n + 2)
        else some ([], 1)

theorem literalFrom_of_ne {quote c : Char} (hc : c ≠ quote) (rest : List Char) :
    literalFrom quote (c :: rest) =
      (literalFrom quote rest).map fun (content, n) => (c :: content, n + 1) := by
  rw [literalFrom.eq_def]
  simp only [ne_eq, hc, not_false_eq_true, if_true]

theorem literalFrom_doubled (quote : Char) (rest : List Char) :
    literalFrom quote (quote :: quote :: rest) =
      (literalFrom quote rest).map fun (content, n) => (quote :: content, n + 2) := by
  rw [literalFrom.eq_def]
  simp only [ne_eq, not_true_eq_false, if_false, if_true]

theorem literalFrom_closed {quote : Char} {rest : List Char}
    (h : ∀ rest', rest ≠ quote :: rest') : literalFrom quote (quote :: rest) = some ([], 1) := by
  rw [literalFrom.eq_def]
  simp only [ne_eq, not_true_eq_false, if_false]
  cases rest with
  | nil => rfl
  | cons d rest =>
    have hd : d ≠ quote := by
      rintro rfl
      exact h rest rfl
    simp only [if_neg hd]

/-- The length of the sign in an exponent that begins at the front. -/
def signLength (n : Numerals) (text : List Char) : Nat :=
  if charAt text 1 = n.negative ∨ charAt text 1 = '+' then 1 else 0

/-- The length of the exponent at the front, where its marker stands; zero if no digits
follow. -/
def exponentLength (n : Numerals) (text : List Char) : Nat :=
  let digits := runLength Char.isDigit (text.drop (1 + signLength n text))
  if digits = 0 then 0 else 1 + signLength n text + digits

/-- The length of the fraction and the exponent at the front; zero if no fraction begins
there. -/
def fractionLength (n : Numerals) (text : List Char) : Nat :=
  if charAt text 0 = n.decimal ∧ (charAt text 1).isDigit then
    let digits := 1 + runLength Char.isDigit (text.drop 1)
    let behind := text.drop digits
    digits + if n.isExponentMarker (charAt behind 0) then exponentLength n behind else 0
  else 0

/-- The number at the front. -/
def numberLexeme (n : Numerals) (text : List Char) : Lexeme :=
  let whole := runLength Char.isDigit text
  let fraction := fractionLength n (text.drop whole)
  .plain (if fraction = 0 then .integer else .real) text (whole + fraction)

/-- The length of a part of a name: one character, and all that goes on a name. -/
def partLength (text : List Char) : Nat :=
  1 + runLength isNamePart (text.drop 1)

/-- The length of the further parts of a name, each with the dot in front of it. -/
def dottedLength (text : List Char) : Nat :=
  if charAt text 0 = '.' ∧ isNameStart (charAt text 1) then
    1 + partLength (text.drop 1) + dottedLength (text.drop (1 + partLength (text.drop 1)))
  else 0
termination_by text.length
decreasing_by
  next h =>
  cases text with
  | nil => simp [endOfInput] at h
  | cons c text => simp only [List.length_drop, List.length_cons]; omega

/-- The name at the front, behind `sign` characters that do not count as its first. -/
def nameLexeme (sign : Nat) (text : List Char) : Lexeme :=
  let first := sign + partLength (text.drop sign)
  let dotted := dottedLength (text.drop first)
  let length := first + dotted
  .plain (nameKind (sign ≠ 0) (dotted ≠ 0) (String.ofList (text.take length))) text length

/-- The length of the longest registered symbol that begins with `run`, which stands in front of
the text, or `best`. -/
def symbolLengthFrom (t : Operator.Table) : (run : List Char) → (best : Nat) → List Char → Nat
  | _, best, [] => best
  | run, best, c :: rest =>
    if isSymbolic c ∧ (arrow? c (charAt rest 0)).isNone ∧
        t.extendsToSymbol (String.ofList (run ++ [c])) then
      symbolLengthFrom t (run ++ [c])
        (if t.contains (String.ofList (run ++ [c])) then run.length + 1 else best) rest
    else best

/-- The symbol at the front. -/
def symbolLexeme (t : Operator.Table) (text : List Char) : Lexeme :=
  .plain .symbol text (symbolLengthFrom t [charAt text 0] 1 (text.drop 1))

/-- A token of one character. -/
def singleLexeme (kind : Token.Kind) (text : List Char) : Lexeme where
  kind := kind
  content := [charAt text 0]
  length := 1

/-- What is found by the rules behind those for literals, numbers and names. -/
def punctuationLexeme (d : Dialect) (t : Operator.Table) (text : List Char) :
    Except Fault Lexeme :=
  let c := charAt text 0
  match arrow? c (charAt text 1) with
  | some kind => .ok (.plain kind text 2)
  | none =>
  match d.opening? c with
  | some container => .ok (singleLexeme (.opening container) text)
  | none =>
  match d.closing? c with
  | some container => .ok (singleLexeme (.closing container) text)
  | none =>
    if c = d.executor then .ok (singleLexeme .executor text)
    else if c = d.separator then .ok (singleLexeme .separator text)
    else if c = endOfInput then .ok (.plain .endOfFile [] 0)
    else if isSymbolic c then .ok (symbolLexeme t text)
    else .error (.unexpected c)

/-- What stands at the front of a text that does not begin with blanks. -/
def lexeme (d : Dialect) (t : Operator.Table) (text : List Char) : Except Fault Lexeme :=
  let c := charAt text 0
  if c = d.quote then
    match literalFrom d.quote (text.drop 1) with
    | some (content, n) =>
      .ok { kind := .literal, content, quote := some d.quote, length := n + 1 }
    | none => .error .unterminated
  else if c.isDigit then .ok (numberLexeme d.numerals text)
  else if (c = '@' ∨ c = '#') ∧ isNameStart (charAt text 1) then .ok (nameLexeme 1 text)
  else if isNameStart c then .ok (nameLexeme 0 text)
  else punctuationLexeme d t text

/-! ### Which rule it is -/

section Rules

variable {d : Dialect} {t : Operator.Table} {text : List Char} {r : Except Fault Lexeme}

/-- Neither an arrow nor a bracket stands at the front. -/
structure Unbracketed (d : Dialect) (text : List Char) : Prop where
  arrow : arrow? (charAt text 0) (charAt text 1) = none
  opening : d.opening? (charAt text 0) = none
  closing : d.closing? (charAt text 0) = none

/-- The character at the front has no role in the dialect. -/
structure Roleless (d : Dialect) (text : List Char) : Prop extends Unbracketed d text where
  executor : charAt text 0 ≠ d.executor
  separator : charAt text 0 ≠ d.separator

/-- Neither a literal nor a number nor a name stands at the front. -/
structure Wordless (d : Dialect) (text : List Char) : Prop where
  quote : charAt text 0 ≠ d.quote
  digit : (charAt text 0).isDigit = false
  sign : ¬ ((charAt text 0 = '@' ∨ charAt text 0 = '#') ∧ isNameStart (charAt text 1) = true)
  start : isNameStart (charAt text 0) = false

/-- The rules of `punctuationLexeme`, in order: when each of them applies, and what it finds. -/
inductive PunctuationRule (d : Dialect) (t : Operator.Table) (text : List Char) :
    Except Fault Lexeme → Prop
  | arrow {kind : Token.Kind} (harrow : arrow? (charAt text 0) (charAt text 1) = some kind) :
    PunctuationRule d t text (.ok (.plain kind text 2))
  | opening {container : Container} (harrow : arrow? (charAt text 0) (charAt text 1) = none)
    (hopening : d.opening? (charAt text 0) = some container) :
    PunctuationRule d t text (.ok (singleLexeme (.opening container) text))
  | closing {container : Container} (harrow : arrow? (charAt text 0) (charAt text 1) = none)
    (hopening : d.opening? (charAt text 0) = none)
    (hclosing : d.closing? (charAt text 0) = some container) :
    PunctuationRule d t text (.ok (singleLexeme (.closing container) text))
  | executor (hfree : Unbracketed d text) (hexecutor : charAt text 0 = d.executor) :
    PunctuationRule d t text (.ok (singleLexeme .executor text))
  | separator (hfree : Unbracketed d text) (hexecutor : charAt text 0 ≠ d.executor)
    (hseparator : charAt text 0 = d.separator) :
    PunctuationRule d t text (.ok (singleLexeme .separator text))
  | ending (hrole : Roleless d text) (hend : charAt text 0 = endOfInput) :
    PunctuationRule d t text (.ok (.plain .endOfFile [] 0))
  | symbol (hrole : Roleless d text) (hend : charAt text 0 ≠ endOfInput)
    (hsymbolic : isSymbolic (charAt text 0) = true) :
    PunctuationRule d t text (.ok (symbolLexeme t text))
  | unexpected (hrole : Roleless d text) (hend : charAt text 0 ≠ endOfInput)
    (hsymbolic : isSymbolic (charAt text 0) = false) :
    PunctuationRule d t text (.error (.unexpected (charAt text 0)))

/-- The rules of `lexeme`, in order: when each of them applies, and what it finds. -/
inductive Rule (d : Dialect) (t : Operator.Table) (text : List Char) : Except Fault Lexeme → Prop
  | literal {content : List Char} {n : Nat} (hquote : charAt text 0 = d.quote)
    (hclosed : literalFrom d.quote (text.drop 1) = some (content, n)) :
    Rule d t text (.ok { kind := .literal, content, quote := some d.quote, length := n + 1 })
  | unterminated (hquote : charAt text 0 = d.quote) (hopen : literalFrom d.quote (text.drop 1) = none) :
    Rule d t text (.error .unterminated)
  | number (hquote : charAt text 0 ≠ d.quote) (hdigit : (charAt text 0).isDigit = true) :
    Rule d t text (.ok (numberLexeme d.numerals text))
  | signed (hquote : charAt text 0 ≠ d.quote) (hdigit : (charAt text 0).isDigit = false)
    (hsign : (charAt text 0 = '@' ∨ charAt text 0 = '#') ∧ isNameStart (charAt text 1) = true) :
    Rule d t text (.ok (nameLexeme 1 text))
  | name (hquote : charAt text 0 ≠ d.quote) (hdigit : (charAt text 0).isDigit = false)
    (hsign : ¬ ((charAt text 0 = '@' ∨ charAt text 0 = '#') ∧ isNameStart (charAt text 1) = true))
    (hstart : isNameStart (charAt text 0) = true) : Rule d t text (.ok (nameLexeme 0 text))
  | punctuation {r : Except Fault Lexeme} (hword : Wordless d text)
    (hpunctuation : punctuationLexeme d t text = r) : Rule d t text r

/-- One of the rules for punctuation applies. -/
theorem punctuationLexeme_rule (h : punctuationLexeme d t text = r) : PunctuationRule d t text r := by
  subst h
  unfold punctuationLexeme
  dsimp only
  cases harrow : arrow? (charAt text 0) (charAt text 1) with
  | some kind => exact .arrow harrow
  | none =>
  cases hopening : d.opening? (charAt text 0) with
  | some container => exact .opening harrow hopening
  | none =>
  cases hclosing : d.closing? (charAt text 0) with
  | some container => exact .closing harrow hopening hclosing
  | none =>
  have hfree : Unbracketed d text := ⟨harrow, hopening, hclosing⟩
  dsimp only
  split
  · next hexecutor => exact .executor hfree hexecutor
  next hexecutor =>
  split
  · next hseparator => exact .separator hfree hexecutor hseparator
  next hseparator =>
  have hrole : Roleless d text := ⟨hfree, hexecutor, hseparator⟩
  split
  · next hend => exact .ending hrole hend
  next hend =>
  split
  · next hsymbolic => exact .symbol hrole hend hsymbolic
  next hsymbolic => exact .unexpected hrole hend (Bool.eq_false_iff.2 hsymbolic)

theorem PunctuationRule.eq (h : PunctuationRule d t text r) : punctuationLexeme d t text = r := by
  unfold punctuationLexeme
  dsimp only
  cases h with
  | arrow harrow => rw [harrow]
  | opening harrow hopening => simp only [harrow, hopening]
  | closing harrow hopening hclosing => simp only [harrow, hopening, hclosing]
  | executor hfree hexecutor =>
    simp only [hfree.arrow, hfree.opening, hfree.closing]
    exact if_pos hexecutor
  | separator hfree hexecutor hseparator =>
    simp only [hfree.arrow, hfree.opening, hfree.closing]
    rw [if_neg hexecutor, if_pos hseparator]
  | ending hrole hend =>
    simp only [hrole.arrow, hrole.opening, hrole.closing]
    rw [if_neg hrole.executor, if_neg hrole.separator, if_pos hend]
  | symbol hrole hend hsymbolic =>
    simp only [hrole.arrow, hrole.opening, hrole.closing]
    rw [if_neg hrole.executor, if_neg hrole.separator, if_neg hend, if_pos hsymbolic]
  | unexpected hrole hend hsymbolic =>
    simp only [hrole.arrow, hrole.opening, hrole.closing]
    rw [if_neg hrole.executor, if_neg hrole.separator, if_neg hend, hsymbolic,
      if_neg Bool.false_ne_true]

/-- One of the rules applies. -/
theorem lexeme_rule (h : lexeme d t text = r) : Rule d t text r := by
  subst h
  unfold lexeme
  dsimp only
  split
  · next hquote =>
    cases hfrom : literalFrom d.quote (text.drop 1) with
    | none => exact .unterminated hquote hfrom
    | some found => exact .literal hquote hfrom
  next hquote =>
  split
  · next hdigit => exact .number hquote hdigit
  next hdigit =>
  have hdigit := Bool.eq_false_iff.2 hdigit
  split
  · next hsign => exact .signed hquote hdigit hsign
  next hsign =>
  split
  · next hstart => exact .name hquote hdigit hsign hstart
  next hstart => exact .punctuation ⟨hquote, hdigit, hsign, Bool.eq_false_iff.2 hstart⟩ rfl

theorem Rule.eq (h : Rule d t text r) : lexeme d t text = r := by
  unfold lexeme
  dsimp only
  cases h with
  | literal hquote hclosed => rw [if_pos hquote, hclosed]
  | unterminated hquote hopen => rw [if_pos hquote, hopen]
  | number hquote hdigit => rw [if_neg hquote, if_pos hdigit]
  | signed hquote hdigit hsign =>
    rw [if_neg hquote, hdigit, if_neg Bool.false_ne_true, if_pos hsign]
  | name hquote hdigit hsign hstart =>
    rw [if_neg hquote, hdigit, if_neg Bool.false_ne_true, if_neg hsign, if_pos hstart]
  | punctuation hword hpunctuation =>
    rw [if_neg hword.quote, hword.digit, if_neg Bool.false_ne_true, if_neg hword.sign, hword.start,
      if_neg Bool.false_ne_true, hpunctuation]

end Rules

/-! ### What tokens take -/

theorem lt_symbolLengthFrom {t : Operator.Table} {run text : List Char} {best n : Nat}
    (hbest : n < best) (hrun : n < run.length + 1) : n < symbolLengthFrom t run best text := by
  induction text generalizing run best with
  | nil => exact hbest
  | cons c rest ih =>
    unfold symbolLengthFrom
    split
    · refine ih ?_ ?_
      · split
        · exact hrun
        · exact hbest
      · rw [List.length_append]
        omega
    · exact hbest

theorem runLength_pos {inClass : Char → Bool} {c : Char} (h : inClass c = true)
    (text : List Char) : 0 < runLength inClass (c :: text) := by
  simp [runLength, h]

/-- A name is never the end of the input. -/
theorem nameKind_ne_endOfFile (signed dotted : Bool) (name : String) :
    nameKind signed dotted name ≠ .endOfFile := by
  unfold nameKind Token.Kind.keyword?
  split
  · simp
  · split
    · simp
    · repeat' split
      all_goals simp

theorem arrow?_kind {c c' : Char} {kind : Token.Kind} (h : arrow? c c' = some kind) :
    kind = .assignment ∨ kind = .association := by
  unfold arrow? at h
  repeat' split at h
  all_goals cases h
  · exact .inl rfl
  · exact .inr rfl

theorem numberLexeme_kind (n : Numerals) (text : List Char) :
    (numberLexeme n text).kind = .integer ∨ (numberLexeme n text).kind = .real := by
  unfold numberLexeme Lexeme.plain
  dsimp only
  split
  · exact .inl rfl
  · exact .inr rfl

/-- Only the end of the input takes no characters. -/
theorem lexeme_length_pos {d : Dialect} {t : Operator.Table} {text : List Char} {x : Lexeme}
    (h : lexeme d t text = .ok x) (hkind : x.kind ≠ .endOfFile) : 0 < x.length := by
  cases lexeme_rule h with
  | literal => exact Nat.succ_pos _
  | number _ hdigit =>
    cases text with
    | nil => exact absurd hdigit (by decide)
    | cons c text =>
      have := runLength_pos (show Char.isDigit c = true from hdigit) text
      show 0 < runLength Char.isDigit (c :: text) + _
      omega
  | signed =>
    show 0 < 1 + partLength _ + _
    omega
  | name =>
    show 0 < 0 + partLength _ + _
    unfold partLength
    omega
  | punctuation _ hpunctuation =>
    cases punctuationLexeme_rule hpunctuation with
    | arrow | opening | closing | executor | separator => exact Nat.succ_pos _
    | ending => exact absurd rfl hkind
    | symbol => exact lt_symbolLengthFrom Nat.zero_lt_one (Nat.succ_pos _)

/-- The operators decide how long a symbol is, and nothing else. -/
theorem lexeme_of_table {d : Dialect} {t : Operator.Table} {text : List Char} {x : Lexeme}
    (h : lexeme d t text = .ok x) (t' : Operator.Table) :
    ∃ y, lexeme d t' text = .ok y ∧ y.kind = x.kind ∧ (x.kind ≠ .symbol → y = x) := by
  cases lexeme_rule h with
  | literal hquote hclosed => exact ⟨_, (Rule.literal hquote hclosed).eq, rfl, fun _ => rfl⟩
  | number hquote hdigit => exact ⟨_, (Rule.number hquote hdigit).eq, rfl, fun _ => rfl⟩
  | signed hquote hdigit hsign => exact ⟨_, (Rule.signed hquote hdigit hsign).eq, rfl, fun _ => rfl⟩
  | name hquote hdigit hsign hstart =>
    exact ⟨_, (Rule.name hquote hdigit hsign hstart).eq, rfl, fun _ => rfl⟩
  | punctuation hword hpunctuation =>
    have hsame {y : Lexeme} (hrule : PunctuationRule d t' text (.ok y)) : lexeme d t' text = .ok y :=
      (Rule.punctuation hword hrule.eq).eq
    cases punctuationLexeme_rule hpunctuation with
    | arrow harrow => exact ⟨_, hsame (.arrow harrow), rfl, fun _ => rfl⟩
    | opening harrow hopening => exact ⟨_, hsame (.opening harrow hopening), rfl, fun _ => rfl⟩
    | closing harrow hopening hclosing =>
      exact ⟨_, hsame (.closing harrow hopening hclosing), rfl, fun _ => rfl⟩
    | executor hfree hexecutor => exact ⟨_, hsame (.executor hfree hexecutor), rfl, fun _ => rfl⟩
    | separator hfree hexecutor hseparator =>
      exact ⟨_, hsame (.separator hfree hexecutor hseparator), rfl, fun _ => rfl⟩
    | ending hrole hend => exact ⟨_, hsame (.ending hrole hend), rfl, fun _ => rfl⟩
    | symbol hrole hend hsymbolic =>
      exact ⟨_, hsame (.symbol hrole hend hsymbolic), rfl, fun hkind => absurd rfl hkind⟩

/-- Where no arrow begins, the rules for what is no literal, number or name ask for the first
character only, and for the symbol that it begins. -/
theorem punctuationLexeme_congr {d : Dialect} {t : Operator.Table} {text more : List Char} {x : Lexeme}
    (hfirst : charAt more 0 = charAt text 0)
    (hnone : arrow? (charAt text 0) (charAt text 1) = none)
    (hnone' : arrow? (charAt text 0) (charAt more 1) = none) (h : punctuationLexeme d t text = .ok x)
    (hsymbol : isSymbolic (charAt text 0) = true → x = symbolLexeme t text → symbolLexeme t more = x) :
    punctuationLexeme d t more = .ok x := by
  have hsingle (kind : Token.Kind) : singleLexeme kind text = singleLexeme kind more := by
    unfold singleLexeme
    rw [hfirst]
  rw [← hfirst] at hnone'
  have hfree (h : Unbracketed d text) : Unbracketed d more :=
    ⟨hnone', by rw [hfirst, h.opening], by rw [hfirst, h.closing]⟩
  have hrole (h : Roleless d text) : Roleless d more :=
    ⟨hfree h.toUnbracketed, by rw [hfirst]; exact h.executor, by rw [hfirst]; exact h.separator⟩
  cases punctuationLexeme_rule h with
  | arrow harrow =>
    rw [hnone] at harrow
    cases harrow
  | opening _ hopening =>
    rw [hsingle]
    exact (PunctuationRule.opening hnone' (by rw [hfirst, hopening])).eq
  | closing _ hopening hclosing =>
    rw [hsingle]
    exact (PunctuationRule.closing hnone' (by rw [hfirst, hopening]) (by rw [hfirst, hclosing])).eq
  | executor hbare hexecutor =>
    rw [hsingle]
    exact (PunctuationRule.executor (hfree hbare) (hfirst.trans hexecutor)).eq
  | separator hbare hexecutor hseparator =>
    rw [hsingle]
    exact (PunctuationRule.separator (hfree hbare) (by rw [hfirst]; exact hexecutor)
      (hfirst.trans hseparator)).eq
  | ending hplain hend => exact (PunctuationRule.ending (hrole hplain) (hfirst.trans hend)).eq
  | symbol hplain hend hsymbolic =>
    rw [← hsymbol hsymbolic rfl]
    exact (PunctuationRule.symbol (hrole hplain) (by rw [hfirst]; exact hend) (by rw [hfirst, hsymbolic])).eq

/-- What the dialect takes the end marker for, unless that is a quote. -/
def Dialect.endKind (d : Dialect) : Token.Kind :=
  match d.opening? endOfInput, d.closing? endOfInput with
  | some container, _ => .opening container
  | none, some container => .closing container
  | none, none =>
    if endOfInput = d.executor then .executor
    else if endOfInput = d.separator then .separator
    else .endOfFile

theorem Dialect.isSolid_endKind (d : Dialect) : d.endKind.isSolid = false := by
  unfold endKind
  split
  · rfl
  · rfl
  · split
    · rfl
    · split <;> rfl

/-- Behind the text there is nothing but the end marker. A quote there closes nothing. -/
theorem lexeme_nil (d : Dialect) (t : Operator.Table) :
    (d.quote = endOfInput ∧ lexeme d t [] = .error .unterminated) ∨
      d.quote ≠ endOfInput ∧ ∃ x, lexeme d t [] = .ok x ∧ x.kind = d.endKind := by
  generalize hr : lexeme d t [] = r
  cases lexeme_rule hr with
  | literal _ hclosed => cases hclosed
  | unterminated hquote => exact .inl ⟨hquote.symm, rfl⟩
  | number _ hdigit => exact absurd hdigit (by decide)
  | signed _ _ hsign => exact absurd hsign.1 not_sign_endOfInput
  | name _ _ _ hstart => exact absurd (isNameStart_endOfInput.symm.trans hstart) Bool.false_ne_true
  | punctuation hword hpunctuation =>
    refine .inr ⟨hword.quote.symm, ?_⟩
    -- In front of no text, what the rule says of the first character it says of the end marker.
    have hsome {kind : Token.Kind} : arrow? (charAt [] 0) (charAt [] 1) ≠ some kind := by
      rw [show arrow? (charAt [] 0) (charAt [] 1) = none by decide]
      exact nofun
    unfold Dialect.endKind
    cases punctuationLexeme_rule hpunctuation with
    | arrow harrow => exact absurd harrow hsome
    | opening _ hopening =>
      refine ⟨_, rfl, ?_⟩
      rw [show d.opening? endOfInput = _ from hopening]
      rfl
    | closing _ hopening hclosing =>
      refine ⟨_, rfl, ?_⟩
      rw [show d.opening? endOfInput = _ from hopening, show d.closing? endOfInput = _ from hclosing]
      rfl
    | executor hfree hexecutor =>
      refine ⟨_, rfl, ?_⟩
      rw [show d.opening? endOfInput = _ from hfree.opening,
        show d.closing? endOfInput = _ from hfree.closing]
      exact (if_pos hexecutor).symm
    | separator hfree hexecutor hseparator =>
      refine ⟨_, rfl, ?_⟩
      rw [show d.opening? endOfInput = _ from hfree.opening,
        show d.closing? endOfInput = _ from hfree.closing]
      exact ((if_neg hexecutor).trans (if_pos hseparator)).symm
    | ending hrole =>
      refine ⟨_, rfl, ?_⟩
      rw [show d.opening? endOfInput = _ from hrole.opening,
        show d.closing? endOfInput = _ from hrole.closing]
      exact ((if_neg hrole.executor).trans (if_neg hrole.separator)).symm
    | symbol _ hend => exact absurd rfl hend
    | unexpected _ hend => exact absurd rfl hend

theorem kind_of_nil {d : Dialect} {t : Operator.Table} {x : Lexeme}
    (h : lexeme d t [] = .ok x) : x.kind = d.endKind ∧ d.quote ≠ endOfInput := by
  rcases lexeme_nil d t with ⟨-, herror⟩ | ⟨hquote, y, hy, hkind⟩
  · rw [h] at herror
    cases herror
  · rw [h] at hy
    cases hy
    exact ⟨hkind, hquote⟩

theorem isSolid_of_nil {d : Dialect} {t : Operator.Table} {x : Lexeme}
    (h : lexeme d t [] = .ok x) : x.kind.isSolid = false := by
  rw [(kind_of_nil h).1, d.isSolid_endKind]

/-- The end marker has no role in the dialect. -/
structure Dialect.Plain (d : Dialect) : Prop where
  executor : d.executor ≠ endOfInput
  separator : d.separator ≠ endOfInput
  quote : d.quote ≠ endOfInput
  opening : d.opening? endOfInput = none
  closing : d.closing? endOfInput = none
  negative : d.numerals.negative ≠ endOfInput
  exponent : d.numerals.isExponentMarker endOfInput = false

theorem Dialect.Plain.endKind {d : Dialect} (hd : d.Plain) : d.endKind = .endOfFile := by
  unfold Dialect.endKind
  rw [hd.opening, hd.closing]
  dsimp only
  rw [if_neg (Ne.symm hd.executor), if_neg (Ne.symm hd.separator)]

theorem lexeme_plain_nil {d : Dialect} (hd : d.Plain) (t : Operator.Table) :
    lexeme d t [] = .ok (.plain .endOfFile [] 0) := by
  have hword : Wordless d [] := ⟨hd.quote.symm, by decide, fun hsign => not_sign_endOfInput hsign.1,
    isNameStart_endOfInput⟩
  have hrole : Roleless d [] := ⟨⟨by decide, hd.opening, hd.closing⟩, hd.executor.symm, hd.separator.symm⟩
  exact (Rule.punctuation hword (PunctuationRule.ending hrole rfl).eq).eq

/-- Where the text has an end marker, it is the end. -/
theorem nil_of_kind {d : Dialect} {t : Operator.Table} {text : List Char} {x : Lexeme}
    (h : lexeme d t text = .ok x) (hkind : x.kind = .endOfFile)
    (hne : ∀ c ∈ text, c ≠ endOfInput) : text = [] := by
  cases lexeme_rule h with
  | literal => cases hkind
  | number => rcases numberLexeme_kind d.numerals text with hnumber | hnumber <;> rw [hnumber] at hkind <;> cases hkind
  | signed | name => exact absurd hkind (nameKind_ne_endOfFile _ _ _)
  | punctuation _ hpunctuation =>
    cases punctuationLexeme_rule hpunctuation with
    | arrow harrow => rcases arrow?_kind harrow with rfl | rfl <;> cases hkind
    | opening | closing | executor | separator | symbol => cases hkind
    | ending _ hend =>
      cases text with
      | nil => rfl
      | cons c rest => exact absurd hend (hne c List.mem_cons_self)

/-! ### Blanks -/

/-- Whether a line break is nothing but a blank. -/
def Dialect.breaksPlainly (d : Dialect) : Bool :=
  d.quote ≠ '\n' && (d.opening? '\n').isNone && (d.closing? '\n').isNone

/-- Whether a character in front of a token is skipped. -/
def Dialect.skips (d : Dialect) (c : Char) : Bool :=
  d.isBlank c && (c ≠ '\n' || d.breaksPlainly)

/-- The number of blanks in front of the next token. -/
def blankLength (d : Dialect) (text : List Char) : Nat := runLength d.skips text

theorem isBlank_endOfInput (d : Dialect) : d.isBlank endOfInput = false := by
  have h : Text.isBlank endOfInput = false := by decide
  simp [Dialect.isBlank, h]

theorem skips_endOfInput (d : Dialect) : d.skips endOfInput = false := by
  simp [Dialect.skips, isBlank_endOfInput]

/-! ### Tokens of a text -/

theorem Position.le_after (p : Position) (text : List Char) :
    p.line < (p.after text).line ∨
      p.line = (p.after text).line ∧ p.column + text.length ≤ (p.after text).column := by
  induction text generalizing p with
  | nil => exact .inr ⟨rfl, Nat.le_refl _⟩
  | cons c text ih =>
    have hrest := ih (p.advance c)
    rw [Position.after_cons, List.length_cons]
    by_cases hc : c = '\n'
    · have hadvance : p.advance c = ⟨p.line + 1, 0⟩ := if_pos hc
      rw [hadvance] at hrest ⊢
      simp only at hrest
      omega
    · have hadvance : p.advance c = ⟨p.line, p.column + 1⟩ := if_neg hc
      rw [hadvance] at hrest ⊢
      simp only at hrest
      omega

theorem Position.after_ne {p : Position} {text : List Char} (h : text ≠ []) :
    p.after text ≠ p := by
  intro hsame
  have hle := Position.le_after p text
  rw [hsame] at hle
  have := List.length_pos_iff.2 h
  omega

/-- A place in a text: what stands ahead of it, and its position. -/
structure Place where
  text : List Char
  position : Position
deriving DecidableEq

namespace Place

/-- The place `n` characters further on. -/
def skip (p : Place) (n : Nat) : Place where
  text := p.text.drop n
  position := p.position.after (p.text.take n)

@[simp] theorem text_skip (p : Place) (n : Nat) : (p.skip n).text = p.text.drop n := rfl

@[simp] theorem skip_zero (p : Place) : p.skip 0 = p := rfl

theorem skip_skip (p : Place) (m n : Nat) : (p.skip m).skip n = p.skip (m + n) := by
  unfold skip
  simp only [List.drop_drop, List.take_add, Position.after_append]

/-- The token that a lexeme at this place is. -/
def token (p : Place) (x : Lexeme) : Token where
  text := String.ofList x.content
  kind := x.kind
  span := ⟨p.position, (p.skip x.length).position⟩
  quote := x.quote

/-- The error that a fault at this place is. -/
def error (p : Place) : Fault → Error
  | .unexpected c => .unexpectedCharacter c p.position
  | .unterminated => .unterminatedLiteral p.position

/-- The token at this place and the place behind it, or the error. -/
def outcome (p : Place) : Except Fault Lexeme → Except Error (Token × Place)
  | .ok x => .ok (p.token x, p.skip x.length)
  | .error f => .error (p.error f)

/-- The next token, and the place behind it. -/
def next (d : Dialect) (t : Operator.Table) (p : Place) : Except Error (Token × Place) :=
  let p := p.skip (blankLength d p.text)
  p.outcome (lexeme d t p.text)

theorem next_of_not_skips {d : Dialect} {t : Operator.Table} {p : Place}
    (h : d.skips (charAt p.text 0) = false) : p.next d t = p.outcome (lexeme d t p.text) := by
  have hzero : blankLength d p.text = 0 := by
    unfold blankLength
    cases ht : p.text with
    | nil => rfl
    | cons c rest =>
      rw [ht, charAt_cons_zero] at h
      simp [runLength, h]
  unfold next
  rw [hzero, skip_zero]

/-- The place behind the blanks is the same from everywhere among them. -/
theorem skip_blanks {d : Dialect} {p : Place} {n : Nat}
    (h : ∀ c ∈ p.text.take n, d.skips c = true) (hle : n ≤ p.text.length) :
    (p.skip n).skip (blankLength d (p.skip n).text) = p.skip (blankLength d p.text) := by
  rw [skip_skip]
  exact congrArg p.skip (runLength_of_take h hle)

/-- Characters that are skipped in front of a token make no difference to it. -/
theorem next_skip {d : Dialect} {t : Operator.Table} {p : Place} {n : Nat}
    (h : ∀ c ∈ p.text.take n, d.skips c = true) : (p.skip n).next d t = p.next d t := by
  unfold next
  by_cases hle : n ≤ p.text.length
  · rw [skip_blanks h hle]
  · have hsame : p.skip n = p.skip p.text.length := by
      unfold skip
      rw [List.drop_eq_nil_of_le (by omega), List.drop_length, List.take_of_length_le (by omega),
        List.take_length]
    rw [List.take_of_length_le (by omega)] at h
    rw [hsame, skip_blanks (by rw [List.take_length]; exact h) (Nat.le_refl _)]

variable {d : Dialect} {t : Operator.Table} {p q : Place} {token : Token}

theorem next_ok (h : p.next d t = .ok (token, q)) :
    ∃ x, lexeme d t (p.skip (blankLength d p.text)).text = .ok x ∧
      token = (p.skip (blankLength d p.text)).token x ∧
      q = (p.skip (blankLength d p.text)).skip x.length := by
  unfold next outcome at h
  dsimp only at h
  cases hx : lexeme d t (p.skip (blankLength d p.text)).text with
  | error f =>
    rw [hx] at h
    cases h
  | ok x =>
    rw [hx] at h
    cases h
    exact ⟨x, rfl, rfl, rfl⟩

theorem text_of_next (h : p.next d t = .ok (token, q)) : ∃ n, q.text = p.text.drop n := by
  obtain ⟨x, -, -, rfl⟩ := next_ok h
  exact ⟨blankLength d p.text + x.length, by rw [skip_skip, text_skip]⟩

theorem length_le_of_next (h : p.next d t = .ok (token, q)) :
    q.text.length ≤ p.text.length := by
  obtain ⟨n, hn⟩ := text_of_next h
  rw [hn, List.length_drop]
  exact Nat.sub_le _ _

/-- A token that covers something takes characters of the text. -/
theorem length_lt_of_next (h : p.next d t = .ok (token, q)) (hcovers : token.span.isEmpty = false) :
    q.text.length < p.text.length := by
  obtain ⟨x, -, rfl, rfl⟩ := next_ok h
  have hne : (p.skip (blankLength d p.text)).text.take x.length ≠ [] := by
    intro hnil
    have hsame : ((p.skip (blankLength d p.text)).skip x.length).position =
        (p.skip (blankLength d p.text)).position := by
      show (p.skip (blankLength d p.text)).position.after _ = _
      rw [hnil, Position.after_nil]
    rw [Span.isEmpty, token, hsame] at hcovers
    simp at hcovers
  have hpos := List.length_pos_iff.2 hne
  rw [List.length_take] at hpos
  simp only [text_skip, List.length_drop] at hpos ⊢
  omega

theorem covers_of_length {x : Lexeme} (hlength : 0 < x.length) (htext : p.text ≠ []) :
    (p.token x).span.isEmpty = false := by
  have hne : p.position ≠ p.position.after (p.text.take x.length) := by
    refine Ne.symm (Position.after_ne ?_)
    rw [← List.length_pos_iff, List.length_take]
    have := List.length_pos_iff.2 htext
    omega
  exact decide_eq_false hne

/-- Tokens of such a kind cover something. -/
theorem covers_of_isSolid (h : p.next d t = .ok (token, q)) (hkind : token.kind.isSolid = true) :
    token.span.isEmpty = false := by
  obtain ⟨x, hx, rfl, -⟩ := next_ok h
  have hkind : x.kind.isSolid = true := hkind
  refine covers_of_length (lexeme_length_pos hx ?_) ?_
  · intro hend
    rw [hend] at hkind
    cases hkind
  · intro hnil
    rw [hnil] at hx
    rw [isSolid_of_nil hx] at hkind
    cases hkind

/-- Where nothing is left, the token is what the end marker is taken for, and covers nothing. -/
theorem next_of_nil (h : p.next d t = .ok (token, q)) (htext : p.text = []) :
    token.kind = d.endKind ∧ q.text = [] ∧ token.span.isEmpty = true := by
  have hempty : token.span.isEmpty = true := by
    refine (Bool.not_eq_false _).mp fun hcovers => ?_
    have hlt := length_lt_of_next h hcovers
    rw [htext] at hlt
    exact absurd hlt (Nat.not_lt_zero _)
  obtain ⟨x, hx, rfl, rfl⟩ := next_ok h
  have hnil : (p.skip (blankLength d p.text)).text = [] := by rw [text_skip, htext, List.drop_nil]
  refine ⟨?_, by rw [text_skip, hnil, List.drop_nil], hempty⟩
  rw [hnil] at hx
  exact (kind_of_nil hx).1

/-- There is a token, unless the end marker is a quote. -/
theorem exists_next_of_nil (hd : d.quote ≠ endOfInput) (t : Operator.Table) (htext : p.text = []) :
    ∃ token q, p.next d t = .ok (token, q) := by
  obtain ⟨-, x, hx, -⟩ := (lexeme_nil d t).resolve_left fun h => hd h.1
  have hnil : (p.skip (blankLength d p.text)).text = [] := by rw [text_skip, htext, List.drop_nil]
  unfold next outcome
  dsimp only
  rw [hnil, hx]
  exact ⟨_, _, rfl⟩

/-- A token that covers nothing stands where nothing is left. -/
theorem nil_of_isEmpty (h : p.next d t = .ok (token, q)) (hempty : token.span.isEmpty = true)
    (hne : ∀ c ∈ p.text, c ≠ endOfInput) :
    (token.kind = d.endKind ∧ d.quote ≠ endOfInput) ∧ q.text = [] := by
  obtain ⟨x, hx, rfl, rfl⟩ := next_ok h
  have hnil : (p.skip (blankLength d p.text)).text = [] := by
    refine Decidable.byContradiction fun htext => ?_
    by_cases hkind : x.kind = .endOfFile
    · exact htext (nil_of_kind hx hkind fun c hc => hne c (List.mem_of_mem_drop hc))
    · rw [covers_of_length (lexeme_length_pos hx hkind) htext] at hempty
      cases hempty
  refine ⟨?_, by rw [text_skip, hnil, List.drop_nil]⟩
  rw [hnil] at hx
  exact kind_of_nil hx

/-- Where the end marker has no role, all tokens but the end cover something. -/
theorem covers_of_plain (h : p.next d t = .ok (token, q)) (hd : d.Plain)
    (hkind : token.kind ≠ .endOfFile) : token.span.isEmpty = false := by
  obtain ⟨x, hx, rfl, -⟩ := next_ok h
  refine covers_of_length (lexeme_length_pos hx hkind) ?_
  intro hnil
  rw [hnil, lexeme_plain_nil hd t] at hx
  cases hx
  exact hkind rfl

end Place

end Dataflow.Lexer
