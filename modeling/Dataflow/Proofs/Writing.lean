import Mathlib.Data.List.TakeWhile
import Dataflow.Proofs.Drafts
import Dataflow.Proofs.Quoting

/-!
# Dataflow.Proofs.Writing

**Every statement that fits can be written down.** A word is `Writable` if it is scanned from its
spelling whatever the operators are, and if no character of the spelling is the end marker. Words that
are writable can be spread over a text with any blanks between them (`Spread`), and the text is then
laid out as these words and no others (`Spread.laid`).

* `endsWords` — characters in front of which every word ends, and that blanks are among them;
* `endOfInput_notMem_of_lexeme` — no name and no number takes an end marker;
* `Lexer.ScansAs.writable`, `writable_literal`, `scansAs_toString` — names, numbers, literals and
  written numbers;
* `Expr.Written.writable`, `Draft.Fits.writable` — expressions and statements.
-/

namespace Dataflow

open Reading Text Lexer Circuit
open Token (Word)

namespace Text

/-- All characters that are blank. -/
def blankCharacters : List Char :=
  blanks.flatMap fun r => (List.range (r.2 + 1 - r.1)).map fun i => Char.ofNat (r.1 + i)

theorem mem_blankCharacters {c : Char} (h : isBlank c = true) : c ∈ blankCharacters := by
  obtain ⟨r, hr, hfirst, hlast⟩ := (Ranges.has_iff (by decide) c.toNat).1 h
  refine List.mem_flatMap.2 ⟨r, hr, List.mem_map.2 ⟨c.toNat - r.1, List.mem_range.2 (by omega), ?_⟩⟩
  rw [Nat.add_sub_cancel' hfirst]
  exact Char.ofNat_toNat c

end Text

namespace Lexer

variable {t : Operator.Table} {text rest : List Char} {w : Word} {words : List Word}

/-! ### Blanks -/

/-- A character in front of which every word ends that is no symbol: none goes on with it. -/
def endsWords (c : Char) : Bool :=
  c != '\x22' && !c.isDigit && c != '.' && !({} : Numerals).isExponentMarker c && !isNameStart c &&
    !isNamePart c && c != '-' && c != '>'

theorem behind_of_endsWords {c : Char} (h : endsWords c = true)
    (hsymbolic : w.kind = .symbol → isSymbolic c = false) : Behind {} w (c :: rest) := by
  simp only [endsWords, Bool.and_eq_true, bne_iff_ne, Bool.not_eq_true', and_assoc] at h
  obtain ⟨hquote, hdigit, hdot, hmarker, hstart, hpart, hminus, hgreater⟩ := h
  exact ⟨⟨hquote, hdigit, hdot, hmarker, hstart, hpart, hdot, fun c' => by simp [arrow?, hminus, hgreater]⟩,
    hsymbolic⟩

/-- No blank has a role, and none goes on with a word. -/
theorem role_of_blank : ∀ c ∈ blankCharacters, Dialect.skips {} c = true ∧ endsWords c = true ∧
    isSymbolic c = false ∧ c ≠ endOfInput := by
  have h : (blankCharacters.all fun c =>
      Dialect.skips {} c && endsWords c && !isSymbolic c && c != endOfInput) = true := by
    decide +kernel
  simpa [and_assoc] using h

/-- A text that is at its end or goes on with a blank. -/
def Breaks (rest : List Char) : Prop := ∀ c ∈ rest.head?, isBlank c = true

theorem Dialect.behind_of_blank (h : Breaks rest) : Behind {} w rest := by
  cases rest with
  | nil => exact spacious_default.behind (.inr rfl)
  | cons c rest =>
    obtain ⟨-, hends, hsymbolic, -⟩ := role_of_blank c (mem_blankCharacters (h c rfl))
    exact behind_of_endsWords hends fun _ => hsymbolic

/-! ### End markers -/

section Markers

variable {m n : Nat}

theorem endOfInput_notMem_add (hfront : endOfInput ∉ text.take m)
    (hbehind : endOfInput ∉ (text.drop m).take n) : endOfInput ∉ text.take (m + n) := by
  rw [List.take_add, List.mem_append]
  exact not_or.2 ⟨hfront, hbehind⟩

theorem endOfInput_notMem_run {inClass : Char → Bool} (hclass : inClass endOfInput = false) :
    endOfInput ∉ text.take (runLength inClass text) := by
  rw [take_runLength]
  intro hmem
  exact Bool.false_ne_true (hclass.symm.trans (of_mem_takeWhile hmem))

theorem endOfInput_notMem_one (h : charAt text 0 ≠ endOfInput) : endOfInput ∉ text.take 1 := by
  cases text with
  | nil => exact List.not_mem_nil
  | cons c text => simpa using Ne.symm h

theorem endOfInput_notMem_part (h : isNameStart (charAt text 0) = true) :
    endOfInput ∉ text.take (partLength text) :=
  endOfInput_notMem_add (endOfInput_notMem_one (ne_endOfInput_of_isNameStart h))
    (endOfInput_notMem_run isNamePart_endOfInput)

theorem endOfInput_notMem_dotted : endOfInput ∉ text.take (dottedLength text) := by
  induction text using dottedLength.induct with
  | case1 text hdot ih =>
    rw [dottedLength_of hdot]
    refine endOfInput_notMem_add (endOfInput_notMem_add ?_ ?_) ih
    · exact endOfInput_notMem_one (by rw [hdot.1]; decide)
    · exact endOfInput_notMem_part (by rw [charAt_drop]; exact hdot.2)
  | case2 text hdot =>
    rw [dottedLength_of_not hdot]
    exact List.not_mem_nil

theorem endOfInput_notMem_name {sign : Nat} (hsign : endOfInput ∉ text.take sign)
    (hstart : isNameStart (charAt text sign) = true) :
    endOfInput ∉ text.take (nameLexeme sign text).length := by
  refine endOfInput_notMem_add (endOfInput_notMem_add hsign ?_) endOfInput_notMem_dotted
  exact endOfInput_notMem_part (by rw [charAt_drop]; exact hstart)

theorem endOfInput_notMem_exponent (hmarker : charAt text 0 ≠ endOfInput) :
    endOfInput ∉ text.take (exponentLength {} text) := by
  unfold exponentLength
  dsimp only
  split
  · exact List.not_mem_nil
  refine endOfInput_notMem_add (endOfInput_notMem_add (endOfInput_notMem_one hmarker) ?_)
    (endOfInput_notMem_run isDigit_endOfInput)
  unfold signLength
  split
  · next hsign =>
    refine endOfInput_notMem_one ?_
    rw [charAt_drop]
    rcases hsign with hsign | hsign <;> rw [hsign] <;> decide
  · exact List.not_mem_nil

theorem endOfInput_notMem_fraction : endOfInput ∉ text.take (fractionLength {} text) := by
  unfold fractionLength
  split
  · next hfraction =>
    refine endOfInput_notMem_add (endOfInput_notMem_add ?_ (endOfInput_notMem_run isDigit_endOfInput)) ?_
    · exact endOfInput_notMem_one (by rw [hfraction.1]; decide)
    · split
      · next hmarker =>
        refine endOfInput_notMem_exponent fun hend => ?_
        rw [hend, Numerals.isExponentMarker_endOfInput] at hmarker
        cases hmarker
      · exact List.not_mem_nil
  · exact List.not_mem_nil

/-- No name and no number takes an end marker. -/
theorem endOfInput_notMem_of_lexeme {x : Lexeme} (h : lexeme {} t text = .ok x)
    (hkind : x.kind.isTextIdentifier = true ∨ x.kind.isNumber = true) :
    endOfInput ∉ text.take x.length := by
  cases lexeme_rule h with
  | literal => rcases hkind with hkind | hkind <;> cases hkind
  | number => exact endOfInput_notMem_add (endOfInput_notMem_run isDigit_endOfInput) endOfInput_notMem_fraction
  | signed _ _ hsign =>
    refine endOfInput_notMem_name (endOfInput_notMem_one ?_) hsign.2
    rcases hsign.1 with hfirst | hfirst <;> rw [hfirst] <;> decide
  | name _ _ _ hstart => exact endOfInput_notMem_name List.not_mem_nil hstart
  | punctuation _ hpunctuation =>
    cases punctuationLexeme_rule hpunctuation with
    | arrow harrow => rcases arrow?_kind harrow with rfl | rfl <;> rcases hkind with hkind | hkind <;> cases hkind
    | opening | closing | executor | separator | ending | symbol =>
      rcases hkind with hkind | hkind <;> cases hkind

end Markers

/-! ### Words -/

/-- The word can be written down wherever it is wanted. -/
structure Writable (w : Word) : Prop where
  lexes : ∀ t, Lexes {} t w
  marker : endOfInput ∉ Dialect.written {} w

theorem plain_default : Dialect.Plain {} := Dialect.plain_of_characters spacious_default.marker

/-- A name or a number is a word without quotes. -/
theorem word_of_next {p q : Place} {token : Token} (h : p.next {} t = .ok (token, q))
    (hkind : token.kind.isTextIdentifier = true ∨ token.kind.isNumber = true) :
    token.word = ⟨token.kind, token.text, none⟩ ∧ endOfInput ∉ token.text.toList := by
  obtain ⟨x, hx, rfl, -⟩ := Place.next_ok h
  replace hkind : x.kind.isTextIdentifier = true ∨ x.kind.isNumber = true := hkind
  have hne : (p.skip (blankLength {} p.text)).text ≠ [] := by
    intro hnil
    rw [hnil] at hx
    rw [(kind_of_nil hx).1] at hkind
    rcases hkind with hkind | hkind <;> cases hkind
  rcases content_of_lexeme hx hne with ⟨-, hquote, hcontent⟩ | ⟨hliteral, -⟩
  · refine ⟨congrArg (Word.mk _ _) hquote, ?_⟩
    show endOfInput ∉ (String.ofList x.content).toList
    rw [String.toList_ofList, hcontent]
    exact endOfInput_notMem_of_lexeme hx hkind
  · rw [hliteral] at hkind
    rcases hkind with hkind | hkind <;> cases hkind

/-- A text that is scanned as one name or one number is a word. -/
theorem ScansAs.writable {P : Token.Kind → Prop} {text : String} (h : ScansAs P text)
    (hP : ∀ kind, P kind → kind.isTextIdentifier = true ∨ kind.isNumber = true) :
    ∃ kind, P kind ∧ Writable ⟨kind, text, none⟩ := by
  obtain ⟨token, q, hnext, htext, hkind⟩ := h
  have hplain := hP _ hkind
  have hother (other : Token.Kind)
      (h : ¬ (other.isTextIdentifier = true ∨ other.isNumber = true)) : token.kind ≠ other := by
    rintro rfl
    exact h hplain
  obtain ⟨hword, hmarker⟩ := word_of_next hnext hplain
  obtain ⟨hlexes, -⟩ := lexes_of_next hnext plain_default (hother _ (by decide))
  rw [htext] at hmarker
  rw [hword, htext] at hlexes
  refine ⟨token.kind, hkind, hlexes.of_table (hother _ (by decide)), ?_⟩
  rw [Dialect.written, if_neg (hother _ (by decide))]
  exact hmarker

theorem IsName.writable {name : String} (h : IsName name) : Writable (.ofName name) := by
  obtain ⟨kind, hkind, hw⟩ := ScansAs.writable h fun _ hkind => .inl hkind
  have hname : kind.isIdentifier = true := by cases kind <;> first | rfl | cases hkind
  rw [← Word.eq_ofName (hw.lexes {}) hname]
  exact hw

theorem writable_plain {label : String} (h : ScansAs (· = .identifier) label) :
    Writable (.plain label) := by
  obtain ⟨_, rfl, hw⟩ := h.writable (by rintro _ rfl; exact .inl rfl)
  exact hw

theorem writable_integer {digits : String} (h : ScansAs (· = .integer) digits) :
    Writable ⟨.integer, digits, none⟩ := by
  obtain ⟨_, rfl, hw⟩ := h.writable (by rintro _ rfl; exact .inr rfl)
  exact hw

theorem writable_real {number : String} (h : ScansAs (· = .real) number) :
    Writable ⟨.real, number, none⟩ := by
  obtain ⟨_, rfl, hw⟩ := h.writable (by rintro _ rfl; exact .inr rfl)
  exact hw

/-- The words that have a fixed spelling. -/
def fixedWords : List Word :=
  [⟨.define, "define", none⟩, ⟨.instantiate, "instantiate", none⟩, ⟨.signal, "signal", none⟩,
    ⟨.bus, "bus", none⟩, ⟨.association, "->", none⟩, ⟨.assignment, "<-", none⟩, .executor, .separator] ++
  ["entity", "architecture", "in", "out"].map .plain ++ Notation.all.map (.plain ·.name) ++
  Container.all.flatMap fun c => [.opening c, .closing c]

theorem writable_of_mem {w : Word} (h : w ∈ fixedWords) : Writable w := by
  have hall : ∀ w ∈ fixedWords, Dialect.written {} w ≠ [] ∧
      Dialect.skips {} (charAt (Dialect.written {} w) 0) = false ∧
      (lexeme {} {} (Dialect.written {} w)).toOption.map Lexeme.word = some w ∧
      w.kind ≠ .endOfFile ∧ w.kind ≠ .symbol ∧ endOfInput ∉ Dialect.written {} w := by
    decide +kernel
  obtain ⟨hne, hskips, hscan, hend, hsymbol, hmarker⟩ := hall w h
  refine ⟨fun t => Lexes.of_table (t := {}) ?_ hsymbol t, hmarker⟩
  cases hx : lexeme {} {} (Dialect.written {} w) with
  | error f => rw [hx] at hscan; cases hscan
  | ok x =>
    rw [hx] at hscan
    obtain rfl : x.word = w := Option.some_inj.1 hscan
    exact lexes_of_lexeme hx hne hend hskips

/-! ### Literals -/

theorem literalFrom_quoted {quote : Char} (hrest : charAt rest 0 ≠ quote) (content : List Char) :
    literalFrom quote (content.flatMap (doubled quote) ++ [quote] ++ rest) =
      some (content, (content.flatMap (doubled quote)).length + 1) := by
  have hclosed : rest.head? ≠ some quote := by
    intro hhead
    obtain ⟨rest', rfl⟩ := List.head?_eq_some_iff.1 hhead
    exact hrest rfl
  rw [List.append_assoc]
  exact literalFrom_of_encloses ⟨rfl, stuffs_flatMap quote content, hclosed⟩

theorem writable_literal {content : String} (h : IsContent content) : Writable (.literal content) := by
  have hwritten : Dialect.written {} (.literal content) =
      '\x22' :: (content.toList.flatMap (doubled '\x22') ++ ['\x22']) := rfl
  have hskips : Dialect.skips {} (charAt (Dialect.written {} (.literal content)) 0) = false := by
    rw [hwritten]
    exact (by decide : Dialect.skips {} '\x22' = false)
  refine ⟨fun t => ⟨nofun, hskips, by rw [hwritten]; exact List.cons_ne_nil _ _, ?_⟩, ?_⟩
  · intro rest hrest
    rw [hwritten]
    have hclosed := literalFrom_quoted hrest.severs.quote content.toList
    refine (Rule.literal rfl hclosed).eq.trans ?_
    simp [Word.literal]
  · rw [hwritten]
    simp only [List.mem_cons, List.mem_append, List.mem_flatMap, not_or, List.not_mem_nil, not_false_eq_true,
      and_true]
    refine ⟨by decide, ?_, by decide⟩
    rintro ⟨c, hc, hmem⟩
    unfold doubled at hmem
    split at hmem <;> simp only [List.mem_cons, List.not_mem_nil, or_false] at hmem
    · rcases hmem with hmem | rfl
      · exact absurd hmem (by decide)
      · exact h hc
    · exact h (hmem ▸ hc)

/-! ### Numbers -/

theorem skips_of_isDigit {c : Char} (h : c.isDigit = true) : Dialect.skips {} c = false := by
  refine (Bool.not_eq_true _).mp fun hskips => ?_
  have hblank : isBlank c = true :=
    (Bool.and_eq_true_iff.1 (Bool.and_eq_true_iff.1 (Bool.and_eq_true_iff.1 hskips).1).1).1
  have hends := (role_of_blank c (mem_blankCharacters hblank)).2.1
  simp [endsWords, h] at hends

theorem scansAs_of_digits {digits : String} (hne : digits.toList ≠ [])
    (h : ∀ c ∈ digits.toList, c.isDigit = true) : ScansAs (· = .integer) digits := by
  have hfirst : (charAt digits.toList 0).isDigit = true := by
    obtain ⟨c, more, hcons⟩ := List.exists_cons_of_ne_nil hne
    rw [hcons]
    exact h c (hcons ▸ List.mem_cons_self)
  have hquote : charAt digits.toList 0 ≠ '\x22' := by
    intro hquote
    rw [hquote] at hfirst
    exact absurd hfirst (by decide)
  have hrun : runLength Char.isDigit digits.toList = digits.toList.length := by
    rw [runLength, List.takeWhile_eq_self_iff.2 h]
  have hlexeme : lexeme {} {} digits.toList = .ok (.plain .integer digits.toList digits.toList.length) := by
    rw [(Rule.number hquote hfirst).eq, numberLexeme_eq, hrun, List.drop_length]
    rfl
  have hnext := Place.next_of_not_skips (t := {}) (p := ⟨digits.toList, {}⟩) (skips_of_isDigit hfirst)
  rw [hlexeme] at hnext
  refine ⟨_, _, hnext, ?_, rfl⟩
  show String.ofList (digits.toList.take digits.toList.length) = digits
  rw [List.take_length, String.ofList_toList]

theorem scansAs_toString (n : Nat) : ScansAs (· = .integer) (toString n) := by
  have hdigits : (toString n).toList = Nat.toDigits 10 n := by
    rw [Nat.toString_eq_ofList_toDigits, String.toList_ofList]
  refine scansAs_of_digits ?_ ?_ <;> rw [hdigits]
  · exact Nat.toDigits_ne_nil
  · intro c hc
    exact Nat.isDigit_of_mem_toDigits (by decide) (by decide) hc

end Lexer

/-! ### Expressions and statements -/

namespace Circuit

variable {t : Operator.Table} {brief : Bool}

theorem forall_mem_separated {parts : List (List Word)} (h : ∀ part ∈ parts, ∀ w ∈ part, Writable w) :
    ∀ w ∈ Word.separated parts, Writable w := by
  cases parts with
  | nil => exact nofun
  | cons part rest =>
    intro w hw
    rcases List.mem_append.1 hw with hw | hw
    · exact h part List.mem_cons_self w hw
    obtain ⟨part', hpart', hw⟩ := List.mem_flatMap.1 hw
    rcases List.mem_cons.1 hw with rfl | hw
    · exact writable_of_mem (by decide)
    · exact h part' (List.mem_cons_of_mem _ hpart') w hw

theorem forall_mem_announced {word : Word} {parts : List (List Word)} (hword : Writable word)
    (h : ∀ part ∈ parts, ∀ w ∈ part, Writable w) : ∀ w ∈ Word.announced word parts, Writable w := by
  cases parts with
  | nil => exact nofun
  | cons part rest =>
    intro w hw
    rcases List.mem_cons.1 hw with rfl | hw
    · exact hword
    · exact forall_mem_separated h w hw

theorem forall_mem_names {names : List String} (h : ∀ name ∈ names, IsName name) :
    ∀ part ∈ Draft.nameWords names, ∀ w ∈ part, Writable w := by
  intro part hpart w hw
  obtain ⟨name, hname, rfl⟩ := List.mem_map.1 hpart
  obtain rfl := List.mem_singleton.1 hw
  exact (h name hname).writable

namespace Expr

mutual

/-- What can be written is written in words that can. -/
theorem Written.writable {e : Expr} (h : e.Written t) : ∀ w ∈ e.words, Writable w := by
  cases e with
  | literal content =>
    intro w hw
    obtain rfl := List.mem_singleton.1 hw
    exact writable_literal h
  | integer digits =>
    intro w hw
    obtain rfl := List.mem_singleton.1 hw
    exact writable_integer h
  | real number =>
    intro w hw
    obtain rfl := List.mem_singleton.1 hw
    exact writable_real h
  | signal name =>
    intro w hw
    obtain rfl := List.mem_singleton.1 hw
    exact h.1.writable
  | bus name | pin inst name => exact h.elim
  | apply entity arguments =>
    intro w hw
    obtain ⟨hname, -, harguments⟩ := h
    simp only [words, List.cons_append, List.mem_cons, List.mem_append, List.not_mem_nil,
      or_false] at hw
    rcases hw with rfl | rfl | hw | rfl
    · exact hname.writable
    · exact writable_of_mem (by decide)
    · exact WrittenAll.writable harguments w hw
    · exact writable_of_mem (by decide)
  | group c items =>
    intro w hw
    simp only [words, List.cons_append, List.mem_cons, List.mem_append, List.not_mem_nil,
      or_false] at hw
    rcases hw with rfl | hw | rfl
    · exact writable_of_mem (by cases c <;> decide)
    · exact WrittenAll.writable h.2 w hw
    · exact writable_of_mem (by cases c <;> decide)

theorem WrittenAll.writable {items : List Expr} (h : WrittenAll t items) :
    ∀ w ∈ wordsAll items, Writable w := by
  cases items with
  | nil => exact nofun
  | cons e rest =>
    cases rest with
    | nil => exact Written.writable h.1
    | cons e' rest =>
      intro w hw
      rcases List.mem_append.1 hw with hw | hw
      · exact Written.writable h.1 w hw
      rcases List.mem_cons.1 hw with rfl | hw
      · exact writable_of_mem (by decide)
      · exact WrittenAll.writable h.2 w hw

end

end Expr

namespace Draft

theorem writable_labelled {label : Option String} (h : FitsLabel label) :
    ∀ w ∈ Word.labelled label, Writable w := by
  cases label with
  | none => exact nofun
  | some label =>
    intro w hw
    simp only [Word.labelled, List.mem_cons, List.not_mem_nil, or_false] at hw
    rcases hw with rfl | rfl
    · exact writable_plain (h label rfl)
    · exact writable_of_mem (by decide)

theorem writable_precedence (precedence : Nat) :
    ∀ w ∈ precedenceWords brief precedence, Writable w := by
  intro w hw
  unfold precedenceWords at hw
  split at hw
  · exact (List.not_mem_nil hw).elim
  · obtain rfl := List.mem_singleton.1 hw
    exact writable_integer (scansAs_toString precedence)

mutual

theorem Fits.writable {t : Operator.Table} {draft : Draft} (h : draft.Fits t) : ∀ w ∈ draft.words brief, Writable w := by
  cases draft with
  | entity e =>
    obtain ⟨hlabel, hsymbol, -, hinputs, houtputs, hbuses⟩ := h
    intro w hw
    simp only [words, List.mem_cons, List.mem_append] at hw
    rcases hw with rfl | rfl | rfl | rfl | rfl | hw | hw | hw | hw
    · exact writable_of_mem (by decide)
    · exact writable_of_mem (by decide)
    · exact hlabel.writable
    · exact writable_literal hsymbol
    · exact writable_of_mem (by cases e.form <;> decide)
    · exact writable_precedence _ w hw
    · exact forall_mem_announced (writable_of_mem (by decide)) (forall_mem_names hinputs) w hw
    · exact forall_mem_announced (writable_of_mem (by decide)) (forall_mem_names houtputs) w hw
    · exact forall_mem_announced (writable_of_mem (by decide)) (forall_mem_names hbuses) w hw
  | architecture name reference body =>
    obtain ⟨hname, hreference, hbody⟩ := h
    intro w hw
    simp only [words, List.mem_cons, List.mem_append, List.not_mem_nil, or_false] at hw
    rcases hw with rfl | rfl | rfl | rfl | rfl | hw | rfl
    · exact writable_of_mem (by decide)
    · exact writable_of_mem (by decide)
    · exact hname.writable
    · exact hreference.writable
    · exact writable_of_mem (by decide)
    · exact FitsAll.writable hbody w hw
    · exact writable_of_mem (by decide)
  | instantiation reference inputs outputs channels =>
    obtain ⟨hreference, hinputs, houtputs, hchannels, -⟩ := h
    intro w hw
    simp only [words, List.mem_cons, List.mem_append] at hw
    rcases hw with rfl | rfl | hw | hw | hw
    · exact writable_of_mem (by decide)
    · exact hreference.writable
    · refine forall_mem_announced (writable_of_mem (by decide)) ?_ w hw
      intro part hpart w hw
      obtain ⟨b, hb, rfl⟩ := List.mem_map.1 hpart
      exact (List.mem_append.1 hw).elim (writable_labelled (hinputs b hb).1 w)
        ((hinputs b hb).2.writable w)
    · refine forall_mem_announced (writable_of_mem (by decide)) ?_ w hw
      intro part hpart w hw
      obtain ⟨b, hb, rfl⟩ := List.mem_map.1 hpart
      rcases List.mem_append.1 hw with hw | hw
      · exact writable_labelled (houtputs b hb).1 w hw
      · obtain rfl := List.mem_singleton.1 hw
        exact (houtputs b hb).2.writable
    · exact forall_mem_announced (writable_of_mem (by decide)) (forall_mem_names hchannels) w hw
  | signals names =>
    intro w hw
    rcases List.mem_cons.1 hw with rfl | hw
    · exact writable_of_mem (by decide)
    · exact forall_mem_separated (forall_mem_names h.2) w hw
  | buses names =>
    intro w hw
    rcases List.mem_cons.1 hw with rfl | hw
    · exact writable_of_mem (by decide)
    · exact forall_mem_separated (forall_mem_names h.2) w hw
  | assignment targets value =>
    obtain ⟨-, htargets, hvalue⟩ := h
    intro w hw
    rcases List.mem_append.1 hw with hw | hw
    · exact forall_mem_separated (forall_mem_names htargets) w hw
    rcases List.mem_cons.1 hw with rfl | hw
    · exact writable_of_mem (by decide)
    · exact hvalue.writable w hw
  | expression value => exact Expr.Written.writable h

/-- **A program that fits is written in words that can be written down**, whatever operators it
defines. -/
theorem FitsAll.writable {t : Operator.Table} {program : List Draft} (h : FitsAll t program) :
    ∀ w ∈ wordsAll brief program, Writable w := by
  cases program with
  | nil => exact nofun
  | cons d rest =>
    intro w hw
    rcases List.mem_append.1 hw with hw | hw
    · exact Fits.writable h.1 w hw
    rcases List.mem_cons.1 hw with rfl | hw
    · exact writable_of_mem (by decide)
    · exact FitsAll.writable h.2 w hw

end

end Draft

end Circuit

/-! ### Texts -/

namespace Lexer

variable {text rest : List Char} {words : List Word}

/-- The words stand one behind the other in a text, with blanks between each two of them. -/
inductive Spread : List Char → List Word → Prop where
  | done {space : List Char} (hspace : ∀ c ∈ space, isBlank c = true) : Spread space []
  | word {space rest : List Char} {w : Word} {words : List Word} (hspace : ∀ c ∈ space, isBlank c = true)
    (hbreaks : Breaks rest) (hrest : Spread rest words) :
    Spread (space ++ (Dialect.written {} w ++ rest)) (w :: words)

/-- With one blank in front of every word, words are spread. -/
theorem spread_spaced (words : List Word) : Spread (Dialect.spaced {} words) words := by
  induction words with
  | nil => exact .done nofun
  | cons w words ih =>
    have hblank : isBlank ' ' = true := by decide
    refine .word (fun c hc => by rw [List.mem_singleton.1 hc]; exact hblank) ?_ ih
    cases words with
    | nil => exact nofun
    | cons w' words =>
      intro c hc
      rw [← Option.some.inj hc]
      exact hblank

/-- Words that are spread over a text are laid out in it. -/
theorem Spread.laid (h : Spread text words) (hwords : ∀ w ∈ words, Writable w) {T : Operator.Table → Prop} :
    Laid {} T text words ∧ endOfInput ∉ text := by
  have hskips {space : List Char} (hspace : ∀ c ∈ space, isBlank c = true) :
      ∀ c ∈ space, Dialect.skips {} c = true :=
    fun c hc => (role_of_blank c (mem_blankCharacters (hspace c hc))).1
  have hlaid : Laid {} T text words := by
    induction h with
    | done hspace => exact .done (hskips hspace)
    | @word space rest w words hspace hbreaks hrest ih =>
      obtain ⟨hw, hothers⟩ := List.forall_mem_cons.1 hwords
      have hsevered (t : Operator.Table) := (hw.lexes t).severed (Dialect.behind_of_blank hbreaks)
      exact .word (hskips hspace) (fun t _ => hw.lexes t) (fun t _ => hsevered t) (ih hothers)
  exact ⟨hlaid, hlaid.endOfInput_notMem fun w hw => (hwords w hw).marker⟩

end Lexer

end Dataflow
