import Dataflow.Proofs.Scanning

/-!
# Dataflow.Proofs.Tiling

**Tokens tile the text.** A lexer scans a text up to its end or up to a fault. The tokens on the
way stand one behind the other, each has exactly its spelling in the text between the two ends of
its span, and whatever stands between two tokens is blank. Spans are line and column, counted from
the text itself (`Position.behind`) and not by the lexer.

* `Dialect.characters` — the characters that a dialect is made of. If the end marker is not one of
  them it has no role (`Dialect.plain_of_characters`);
* `Dialect.spelling` — how a token stands in the text. A literal has its quotes doubled there;
* `Tiles` — the invariant of a scan, in offsets into the text;
* `Tiling` — what it says in lines and columns;
* `Scanned` — the tokens that a lexer hands out one by one, and how that ends.

The induction is on the text that is left. A token takes a part of it that is not empty
(`Place.length_lt_of_next`), so the scan comes to an end.
-/

namespace Dataflow

open Reading Text

/-! ### Lines and columns -/

namespace Text.Position

/-- The position behind a text: the line breaks in it are the line, and the characters behind the
last of them the column. -/
def behind (text : List Char) : Position where
  line := text.count '\n'
  column := (text.reverse.takeWhile (· ≠ '\n')).length

theorem behind_concat (text : List Char) (c : Char) :
    behind (text ++ [c]) = (behind text).advance c := by
  unfold behind advance
  by_cases hc : c = '\n'
  · simp [hc]
  · simp [hc]

/-- Counting while reading comes to the same. -/
theorem after_behind (before text : List Char) :
    (behind before).after text = behind (before ++ text) := by
  induction text generalizing before with
  | nil => rw [after_nil, List.append_nil]
  | cons c text ih =>
    rw [after_cons, ← behind_concat, ih, List.append_assoc]
    rfl

theorem after_eq_behind (text : List Char) : after {} text = behind text :=
  after_behind [] text

theorem lt_trans {p q r : Position} (hpq : p < q) (hqr : q < r) : p < r := by
  rw [lt_iff] at *
  omega

theorem lt_irrefl (p : Position) : ¬ p < p := by
  rw [lt_iff]
  omega

theorem lt_advance (p : Position) (c : Char) : p < p.advance c := by
  unfold advance
  rw [lt_iff]
  split
  · left
    exact Nat.lt_succ_self _
  · right
    exact ⟨rfl, Nat.lt_succ_self _⟩

/-- Positions go on with every character. -/
theorem behind_lt {text : List Char} {m n : Nat} (hmn : m < n) (hn : n ≤ text.length) :
    behind (text.take m) < behind (text.take n) := by
  induction n with
  | zero => exact absurd hmn (Nat.not_lt_zero m)
  | succ n ih =>
    have hstep : behind (text.take n) < behind (text.take (n + 1)) := by
      rw [List.take_succ_eq_append_getElem (by omega), behind_concat]
      exact lt_advance _ _
    rcases Nat.lt_succ_iff_lt_or_eq.1 hmn with hlt | rfl
    · exact lt_trans (ih hlt (by omega)) hstep
    · exact hstep

theorem behind_lt_iff {text : List Char} {m n : Nat} (hm : m ≤ text.length)
    (hn : n ≤ text.length) : behind (text.take m) < behind (text.take n) ↔ m < n := by
  constructor
  · intro hlt
    refine Nat.lt_of_not_le fun hle => ?_
    rcases Nat.lt_or_eq_of_le hle with hgt | rfl
    · exact lt_irrefl _ (lt_trans hlt (behind_lt hgt hm))
    · exact lt_irrefl _ hlt
  · intro hlt
    exact behind_lt hlt hn

end Text.Position

namespace Text.Span

/-- Whether a position lies in a span. -/
def Holds (s : Span) (p : Position) : Prop := ¬ p < s.start ∧ p < s.stop

instance (s : Span) (p : Position) : Decidable (s.Holds p) :=
  inferInstanceAs (Decidable (_ ∧ _))

/-- The characters of a text that lie in a span. -/
def content (s : Span) (text : List Char) : List Char :=
  (text.zipIdx.filter fun (_, i) => s.Holds (.behind (text.take i))).map Prod.fst

variable {text : List Char} {m n : Nat}

theorem holds_behind {i : Nat} (hm : m ≤ text.length) (hn : n ≤ text.length)
    (hi : i ≤ text.length) :
    Holds ⟨.behind (text.take m), .behind (text.take n)⟩ (.behind (text.take i)) ↔
      m ≤ i ∧ i < n := by
  unfold Holds
  simp only
  rw [Position.behind_lt_iff hi hm, Position.behind_lt_iff hi hn, Nat.not_lt]

theorem filter_zipIdx (text : List Char) (m n k : Nat) :
    ((text.zipIdx k).filter fun (_, i) => m ≤ i ∧ i < n).map Prod.fst =
      (text.take (n - k)).drop (m - k) := by
  induction text generalizing k with
  | nil => simp
  | cons c text ih =>
    rw [List.zipIdx_cons, List.filter_cons]
    by_cases hin : m ≤ k ∧ k < n
    · have hm : m - k = 0 := by omega
      have hn : n - k = (n - (k + 1)) + 1 := by omega
      have hm' : m - (k + 1) = 0 := by omega
      rw [if_pos (by simpa using hin), List.map_cons, ih, hm, hn, hm', List.take_succ_cons]
      rfl
    · rw [if_neg (by simpa using hin), ih]
      by_cases hn : n ≤ k
      · have hn₀ : n - k = 0 := by omega
        have hn₁ : n - (k + 1) = 0 := by omega
        rw [hn₀, hn₁, List.take_zero, List.take_zero, List.drop_nil, List.drop_nil]
      · have hm : m - k = (m - (k + 1)) + 1 := by omega
        have hn : n - k = (n - (k + 1)) + 1 := by omega
        rw [hm, hn, List.take_succ_cons, List.drop_succ_cons]

/-- What lies between two offsets is what lies in the span between their positions. -/
theorem content_behind (hm : m ≤ text.length) (hn : n ≤ text.length) :
    content ⟨.behind (text.take m), .behind (text.take n)⟩ text = (text.take n).drop m := by
  have hfilter : (text.zipIdx.filter fun (_, i) =>
        Holds ⟨.behind (text.take m), .behind (text.take n)⟩ (.behind (text.take i))) =
      text.zipIdx.filter fun (_, i) => m ≤ i ∧ i < n := by
    refine List.filter_congr fun ⟨c, i⟩ hmem => ?_
    have hi : i < text.length := by
      have := List.snd_lt_of_mem_zipIdx hmem
      omega
    simp only [holds_behind hm hn (Nat.le_of_lt hi)]
  unfold content
  rw [hfilter, filter_zipIdx]
  rfl

end Text.Span

namespace Lexer

/-! ### The characters of a dialect -/

/-- The characters that a dialect is made of. -/
def Dialect.characters (d : Dialect) : List Char :=
  [d.executor, d.separator, d.quote, d.list.opening, d.list.closing, d.vector.opening,
    d.vector.closing, d.set.opening, d.set.closing, d.scalar.opening, d.scalar.closing,
    d.numerals.decimal, d.numerals.negative, d.numerals.exponent]

end Lexer

/-- No other character than itself has a lowercase form below every run of small letters, or in a
gap between them. -/
theorem Text.lowercaseCode_eq {runs : List CaseRun} {code n : Nat}
    (hruns : ∀ r ∈ runs, r.lower + (r.last - r.first) < code ∨ code < r.lower)
    (h : lowercaseCode runs n = code) : n = code := by
  induction runs with
  | nil => exact h
  | cons run rest ih =>
    have hrun := hruns run List.mem_cons_self
    unfold lowercaseCode at h
    split at h
    · exact ih (fun r hr => hruns r (List.mem_cons_of_mem _ hr)) h
    · split at h
      · omega
      · exact h

theorem Text.lowercase_endOfInput : lowercase endOfInput = [endOfInput] := by decide +kernel

/-- A character that no letter is the capital of is the lowercase form of itself only. -/
theorem Text.eq_of_lowercase {a c : Char} (hself : lowercase a = [a]) (hzero : a ≠ Char.ofNat 0)
    (hruns : ∀ r ∈ caseRuns, r.lower + (r.last - r.first) < a.toNat ∨ a.toNat < r.lower)
    (h : lowercase a = lowercase c) : c = a := by
  rw [hself] at h
  unfold lowercase at h
  split at h
  · simp at h
  · rw [List.cons.injEq] at h
    have hcode : lowercaseCode caseRuns c.toNat = a.toNat := by
      by_cases hvalid : (lowercaseCode caseRuns c.toNat).isValidChar
      · rw [h.1, show Char.ofNat _ = Char.ofNatAux _ hvalid from dif_pos hvalid]
        rfl
      · -- The character for a code point that is not one would be zero.
        exact absurd (h.1.trans (dif_neg hvalid)) hzero
    exact Char.toNat_inj.1 (lowercaseCode_eq hruns hcode)

set_option maxRecDepth 4000 in
theorem Text.eq_endOfInput_of_lowercase {c : Char} (h : lowercase endOfInput = lowercase c) :
    c = endOfInput :=
  eq_of_lowercase lowercase_endOfInput (by decide) (by decide) h

namespace Lexer

theorem Dialect.plain_of_characters {d : Dialect} (h : endOfInput ∉ d.characters) : d.Plain := by
  simp only [characters, List.mem_cons, List.not_mem_nil, or_false, not_or] at h
  obtain ⟨hexecutor, hseparator, hquote, hlist, hlist', hvector, hvector', hset, hset', hscalar,
    hscalar', -, hnegative, hexponent⟩ := h
  refine ⟨Ne.symm hexecutor, Ne.symm hseparator, Ne.symm hquote, ?_, ?_, Ne.symm hnegative, ?_⟩
  · simp [opening?, brackets, Container.all, Ne.symm hlist, Ne.symm hvector, Ne.symm hset,
      Ne.symm hscalar]
  · simp [closing?, brackets, Container.all, Ne.symm hlist', Ne.symm hvector', Ne.symm hset',
      Ne.symm hscalar']
  · refine decide_eq_false fun hlower => hexponent ?_
    exact (eq_endOfInput_of_lowercase hlower).symm

/-! ### Spellings -/

/-- How a token stands in a text. -/
def Dialect.spelling (d : Dialect) (t : Token) : List Char :=
  if t.kind = .literal then Token.quoted d.quote t.text.toList else t.text.toList

/-- A character of a literal as it stands in a text. -/
def doubled (quote c : Char) : List Char := if c = quote then [quote, c] else [c]

theorem spelling_of_literalFrom {quote : Char} {text content : List Char} {n : Nat}
    (h : literalFrom quote text = some (content, n)) :
    n ≤ text.length ∧ content.flatMap (doubled quote) ++ [quote] = text.take n := by
  induction hn : text.length using Nat.strongRecOn generalizing text content n with
  | ind length ih =>
  subst hn
  cases text with
  | nil => cases h
  | cons c rest =>
    by_cases hc : c = quote
    · subst hc
      by_cases hnext : ∃ rest', rest = c :: rest'
      · obtain ⟨rest', rfl⟩ := hnext
        rw [literalFrom_doubled] at h
        obtain ⟨⟨content', n'⟩, hrest, hsome⟩ := Option.map_eq_some_iff.1 h
        cases hsome
        obtain ⟨hle, hspelling⟩ := ih _ (by simp only [List.length_cons]; omega) hrest rfl
        refine ⟨by simp only [List.length_cons]; omega, ?_⟩
        rw [List.flatMap_cons, List.append_assoc, hspelling]
        simp [doubled]
      · rw [literalFrom_closed fun rest' hrest => hnext ⟨rest', hrest⟩] at h
        cases h
        exact ⟨by simp, by simp⟩
    · rw [literalFrom_of_ne hc] at h
      obtain ⟨⟨content', n'⟩, hrest, hsome⟩ := Option.map_eq_some_iff.1 h
      cases hsome
      obtain ⟨hle, hspelling⟩ := ih _ (by simp) hrest rfl
      refine ⟨by simp only [List.length_cons]; omega, ?_⟩
      rw [List.flatMap_cons, List.append_assoc, hspelling]
      simp [doubled, hc]

theorem nameKind_ne_literal (signed dotted : Bool) (name : String) :
    nameKind signed dotted name ≠ .literal := by
  unfold nameKind Token.Kind.keyword?
  repeat' split
  all_goals simp

/-- A lexeme is the text that it takes: as it is, or as a literal that spells its content. -/
theorem content_of_lexeme {d : Dialect} {t : Operator.Table} {text : List Char} {x : Lexeme}
    (h : lexeme d t text = .ok x) (hne : text ≠ []) :
    x.kind ≠ .literal ∧ x.quote = none ∧ x.content = text.take x.length ∨
      x.kind = .literal ∧ x.quote = some d.quote ∧
        Token.quoted d.quote x.content = text.take x.length := by
  obtain ⟨c, rest, rfl⟩ := List.exists_cons_of_ne_nil hne
  cases lexeme_rule h with
  | literal hquote hclosed =>
    have hspelling := (spelling_of_literalFrom hclosed).2
    rw [List.drop_succ_cons, List.drop_zero] at hspelling
    refine .inr ⟨rfl, rfl, ?_⟩
    rw [List.take_succ_cons, ← hspelling, show c = d.quote from hquote]
    rfl
  | number =>
    refine .inl ⟨?_, rfl, rfl⟩
    rcases numberLexeme_kind d.numerals (c :: rest) with hkind | hkind <;> simp [hkind]
  | signed | name => exact .inl ⟨nameKind_ne_literal _ _ _, rfl, rfl⟩
  | punctuation _ hpunctuation =>
    left
    cases punctuationLexeme_rule hpunctuation with
    | arrow harrow =>
      refine ⟨?_, rfl, rfl⟩
      rcases arrow?_kind harrow with rfl | rfl <;> exact nofun
    | opening | closing | executor | separator | ending | symbol => exact ⟨nofun, rfl, rfl⟩

/-! ### Tiles -/

/-- The tokens stand one behind the other between two offsets of a text, with nothing but blanks
between them. -/
def Tiles (d : Dialect) (text : List Char) : (lo : Nat) → List Token → (hi : Nat) → Prop
  | lo, [], hi => lo ≤ hi ∧ hi ≤ text.length ∧ ∀ c ∈ (text.take hi).drop lo, d.isBlank c = true
  | lo, token :: tokens, hi => ∃ m n, lo ≤ m ∧ m < n ∧ n ≤ text.length ∧
      (∀ c ∈ (text.take m).drop lo, d.isBlank c = true) ∧
      token.span = ⟨.behind (text.take m), .behind (text.take n)⟩ ∧
      d.spelling token = (text.take n).drop m ∧ Tiles d text n tokens hi

/-- The place at an offset of a text. -/
def Place.offset (text : List Char) (n : Nat) : Place where
  text := text.drop n
  position := .behind (text.take n)

theorem Place.skip_offset (text : List Char) (m n : Nat) :
    (offset text m).skip n = offset text (m + n) := by
  simp [offset, skip, Position.after_behind, List.take_add, List.drop_drop]

/-- There are no offsets behind the end. -/
theorem Place.offset_min (text : List Char) (n : Nat) :
    offset text (min n text.length) = offset text n := by
  unfold offset
  by_cases hn : n ≤ text.length
  · rw [Nat.min_eq_left hn]
  · rw [Nat.min_eq_right (by omega), List.drop_length, List.drop_eq_nil_of_le (by omega),
      List.take_length, List.take_of_length_le (by omega)]

/-- What is skipped in front of a token is blank, and there is nothing more of it. -/
theorem blank_of_skipped (d : Dialect) (text : List Char) (n : Nat) :
    ∀ c ∈ (text.take (n + blankLength d (text.drop n))).drop n, d.isBlank c = true := by
  intro c hc
  rw [List.drop_take, Nat.add_sub_cancel_left, blankLength, take_runLength] at hc
  have hskips := of_mem_takeWhile hc
  rw [Dialect.skips, Bool.and_eq_true] at hskips
  exact hskips.1

theorem add_blankLength_le {d : Dialect} {text : List Char} {n : Nat} (hn : n ≤ text.length) :
    n + blankLength d (text.drop n) ≤ text.length := by
  have hle : blankLength d (text.drop n) ≤ (text.drop n).length :=
    (List.takeWhile_prefix _).length_le
  rw [List.length_drop] at hle
  omega

theorem not_charAt_dropWhile {inClass : Char → Bool} (hend : inClass endOfInput = false)
    {text : List Char} : inClass (charAt (text.dropWhile inClass) 0) = false := by
  cases hdrop : text.dropWhile inClass with
  | nil => exact hend
  | cons c rest =>
    have := List.head?_dropWhile_not inClass text
    rw [hdrop] at this
    simpa using this

section Steps

variable {d : Dialect} {t : Operator.Table} {text : List Char} {m n : Nat} {x : Lexeme}

/-- The token of a lexeme reaches from one offset to another, and is spelled by what stands
between them. -/
theorem tile_of_lexeme (h : lexeme d t (text.drop m) = .ok x) (hm : m < text.length)
    (hkind : x.kind ≠ .endOfFile) : ∃ k, m < k ∧ k ≤ text.length ∧
      Place.offset text (m + x.length) = .offset text k ∧
      ((Place.offset text m).token x).span =
        ⟨.behind (text.take m), .behind (text.take k)⟩ ∧
      d.spelling ((Place.offset text m).token x) = (text.take k).drop m := by
  have hpos := lexeme_length_pos h hkind
  have hne : text.drop m ≠ [] := by
    rw [ne_eq, List.drop_eq_nil_iff]
    omega
  refine ⟨min (m + x.length) text.length, by omega, Nat.min_le_right _ _,
    (Place.offset_min text _).symm, ?_, ?_⟩
  · show Span.mk (Place.offset text m).position ((Place.offset text m).skip x.length).position = _
    rw [Place.skip_offset, ← Place.offset_min text (m + x.length)]
    rfl
  · have htake : (text.drop m).take x.length =
        (text.take (min (m + x.length) text.length)).drop m := by
      rw [← List.take_eq_take_min, List.drop_take, Nat.add_sub_cancel_left]
    have hspelling : d.spelling ((Place.offset text m).token x) =
        if x.kind = .literal then Token.quoted d.quote x.content else x.content := by
      simp [Dialect.spelling, Place.token]
    rw [← htake, hspelling]
    rcases content_of_lexeme h hne with ⟨hliteral, -, hcontent⟩ | ⟨hliteral, -, hcontent⟩
    · rw [if_neg hliteral, hcontent]
    · rw [if_pos hliteral, hcontent]

/-- What is next at an offset stands behind the blanks there. -/
theorem Place.next_offset_eq (d : Dialect) (t : Operator.Table) (text : List Char) (n : Nat) :
    ∃ m, n ≤ m ∧ (n ≤ text.length → m ≤ text.length) ∧
      (∀ c ∈ (text.take m).drop n, d.isBlank c = true) ∧
      d.skips (charAt (text.drop m) 0) = false ∧
      (offset text n).next d t = (offset text m).outcome (lexeme d t (text.drop m)) := by
  refine ⟨n + blankLength d (text.drop n), Nat.le_add_right _ _, add_blankLength_le,
    blank_of_skipped d text n, ?_, ?_⟩
  · rw [← List.drop_drop, blankLength, drop_runLength]
    exact not_charAt_dropWhile (skips_endOfInput d)
  · unfold next
    rw [skip_offset]
    rfl

/-- What the next token of a text is: the end of it, or a tile. -/
theorem Place.next_offset {token : Token} {q : Place} (hd : d.Plain)
    (hne : ∀ c ∈ text, c ≠ endOfInput) (hn : n ≤ text.length)
    (h : (offset text n).next d t = .ok (token, q)) :
    token = .endOfFile (.point (.behind text)) ∧ q = offset text text.length ∧
        Tiles d text n [] text.length ∨
      token.kind ≠ .endOfFile ∧ ∃ k ≤ text.length, n < k ∧ q = offset text k ∧
        ∀ tokens hi, Tiles d text k tokens hi → Tiles d text n (token :: tokens) hi := by
  obtain ⟨m, hle, hm, hblank, -, hnext⟩ := next_offset_eq d t text n
  rw [hnext] at h
  have hm := hm hn
  cases hx : lexeme d t (text.drop m) with
  | error f =>
    rw [hx] at h
    cases h
  | ok x =>
  rw [hx] at h
  cases h
  rcases Nat.lt_or_eq_of_le hm with hm | rfl
  · right
    have hkind : x.kind ≠ .endOfFile := by
      intro hend
      have hnil := nil_of_kind hx hend fun c hc => hne c (List.mem_of_mem_drop hc)
      rw [List.drop_eq_nil_iff] at hnil
      omega
    obtain ⟨k, hmk, hk, hoffset, hspan, hspelling⟩ := tile_of_lexeme hx hm hkind
    refine ⟨hkind, k, hk, by omega, by rw [skip_offset, hoffset], ?_⟩
    exact fun tokens hi htiles => ⟨m, k, hle, hmk, hk, hblank, hspan, hspelling, htiles⟩
  · left
    rw [List.drop_length, lexeme_plain_nil hd] at hx
    cases hx
    refine ⟨?_, rfl, hle, Nat.le_refl _, hblank⟩
    simp [Place.token, Lexeme.plain, Place.offset, Token.endOfFile, Span.point]

/-! ### Faults -/

/-- No token begins with this character, and it is not blank. -/
structure Dialect.Strange (d : Dialect) (c : Char) : Prop where
  blank : d.isBlank c = false
  quote : c ≠ d.quote
  digit : c.isDigit = false
  name : isNameStart c = false
  opening : d.opening? c = none
  closing : d.closing? c = none
  executor : c ≠ d.executor
  separator : c ≠ d.separator
  symbolic : isSymbolic c = false

/-- The error is the fault at this offset of the text: a character that no token begins with, or
a quote with no more quotes behind it than doubled ones. -/
inductive FaultAt (d : Dialect) (text : List Char) (n : Nat) : Error → Prop where
  | unexpected {c : Char} (here : text[n]? = some c) (strange : d.Strange c) :
    FaultAt d text n (.unexpectedCharacter c (.behind (text.take n)))
  | unterminated (content : List Char) (here : text[n]? = some d.quote)
    (unclosed : text.drop (n + 1) = content.flatMap (doubled d.quote)) :
    FaultAt d text n (.unterminatedLiteral (.behind (text.take n)))

/-- A literal that nothing closes has only doubled quotes in it. -/
theorem doubled_of_literalFrom {quote : Char} {text : List Char}
    (h : literalFrom quote text = none) :
    ∃ content : List Char, text = content.flatMap (doubled quote) := by
  induction hn : text.length using Nat.strongRecOn generalizing text with
  | ind length ih =>
  subst hn
  cases text with
  | nil => exact ⟨[], rfl⟩
  | cons c rest =>
    by_cases hc : c = quote
    · subst hc
      by_cases hnext : ∃ rest', rest = c :: rest'
      · obtain ⟨rest', rfl⟩ := hnext
        rw [literalFrom_doubled, Option.map_eq_none_iff] at h
        obtain ⟨content, rfl⟩ := ih _ (by simp only [List.length_cons]; omega) h rfl
        exact ⟨c :: content, by simp [doubled]⟩
      · rw [literalFrom_closed fun rest' hrest => hnext ⟨rest', hrest⟩] at h
        cases h
    · rw [literalFrom_of_ne hc, Option.map_eq_none_iff] at h
      obtain ⟨content, rfl⟩ := ih _ (by simp) h rfl
      exact ⟨c :: content, by simp [doubled, hc]⟩

theorem getElem?_of_charAt {c : Char} (h : charAt (text.drop m) 0 = c) (hc : c ≠ endOfInput) :
    text[m]? = some c := by
  rw [charAt_drop, charAt, Nat.add_zero, List.getD_eq_getElem?_getD] at h
  cases hget : text[m]? with
  | none =>
    rw [hget] at h
    exact absurd h.symm hc
  | some a =>
    rw [hget] at h
    rw [show a = c from h]

/-- Why there is no token at an offset where blanks have been skipped. -/
theorem faultAt_of_lexeme {f : Fault} (hd : d.Plain) (h : lexeme d t (text.drop m) = .error f)
    (hskips : d.skips (charAt (text.drop m) 0) = false) :
    FaultAt d text m ((Place.offset text m).error f) := by
  cases lexeme_rule h with
  | unterminated hquote hopen =>
    rw [List.drop_drop] at hopen
    obtain ⟨content, hcontent⟩ := doubled_of_literalFrom hopen
    exact .unterminated content (getElem?_of_charAt hquote hd.quote) hcontent
  | punctuation hword hpunctuation =>
    cases punctuationLexeme_rule hpunctuation with
    | unexpected hrole hend hsymbolic =>
    refine .unexpected (getElem?_of_charAt rfl hend) ⟨?_, hword.quote, hword.digit, hword.start,
      hrole.opening, hrole.closing, hrole.executor, hrole.separator, hsymbolic⟩
    -- A line break that comes here has no role, and would have been skipped.
    have hquote := hword.quote
    have hopening := hrole.opening
    have hclosing := hrole.closing
    generalize charAt (text.drop m) 0 = c at *
    refine Bool.eq_false_iff.2 fun hblank => ?_
    by_cases hbreak : c = '\n'
    · subst hbreak
      simp [Dialect.skips, Dialect.breaksPlainly, hblank, hopening, hclosing, Ne.symm hquote] at hskips
    · simp [Dialect.skips, hblank, hbreak] at hskips

/-- A scan that comes to a fault has only skipped blanks on the way there. -/
theorem Place.next_offset_error {e : Error} (hd : d.Plain) (hn : n ≤ text.length)
    (h : (offset text n).next d t = .error e) :
    ∃ m, Tiles d text n [] m ∧ FaultAt d text m e := by
  obtain ⟨m, hle, hm, hblank, hskips, hnext⟩ := next_offset_eq d t text n
  rw [hnext] at h
  cases hx : lexeme d t (text.drop m) with
  | ok x =>
    rw [hx] at h
    cases h
  | error f =>
    rw [hx] at h
    cases h
    exact ⟨m, ⟨hle, hm hn, hblank⟩, faultAt_of_lexeme hd hx hskips⟩

end Steps

/-! ### In lines and columns -/

/-- What the tokens of a scan of the text up to the offset `hi` are. -/
structure Tiling (d : Dialect) (text : List Char) (tokens : List Token) (hi : Nat) : Prop where
  hi_le : hi ≤ text.length
  /-- No span is empty. -/
  covers : ∀ token ∈ tokens, token.span.start < token.span.stop
  /-- The spans are in order, and none reaches into another one. -/
  ordered : tokens.Pairwise fun token later => ¬ later.span.start < token.span.stop
  /-- What lies in the span of a token is how the token is spelled. -/
  spelled : ∀ token ∈ tokens, token.span.content text = d.spelling token
  /-- Both ends of a span are counted from the text before them. -/
  counted : ∀ token ∈ tokens, ∃ m n, m < n ∧ n ≤ hi ∧
    token.span = ⟨.behind (text.take m), .behind (text.take n)⟩
  /-- What lies in no span is blank. -/
  blank : ∀ i c, i < hi → text[i]? = some c →
    (∀ token ∈ tokens, ¬ token.span.Holds (.behind (text.take i))) → d.isBlank c = true

namespace Tiles

variable {d : Dialect} {text : List Char} {tokens : List Token} {lo hi : Nat}

theorem le (h : Tiles d text lo tokens hi) : lo ≤ hi ∧ hi ≤ text.length := by
  induction tokens generalizing lo with
  | nil => exact ⟨h.1, h.2.1⟩
  | cons token tokens ih =>
    obtain ⟨m, n, hlo, hmn, -, -, -, -, hrest⟩ := h
    have := ih hrest
    omega

/-- Every token has its offsets. -/
theorem bounds (h : Tiles d text lo tokens hi) {token : Token} (hmem : token ∈ tokens) :
    ∃ m n, lo ≤ m ∧ m < n ∧ n ≤ hi ∧
      token.span = ⟨.behind (text.take m), .behind (text.take n)⟩ ∧
      d.spelling token = (text.take n).drop m := by
  induction tokens generalizing lo with
  | nil => cases hmem
  | cons first tokens ih =>
    obtain ⟨m, n, hlo, hmn, -, -, hspan, hspelling, hrest⟩ := h
    rcases List.mem_cons.1 hmem with rfl | hmem
    · exact ⟨m, n, hlo, hmn, (le hrest).1, hspan, hspelling⟩
    · obtain ⟨m', n', hlo', hrest⟩ := ih hrest hmem
      exact ⟨m', n', by omega, hrest⟩

theorem ordered (h : Tiles d text lo tokens hi) :
    tokens.Pairwise fun token later => ¬ later.span.start < token.span.stop := by
  induction tokens generalizing lo with
  | nil => exact List.Pairwise.nil
  | cons first tokens ih =>
    obtain ⟨m, n, -, -, hn, -, hspan, -, hrest⟩ := h
    refine List.Pairwise.cons ?_ (ih hrest)
    intro later hmem
    obtain ⟨m', n', hle, hmn', hn', hspan', -⟩ := bounds hrest hmem
    have hhi := (le hrest).2
    rw [hspan, hspan']
    simp only
    rw [Position.behind_lt_iff (by omega) hn]
    omega

theorem mem_between {i : Nat} {c : Char} (hlo : lo ≤ i) (hhi : i < hi)
    (hget : text[i]? = some c) : c ∈ (text.take hi).drop lo := by
  rw [List.mem_iff_getElem?]
  refine ⟨i - lo, ?_⟩
  rw [List.getElem?_drop, Nat.add_sub_cancel' hlo, List.getElem?_take_of_lt hhi]
  exact hget

theorem blank (h : Tiles d text lo tokens hi) {i : Nat} {c : Char} (hlo : lo ≤ i) (hhi : i < hi)
    (hget : text[i]? = some c)
    (hout : ∀ token ∈ tokens, ¬ token.span.Holds (.behind (text.take i))) :
    d.isBlank c = true := by
  induction tokens generalizing lo with
  | nil => exact h.2.2 c (mem_between hlo hhi hget)
  | cons first tokens ih =>
    obtain ⟨m, n, hle, hmn, hn, hblank, hspan, -, hrest⟩ := h
    have hend := (le hrest).2
    by_cases hm : i < m
    · exact hblank c (mem_between hlo hm hget)
    · have hfirst := hout first List.mem_cons_self
      rw [hspan, Span.holds_behind (by omega) hn (by omega)] at hfirst
      exact ih hrest (by omega) fun token hmem => hout token (List.mem_cons_of_mem _ hmem)

theorem tiling (h : Tiles d text 0 tokens hi) : Tiling d text tokens hi where
  hi_le := (le h).2
  covers := by
    intro token hmem
    obtain ⟨m, n, -, hmn, hn, hspan, -⟩ := bounds h hmem
    rw [hspan]
    exact Position.behind_lt hmn (Nat.le_trans hn (le h).2)
  ordered := ordered h
  spelled := by
    intro token hmem
    obtain ⟨m, n, -, hmn, hn, hspan, hspelling⟩ := bounds h hmem
    have hhi := (le h).2
    rw [hspan, Span.content_behind (by omega) (by omega), hspelling]
  counted := by
    intro token hmem
    obtain ⟨m, n, -, hmn, hn, hspan, -⟩ := bounds h hmem
    exact ⟨m, n, hmn, hn, hspan⟩
  blank := fun i c hi hget hout => blank h (Nat.zero_le i) hi hget hout

end Tiles

/-! ### Scans -/

section Scans

variable {σ : Type} [Supply σ Char]

/-- The tokens that a lexer hands out one by one in front of the first one for the end, and the
result of the last call: the token for the end, or a failure. -/
inductive Scanned :
    Lexer σ → List Token → EStateM.Result Failure (Lexer σ) Token → Prop where
  | last {l l' : Lexer σ} {token : Token} (hnext : next l = .ok token l')
    (hkind : token.kind = .endOfFile) : Scanned l [] (.ok token l')
  | failed {l l' : Lexer σ} {e : Failure} (hnext : next l = .error e l') :
    Scanned l [] (.error e l')
  | more {l l' : Lexer σ} {token : Token} {tokens : List Token}
    {r : EStateM.Result Failure (Lexer σ) Token} (hnext : next l = .ok token l')
    (hkind : token.kind ≠ .endOfFile) (hrest : Scanned l' tokens r) :
    Scanned l (token :: tokens) r

/-- How the scan of a text ends at the offset `hi`. At the end of the text, all further tokens are
the same. A failure is the fault that stands there, unless the text is too long for the buffer. -/
def Finish (d : Dialect) (text : List Char) (hi : Nat) :
    EStateM.Result Failure (Lexer σ) Token → Prop
  | .ok token l => hi = text.length ∧ token = .endOfFile (.point (.behind text)) ∧
    ∀ n, Run.Ends (fun tokens _ => tokens = List.replicate n token)
      (fun e _ => (∃ requested limit, e = .error (.capacityExceeded requested limit)) ∧
        d.limits.Exceeded (text.length + 2)) (nexts n l)
  | .error e _ => (∃ cause, e = .error cause ∧ FaultAt d text hi cause) ∨
    (∃ requested limit, e = .error (.capacityExceeded requested limit)) ∧
      d.limits.Exceeded (text.length + 2)

variable {d : Dialect} {t : Operator.Table} {text : List Char} {l : Lexer σ} {n : Nat}

theorem Place.next_end (hd : d.Plain) (t : Operator.Table) (text : List Char) :
    (offset text text.length).next d t =
      .ok (.endOfFile (.point (.behind text)), offset text text.length) := by
  have hnil : (offset text text.length).text = [] := List.drop_length
  rw [next_of_not_skips (by rw [hnil]; exact skips_endOfInput d), hnil, lexeme_plain_nil hd]
  simp [outcome, token, Lexeme.plain, offset, Token.endOfFile, Span.point]

/-- At the end, a lexer finds the end again and again. -/
theorem nexts_of_end (hd : d.Plain)
    (h : Reads ⟨text.length, d, t⟩ l (.offset text text.length) []) (n : Nat) :
    Run.Ends (fun tokens _ =>
        tokens = List.replicate n (.endOfFile (.point (.behind text))))
      (fun e _ => Excused ⟨text.length, d, t⟩ e) (nexts n l) := by
  induction n generalizing l with
  | zero => exact rfl
  | succ n ih =>
    have hnext := next_reads h
    rw [Place.next_end hd] at hnext
    refine hnext.bind ?_ ?_
    · rintro token l₁ ⟨q, ho, h₁⟩
      cases ho
      refine (ih h₁).bind ?_ fun _ _ he => he
      rintro tokens l₂ rfl
      exact rfl
    · rintro e l₁ (he | ⟨cause, ho, -⟩)
      · exact he
      · cases ho

/-- What a lexer scans from an offset on are tiles. -/
theorem Scanned.tiles {tokens : List Token} {r : EStateM.Result Failure (Lexer σ) Token}
    (hscanned : Scanned l tokens r) (hd : d.Plain) (hne : ∀ c ∈ text, c ≠ endOfInput)
    (hn : n ≤ text.length) (h : Reads ⟨text.length, d, t⟩ l (.offset text n) []) :
    ∃ hi, Tiles d text n tokens hi ∧ Finish d text hi r := by
  induction hscanned generalizing n with
  | @last l l' token hnext hkind =>
    obtain ⟨q, ho, h'⟩ := (next_reads h).of_ok hnext
    rcases Place.next_offset hd hne hn ho with ⟨rfl, rfl, htiles⟩ | ⟨hother, -⟩
    · refine ⟨text.length, htiles, rfl, rfl, fun n => ?_⟩
      exact (nexts_of_end hd h' n).mono (fun _ _ htokens => htokens)
        fun e _ he => ⟨he.1, he.2 hd⟩
    · exact absurd hkind hother
  | @failed l l' e hnext =>
    rcases (next_reads h).of_error hnext with he | ⟨cause, ho, rfl⟩
    · exact ⟨n, ⟨Nat.le_refl n, hn, by simp⟩, .inr ⟨he.1, he.2 hd⟩⟩
    · obtain ⟨m, htiles, hfault⟩ := Place.next_offset_error hd hn ho
      exact ⟨m, htiles, .inl ⟨cause, rfl, hfault⟩⟩
  | @more l l' token tokens r hnext hkind hrest ih =>
    obtain ⟨q, ho, h'⟩ := (next_reads h).of_ok hnext
    rcases Place.next_offset hd hne hn ho with ⟨rfl, -⟩ | ⟨-, k, hk, -, rfl, htile⟩
    · exact absurd rfl hkind
    · obtain ⟨hi, htiles, hfinish⟩ := ih hk h'
      exact ⟨hi, htile tokens hi htiles, hfinish⟩

/-- Every scan comes to an end: each token takes a part of the text that is left. -/
theorem exists_scanned (hd : d.Plain) (hne : ∀ c ∈ text, c ≠ endOfInput) (hn : n ≤ text.length)
    (h : Reads ⟨text.length, d, t⟩ l (.offset text n) []) :
    ∃ tokens r, Scanned l tokens r := by
  induction hleft : text.length - n using Nat.strongRecOn generalizing n l with
  | ind left ih =>
  subst hleft
  cases hnext : next l with
  | error e l' => exact ⟨[], _, .failed hnext⟩
  | ok token l' =>
    by_cases hkind : token.kind = .endOfFile
    · exact ⟨[], _, .last hnext hkind⟩
    obtain ⟨q, ho, h'⟩ := (next_reads h).of_ok hnext
    rcases Place.next_offset hd hne hn ho with ⟨rfl, -⟩ | ⟨-, k, hk, hnk, rfl, -⟩
    · exact absurd rfl hkind
    · obtain ⟨tokens, r, hrest⟩ := ih (text.length - k) (by omega) hk h' rfl
      exact ⟨token :: tokens, r, .more hnext hkind hrest⟩

/-- **Tokens tile the text.** For every text, every dialect that does not give a role to the end
marker and all operators, a lexer over a source that delivers the text scans it up to its end or
a fault, and the tokens on the way are a tiling of what has been scanned. -/
theorem tiling_of_scanned {source : σ} {input : List Char}
    (hsource : Supply.Delivers source (input.map admitted))
    (hmarker : Source.endMarker source = endOfInput) (hd : endOfInput ∉ d.characters)
    (t : Operator.Table) :
    (∃ tokens r, Scanned (ofSource source d t) tokens r) ∧
      ∀ tokens r, Scanned (ofSource source d t) tokens r →
        ∃ hi, Tiling d (input.map admitted) tokens hi ∧ Finish d (input.map admitted) hi r := by
  have hplain := Dialect.plain_of_characters hd
  have hne : ∀ c ∈ input.map admitted, c ≠ endOfInput := by
    intro c hc
    obtain ⟨a, -, rfl⟩ := List.mem_map.1 hc
    exact admitted_ne_endOfInput a
  have hreads := reads_ofSource (d := d) (t := t) hsource hmarker hne
  refine ⟨exists_scanned hplain hne (Nat.zero_le _) hreads, fun tokens r hscanned => ?_⟩
  obtain ⟨hi, htiles, hfinish⟩ := hscanned.tiles hplain hne (Nat.zero_le _) hreads
  exact ⟨hi, htiles.tiling, hfinish⟩

/-- Also where line breaks are the quotes of literals. -/
theorem tiling_of_line_breaks :
    endOfInput ∉ Dialect.characters { quote := '\n' } ∧
      (∃ tokens r, Scanned
        (ofSource (Items.ofText "a + \nb\n\nc\n ;") { quote := '\n' } .standard) tokens r) ∧
      ∀ tokens r,
        Scanned (ofSource (Items.ofText "a + \nb\n\nc\n ;") { quote := '\n' } .standard)
          tokens r →
        ∃ hi, Tiling { quote := '\n' } ("a + \nb\n\nc\n ;".toList.map admitted) tokens hi ∧
          Finish { quote := '\n' } ("a + \nb\n\nc\n ;".toList.map admitted) hi r :=
  ⟨by decide, tiling_of_scanned (d := { quote := '\n' }) rfl rfl (by decide) .standard⟩

end Scans

end Lexer

end Dataflow
