import Dataflow.Proofs.Layout
import Dataflow.Proofs.LexerMemory

/-!
# Dataflow.Proofs.Respelling

**Scanning is stable under respelling.** Write down the tokens of a text as messages show them, with
one blank between each two, and scan that: the same tokens come out, elsewhere. So no token owes what
it is to the character that happened to stand behind it.

There is one exception, which the limits of the buffer are the reason for. An exponent is held back
until it is known to have digits, and how much room is left for it depends on where it stands. What
fits in one text may not fit in another one, also if that is shorter in front of the exponent
(`not_rescanned_under_limits`). Up to there the tokens are the same.

* `written_of_describe` — what messages show is what stands in the text;
* `Dialect.spaced` — words with one blank in front of each;
* `Repeats` — how the second scan ends;
* `rescanned_of_scanned` — the theorem.
-/

namespace Dataflow

open Reading Text

namespace Lexer

open Token (Word)

variable {d : Dialect} {t : Operator.Table} {T : Operator.Table → Prop} {words : List Word}

/-! ### Respelling -/

/-- What messages show of a token is what stands in the text. -/
theorem written_of_describe {token : Token} (hend : token.kind ≠ .endOfFile)
    (hquote : token.kind = .literal → token.quote = some d.quote) :
    token.describe.toList = d.written token.word := by
  unfold Token.describe Dialect.written Token.word
  dsimp only
  split
  · next hkind => exact absurd hkind hend
  · next hkind =>
    rw [hquote hkind, Option.getD_some, String.toList_ofList, if_pos hkind]
  · next hliteral => rw [if_neg hliteral]

/-- A blank in front of every word. -/
def Dialect.spaced (d : Dialect) (words : List Word) : List Char :=
  words.flatMap fun w => ' ' :: d.written w

theorem intercalate_written (w : Word) (words : List Word) :
    [' '].intercalate ((w :: words).map d.written) = d.written w ++ d.spaced words := by
  induction words generalizing w with
  | nil => simp [Dialect.spaced]
  | cons w' words ih =>
    rw [List.map_cons, List.map_cons, List.intercalate_cons_cons, ← List.map_cons, ih]
    simp [Dialect.spaced]

theorem mem_spaced {c : Char} (h : c ∈ d.spaced words) : c = ' ' ∨ ∃ w ∈ words, c ∈ d.written w := by
  obtain ⟨w, hw, hc⟩ := List.mem_flatMap.1 h
  exact (List.mem_cons.1 hc).imp_right fun hc => ⟨w, hw, hc⟩

theorem mem_intercalate {c : Char} (h : c ∈ [' '].intercalate (words.map d.written)) :
    c = ' ' ∨ ∃ w ∈ words, c ∈ d.written w := by
  cases words with
  | nil => simp at h
  | cons w words =>
    rw [intercalate_written, List.mem_append] at h
    rcases h with hc | hc
    · exact .inr ⟨w, List.mem_cons_self, hc⟩
    · exact (mem_spaced hc).imp_right fun ⟨w', hw', hc'⟩ => ⟨w', List.mem_cons_of_mem _ hw', hc'⟩

/-- A dialect that gives no role to blanks and none to the end marker. -/
structure Dialect.Spacious (d : Dialect) : Prop where
  blank : ' ' ∉ d.characters
  marker : endOfInput ∉ d.characters

namespace Dialect.Spacious

variable (hd : d.Spacious)

include hd

theorem skips_blank : d.skips ' ' = true := by
  have hblank := hd.blank
  simp only [characters, List.mem_cons, not_or] at hblank
  have htext : Text.isBlank ' ' = true := by decide
  simp [skips, isBlank, htext, hblank.1, hblank.2.1]

set_option maxRecDepth 4000 in
theorem isExponentMarker_blank : d.numerals.isExponentMarker ' ' = false := by
  have hblank := hd.blank
  simp only [characters, List.mem_cons, not_or] at hblank
  refine decide_eq_false fun hlower => ?_
  have hexponent := Text.eq_of_lowercase rfl (by decide) (by decide) hlower
  simp [hexponent] at hblank

/-- Words end in front of a blank and in front of the end. -/
theorem behind {w : Word} {rest : List Char} (h : charAt rest 0 = ' ' ∨ rest = []) :
    Behind d w rest := by
  have hplain := plain_of_characters hd.marker
  have hblank := hd.blank
  have hmarker := hd.marker
  simp only [characters, List.mem_cons, not_or] at hblank hmarker
  rcases h with hfirst | rfl
  · refine ⟨⟨?_, ?_, ?_, ?_, ?_, ?_, ?_, fun c => ?_⟩, fun _ => ?_⟩ <;> rw [hfirst]
    · exact hblank.2.2.1
    · decide
    · exact hblank.2.2.2.2.2.2.2.2.2.2.2.1
    · exact hd.isExponentMarker_blank
    · rfl
    · rfl
    · decide
    · simp [arrow?]
    · rfl
  · refine ⟨⟨?_, ?_, ?_, ?_, ?_, ?_, ?_, fun c => ?_⟩, fun _ => ?_⟩ <;> rw [charAt_nil]
    · exact hmarker.2.2.1
    · exact isDigit_endOfInput
    · exact hmarker.2.2.2.2.2.2.2.2.2.2.2.1
    · exact hplain.exponent
    · exact isNameStart_endOfInput
    · exact isNamePart_endOfInput
    · decide
    · simp [arrow?, endOfInput]
    · exact isSymbolic_endOfInput

theorem behind_spaced (w : Word) (words : List Word) : Behind d w (d.spaced words) := by
  refine hd.behind ?_
  cases words with
  | nil => exact .inr rfl
  | cons w words => exact .inl rfl

/-- With one blank between each two, words are laid out. -/
theorem laid_spaced (hwords : ∀ w ∈ words, ∀ t, T t → Lexes d t w) : Laid d T (d.spaced words) words := by
  induction words with
  | nil => exact .done (by simp [spaced])
  | cons w words ih =>
    have hrest := ih fun w' hw' => hwords w' (List.mem_cons_of_mem _ hw')
    have hblanks : ∀ c ∈ [' '], d.skips c = true := by
      intro c hc
      rw [List.mem_singleton.1 hc]
      exact hd.skips_blank
    have hw := hwords w List.mem_cons_self
    exact .word hblanks hw (fun t ht => (hw t ht).severed (hd.behind_spaced w words)) hrest

theorem laid_intercalate (hwords : ∀ w ∈ words, ∀ t, T t → Lexes d t w) :
    Laid d T ([' '].intercalate (words.map d.written)) words := by
  cases words with
  | nil => exact .done (by simp)
  | cons w words =>
    have hrest := hd.laid_spaced fun w' hw' => hwords w' (List.mem_cons_of_mem _ hw')
    have hblanks : ∀ c ∈ ([] : List Char), d.skips c = true := by simp
    rw [intercalate_written]
    have hw := hwords w List.mem_cons_self
    exact .word hblanks hw (fun t ht => (hw t ht).severed (hd.behind_spaced w words)) hrest

end Dialect.Spacious

/-! ### Scans -/

section Scans

variable {σ σ' : Type} [Supply σ Char] [Supply σ' Char]
variable {g : Setting} {l : Lexer σ} {p : Place} {tokens : List Token}
  {r : EStateM.Result Failure (Lexer σ) Token}

/-- How a text is scanned that is laid out as these words: as the words, or as some of them up to where
the buffer is too small. That takes a text that is longer than the buffer, and a symbol or an
exponent that is longer than the buffer is meant for. -/
def Repeats (g : Setting) (words : List Word) (tokens : List Token) :
    EStateM.Result Failure (Lexer σ) Token → Prop
  | .ok last _ => last.kind = .endOfFile ∧ tokens.map Token.word = words
  | .error e l => tokens.map Token.word <+: words ∧ e.Exceeded ∧
    g.dialect.limits.Exceeded (g.total + 2) ∧ ∀ b : Bounds, b.Fit g.dialect.limits → l.Outgrows b

/-- What is true of every token that stands at some place of a text is true of all that are scanned. -/
theorem Scanned.forall_mem {P : Token → Prop} (h : Scanned l tokens r) (hreads : Reads g l p [])
    (hP : ∀ (p q : Place) (token : Token), (∀ c ∈ p.text, c ≠ endOfInput) →
      p.next g.dialect g.table = .ok (token, q) → token.kind ≠ .endOfFile → P token) :
    ∀ token ∈ tokens, P token := by
  induction h generalizing p with
  | last hnext hkind => simp
  | failed hnext => simp
  | @more l l' token tokens r hnext hkind hrest ih =>
    obtain ⟨q, ho, hreads'⟩ := (next_reads hreads).of_ok hnext
    intro token' hmem
    rcases List.mem_cons.1 hmem with rfl | hmem
    · exact hP p q token' hreads.text_ne ho hkind
    · exact ih hreads' token' hmem

/-- A scan fails for lack of room only where a symbol or an exponent is too long. -/
theorem Scanned.outgrows {b : Bounds} {e : Failure} {l' : Lexer σ} (hfit : b.Fit d.limits)
    (h : Scanned l tokens (.error e l')) (hcalm : Calm d false l) (he : e.Exceeded) :
    l'.Outgrows b := by
  generalize hr : EStateM.Result.error e l' = r at h
  induction h with
  | last hnext hkind => cases hr
  | failed hnext =>
    cases hr
    exact (next_leads hfit _ hcalm).of_error hnext he
  | more hnext hkind hrest ih => exact ih ((next_leads hfit _ hcalm).of_ok hnext) hr

/-- A text is scanned as the words that it is laid out as, or as some of them up to where the buffer
is too small. -/
theorem Laid.scanned (h : Laid g.dialect T p.text words) (hd : g.dialect.Plain) (ht : T g.table)
    (hreads : Reads g l p []) (hscanned : Scanned l tokens r) :
    (∀ last l', r = .ok last l' → last.kind = .endOfFile ∧ tokens.map Token.word = words) ∧
      ∀ e l', r = .error e l' → tokens.map Token.word <+: words ∧ Excused g e := by
  induction hscanned generalizing words p with
  | @last l l' token hnext hkind =>
    refine ⟨fun last l'' hr => ?_, fun e l'' he => by cases he⟩
    cases hr
    refine ⟨hkind, ?_⟩
    obtain ⟨q, ho, -⟩ := (next_reads hreads).of_ok hnext
    cases words with
    | nil => rfl
    | cons w words =>
      obtain ⟨token', q', ho', hkind', -, -⟩ := h.next ht
      rw [ho] at ho'
      cases ho'
      exact absurd hkind hkind'
  | @failed l l' e hnext =>
    refine ⟨fun last l'' he => (by cases he), fun e' l'' he => ?_⟩
    cases he
    rcases (next_reads hreads).of_error hnext with he | ⟨cause, ho, -⟩
    · exact ⟨List.nil_prefix, he⟩
    · -- There is a word or the end, but no fault.
      cases words with
      | nil =>
        obtain ⟨token, q, ho', -⟩ := h.next_end (t := g.table) hd
        rw [ho] at ho'
        cases ho'
      | cons w words =>
        obtain ⟨token, q, ho', -⟩ := h.next ht
        rw [ho] at ho'
        cases ho'
  | @more l l' token tokens r hnext hkind hrest ih =>
    obtain ⟨q, ho, hreads'⟩ := (next_reads hreads).of_ok hnext
    cases words with
    | nil =>
      obtain ⟨token', q', ho', hkind', -⟩ := h.next_end (t := g.table) hd
      rw [ho] at ho'
      cases ho'
      exact absurd hkind' hkind
    | cons w words =>
      obtain ⟨token', q', ho', -, rfl, hlaid⟩ := h.next ht
      rw [ho] at ho'
      cases ho'
      obtain ⟨hok, herror⟩ := ih hlaid hreads'
      constructor
      · intro last l'' hr
        exact ⟨(hok last l'' hr).1, congrArg (token.word :: ·) (hok last l'' hr).2⟩
      · intro e l'' hr
        exact ⟨(List.prefix_cons_inj _).2 (herror e l'' hr).1, (herror e l'' hr).2⟩

/-- A scan up to the end, all tokens at once. -/
theorem scanned_iff_nexts {last : Token} {l l' : Lexer σ} :
    Scanned l tokens (.ok last l') ↔ nexts (tokens.length + 1) l = .ok (tokens ++ [last]) l' ∧
      last.kind = .endOfFile ∧ ∀ token ∈ tokens, token.kind ≠ .endOfFile := by
  induction tokens generalizing l with
  | nil =>
    constructor
    · intro h
      cases h with
      | last hnext hkind =>
        refine ⟨?_, hkind, by simp⟩
        simp only [List.length_nil, nexts, Run.bind_apply, hnext, Run.pure_apply]
        rfl
    · rintro ⟨hnexts, hkind, -⟩
      simp only [List.length_nil, nexts, Run.bind_apply] at hnexts
      cases hnext : next l with
      | error e l₁ => simp only [hnext] at hnexts; cases hnexts
      | ok token l₁ =>
        simp only [hnext, Run.pure_apply] at hnexts
        cases hnexts
        exact .last hnext hkind
  | cons token tokens ih =>
    constructor
    · intro h
      cases h with
      | @more _ l₁ _ _ _ hnext hkind hrest =>
        obtain ⟨hnexts, hlast, hkinds⟩ := ih.1 hrest
        refine ⟨?_, hlast, ?_⟩
        · rw [List.length_cons, nexts]
          simp only [Run.bind_apply, hnext, hnexts, Run.pure_apply]
          rfl
        · intro token' hmem
          rcases List.mem_cons.1 hmem with rfl | hmem
          · exact hkind
          · exact hkinds token' hmem
    · rintro ⟨hnexts, hlast, hkinds⟩
      rw [List.length_cons, nexts] at hnexts
      simp only [Run.bind_apply] at hnexts
      cases hnext : next l with
      | error e l₁ => simp only [hnext] at hnexts; cases hnexts
      | ok token₁ l₁ =>
        simp only [hnext] at hnexts
        cases hrest : nexts (tokens.length + 1) l₁ with
        | error e l₂ => simp only [hrest] at hnexts; cases hnexts
        | ok tokens₁ l₂ =>
          simp only [hrest, Run.pure_apply] at hnexts
          cases hnexts
          refine .more hnext (hkinds token List.mem_cons_self) (ih.2 ⟨hrest, hlast, ?_⟩)
          exact fun token' hmem => hkinds token' (List.mem_cons_of_mem _ hmem)

/-! ### The theorem -/

/-- **Scanning is stable under respelling.** Take any dialect that gives no role to the blank and none
to the end marker, and any operators. If a text is scanned up to its end, then the text that messages
show of its tokens, with one blank between each two, is scanned as the same tokens, unless a buffer is
too small for that text. -/
theorem rescanned_of_scanned {source : σ} {source' : σ'} {input : List Char} {t : Operator.Table}
    {last : Token} {l : Lexer σ} (hd : d.Spacious)
    (hsource : Supply.Delivers source (input.map admitted))
    (hmarker : Source.endMarker source = endOfInput)
    (hscanned : Scanned (ofSource source d t) tokens (.ok last l))
    (hsource' : Supply.Delivers source'
      ((" ".intercalate (tokens.map Token.describe)).toList.map admitted))
    (hmarker' : Source.endMarker source' = endOfInput) :
    (∃ tokens' r, Scanned (ofSource source' d t) tokens' r) ∧
      ∀ tokens' r, Scanned (ofSource source' d t) tokens' r →
        Repeats ⟨(" ".intercalate (tokens.map Token.describe)).toList.length, d, t⟩
          (tokens.map Token.word) tokens' r := by
  have hplain := Dialect.plain_of_characters hd.marker
  have hproper (text : List Char) : ∀ c ∈ text.map admitted, c ≠ endOfInput := by
    intro c hc
    obtain ⟨a, -, rfl⟩ := List.mem_map.1 hc
    exact admitted_ne_endOfInput a
  have hwords : ∀ token ∈ tokens, Lexes d t token.word ∧
      (∀ c ∈ d.written token.word, c ≠ endOfInput) ∧
      token.describe.toList = d.written token.word := by
    refine hscanned.forall_mem (g := ⟨_, d, t⟩) (reads_ofSource hsource hmarker (hproper input)) ?_
    intro p q token htext hnext hkind
    obtain ⟨hlexes, hmem, hquote⟩ := lexes_of_next hnext hplain hkind
    exact ⟨hlexes, fun c hc => htext c (hmem c hc), written_of_describe hkind hquote⟩
  have hdescribed : (" ".intercalate (tokens.map Token.describe)).toList =
      [' '].intercalate ((tokens.map Token.word).map d.written) := by
    rw [String.toList_intercalate, List.map_map, List.map_map]
    exact congrArg [' '].intercalate (List.map_congr_left fun token hmem => (hwords token hmem).2.2)
  generalize (" ".intercalate (tokens.map Token.describe)).toList = text at *
  -- No character of the text is the end marker, so that the source supplies them all.
  have hadmitted : text.map admitted = text := by
    refine (List.map_congr_left fun c hc => admitted_of_ne ?_).trans (List.map_id text)
    rw [hdescribed] at hc
    rcases mem_intercalate hc with rfl | ⟨w, hw, hc⟩
    · decide
    · obtain ⟨token, hmem, rfl⟩ := List.mem_map.1 hw
      exact (hwords token hmem).2.1 c hc
  rw [hadmitted] at hsource'
  have hreads : Reads ⟨text.length, d, t⟩ (ofSource source' d t) ⟨text, {}⟩ [] :=
    reads_ofSource hsource' hmarker' (hadmitted ▸ hproper text)
  have hlaid : Laid d (· = t) text (tokens.map Token.word) := by
    rw [hdescribed]
    refine hd.laid_intercalate fun w hw t' ht' => ?_
    obtain ⟨token, hmem, rfl⟩ := List.mem_map.1 hw
    exact ht' ▸ (hwords token hmem).1
  refine ⟨exists_scanned hplain (hadmitted ▸ hproper text) (Nat.zero_le _) hreads,
    fun tokens' r hagain => ?_⟩
  obtain ⟨hok, herror⟩ :=
    Laid.scanned (g := ⟨text.length, d, t⟩) (p := ⟨text, {}⟩) hlaid hplain rfl hreads hagain
  cases r with
  | ok last' l' => exact hok last' l' rfl
  | error e l' =>
    obtain ⟨hfront, he⟩ := herror e l' rfl
    refine ⟨hfront, he.1, he.2 hplain, fun b hfit => ?_⟩
    exact hagain.outgrows hfit (calm_ofSource ⟨_, hsource'⟩ d t false) he.1

/-- What looks as if it were an exponent is scanned alike, and so is a literal. -/
theorem rescanned_of_unfinished_exponent :
    Dialect.Spacious {} ∧ ∃ tokens last l,
      Scanned (ofSource (Items.ofText "\x22a\x22\x22\x22<-1.5e") {} .standard) tokens (.ok last l) ∧
      (∃ tokens' r, Scanned (ofSource (Items.ofText (" ".intercalate (tokens.map Token.describe)))
        {} .standard) tokens' r) ∧
      ∀ tokens' r,
        Scanned (ofSource (Items.ofText (" ".intercalate (tokens.map Token.describe))) {} .standard)
          tokens' r →
        Repeats ⟨(" ".intercalate (tokens.map Token.describe)).toList.length, {}, .standard⟩
          (tokens.map Token.word) tokens' r := by
  have hd : Dialect.Spacious {} := ⟨by decide, by decide⟩
  let tokens : List Token :=
    [⟨"a\x22", .literal, ⟨⟨0, 0⟩, ⟨0, 5⟩⟩, some '\x22'⟩, ⟨"<-", .assignment, ⟨⟨0, 5⟩, ⟨0, 7⟩⟩, none⟩,
      ⟨"1.5", .real, ⟨⟨0, 7⟩, ⟨0, 10⟩⟩, none⟩, ⟨"e", .identifier, ⟨⟨0, 10⟩, ⟨0, 11⟩⟩, none⟩]
  have hnexts := Run.eq_ok_of_answer? (a := tokens ++ [.endOfFile (.point ⟨0, 11⟩)])
    (r := nexts 5 (ofSource (Items.ofText "\x22a\x22\x22\x22<-1.5e") {} .standard)) (by decide +kernel)
  have hscanned : Scanned _ tokens (.ok _ _) := scanned_iff_nexts.2 ⟨hnexts, rfl, by decide⟩
  have hdelivers (text : String) : Supply.Delivers (Items.ofText text) (text.toList.map admitted) := rfl
  exact ⟨hd, tokens, _, _, hscanned,
    rescanned_of_scanned hd (hdelivers _) rfl hscanned (hdelivers _) rfl⟩

/-- Where the buffer has room for eight characters, an exponent that fits behind one character does not
fit behind one character and a blank. -/
theorem not_rescanned_under_limits :
    Dialect.Spacious { limits := ⟨8, 8⟩ } ∧ ∃ tokens last l,
      Scanned (ofSource (Items.ofText ";1.0e+0") { limits := ⟨8, 8⟩ } .standard) tokens (.ok last l) ∧
      ¬ ∃ tokens' last' l',
        Scanned (ofSource (Items.ofText (" ".intercalate (tokens.map Token.describe)))
          { limits := ⟨8, 8⟩ } .standard) tokens' (.ok last' l') ∧
        tokens'.map Token.word = tokens.map Token.word := by
  let tokens : List Token := [⟨";", .executor, ⟨⟨0, 0⟩, ⟨0, 1⟩⟩, none⟩,
    ⟨"1.0e+0", .real, ⟨⟨0, 1⟩, ⟨0, 7⟩⟩, none⟩]
  have hnexts := Run.eq_ok_of_answer? (a := tokens ++ [.endOfFile (.point ⟨0, 7⟩)])
    (r := nexts 3 (ofSource (Items.ofText ";1.0e+0") { limits := ⟨8, 8⟩ } .standard)) (by decide +kernel)
  refine ⟨⟨by decide, by decide⟩, tokens, _, _,
    scanned_iff_nexts.2 ⟨hnexts, rfl, by decide⟩, ?_⟩
  rintro ⟨tokens', last', l', hscanned, hwords⟩
  have hlength : tokens'.length = 2 := by simpa [tokens] using congrArg List.length hwords
  have hagain := (scanned_iff_nexts.1 hscanned).1
  rw [hlength] at hagain
  have hfails : (Run.answer? (nexts 3 (ofSource
      (Items.ofText (" ".intercalate (tokens.map Token.describe))) { limits := ⟨8, 8⟩ } .standard))).isNone
      = true := by decide +kernel
  rw [hagain] at hfails
  cases hfails

end Scans

end Lexer

end Dataflow
