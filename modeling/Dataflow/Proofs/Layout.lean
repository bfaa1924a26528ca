import Dataflow.Proofs.Cutting

/-!
# Dataflow.Proofs.Layout

**A text that is laid out word by word is scanned word by word.** Where a lexer stands decides what
its tokens are; what they say does not depend on that. A text in which every word stands as it is
spelled, with blanks between words or none, and in which each word is severed by what follows it, is
scanned as these words and no others.

* `Token.Word` — what a token says: all of it but the place where it stands;
* `Lexes` — a word is scanned from its own spelling. Every token that has been scanned from some text
  is such a word (`lexes_of_next`);
* `Severed` — a word that ends where it should in front of a text;
* `Laid` — a text that is laid out as a list of words;
* `Laid.next`, `Laid.next_end` — one token, and the end.

Blanks stand in front of a word, where the lexer skips them, and not behind it.
-/

namespace Dataflow

open Reading Text

namespace Token

/-- What a token says, wherever it stands. -/
structure Word where
  kind : Kind
  text : String
  /-- The quote that a literal is written with. -/
  quote : Option Char := none
deriving DecidableEq

/-- What the token says. -/
def word (t : Token) : Word := ⟨t.kind, t.text, t.quote⟩

end Token

namespace Lexer

open Token (Word)

/-- How a word is written in a text. -/
def Dialect.written (d : Dialect) (w : Word) : List Char :=
  if w.kind = .literal then Token.quoted d.quote w.text.toList else w.text.toList

variable {d : Dialect} {t : Operator.Table} {w : Word} {text rest : List Char}

/-- Symbols end in front of this text, like all other words. -/
structure Behind (d : Dialect) (w : Word) (rest : List Char) : Prop where
  severs : Severs d rest
  symbolic : w.kind = .symbol → isSymbolic (charAt rest 0) = false

/-- The word is scanned from its spelling, whatever stands behind it. -/
structure Lexes (d : Dialect) (t : Operator.Table) (w : Word) : Prop where
  ne_endOfFile : w.kind ≠ .endOfFile
  not_skipped : d.skips (charAt (d.written w) 0) = false
  written_ne : d.written w ≠ []
  lexeme : ∀ {rest}, Behind d w rest →
    lexeme d t (d.written w ++ rest) = .ok ⟨w.kind, w.text.toList, w.quote, (d.written w).length⟩

/-- The word that a lexeme is. -/
def Lexeme.word (x : Lexeme) : Word := ⟨x.kind, String.ofList x.content, x.quote⟩

/-- The word is written as it stands in the text. -/
theorem written_of_lexeme {x : Lexeme} (h : lexeme d t text = .ok x) (hne : text ≠ []) :
    d.written x.word = text.take x.length := by
  unfold Dialect.written Lexeme.word
  rw [String.toList_ofList]
  rcases content_of_lexeme h hne with ⟨hkind, -, hcontent⟩ | ⟨hkind, -, hcontent⟩
  · rw [if_neg hkind, hcontent]
  · rw [if_pos hkind, hcontent]

/-- What stands at the front of a text is a word. -/
theorem lexes_of_lexeme {x : Lexeme} (h : lexeme d t text = .ok x) (hne : text ≠ [])
    (hend : x.kind ≠ .endOfFile) (hskips : d.skips (charAt text 0) = false) :
    Lexes d t x.word := by
  have hle := lexeme_length_le h hne
  have hpos := lexeme_length_pos h hend
  have hwritten := written_of_lexeme h hne
  have hlength : (text.take x.length).length = x.length := by
    rw [List.length_take, Nat.min_eq_left hle]
  refine ⟨hend, ?_, ?_, fun {rest} hrest => ?_⟩
  · have hfirst : charAt (text.take x.length ++ []) 0 = charAt text 0 := charAt_cut hpos hle
    rw [List.append_nil] at hfirst
    rw [hwritten, hfirst]
    exact hskips
  · rw [hwritten, ← List.length_pos_iff, hlength]
    exact hpos
  · rw [hwritten, hlength]
    unfold Lexeme.word
    rw [String.toList_ofList]
    exact lexeme_cut hrest.severs h hne hend hrest.symbolic

/-- Every token that has been scanned is a word. It is written in characters of the text, and a literal
has the quotes of the dialect. -/
theorem lexes_of_next {p q : Place} {token : Token} (h : p.next d t = .ok (token, q)) (hd : d.Plain)
    (hend : token.kind ≠ .endOfFile) :
    Lexes d t token.word ∧ (∀ c ∈ d.written token.word, c ∈ p.text) ∧
      (token.kind = .literal → token.quote = some d.quote) := by
  obtain ⟨x, hx, rfl, -⟩ := Place.next_ok h
  have hne : (p.skip (blankLength d p.text)).text ≠ [] := by
    intro hnil
    rw [hnil] at hx
    exact hend ((kind_of_nil hx).1.trans hd.endKind)
  have hskips : d.skips (charAt (p.skip (blankLength d p.text)).text 0) = false := by
    rw [Place.text_skip, blankLength, drop_runLength]
    exact not_charAt_dropWhile (skips_endOfInput d)
  refine ⟨lexes_of_lexeme hx hne hend hskips, fun c hc => ?_, fun hliteral => ?_⟩
  · have hc : c ∈ d.written x.word := hc
    rw [written_of_lexeme hx hne] at hc
    exact List.mem_of_mem_drop (List.mem_of_mem_take hc)
  · rcases content_of_lexeme hx hne with ⟨hkind, -⟩ | ⟨-, hquote, -⟩
    · exact absurd hliteral hkind
    · exact hquote

/-! ### Texts -/

/-- The word is severed by the text behind it: there it is scanned from its spelling. -/
def Severed (d : Dialect) (t : Operator.Table) (w : Word) (rest : List Char) : Prop :=
  lexeme d t (d.written w ++ rest) = .ok ⟨w.kind, w.text.toList, w.quote, (d.written w).length⟩

theorem Lexes.severed (h : Lexes d t w) (hrest : Behind d w rest) : Severed d t w rest := h.lexeme hrest

/-- A text that is laid out as these words, under each of some operator tables. -/
inductive Laid (d : Dialect) (T : Operator.Table → Prop) : List Char → List Word → Prop where
  | done {blanks : List Char} (hblanks : ∀ c ∈ blanks, d.skips c = true) : Laid d T blanks []
  | word {blanks rest : List Char} {w : Word} {words : List Word}
    (hblanks : ∀ c ∈ blanks, d.skips c = true) (hw : ∀ t, T t → Lexes d t w)
    (hsevered : ∀ t, T t → Severed d t w rest) (hrest : Laid d T rest words) :
    Laid d T (blanks ++ (d.written w ++ rest)) (w :: words)

variable {T : Operator.Table → Prop} {words : List Word} {p : Place}

/-- Blanks in front of a token are skipped. -/
theorem Place.next_blanks {blanks : List Char} (hblanks : ∀ c ∈ blanks, d.skips c = true)
    (hp : p.text = blanks ++ rest) :
    ∃ q : Place, q.text = rest ∧ p.next d t = q.next d t := by
  refine ⟨p.skip blanks.length, by rw [text_skip, hp, List.drop_left], (next_skip ?_).symm⟩
  rw [hp, List.take_left]
  exact hblanks

/-- The next token says the next word. -/
theorem Laid.next (h : Laid d T p.text (w :: words)) (ht : T t) :
    ∃ token q, p.next d t = .ok (token, q) ∧ token.kind ≠ .endOfFile ∧ token.word = w ∧
      Laid d T q.text words := by
  generalize htext : p.text = text at h
  cases h with
  | @word blanks rest _ _ hblanks hw hsevered hrest =>
    obtain ⟨q, hq, hnext⟩ := Place.next_blanks (t := t) hblanks htext
    have hlexes := hw t ht
    have hfirst : charAt (d.written w ++ rest) 0 = charAt (d.written w) 0 :=
      charAt_append (List.length_pos_iff.2 hlexes.written_ne)
    have hskips : d.skips (charAt q.text 0) = false := by
      rw [hq, hfirst]
      exact hlexes.not_skipped
    rw [hnext, Place.next_of_not_skips hskips, hq, show lexeme d t _ = _ from hsevered t ht]
    refine ⟨_, _, rfl, hlexes.ne_endOfFile, ?_, ?_⟩
    · show Word.mk w.kind (String.ofList w.text.toList) w.quote = w
      rw [String.ofList_toList]
    · rw [Place.text_skip, hq, List.drop_left]
      exact hrest

/-- Behind the last word there is the end. -/
theorem Laid.next_end (h : Laid d T p.text []) (hd : d.Plain) :
    ∃ token q, p.next d t = .ok (token, q) ∧ token.kind = .endOfFile ∧ Laid d T q.text [] := by
  generalize htext : p.text = text at h
  cases h with
  | done hblanks =>
    obtain ⟨q, hq, hnext⟩ := Place.next_blanks (t := t) hblanks (htext.trans (List.append_nil _).symm)
    obtain ⟨token, q', hend⟩ := Place.exists_next_of_nil hd.quote t hq
    obtain ⟨hkind, hq', -⟩ := Place.next_of_nil hend hq
    refine ⟨token, q', hnext.trans hend, hkind.trans hd.endKind, ?_⟩
    rw [hq']
    exact .done (by simp)

/-- There is no end marker in such a text, if there is none in the words. -/
theorem Laid.endOfInput_notMem {text : List Char} (h : Laid d T text words)
    (hwords : ∀ w ∈ words, endOfInput ∉ d.written w) : endOfInput ∉ text := by
  have hskips {blanks : List Char} (hblanks : ∀ c ∈ blanks, d.skips c = true) : endOfInput ∉ blanks := by
    intro hend
    have := hblanks _ hend
    rw [skips_endOfInput] at this
    cases this
  induction h with
  | done hblanks => exact hskips hblanks
  | word hblanks _ _ _ ih =>
    obtain ⟨hown, hothers⟩ := List.forall_mem_cons.1 hwords
    simp only [List.mem_append, not_or]
    exact ⟨hskips hblanks, hown, ih hothers⟩

end Lexer

end Dataflow
