import Mathlib
import Dataflow.Proofs.Origins
import Dataflow.Proofs.Rendering

/-!
# Dataflow.Proofs.Display

**A tree that is shown is read again.** Whatever has been read as an expression, its text is read as the
same expression, if the entities of the operators have names that are no operators themselves
(`reparsed_of_parsed`). So showing what has been read changes nothing when it is done again. Literals are
left out: they are shown with escapes, which the lexer does not know.

There is no induction over the parser here but over the tree. Its names come from tokens or from the table
(`Expr.Stems`), and so they are legible words and are read as they are spelled. Its text is the
words of the tree, with a blank behind each separator (`Expr.Reads.laid`). The proviso is room: the blanks
push an exponent back, and it may not fit any more (`not_reparsed_of_long_exponent`).

* `Lexer.Legible`, `Expr.Unquoted` — words under a table, and trees without literals;
* `Expr.Stems.reads`, `Expr.Stems.legible` — from tokens to words;
* `Expr.Reads.laid` — the text of a tree;
* `Parser.parseAll_expression` — a text that is a single expression.
-/

namespace Dataflow

open Reading Text Lexer Circuit
open Token (Word)

/-! ### Words that have been read -/

namespace Lexer

variable {t : Operator.Table} {token : Token} {w : Word} {rest : List Char}

/-- The token stands in some text without end markers. -/
def Occurs (t : Operator.Table) (token : Token) : Prop :=
  ∃ p q : Place, p.next {} t = .ok (token, q) ∧ endOfInput ∉ p.text

/-- The word can be written down where these operators are known. -/
structure Legible (t : Operator.Table) (w : Word) : Prop where
  lexes : Lexes {} t w
  marker : endOfInput ∉ Dialect.written {} w

theorem Writable.legible (h : Writable w) (t : Operator.Table) : Legible t w := ⟨h.lexes t, h.marker⟩

namespace Occurs

theorem legible (h : Occurs t token) (hend : token.kind ≠ .endOfFile) : Legible t token.word := by
  obtain ⟨p, q, hnext, hp⟩ := h
  obtain ⟨hlexes, hchars, -⟩ := lexes_of_next hnext plain_default hend
  exact ⟨hlexes, fun hmem => hp (hchars _ hmem)⟩

theorem word_eq (h : Occurs t token) (hkind : token.kind.isIdentifier = true) :
    token.word = .ofName token.text :=
  Word.eq_ofName (h.legible (ne_endOfFile_of_isIdentifier hkind)).lexes hkind

theorem legible_name (h : Occurs t token) (hkind : token.kind.isIdentifier = true) :
    Legible t (.ofName token.text) := by
  rw [← h.word_eq hkind]
  exact h.legible (ne_endOfFile_of_isIdentifier hkind)

theorem kind_ofName (h : Occurs t token) (hkind : token.kind.isIdentifier = true) :
    (Word.ofName token.text).kind = token.kind :=
  congrArg Word.kind (h.word_eq hkind).symm

theorem legible_number (h : Occurs t token) (hkind : token.kind.isNumber = true) :
    Legible t ⟨token.kind, token.text, none⟩ := by
  have hend : token.kind ≠ .endOfFile := by
    intro hend
    rw [hend] at hkind
    cases hkind
  have hlegible := h.legible hend
  obtain ⟨p, q, hnext, -⟩ := h
  rwa [(word_of_next hnext (.inr hkind)).1] at hlegible

end Occurs

/-- What a lexer hands out of a text without end markers occurs in it. -/
theorem occurs_of_becomes {σ : Type} [Supply σ Char] {v v' : Sight σ} {es : List Event} {total : Nat} {p : Place}
    (h : v.Becomes es v') (hreads : Reads ⟨total, {}, t⟩ v.lexer p []) (hquiet : registeredIn es = []) :
    ∀ token ∈ scannedIn es, Occurs t token := by
  induction h generalizing p with
  | refl v => exact nofun
  | step hstep _ ih =>
    cases hstep with
    | take hahead => exact ih hreads hquiet
    | register => cases hquiet
    | scan hnext =>
      obtain ⟨q, hq, hreads'⟩ := (next_reads hreads).of_ok hnext
      have hne : endOfInput ∉ p.text := fun hend => hreads.text_ne _ hend rfl
      exact List.forall_mem_cons.2 ⟨⟨p, q, hq, hne⟩, ih hreads' hquiet⟩

/-- A session at the start of a text hands out what occurs in the text. -/
theorem hands_ofSource {σ : Type} [Supply σ Char] {source : σ} {text : List Char}
    (hsource : Supply.Delivers source text) (hmarker : Source.endMarker source = endOfInput)
    (hne : ∀ c ∈ text, c ≠ endOfInput) :
    ({ lexer := Lexer.ofSource source {} t } : Sight σ).Hands t (Occurs t) where
  table := rfl
  good := by
    rintro tokens w ⟨es, hes, hquiet, rfl⟩ token htoken
    rw [← hes.ahead] at htoken
    exact occurs_of_becomes hes (reads_ofSource hsource hmarker hne) hquiet token htoken

end Lexer

/-! ### Trees that have been read -/

namespace Operator.Table

variable {t : Table}

/-- The entities that the operators stand for have names that are no operators. -/
def Neutral (t : Table) : Prop :=
  ∀ label, t.Labels label → IsName label ∧ t.contains label = false

theorem neutral_iff : t.Neutral ↔ ∀ symbol ∈ t.symbols, ∀ f ∈ Fixity.all, ∀ op ∈ t.get? symbol f,
    IsName op.entity ∧ t.contains op.entity = false := by
  constructor
  · exact fun h symbol _ f _ op hop => h _ (.of_get? hop)
  · rintro h _ ⟨symbol, f, op, hop, rfl⟩
    exact h symbol (mem_symbols_of_get? hop) f f.mem_all op hop

instance : Decidable t.Neutral := decidable_of_iff _ neutral_iff.symm

end Operator.Table

namespace Circuit.Expr

variable {t : Operator.Table}

mutual

/-- There are no literals in the tree. -/
def Unquoted : Expr → Prop
  | literal _ => False
  | apply _ arguments => UnquotedAll arguments
  | group _ items => UnquotedAll items
  | _ => True

/-- There are no literals in the trees. -/
def UnquotedAll : List Expr → Prop
  | [] => True
  | e :: rest => Unquoted e ∧ UnquotedAll rest

end

mutual

/-- What has been read is read as it is spelled. -/
theorem Stems.reads {e : Expr} (h : e.Stems t (Occurs t)) (ht : t.Neutral) : e.Reads t := by
  cases e with
  | literal _ | integer _ | real _ => exact trivial
  | signal name =>
    obtain ⟨hfront, token, htoken, hkind, rfl⟩ := h
    refine ⟨?_, hfront⟩
    rwa [htoken.kind_ofName (Grammar.isIdentifier_of_isTextIdentifier hkind)]
  | apply entity arguments =>
    obtain ⟨hentity, harguments⟩ := h
    rcases hentity with hlabel | ⟨happlied, token, htoken, hkind, rfl, hknown⟩
    · obtain ⟨hname, hfree⟩ := ht entity hlabel
      have hkind := hname.isTextIdentifier
      refine ⟨Grammar.isIdentifier_of_isTextIdentifier hkind, .inr fun hsymbol => ?_, ?_, harguments.reads ht⟩
      · rw [hsymbol] at hkind
        cases hkind
      · rw [Operator.Table.applied_of_not_contains hfree]
        rfl
    · have hsame := htoken.kind_ofName hkind
      rw [← hsame] at hkind hknown
      exact ⟨hkind, hknown, happlied, harguments.reads ht⟩
  | group container items => exact ⟨h.1, h.2.reads ht⟩
  | bus _ | pin _ _ => exact h.elim

theorem StemsAll.reads {es : List Expr} (h : StemsAll t (Occurs t) es) (ht : t.Neutral) : ReadsAll t es := by
  cases es with
  | nil => exact trivial
  | cons e es => exact ⟨h.1.reads ht, h.2.reads ht⟩

end

mutual

/-- What has been read is spelled in words that can be written down. -/
theorem Stems.legible {e : Expr} (h : e.Stems t (Occurs t)) (ht : t.Neutral) (hquotes : e.Unquoted) :
    ∀ w ∈ e.words, Legible t w := by
  cases e with
  | literal content => exact hquotes.elim
  | integer digits =>
    obtain ⟨token, htoken, hkind, rfl⟩ := h
    refine List.forall_mem_singleton.2 ?_
    rw [← hkind]
    exact htoken.legible_number (by rw [hkind]; rfl)
  | real number =>
    obtain ⟨token, htoken, hkind, rfl⟩ := h
    refine List.forall_mem_singleton.2 ?_
    rw [← hkind]
    exact htoken.legible_number (by rw [hkind]; rfl)
  | signal name =>
    obtain ⟨-, token, htoken, hkind, rfl⟩ := h
    exact List.forall_mem_singleton.2 (htoken.legible_name (Grammar.isIdentifier_of_isTextIdentifier hkind))
  | apply entity arguments =>
    obtain ⟨hentity, harguments⟩ := h
    have hname : Legible t (.ofName entity) := by
      rcases hentity with hlabel | ⟨-, token, htoken, hkind, rfl, -⟩
      · exact (ht entity hlabel).1.writable.legible t
      · exact htoken.legible_name hkind
    intro w hw
    simp only [words, List.cons_append, List.mem_cons, List.mem_append, List.not_mem_nil, or_false] at hw
    rcases hw with rfl | rfl | hw | rfl
    · exact hname
    · exact (writable_of_mem (by decide)).legible t
    · exact harguments.legible ht hquotes w hw
    · exact (writable_of_mem (by decide)).legible t
  | group c items =>
    intro w hw
    simp only [words, List.cons_append, List.mem_cons, List.mem_append, List.not_mem_nil, or_false] at hw
    rcases hw with rfl | hw | rfl
    · exact (writable_of_mem (by cases c <;> decide)).legible t
    · exact h.2.legible ht hquotes w hw
    · exact (writable_of_mem (by cases c <;> decide)).legible t
  | bus _ | pin _ _ => exact h.elim

theorem StemsAll.legible {es : List Expr} (h : StemsAll t (Occurs t) es) (ht : t.Neutral)
    (hquotes : UnquotedAll es) :
    ∀ w ∈ wordsAll es, Legible t w := by
  cases es with
  | nil => exact nofun
  | cons e es =>
    cases es with
    | nil => exact h.1.legible ht hquotes.1
    | cons e' es =>
      intro w hw
      rcases List.mem_append.1 hw with hw | hw
      · exact h.1.legible ht hquotes.1 w hw
      rcases List.mem_cons.1 hw with rfl | hw
      · exact (writable_of_mem (by decide)).legible t
      · exact h.2.legible ht hquotes.2 w hw

end

end Circuit.Expr

/-! ### The text of a tree -/

namespace Lexer

variable {t : Operator.Table} {w : Word} {rest : List Char} {words : List Word}

/-- The characters that are words on their own within expressions. -/
def markCharacters : List Char := ['(', ')', '[', ']', '{', '}', '⟨', '⟩', ',']

/-- The words that these characters are. -/
def markWords : List Word := .separator :: Container.all.flatMap fun c => [.opening c, .closing c]

/-- In front of such a character words end, and it is a word whatever stands behind it. -/
theorem role_of_mark : ∀ c ∈ markCharacters, endsWords c = true ∧ c ≠ '@' ∧ c ≠ '#' ∧ c ≠ '<' ∧
    (Dialect.opening? {} c ≠ none ∨ Dialect.closing? {} c ≠ none ∨ c = ',') := by
  have h : (markCharacters.all fun c => endsWords c && c != '@' && c != '#' && c != '<' &&
      ((Dialect.opening? {} c).isSome || (Dialect.closing? {} c).isSome || c == ',')) = true := by
    decide +kernel
  simpa [and_assoc, or_assoc, Option.isSome_iff_ne_none] using h

/-- What stands behind such a character makes no difference. -/
theorem lexeme_mark {c : Char} (hc : c ∈ markCharacters) (rest : List Char) :
    lexeme {} t (c :: rest) = lexeme {} t [c] := by
  obtain ⟨hends, hat, hhash, hless, hrole⟩ := role_of_mark c hc
  simp only [endsWords, Bool.and_eq_true, bne_iff_ne, Bool.not_eq_true', and_assoc] at hends
  obtain ⟨hquote, hdigit, -, -, hstart, -, hminus, -⟩ := hends
  have harrow (c' : Char) : arrow? c c' = none := by simp [arrow?, hless, hminus]
  have hpunctuation : punctuationLexeme {} t (c :: rest) = punctuationLexeme {} t [c] := by
    unfold punctuationLexeme
    simp only [charAt_cons_zero, harrow]
    cases hopening : Dialect.opening? {} c with
    | some container => rfl
    | none =>
      cases hclosing : Dialect.closing? {} c with
      | some container => rfl
      | none =>
        obtain rfl : c = ',' := by simpa [hopening, hclosing] using hrole
        rfl
  have hnoquote : ¬ c = ({} : Dialect).quote := hquote
  unfold lexeme
  simp only [charAt_cons_zero, hdigit, hat, hhash, hstart, if_neg hnoquote, hpunctuation, false_or,
    false_and, if_false, Bool.false_eq_true]

theorem written_mark (hw : w ∈ markWords) : ∃ c ∈ markCharacters, Dialect.written {} w = [c] := by
  have h : (markWords.all fun w => markCharacters.any fun c => Dialect.written {} w == [c]) = true := by
    decide +kernel
  simpa using List.all_eq_true.1 h w hw

theorem lexes_mark (hw : w ∈ markWords) : Lexes {} t w := by
  have hfixed : ∀ w ∈ markWords, w ∈ fixedWords := by decide +kernel
  exact (writable_of_mem (hfixed w hw)).lexes t

theorem severed_mark (hw : w ∈ markWords) (rest : List Char) : Severed {} t w rest := by
  obtain ⟨c, hc, hwritten⟩ := written_mark hw
  have hsevered : Severed {} t w [] := (lexes_mark hw).severed (spacious_default.behind (.inr rfl))
  unfold Severed at hsevered ⊢
  rw [hwritten] at hsevered ⊢
  exact (lexeme_mark hc rest).trans hsevered

/-- Text behind an expression: words end in front of it that are no symbols. -/
def Shuts (rest : List Char) : Prop := ∀ c ∈ rest.head?, c ∈ markCharacters

theorem behind_of_shuts (h : Shuts rest) (hw : w.kind ≠ .symbol) : Behind {} w rest := by
  cases rest with
  | nil => exact spacious_default.behind (.inr rfl)
  | cons c rest => exact behind_of_endsWords (role_of_mark c (h c rfl)).1 fun hsymbol => absurd hsymbol hw

theorem shuts_mark (hw : w ∈ markWords) (rest : List Char) : Shuts (Dialect.written {} w ++ rest) := by
  obtain ⟨c, hc, hwritten⟩ := written_mark hw
  rw [hwritten]
  rintro _ ⟨⟩
  exact hc

variable {T : Operator.Table → Prop}

/-- A blank in front of what is laid out. -/
theorem Laid.blank {text : List Char} (h : Laid {} T text words) : Laid {} T (' ' :: text) words := by
  have hskips {blanks : List Char} (hblanks : ∀ c ∈ blanks, Dialect.skips {} c = true) :
      ∀ c ∈ ' ' :: blanks, Dialect.skips {} c = true :=
    List.forall_mem_cons.2 ⟨spacious_default.skips_blank, hblanks⟩
  cases h with
  | done hblanks => exact .done (hskips hblanks)
  | word hblanks hw hsevered hrest => exact .word (hskips hblanks) hw hsevered hrest

/-- A word without blanks in front of it. -/
theorem Laid.cons (hrest : Laid {} (· = t) rest words) (hw : Lexes {} t w) (hsevered : Severed {} t w rest) :
    Laid {} (· = t) (Dialect.written {} w ++ rest) (w :: words) := by
  show Laid {} (· = t) ([] ++ (Dialect.written {} w ++ rest)) (w :: words)
  exact .word nofun (fun _ ht => ht ▸ hw) (fun _ ht => ht ▸ hsevered) hrest

theorem Laid.mark (hrest : Laid {} (· = t) rest words) (hw : w ∈ markWords) :
    Laid {} (· = t) (Dialect.written {} w ++ rest) (w :: words) :=
  hrest.cons (lexes_mark hw) (severed_mark hw rest)

end Lexer

namespace Circuit.Expr

variable {t : Operator.Table}

theorem written_name {name : String} (h : (Word.ofName name).kind.isIdentifier = true) :
    Dialect.written {} (.ofName name) = name.toList := by
  refine if_neg fun hliteral => ?_
  rw [hliteral] at h
  cases h

theorem written_opening (c : Container) : Dialect.written {} (.opening c) = (brackets c).1.toList := rfl

theorem written_closing (c : Container) : Dialect.written {} (.closing c) = (brackets c).2.toList := rfl

theorem written_separator : Dialect.written {} .separator = [','] := rfl

theorem opening_mem (c : Container) : Word.opening c ∈ markWords := by cases c <;> decide

theorem closing_mem (c : Container) : Word.closing c ∈ markWords := by cases c <;> decide

mutual

/-- **The text of a tree** is laid out as the words of the tree, in front of a text that severs words. -/
theorem Reads.laid {e : Expr} (h : e.Reads t) (hquotes : e.Unquoted)
    (hlegible : ∀ w ∈ e.words, Legible t w) {rest : List Char} {words : List Word} (hshuts : Shuts rest)
    (hrest : Laid {} (· = t) rest words) :
    Laid {} (· = t) (e.text.toList ++ rest) (e.words ++ words) := by
  cases e with
  | literal content => exact hquotes.elim
  | integer digits =>
    have hw := (hlegible ⟨.integer, digits, none⟩ List.mem_cons_self).lexes
    exact hrest.cons hw (hw.severed (behind_of_shuts hshuts nofun))
  | real number =>
    have hw := (hlegible ⟨.real, number, none⟩ List.mem_cons_self).lexes
    exact hrest.cons hw (hw.severed (behind_of_shuts hshuts nofun))
  | signal name =>
    have hw := (hlegible (.ofName name) List.mem_cons_self).lexes
    have hsymbol : (Word.ofName name).kind ≠ .symbol := by
      intro hsymbol
      have hkind := h.1
      rw [hsymbol] at hkind
      cases hkind
    have hlaid := hrest.cons hw (hw.severed (behind_of_shuts hshuts hsymbol))
    rwa [written_name (Grammar.isIdentifier_of_isTextIdentifier h.1)] at hlaid
  | apply entity arguments =>
    have hw := (hlegible (.ofName entity) List.mem_cons_self).lexes
    have harguments : ∀ w ∈ wordsAll arguments, Legible t w :=
      fun w hw => hlegible w (by simp [Expr.words, hw])
    have hclosing := hrest.mark (closing_mem .list)
    have hinner := ReadsAll.laid h.2.2.2 hquotes harguments (shuts_mark (closing_mem .list) rest) hclosing
    have hopening := hinner.mark (opening_mem .list)
    have hbehind : Behind {} (.ofName entity) (Dialect.written {} (.opening .list) ++
        ((textAll arguments).toList ++ (Dialect.written {} (.closing .list) ++ rest))) :=
      behind_of_endsWords (c := '(') (by decide +kernel) fun _ => by decide +kernel
    have hlaid := hopening.cons hw (hw.severed hbehind)
    rw [written_name h.1] at hlaid
    simpa [text, Expr.words, written_opening, written_closing, brackets] using hlaid
  | group c items =>
    have hitems : ∀ w ∈ wordsAll items, Legible t w := fun w hw => hlegible w (by simp [Expr.words, hw])
    have hclosing := hrest.mark (closing_mem c)
    have hinner := ReadsAll.laid h.2 hquotes hitems (shuts_mark (closing_mem c) rest) hclosing
    simpa [text, Expr.words, written_opening, written_closing] using hinner.mark (opening_mem c)
  | bus _ | pin _ _ => exact h.elim

theorem ReadsAll.laid {es : List Expr} (h : ReadsAll t es) (hquotes : UnquotedAll es)
    (hlegible : ∀ w ∈ wordsAll es, Legible t w) {rest : List Char} {words : List Word} (hshuts : Shuts rest)
    (hrest : Laid {} (· = t) rest words) :
    Laid {} (· = t) ((textAll es).toList ++ rest) (wordsAll es ++ words) := by
  cases es with
  | nil => exact hrest
  | cons e es =>
    cases es with
    | nil => exact Reads.laid h.1 hquotes.1 hlegible hshuts hrest
    | cons e' es =>
      have hfirst : ∀ w ∈ e.words, Legible t w := fun w hw => hlegible w (List.mem_append_left _ hw)
      have hothers : ∀ w ∈ wordsAll (e' :: es), Legible t w :=
        fun w hw => hlegible w (List.mem_append_right _ (List.mem_cons_of_mem _ hw))
      have hmore := (ReadsAll.laid h.2 hquotes.2 hothers hshuts hrest).blank
      have hseparator : Word.separator ∈ markWords := List.mem_cons_self
      have hlaid := Reads.laid h.1 hquotes.1 hfirst (shuts_mark hseparator _) (hmore.mark hseparator)
      simpa [textAll, wordsAll, written_separator] using hlaid

end

end Circuit.Expr

/-! ### Trees on their own -/

namespace Circuit

/-- A netlist that knows no entities and no buses. -/
def Netlist.Vacant (n : Netlist) : Prop := n.entities = [] ∧ n.buses = []

namespace Netlist.Vacant

section

variable {n : Netlist} {first second : List Call}

theorem trans (h : ∃ m, n.Performs first m ∧ m.Vacant)
    (h' : ∀ m : Netlist, m.Vacant → ∃ k, m.Performs second k ∧ k.Vacant) :
    ∃ k, n.Performs (first ++ second) k ∧ k.Vacant := by
  obtain ⟨m, hfirst, hm⟩ := h
  obtain ⟨k, hsecond, hk⟩ := h' m hm
  exact ⟨k, hfirst.trans hsecond, hk⟩

theorem applyOperator (h : n.Vacant) (op : Operator) (arguments : List Expr) :
    ∃ m, n.Performs [.applyOperator op arguments] m ∧ m.Vacant := by
  refine ⟨n, .single (applyOperator_ok fun e he => ?_), h⟩
  rw [entity?, h.1] at he
  cases he

end

mutual

/-- Such a netlist accepts what it is told of an expression. -/
theorem performs {n : Netlist} (h : n.Vacant) (t : Operator.Table) (e : Expr) :
    ∃ m, n.Performs (e.calls t) m ∧ m.Vacant := by
  cases e with
  | literal _ | integer _ | real _ => exact ⟨n, .single rfl, h⟩
  | signal name =>
    refine ⟨_, .single (useSignal_ok ?_), h⟩
    rw [h.2]
    exact List.not_mem_nil
  | apply entity arguments => exact trans (performsAll h t arguments) fun m hm => hm.applyOperator _ _
  | group container items => exact trans (performsAll h t items) fun m hm => ⟨m, .single rfl, hm⟩
  | bus _ | pin _ _ => exact ⟨n, .nil n, h⟩

theorem performsAll {n : Netlist} (h : n.Vacant) (t : Operator.Table) (es : List Expr) :
    ∃ m, n.Performs (Expr.callsAll t es) m ∧ m.Vacant := by
  cases es with
  | nil => exact ⟨n, .nil n, h⟩
  | cons e es => exact trans (performs h t e) fun m hm => performsAll hm t es

end

end Netlist.Vacant

end Circuit

namespace Parser

variable {σ τ : Type} [Supply σ Char] [Supply τ Char] {g : Stage} {k : Script} {t : Operator.Table}

/-- **A text that is a single expression** is read as it is dictated. -/
theorem parseAll_expression {e : Expr} (hreads : e.Reads k.table) (hwords : k.words = e.words) :
    Mirrors g k (k.on []) (parseAll : Run (Session σ) (List Statement))
      ((fun e => [.expression e]) <$> e.dictate k.table) := by
  obtain ⟨w, words, he, hbegins⟩ := e.exists_words hreads
  have hbegins : beginsStatement w.kind = true := by
    unfold beginsStatement
    rw [hbegins, Bool.or_true]
  have hread (depth : Nat) : Mirrors g (k.on (w :: words)) (k.on [])
      (statement depth : Run (Session σ) Statement) (do return .expression (← e.dictate k.table)) := by
    cases depth with
    | zero => exact fun _ _ _ _ _ _ _ _ => .inl rfl
    | succ depth =>
      have hsame : (k.on (w :: words)).words = e.words ++ [] := by rw [List.append_nil, he]; rfl
      exact statementBy_expression (k := k.on (w :: words)) hreads hsame nofun
        (expression_mirrors (k := k.on (e.words ++ [])) hreads rfl stops_nil)
  have hround : MirrorsLoop g k (k.on [])
      (programRound : List Statement → Run (Session σ) (Run.Round (List Statement) (List Statement))) []
      (((fun statement => [statement]) <$> (do return .expression (← e.dictate k.table))) >>=
        fun before => Pure.pure before.reverse) := by
    have hend (before : List Statement) := program_end (σ := σ) (g := g) (k := k.on []) rfl before
    refine .again ?_ hend
    rw [Functor.map_map, map_eq_pure_bind]
    have hparse := parseStatement_mirrors (hwords.trans he) hbegins (.inr ⟨rfl, rfl⟩) hread
    exact hparse.bind_map fun s => .pure _
  simp only [map_eq_pure_bind, bind_assoc, pure_bind, List.reverse_singleton] at hround
  rw [map_eq_pure_bind]
  exact hround.iterate

/-- What comes of a text that is laid out as the words of an expression. -/
theorem parseAll_of_laid {source : σ} {text : List Char} {e : Expr} (hreads : e.Reads t)
    (hlaid : Laid {} (· = t) text e.words) (hne : endOfInput ∉ text)
    (hsource : Supply.Delivers source (text.map admitted)) (hmarker : Source.endMarker source = endOfInput) :
    (∃ s, parseAll (Session.ofSource source {} t) = .ok [.expression e] s) ∨
      ∃ f s, parseAll (Session.ofSource source {} t) = .error f s ∧ Overflows {} text.length f s := by
  obtain ⟨m, hperforms, -⟩ := Netlist.Vacant.performs (n := {}) ⟨rfl, rfl⟩ t e
  have hdictated := Circuit.Dictation.map_ok (Expr.dictate_of_performs hperforms [])
    fun e => [Statement.expression e]
  rw [admitted_text hne] at hsource
  have hmirrors := parseAll_expression (σ := σ) (g := ⟨text.length, {}, plain_default, (· = t)⟩)
    (k := { words := e.words, table := t }) hreads rfl
  refine (parseAll_of_enacts (T := (· = t)) rfl hsource hmarker hne hlaid
    (hmirrors {} [] _ _ _ hdictated)).imp ?_ id
  rintro ⟨_, s, hparsed, rfl, -⟩
  exact ⟨s, hparsed⟩

/-- **A tree that is shown is read again**, if its text fits. -/
theorem reparsed_of_parsed {text : String} {source : σ} {again : τ} {e : Expr} {s : Session σ} (ht : t.Neutral)
    (hsource : Supply.Delivers source (text.toList.map admitted))
    (hmarker : Source.endMarker source = endOfInput)
    (hparsed : parseAll (Session.ofSource source {} t) = .ok [.expression e] s) (hquotes : e.Unquoted)
    (hagain : Supply.Delivers again (e.text.toList.map admitted))
    (hmarker' : Source.endMarker again = endOfInput) :
    (∃ s', parseAll (Session.ofSource again {} t) = .ok [.expression e] s') ∨
      ∃ f s', parseAll (Session.ofSource again {} t) = .error f s' ∧ Overflows {} e.text.length f s' := by
  have hsees : (Session.ofSource source {} t).Sees { lexer := Lexer.ofSource source {} t } :=
    Cursor.sees_ofSource _ _
  have hstems : e.Stems t (Occurs t) :=
    stems_of_parseAll hsees (hands_ofSource hsource hmarker Cursor.ne_endOfInput_of_text) hparsed
  have hreads := hstems.reads ht
  have hlegible := hstems.legible ht hquotes
  have hshuts : Shuts [] := nofun
  have hlaid := hreads.laid hquotes hlegible hshuts (.done nofun)
  simp only [List.append_nil] at hlaid
  have hne : endOfInput ∉ e.text.toList := hlaid.endOfInput_notMem fun w hw => (hlegible w hw).marker
  exact parseAll_of_laid hreads hlaid hne hagain hmarker'

/-- Operators in front of operands, between and behind them, calls, a symbol that is called with more operands
than it has, and groups of all four shapes. -/
theorem reparsed_of_parsed_forms : ∃ (text : String) (e : Expr) (s s' : Session (Items Char)),
    text = "\x7b[-a + b!, +(c, d, 1)], ⟨F.G(2.5e-3, x)⟩, (a * (b), [])\x7d" ∧
    e.text = "\x7b[Factorial(Add(Negate(a), b)), +(c, d, 1)], ⟨F.G(2.5e-3, x)⟩, (Multiply(a, b), [])\x7d" ∧
    parseAll (Session.ofSource (Items.ofText text) {} .standard) = .ok [.expression e] s ∧
    parseAll (Session.ofSource (Items.ofText e.text) {} .standard) = .ok [.expression e] s' := by
  generalize htree : Expr.group .set [
    .group .vector [.apply "Factorial" [.apply "Add" [.apply "Negate" [.signal "a"], .signal "b"]],
      .apply "+" [.signal "c", .signal "d", .integer "1"]],
    .group .scalar [.apply "F.G" [.real "2.5e-3", .signal "x"]],
    .group .list [.apply "Multiply" [.signal "a", .signal "b"], .group .vector []]] = e
  have hparsed := Run.eq_ok_of_answer? (r := parseAll (Session.ofSource (Items.ofText
    "\x7b[-a + b!, +(c, d, 1)], ⟨F.G(2.5e-3, x)⟩, (a * (b), [])\x7d") {} .standard)) (a := [.expression e])
    (by rw [← htree]; decide +kernel)
  have hquotes : e.Unquoted := by
    rw [← htree]
    simp only [Expr.Unquoted, Expr.UnquotedAll, and_self]
  have hshort : ¬ ({} : Dialect).limits.Exceeded (e.text.length + 2) := by
    rw [← htree, Limits.Exceeded]
    decide +kernel
  have hsource : Supply.Delivers (Items.ofText e.text) (e.text.toList.map admitted) := rfl
  have hagain := reparsed_of_parsed (by decide +kernel) rfl rfl hparsed hquotes hsource rfl
  rcases hagain with ⟨s', hparsed'⟩ | ⟨_, _, _, hoverflows⟩
  · exact ⟨_, e, _, s', rfl, by rw [← htree]; decide +kernel, hparsed, hparsed'⟩
  · exact absurd hoverflows.long hshort

end Parser

/-! ### The proviso -/

/-- Ones in brackets, the last one of which has so many zeros in its exponent. -/
def Circuit.Expr.ones (n : Nat) : Expr :=
  .group .vector [.integer "1", .integer "1", .integer "1", .real (String.ofList (oneWithZeros n))]

namespace Lexer

variable {t : Operator.Table} {n : Nat}

/-- The ones before the last one, with these blanks behind separators. -/
def onesFront (blanks : List Char) : List Char :=
  '[' :: '1' :: ',' :: (blanks ++ '1' :: ',' :: (blanks ++ '1' :: ',' :: blanks))

/-- Ones in brackets, with these blanks behind separators. -/
def onesText (blanks : List Char) (n : Nat) : List Char := onesFront blanks ++ (oneWithZeros n ++ [']'])

theorem text_ones (n : Nat) : (Expr.ones n).text.toList = onesText [' '] n := by
  simp [Expr.ones, Expr.text, Expr.textAll, Expr.brackets, onesText, onesFront]

theorem endOfInput_notMem_onesText {blanks : List Char} (h : endOfInput ∉ onesFront blanks) (n : Nat) :
    endOfInput ∉ onesText blanks n := by
  simp only [onesText, List.mem_append, not_or]
  exact ⟨h, endOfInput_not_mem_oneWithZeros n, by decide⟩

theorem laid_ones (hn : n ≠ 0) (t : Operator.Table) : Laid {} (· = t) (onesText [] n) (Expr.ones n).words := by
  obtain ⟨_, rfl, hone⟩ := (show ScansAs (· = .integer) "1" by decide +kernel).writable
    fun _ hkind => .inr (hkind ▸ rfl)
  obtain ⟨_, rfl, hlast⟩ := (scansAs_oneWithZeros hn).writable fun _ hkind => .inr (hkind ▸ rfl)
  have hnumber {w : Word} {rest : List Char} {words : List Word} (hrest : Laid {} (· = t) rest words)
      (hw : Lexes {} t w) (hkind : w.kind ≠ .symbol) (hshuts : Shuts rest) :
      Laid {} (· = t) (Dialect.written {} w ++ rest) (w :: words) :=
    hrest.cons hw (hw.severed (behind_of_shuts hshuts hkind))
  have hcomma : Word.separator ∈ markWords := List.mem_cons_self
  have hend : Laid {} (· = t) [] [] := .done nofun
  have hclosing : Laid {} (· = t) [']'] [.closing .vector] := hend.mark (Expr.closing_mem .vector)
  have hfourth := hnumber hclosing (hlast.lexes t) nofun (shuts_mark (Expr.closing_mem .vector) [])
  have hthird := hnumber (hfourth.mark hcomma) (hone.lexes t) nofun (shuts_mark hcomma _)
  have hsecond := hnumber (hthird.mark hcomma) (hone.lexes t) nofun (shuts_mark hcomma _)
  have hfirst := hnumber (hsecond.mark hcomma) (hone.lexes t) nofun (shuts_mark hcomma _)
  have hlaid := hfirst.mark (Expr.opening_mem .vector)
  simpa [onesText, onesFront, Expr.ones, Expr.words, Expr.wordsAll, Dialect.written, Word.opening, Expr.brackets,
    Word.separator] using hlaid

/-- Up to the last exponent, the window of a lexer holds all of the text. -/
theorem mantissa_ones (t : Operator.Table) (rest : List Char) : Run.answer? ((do
      let tokens ← nexts 7
      let _ ← peek 0
      let _ ← bump
      let _ ← peek 0
      let _ ← mantissa {}
      return (tokens.map Token.kind, (← get).input.offset))
        (Lexer.ofSource ⟨onesFront [' '] ++ '1' :: '.' :: '0' :: 'e' :: rest, endOfInput, _, rfl⟩ {} t :
          Lexer (Items Char))) =
    some ([.opening .vector, .integer, .separator, .integer, .separator, .integer, .separator], 13) := by
  cbv

theorem scans_onesFront (t : Operator.Table) (total : Nat) (rest : List Char) : ∃ tokens q,
    Scans ⟨total, {}, t⟩ ⟨onesFront [' '] ++ rest, {}⟩ tokens q ∧ tokens.length = 7 ∧ q.text = ' ' :: rest := by
  have h : (Place.nexts {} t 7 ⟨onesFront [' '] ++ rest, {}⟩).map (fun reply => (reply.1.length, reply.2.text)) =
      some (7, ' ' :: rest) := by
    cbv
  obtain ⟨⟨tokens, q⟩, hnexts, hreply⟩ := Option.map_eq_some_iff.1 h
  obtain ⟨hlength, htext⟩ := Prod.mk.inj hreply
  exact ⟨tokens, q, scans_of_nexts hnexts, hlength, htext⟩

/-- **A number that does not fit any more.** There is room for the exponent behind the text without blanks,
but not behind the text with them. -/
theorem stuck_ones (hn : 1048562 ≤ n) (t : Operator.Table) : ∃ tokens l,
    nexts tokens.length (Lexer.ofSource ⟨onesText [' '] n, endOfInput, _, rfl⟩ {} t : Lexer (Items Char)) =
      .ok tokens l ∧
    (tokens.map Token.kind =
      [.opening .vector, .integer, .separator, .integer, .separator, .integer, .separator]) ∧ Stuck l := by
  have hne : endOfInput ∉ onesText [' '] n := endOfInput_notMem_onesText (by decide) n
  have hsource : Supply.Delivers (⟨onesText [' '] n, endOfInput, _, rfl⟩ : Items Char) (onesText [' '] n) :=
    Items.delivers_iff.2 rfl
  have hpoised := poised_ofSource (σ := Items Char) (d := {}) (t := t) (by decide) hsource rfl
    fun c hc => ne_of_mem_of_not_mem hc hne
  obtain ⟨tokens', q, hscans, hlength', htext⟩ := scans_onesFront t _ (oneWithZeros n ++ [']'])
  obtain ⟨tokens, l, hnexts, h⟩ := Run.exists_of_answer?_bind (mantissa_ones t (List.replicate n '0' ++ [']']))
  obtain ⟨_, l₁, hpeek, h⟩ := Run.exists_of_answer?_bind h
  obtain ⟨_, l₂, hbump, h⟩ := Run.exists_of_answer?_bind h
  obtain ⟨_, l₃, hpeek', h⟩ := Run.exists_of_answer?_bind h
  obtain ⟨_, l₄, hmantissa, h⟩ := Run.exists_of_answer?_bind h
  obtain ⟨hkinds, hoffset⟩ := Prod.mk.inj (Option.some.inj h)
  have hlength : tokens.length = 7 := by simpa using congrArg List.length hkinds
  have hfit : Bounds.Fit ⟨0, 0, 2⟩ ({} : Dialect).limits := ⟨by decide, by decide⟩
  have hbehind := ((hpoised.nexts hfit hscans).of_ok (hlength' ▸ hnexts)).2
  have hblank : Dialect.isBlank {} ' ' = true := by decide +kernel
  refine ⟨tokens, l, hlength ▸ hnexts, hkinds, ?_⟩
  refine stuck_of_blank hfit hbehind htext hblank (by decide) fun c l₁' c' l₂' hc hc' hpoised' => ?_
  cases hpeek.symm.trans hc
  cases hbump.symm.trans hc'
  have htext' : (q.skip 1).text = oneWithZeros n ++ [']'] := by rw [Place.text_skip, htext]; rfl
  refine stuck_of_oneWithZeros hpoised' htext' rfl (by omega) fun c'' l₃' found l₄' hc'' hfound => ?_
  cases hpeek'.symm.trans hc''
  cases hmantissa.symm.trans hfound
  omega

end Lexer

namespace Parser

variable {t : Operator.Table} {n : Nat}

theorem parseAll_ones (hn : n ≠ 0) (hshort : n + 14 ≤ 1048576) (t : Operator.Table) :
    ∃ s, parseAll (Session.ofSource (Items.ofText (String.ofList (onesText [] n))) {} t) =
      .ok [.expression (.ones n)] s := by
  have hreads : (Expr.ones n).Reads t := ⟨nofun, trivial, trivial, trivial, trivial, trivial⟩
  have hne : endOfInput ∉ onesText [] n := endOfInput_notMem_onesText (by decide) n
  have hsource : Supply.Delivers (Items.ofText (String.ofList (onesText [] n))) ((onesText [] n).map admitted) := by
    refine Items.delivers_iff.2 ?_
    show (String.ofList (onesText [] n)).toList.map admitted = _
    rw [String.toList_ofList]
  refine (parseAll_of_laid hreads (laid_ones hn t) hne hsource rfl).resolve_right ?_
  rintro ⟨_, _, _, hoverflows⟩
  have hlimit : ¬ ({} : Dialect).limits.Exceeded 1048576 := by
    rw [Limits.Exceeded]
    decide +kernel
  refine hlimit (hoverflows.long.mono ?_)
  simp only [onesText, onesFront, oneWithZeros, List.length_cons, List.length_append, List.length_replicate,
    List.length_nil]
  omega

theorem parseAll_text_ones (hn : 1048562 ≤ n) (t : Operator.Table) :
    ∃ e s, parseAll (Session.ofSource (Items.ofText (Expr.ones n).text) {} t) = .error e s := by
  have hne : endOfInput ∉ onesText [' '] n := endOfInput_notMem_onesText (by decide) n
  have hsource : Items.ofText (Expr.ones n).text = ⟨onesText [' '] n, endOfInput, _, rfl⟩ := by
    refine Items.ext ?_ rfl
    show (Expr.ones n).text.toList.map admitted = _
    rw [text_ones, admitted_text hne]
  obtain ⟨tokens, l, hnexts, hkinds, hstuck⟩ := stuck_ones hn t
  obtain ⟨e, l', hfails⟩ := hstuck.next
  rw [hsource]
  refine parseAll_fails (Cursor.sees_ofSource _ _) rfl hnexts hfails fun token htoken => ?_
  have hkind := List.mem_map_of_mem (f := Token.kind) htoken
  rw [hkinds] at hkind
  revert hkind
  generalize token.kind = kind
  revert kind
  decide

/-- The proviso is needed: the blanks that a tree is shown with take room. -/
theorem not_reparsed_of_long_exponent :
    Operator.Table.Neutral .standard ∧ (Expr.ones 1048562).Unquoted ∧
    (∃ s, parseAll (Session.ofSource (Items.ofText (String.ofList (onesText [] 1048562))) {} .standard) =
      .ok [.expression (.ones 1048562)] s) ∧
    ∃ e s, parseAll (Session.ofSource (Items.ofText (Expr.ones 1048562).text) {} .standard) = .error e s := by
  refine ⟨by decide +kernel, ⟨trivial, trivial, trivial, trivial, trivial⟩, ?_, ?_⟩
  · exact parseAll_ones (by decide) (by decide) .standard
  · exact parseAll_text_ones (Nat.le_refl _) .standard

end Parser

end Dataflow
