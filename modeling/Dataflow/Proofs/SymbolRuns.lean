import Dataflow.Proofs.Mentions
import Dataflow.Proofs.Tiling

/-!
# Dataflow.Proofs.SymbolRuns

**A symbol is the longest run that is registered.** The rule for symbols looks at one character
after the other, and remembers how far the last registered run went. It gives up at a character that
is not symbolic, at an arrow, and where no registered symbol goes on. None of this cuts a longer
registered run off: whatever is registered later begins with everything that has been looked at so
far, so that the search has not been given up before.

* `AtSymbol` — the rule for symbols is the first that applies;
* `SymbolRun` — a beginning of the text that is registered and may be read as one symbol;
* `LongestRun` — the longest of these up to some length, or a single character;
* `symbolLengthFrom_longest` — what one step of the search keeps, and so the whole search;
* `next_at_symbol` — the token, and where the lexer is behind it.
-/

namespace Dataflow.Lexer

open Reading Text

/-- The rule for symbols is the first that applies at the front of the text. -/
structure AtSymbol (d : Dialect) (text : List Char) : Prop where
  symbolic : isSymbolic (charAt text 0) = true
  quote : charAt text 0 ≠ d.quote
  digit : (charAt text 0).isDigit = false
  sign : ¬ ((charAt text 0 = '@' ∨ charAt text 0 = '#') ∧ isNameStart (charAt text 1) = true)
  name : isNameStart (charAt text 0) = false
  arrow : arrow? (charAt text 0) (charAt text 1) = none
  opening : d.opening? (charAt text 0) = none
  closing : d.closing? (charAt text 0) = none
  executor : charAt text 0 ≠ d.executor
  separator : charAt text 0 ≠ d.separator

/-- The character `k` places ahead goes on a symbol: it is symbolic, and no arrow starts there. -/
def GoesOn (text : List Char) (k : Nat) : Prop :=
  isSymbolic (charAt text k) = true ∧ arrow? (charAt text k) (charAt text (k + 1)) = none

/-- The first `n` characters are registered as a symbol, and those behind the first go on one. -/
structure SymbolRun (t : Operator.Table) (text : List Char) (n : Nat) : Prop where
  two_le : 2 ≤ n
  le_length : n ≤ text.length
  registered : t.contains (String.ofList (text.take n)) = true
  goesOn : ∀ k, 1 ≤ k → k < n → GoesOn text k

/-- Of the registered runs of at most `k` characters the longest has `n`; where there is none, `n` is
one. -/
structure LongestRun (t : Operator.Table) (text : List Char) (k n : Nat) : Prop where
  found : n = 1 ∨ SymbolRun t text n
  longest : ∀ m ≤ k, SymbolRun t text m → m ≤ n

variable {t : Operator.Table} {text : List Char} {k n : Nat}

/-- Where a run goes further, the table has a symbol that begins with what comes before. -/
theorem SymbolRun.extends (h : SymbolRun t text n) (hk : k ≤ n) :
    t.extendsToSymbol (String.ofList (text.take k)) = true := by
  have hsplit : text.take n = text.take k ++ (text.drop k).take (n - k) := by
    rw [← List.take_add, Nat.add_sub_cancel' hk]
  have hregistered := h.registered
  rw [hsplit] at hregistered
  exact extendsToSymbol_of_contains hregistered

theorem longestRun_one (t : Operator.Table) (text : List Char) : LongestRun t text 1 1 where
  found := .inl rfl
  longest _ hm _ := hm

namespace LongestRun

/-- One more character makes the run longer if it is registered with it. -/
theorem step (h : LongestRun t text k n) (hk : 1 ≤ k) (hlt : k < text.length)
    (hgoes : ∀ j, 1 ≤ j → j < k + 1 → GoesOn text j) :
    LongestRun t text (k + 1)
      (if t.contains (String.ofList (text.take (k + 1))) then k + 1 else n) := by
  split
  · next hregistered =>
    exact ⟨.inr ⟨by omega, hlt, hregistered, hgoes⟩, fun m hm _ => hm⟩
  · next hregistered =>
    refine ⟨h.found, fun m hm hrun => ?_⟩
    have hne : m ≠ k + 1 := by
      intro hm
      subst hm
      exact hregistered hrun.registered
    exact h.longest m (by omega) hrun

/-- Where the search is given up there is nothing to be found behind. -/
theorem stop (h : LongestRun t text k n) (hk : 1 ≤ k)
    (hstop : GoesOn text k → t.extendsToSymbol (String.ofList (text.take (k + 1))) = false) :
    LongestRun t text text.length n := by
  refine ⟨h.found, fun m _ hrun => ?_⟩
  have hle : m ≤ k := by
    refine Nat.le_of_not_lt fun hkm => ?_
    have hextends := hrun.extends (k := k + 1) hkm
    rw [hstop (hrun.goesOn k hk hkm)] at hextends
    cases hextends
  exact h.longest m hle hrun

end LongestRun

/-- The search, from where it has looked at `k` characters: those behind the first go on a symbol, and
`best` is the longest run among them. -/
theorem symbolLengthFrom_longest {best : Nat} {rest : List Char} (hrest : text.drop k = rest)
    (hk : 1 ≤ k) (hgoes : ∀ j, 1 ≤ j → j < k → GoesOn text j) (hbest : LongestRun t text k best) :
    LongestRun t text text.length (symbolLengthFrom t (text.take k) best rest) := by
  induction rest generalizing k best with
  | nil =>
    -- All of the text has been looked at.
    rw [symbolLengthFrom]
    have hlength : text.length ≤ k := List.drop_eq_nil_iff.1 hrest
    exact ⟨hbest.found, fun m hm hrun => hbest.longest m (Nat.le_trans hm hlength) hrun⟩
  | cons c rest ih =>
    obtain ⟨hlt, htake, hdrop⟩ := further_of_drop hrest
    have hc : charAt text k = c := charAt_of_drop hrest 0
    have hnext : charAt text (k + 1) = charAt rest 0 := charAt_of_drop hrest 1
    have hlength : (text.take k).length = k := by
      rw [List.length_take]
      omega
    have hgoesOn : GoesOn text k ↔ isSymbolic c = true ∧ (arrow? c (charAt rest 0)).isNone = true := by
      unfold GoesOn
      rw [hc, hnext, Option.isNone_iff_eq_none]
    rw [symbolLengthFrom, htake, hlength]
    split
    · next hgo =>
      have hgoes' : ∀ j, 1 ≤ j → j < k + 1 → GoesOn text j := by
        intro j hj hjk
        by_cases hjk' : j = k
        · rw [hjk']
          exact hgoesOn.2 ⟨hgo.1, hgo.2.1⟩
        · exact hgoes j hj (by omega)
      exact ih hdrop (Nat.le_add_left 1 k) hgoes' (hbest.step hk hlt hgoes')
    · next hgo =>
      refine hbest.stop hk fun hgoesk => ?_
      obtain ⟨hsymbolic, harrow⟩ := hgoesOn.1 hgoesk
      simpa [hsymbolic, harrow] using hgo

/-- The rule for symbols finds the longest run. -/
theorem symbolLexeme_longest (t : Operator.Table) (hne : text ≠ []) :
    ∃ n, LongestRun t text text.length n ∧ symbolLexeme t text = .plain .symbol text n := by
  have hfirst : [charAt text 0] = text.take 1 := (take_one (List.length_pos_iff.2 hne)).symm
  refine ⟨_, ?_, rfl⟩
  rw [hfirst]
  exact symbolLengthFrom_longest rfl (Nat.le_refl 1) (fun j hj hj' => by omega) (longestRun_one t text)

namespace AtSymbol

variable {d : Dialect}

theorem ne_nil (h : AtSymbol d text) : text ≠ [] :=
  ne_nil_of_charAt (ne_endOfInput_of_isSymbolic h.symbolic)

theorem lexeme_eq (h : AtSymbol d text) (t : Operator.Table) :
    lexeme d t text = .ok (symbolLexeme t text) := by
  have hend := ne_endOfInput_of_isSymbolic h.symbolic
  simp [lexeme, punctuationLexeme, h.symbolic, h.quote, h.digit, h.sign, h.name, h.arrow, h.opening,
    h.closing, h.executor, h.separator, hend]

end AtSymbol

/-- **Symbol tokens are the longest registered match.** Where the rule for symbols is reached behind the
blanks, the next token is the longest registered run there, or a single character, and exactly its
characters are consumed; unless the buffer has no room for the search. -/
theorem next_at_symbol {σ : Type} [Supply σ Char] {g : Setting} {l : Lexer σ} {p q : Place}
    {saved : List Place} (h : Reads g l p saved)
    (hq : p.skip (blankLength g.dialect p.text) = q) (hat : AtSymbol g.dialect q.text) :
    ∃ n, LongestRun g.table q.text q.text.length n ∧
      Gives g saved (next l) (q.token (.plain .symbol q.text n)) (q.skip n) := by
  obtain ⟨n, hlongest, hlexeme⟩ := symbolLexeme_longest g.table hat.ne_nil
  have hnext : p.next g.dialect g.table =
      .ok (q.token (.plain .symbol q.text n), q.skip n) := by
    rw [Place.next, hq, hat.lexeme_eq, hlexeme]
    rfl
  refine ⟨n, hlongest, ?_⟩
  have hmeets := next_reads h
  rw [hnext] at hmeets
  refine hmeets.mono ?_ ?_
  · rintro token l' ⟨r, hr, hreads⟩
    cases hr
    exact ⟨rfl, hreads⟩
  · rintro e l' (hexcused | ⟨cause, hcause, -⟩)
    · exact hexcused
    · cases hcause

/-- A symbol is read whole, though not all of its beginnings are registered. -/
theorem next_at_comparison :
    let text := " <=>!a".toList
    let g : Setting := ⟨text.length, {}, .insertAll {} [
      { entity := "LessEqual", symbol := "<=", form := .infixLeft, precedence := 70 },
      { entity := "Compare", symbol := "<=>!", form := .infixLeft, precedence := 70 }]⟩
    let q := (⟨text, {}⟩ : Place).skip (blankLength g.dialect text)
    Reads g (ofSource (Items.ofText " <=>!a") g.dialect g.table) ⟨text, {}⟩ [] ∧
      AtSymbol g.dialect q.text ∧ ∃ n, LongestRun g.table q.text q.text.length n ∧
        Gives g [] (next (ofSource (Items.ofText " <=>!a") g.dialect g.table))
          (q.token (.plain .symbol q.text n)) (q.skip n) := by
  intro text g q
  have hmarker : endOfInput ∉ text := by decide
  have hreads : Reads g (ofSource (Items.ofText " <=>!a") g.dialect g.table) ⟨text, {}⟩ [] :=
    reads_ofSource rfl rfl fun c hc hend => hmarker (hend ▸ hc)
  have hat : AtSymbol g.dialect q.text := by
    constructor <;> decide +kernel
  exact ⟨hreads, hat, next_at_symbol hreads rfl hat⟩

/-- A buffer for eight characters has no room to look for a symbol of nine. -/
theorem not_longest_under_limits :
    ¬ ∀ (g : Setting) (l : Lexer (Items Char)) (p q : Place) (saved : List Place),
      Reads g l p saved → p.skip (blankLength g.dialect p.text) = q → AtSymbol g.dialect q.text →
      ∃ n l', LongestRun g.table q.text q.text.length n ∧
        next l = .ok (q.token (.plain .symbol q.text n)) l' := by
  intro hclaim
  let text := "!!!!!!!!!".toList
  let g : Setting := ⟨text.length, { limits := ⟨8, 8⟩ }, .insertAll {} [
    { entity := "Mark", symbol := "!!!!!!!!!", form := .postfixOp, precedence := 5 }]⟩
  have hmarker : endOfInput ∉ text := by decide
  have hreads : Reads g (ofSource (Items.ofText "!!!!!!!!!") g.dialect g.table) ⟨text, {}⟩ [] :=
    reads_ofSource rfl rfl fun c hc hend => hmarker (hend ▸ hc)
  have hat : AtSymbol g.dialect
      ((⟨text, {}⟩ : Place).skip (blankLength g.dialect text)).text := by
    constructor <;> decide +kernel
  obtain ⟨n, l', -, hnext⟩ := hclaim g _ _ _ [] hreads rfl hat
  have hnone : (Run.answer? (next (ofSource (Items.ofText "!!!!!!!!!") g.dialect g.table))).isNone
      = true := by decide +kernel
  rw [hnext] at hnone
  cases hnone

end Dataflow.Lexer
