import Dataflow.Proofs.Phrases

/-!
# Dataflow.Proofs.Sentences

**What a statement takes is a sentence.** Each function that reads a part of a statement takes tokens
that are that part in the grammar, and the events of a whole statement make a sentence from the operators
before it to those behind it (`Produces`).

Alongside goes how far the parser reads ahead. A statement ends with at most one token in view; only
where names with separators between them turn out to be no targets, more of them are in view, and then
the second one is a separator, at which no statement can end. When the operator of a definition is
registered, the definition has been taken and exactly one token behind it has been scanned (`Prompt`).
-/

namespace Dataflow

open Reading Circuit Session Grammar

namespace Parser

variable {σ : Type} [Source σ Char] {s : Session σ} {v w : Sight σ} {t : Operator.Table}

/-! ### What a statement leads to -/

/-- Wherever an operator is registered, the definition that registers it has just been taken, and one
token behind it has been scanned. -/
def Prompt (ahead : List Token) (es : List Event) : Prop :=
  ∀ before op behind, es = before ++ .registered op :: behind →
    (∃ token, ahead ++ scannedIn before = takenIn before ++ [token]) ∧
      ∃ front tokens e, takenIn before = front ++ tokens ∧ Definition tokens e ∧ op = e.operator

theorem Prompt.quiet {ahead : List Token} {es : List Event} (h : registeredIn es = []) :
    Prompt ahead es := by
  rintro before op behind rfl
  simp at h

theorem Prompt.append {es fs : List Event} (h : Prompt v.ahead es) (hes : v.Becomes es w)
    (h' : Prompt w.ahead fs) : Prompt v.ahead (es ++ fs) := by
  intro before op behind hsplit
  -- A registration in the second part stands behind all of the first one.
  have hsecond : ∀ more, before = es ++ more → fs = more ++ .registered op :: behind →
      (∃ token, v.ahead ++ scannedIn before = takenIn before ++ [token]) ∧
        ∃ front tokens e, takenIn before = front ++ tokens ∧ Definition tokens e ∧ op = e.operator := by
    rintro more rfl hfs
    obtain ⟨⟨token, htoken⟩, front, tokens, e, hfront, hdefinition, hop⟩ := h' more op behind hfs
    refine ⟨⟨token, ?_⟩, takenIn es ++ front, tokens, e, ?_, hdefinition, hop⟩
    · rw [scannedIn_append, ← List.append_assoc, hes.ahead, List.append_assoc, htoken, takenIn_append,
        List.append_assoc]
    · rw [takenIn_append, hfront, List.append_assoc]
  obtain ⟨more, hbefore, hfs⟩ | ⟨rest, hes', hrest⟩ := List.append_eq_append_iff.1 hsplit
  · exact hsecond more hbefore hfs
  · cases rest with
    | nil => exact hsecond [] (by simpa using hes'.symm) (by simpa using hrest.symm)
    | cons e rest =>
      obtain ⟨rfl, -⟩ := List.cons.inj hrest
      exact h before op rest hes'

/-- Nothing is registered behind the last events. -/
theorem Prompt.quietly {es fs : List Event} (h : Prompt v.ahead es) (hes : v.Becomes es w)
    (hquiet : registeredIn fs = []) : Prompt v.ahead (es ++ fs) :=
  h.append hes (.quiet hquiet)

omit [Source σ Char] in
/-- A definition, and its registration with one token ahead. -/
theorem Prompt.define {before : List Event} {e : Entity} (hquiet : registeredIn before = [])
    (hone : ∃ token, v.ahead ++ scannedIn before = takenIn before ++ [token])
    (hdefinition : Definition (takenIn before) e) :
    Prompt v.ahead (before ++ [.registered e.operator]) := by
  intro before' op behind hsplit
  obtain ⟨more, rfl, hmore⟩ | ⟨rest, rfl, hrest⟩ := List.append_eq_append_iff.1 hsplit
  · obtain rfl : more = [] := by
      cases more with
      | nil => rfl
      | cons e more => simp at hmore
    obtain ⟨rfl, -⟩ : e.operator = op ∧ behind = [] := by simpa using hmore
    rw [List.append_nil]
    exact ⟨hone, [], _, e, rfl, hdefinition, rfl⟩
  · cases rest with
    | nil =>
      obtain ⟨hop, -⟩ : op = e.operator ∧ behind = [] := by simpa using hrest
      rw [List.append_nil] at hone hdefinition
      exact ⟨hone, [], _, e, rfl, hdefinition, hop⟩
    | cons first rest =>
      obtain ⟨rfl, -⟩ := List.cons.inj hrest
      simp at hquiet

/-- At most one token is in view, or a separator comes next, at which no statement ends. -/
def Halted (w : Sight σ) : Prop :=
  w.ahead.length ≤ 1 ∨ ∃ token rest, w.ahead = token :: rest ∧ token.kind = .separator

omit [Source σ Char] in
/-- Where a token of another kind than a separator is at the cursor, a halted sight has at most one
token in view. -/
theorem Halted.length_le {token : Token} (h : Halted w) (hhead : ∀ t ∈ w.ahead.head?, t = token)
    (hkind : token.kind ≠ .separator) : w.ahead.length ≤ 1 := by
  rcases h with h | ⟨first, rest, hfirst, hseparator⟩
  · exact h
  · obtain rfl := hhead first (by rw [hfirst]; exact rfl)
    exact absurd hseparator hkind

/-- Looking at the token at the cursor changes nothing in that. -/
theorem Halted.of_passes (h : Halted v) (hpasses : v.Passes [] w)
    (hlength : w.ahead.length = max v.ahead.length 1) : Halted w := by
  rcases h with h | ⟨first, rest, hfirst, hseparator⟩
  · exact .inl (by omega)
  · obtain ⟨others, hothers⟩ := List.head?_eq_some_iff.1 (hpasses.head_eq hfirst)
    exact .inr ⟨first, others, hothers, hseparator⟩

/-- From a sight with at most one token in view, operators are registered as they should. -/
def Timely (v : Sight σ) (es : List Event) : Prop := v.ahead.length ≤ 1 → Prompt v.ahead es

omit [Source σ Char] in
theorem Timely.quiet {es : List Event} (h : registeredIn es = []) : Timely v es :=
  fun _ => .quiet h

/-- What happens between the two sights makes a sentence, and no more is read ahead than it takes. -/
def Produces (role : Role) (v : Sight σ) (es : List Event) (w : Sight σ) : Prop :=
  Sentence role v.lexer.table (takenIn es) w.lexer.table ∧
    (v.ahead.length ≤ 1 → Prompt v.ahead es ∧ Halted w)

/-! ### Names -/

theorem name_reads (h : s.Sees v) :
    Reads v (fun name tokens w => (∃ token, tokens = [token] ∧ token.kind.isTextIdentifier = true ∧
      name = token.text) ∧ w.ahead.length = v.ahead.length - 1) (name s) := by
  refine (peekKind_reads h).bind ?_
  rintro _ t₁ _ w₁ - hsees₁ ⟨rfl, ⟨token, rest, hrest, rfl⟩, hlength⟩
  split
  · next hkind =>
    refine (consume_known hsees₁ hrest).bind ?_
    rintro _ t₂ _ w₂ - hsees₂ ⟨rfl, rfl, hahead⟩
    refine .pure hsees₂ ⟨⟨token, rfl, hkind, rfl⟩, ?_⟩
    rw [hahead, List.length_tail]
    omega
  · exact mismatch_reads hsees₁ _

theorem names_reads (h : s.Sees v) :
    Reads v (fun names tokens w => Names tokens names ∧ (v.ahead.length ≤ 1 → w.ahead.length = 1))
      (names s) := by
  refine (name_reads h).bind ?_
  rintro _ t₁ _ w₁ - hsees₁ ⟨⟨token, rfl, hkind, rfl⟩, hlength₁⟩
  refine Reads.iterate (I := fun names tokens w => Names ([token] ++ tokens) names.reverse ∧
    (v.ahead.length ≤ 1 → w.ahead.length ≤ 1)) hsees₁ ⟨by simpa using Names.one hkind, by omega⟩ ?_
  rintro names tokens w t₂ - hsees₂ ⟨hnames, hone⟩
  refine (accept_reads hsees₂ _).bind ?_
  rintro (_ | _) t₃ _ w₃ - hsees₃ haccepted
  · obtain ⟨rfl, -, hlength₃⟩ := haccepted
    refine .pure hsees₃ ⟨by simpa using hnames, fun hshort => ?_⟩
    have := hone hshort
    omega
  · obtain ⟨separator, rfl, hseparator, hahead, -⟩ := haccepted
    refine (name_reads hsees₃).bind ?_
    rintro _ t₄ _ w₄ - hsees₄ ⟨⟨next, rfl, hnext, rfl⟩, hlength₄⟩
    refine .pure hsees₄ ⟨?_, fun hshort => ?_⟩
    · simpa using Names.more hnames hseparator hnext
    · have := hone hshort
      rw [hahead, List.length_tail] at hlength₄
      omega

/-- Names behind what opens a clause of them. -/
theorem nameClause_reads {opens : Token → Prop} {x : Run (Session σ) Bool}
    (hx : Reads v (Matched v opens) (x s)) :
    Reads v (fun names tokens w => NameClause opens tokens names ∧
      (v.ahead.length ≤ 1 → w.ahead.length = 1))
      ((do if ← x then names else return [] : Run (Session σ) (List String)) s) := by
  refine hx.bind ?_
  rintro (_ | _) t₁ tokens w₁ - hsees₁ haccepted
  · obtain ⟨rfl, -, hlength⟩ := haccepted
    exact .pure hsees₁ ⟨.absent, by omega⟩
  · obtain ⟨token, rfl, hopens, hahead, -⟩ := haccepted
    refine (names_reads hsees₁).mono ?_
    rintro names tokens w - ⟨hnames, hlength⟩
    refine ⟨.present hopens hnames, fun hshort => hlength ?_⟩
    rw [hahead, List.length_tail]
    omega

theorem namesAfterWord_reads (h : s.Sees v) (word : String) :
    Reads v (fun names tokens w => NameClause (·.isWord word = true) tokens names ∧
      (v.ahead.length ≤ 1 → w.ahead.length = 1)) (namesAfterWord word s) :=
  nameClause_reads (acceptWord_reads h word)

theorem busNames_reads (h : s.Sees v) :
    Reads v (fun names tokens w => NameClause (·.kind = .bus) tokens names ∧
      (v.ahead.length ≤ 1 → w.ahead.length = 1)) (busNames s) :=
  nameClause_reads (accept_reads h .bus)

theorem entityReference_reads (h : s.Sees v) :
    Reads v (fun _ tokens w => (∃ token, tokens = [token] ∧ Reference token) ∧
      w.ahead.length = v.ahead.length - 1) (entityReference s) := by
  refine (peekKind_reads h).bind ?_
  rintro _ t₁ _ w₁ - hsees₁ ⟨rfl, ⟨token, rest, hrest, rfl⟩, hlength⟩
  split
  · next hkind =>
    refine (consume_known hsees₁ hrest).bind ?_
    rintro _ t₂ _ w₂ - hsees₂ ⟨rfl, rfl, hahead⟩
    refine .pure hsees₂ ⟨⟨token, rfl, hkind⟩, ?_⟩
    rw [hahead, List.length_tail]
    omega
  · exact mismatch_reads hsees₁ _

/-! ### Definitions -/

theorem adjacentSymbols_reads (h : s.Sees v) {front : List Token} {text : String} {stop : Text.Position}
    (hfront : Grammar.Run front text stop) :
    Reads v (fun text tokens w => (∃ stop, Grammar.Run (front ++ tokens) text stop) ∧
      (v.ahead.length ≤ 1 → w.ahead.length = 1)) (adjacentSymbols text stop s) := by
  refine Reads.iterate (I := fun read tokens w => Grammar.Run (front ++ tokens) read.1 read.2 ∧
    (v.ahead.length ≤ 1 → w.ahead.length ≤ 1)) h ⟨by simpa using hfront, id⟩ ?_
  rintro ⟨text, stop⟩ tokens w t₁ - hsees₁ ⟨hrun, hone⟩
  refine (peek_reads hsees₁).bind ?_
  rintro token t₂ _ w₂ - hsees₂ ⟨rfl, ⟨rest, hrest⟩, hlength⟩
  have hdone : v.ahead.length ≤ 1 → w₂.ahead.length = 1 := fun hshort => by
    have := hone hshort
    omega
  show Reads _ _ ((if token.kind = .symbol ∧ token.span.start = stop then do
      let token ← consume
      return .again (text ++ token.text, token.span.stop)
    else return .done text : Run (Session σ) (Run.Round (String × Text.Position) String)) t₂)
  split
  · next hbeside =>
    refine (consume_known hsees₂ hrest).bind ?_
    rintro _ t₃ _ w₃ - hsees₃ ⟨rfl, rfl, hahead⟩
    refine .pure hsees₃ ⟨?_, fun hshort => ?_⟩
    · simpa using Grammar.Run.more hrun hbeside.1 hbeside.2
    · rw [hahead, List.length_tail]
      have := hdone hshort
      omega
  · exact .pure hsees₂ ⟨⟨stop, by simpa using hrun⟩, hdone⟩

theorem definedSymbol_reads (h : s.Sees v) :
    Reads v (fun symbol tokens w => DefinedSymbol tokens symbol ∧
      (v.ahead.length ≤ 1 → w.ahead.length ≤ 1)) (definedSymbol s) := by
  refine (peekKind_reads h).bind ?_
  rintro _ t₁ _ w₁ - hsees₁ ⟨rfl, ⟨token, rest, hrest, rfl⟩, hlength⟩
  split
  · next hkind =>
    refine (consume_known hsees₁ hrest).bind ?_
    rintro _ t₂ _ w₂ - hsees₂ ⟨rfl, rfl, hahead⟩
    refine .pure hsees₂ ⟨.word hkind, fun hshort => ?_⟩
    rw [hahead, List.length_tail]
    omega
  split
  · next hkind =>
    refine (consume_known hsees₁ hrest).bind ?_
    rintro _ t₂ _ w₂ - hsees₂ ⟨rfl, rfl, hahead⟩
    refine (adjacentSymbols_reads hsees₂ (.one hkind)).mono ?_
    rintro text tokens w - ⟨⟨stop, hrun⟩, hlength⟩
    refine ⟨.run hrun, fun hshort => Nat.le_of_eq (hlength ?_)⟩
    rw [hahead, List.length_tail]
    omega
  · exact mismatch_reads hsees₁ _

theorem definedNotation_reads (h : s.Sees v) :
    Reads v (fun form tokens w => (∃ token, tokens = [token] ∧ token.kind = .identifier ∧
      Notation.ofName? token.text = some form) ∧ w.ahead.length = v.ahead.length - 1)
      (definedNotation s) := by
  refine (peek_reads h).bind ?_
  rintro token t₁ _ w₁ - hsees₁ ⟨rfl, ⟨rest, hrest⟩, hlength⟩
  cases hform : Notation.ofName? token.text with
  | none => exact mismatch_reads hsees₁ _
  | some form =>
    dsimp only
    split
    · next hkind =>
      refine (consume_known hsees₁ hrest).bind ?_
      rintro _ t₂ _ w₂ - hsees₂ ⟨rfl, rfl, hahead⟩
      refine .pure hsees₂ ⟨⟨token, rfl, hkind, hform⟩, ?_⟩
      rw [hahead, List.length_tail]
      omega
    · exact mismatch_reads hsees₁ _

theorem definedPrecedence_reads (h : s.Sees v) :
    Reads v (fun precedence tokens w => DefinedPrecedence tokens precedence ∧
      (v.ahead.length ≤ 1 → w.ahead.length ≤ 1)) (definedPrecedence s) := by
  refine (peekKind_reads h).bind ?_
  rintro _ t₁ _ w₁ hpasses₁ hsees₁ ⟨rfl, ⟨token, rest, hrest, rfl⟩, hlength⟩
  dsimp only
  split
  · next hkind =>
    refine (peek_reads hsees₁).bind ?_
    rintro token' t₂ _ w₂ hpasses₂ hsees₂ ⟨rfl, ⟨rest₂, hrest₂⟩, hlength₂⟩
    obtain rfl : token = token' := by simpa [hrest₂] using (hpasses₂.head_eq hrest).symm
    split
    · next hsmall =>
      refine (consume_known hsees₂ hrest₂).bind ?_
      rintro _ t₃ _ w₃ - hsees₃ ⟨rfl, rfl, hahead⟩
      refine .pure hsees₃ ⟨.present hkind hsmall, fun hshort => ?_⟩
      rw [hahead, List.length_tail]
      omega
    · exact mismatch_reads hsees₂ _
  · exact .pure hsees₁ ⟨.absent, by omega⟩

/-- **The definition of an entity** is one of the grammar. Its operator is registered last, behind the
definition and one token ahead. -/
theorem entityDefinition_logs (h : s.Sees v) :
    Logs v (registeredIn · = []) (fun _ es w => ∃ before e, es = before ++ [.registered e.operator] ∧
      registeredIn before = [] ∧ Definition (takenIn before) e ∧
      (v.ahead.length ≤ 1 → w.ahead.length = 1)) (entityDefinition s) := by
  refine (name_reads h).logs_bind rfl ?_
  rintro _ t₁ es₁ w₁ - hquiet₁ hsees₁ ⟨⟨label, hlabels, hlabel, rfl⟩, hlength₁⟩
  refine (definedSymbol_reads hsees₁).logs_bind (by simp [hquiet₁]) ?_
  rintro symbol t₂ es₂ w₂ - hquiet₂ hsees₂ ⟨hsymbol, hlength₂⟩
  refine (definedNotation_reads hsees₂).logs_bind (by simp [hquiet₁, hquiet₂]) ?_
  rintro form t₃ es₃ w₃ - hquiet₃ hsees₃ ⟨⟨token, hforms, hform, hnamed⟩, hlength₃⟩
  refine (definedPrecedence_reads hsees₃).logs_bind (by simp [hquiet₁, hquiet₂, hquiet₃]) ?_
  rintro precedence t₄ es₄ w₄ - hquiet₄ hsees₄ ⟨hprecedence, hlength₄⟩
  refine (namesAfterWord_reads hsees₄ "in").logs_bind (by simp [hquiet₁, hquiet₂, hquiet₃, hquiet₄]) ?_
  rintro inputs t₅ es₅ w₅ - hquiet₅ hsees₅ ⟨hinputs, hlength₅⟩
  refine (namesAfterWord_reads hsees₅ "out").logs_bind (by simp [hquiet₁, hquiet₂, hquiet₃, hquiet₄, hquiet₅]) ?_
  rintro outputs t₆ es₆ w₆ - hquiet₆ hsees₆ ⟨houtputs, hlength₆⟩
  refine (busNames_reads hsees₆).logs_bind (by simp [hquiet₁, hquiet₂, hquiet₃, hquiet₄, hquiet₅, hquiet₆]) ?_
  rintro buses t₇ es₇ w₇ - hquiet₇ hsees₇ ⟨hbuses, hlength₇⟩
  have hdefinition := Definition.mk (e := ⟨label.text, symbol, form, precedence, inputs, outputs, buses⟩)
    hlabel rfl hsymbol hform hnamed hprecedence hinputs houtputs hbuses
  refine (tell_reads (.defineEntity _) hsees₇).logs_bind (by simp [hquiet₁, hquiet₂, hquiet₃, hquiet₄, hquiet₅, hquiet₆, hquiet₇]) ?_
  rintro reply t₈ es₈ w₈ - hquiet₈ hsees₈ ⟨htaken, rfl⟩
  rw [Run.bind_apply, Run.modify_apply]
  refine ⟨[.registered _], _, .single .register, hsees₈.register _,
    es₁ ++ es₂ ++ es₃ ++ es₄ ++ es₅ ++ es₆ ++ es₇ ++ es₈,
    ⟨label.text, symbol, form, precedence, inputs, outputs, buses⟩, ?_, ?_, ?_, ?_⟩
  · simp only [List.append_assoc]
  · simp [hquiet₁, hquiet₂, hquiet₃, hquiet₄, hquiet₅, hquiet₆, hquiet₇, hquiet₈]
  · simpa [hlabels, hforms, htaken] using hdefinition
  · show v.ahead.length ≤ 1 → w₈.ahead.length = 1
    omega

/-! ### Bodies -/

section

variable {read : Run (Session σ) Statement}

/-- However deep it stands, a statement that is read is one. -/
def States (read : Run (Session σ) Statement) : Prop :=
  ∀ (s : Session σ) (v : Sight σ), s.Sees v →
    Logs v (Timely v) (fun _ => Produces .statement v) (read s)

/-- **A body** is one of the grammar. -/
theorem bodyBy_logs (hread : States read) (h : s.Sees v) :
    Logs v (Timely v) (fun _ es w => ∃ body closing, takenIn es = body ++ [closing] ∧
      Sentence .body v.lexer.table body w.lexer.table ∧ closing.kind = .closing .set ∧
      (v.ahead.length ≤ 1 → Prompt v.ahead es ∧ w.ahead.length ≤ 1)) (bodyBy read s) := by
  -- Between two rounds the body is open: whatever has been taken may be followed by a statement or a bracket.
  refine Logs.iterate (I := fun _ es w => Sentence .opened v.lexer.table (takenIn es) w.lexer.table ∧
    (v.ahead.length ≤ 1 → Prompt v.ahead es ∧ w.ahead.length ≤ 1)) h
    ⟨.start, fun hshort => ⟨.quiet rfl, hshort⟩⟩ (fun _ es w hinv hshort => (hinv.2 hshort).1) ?_
  rintro statements es w t₁ hes hsees ⟨hopened, hone⟩
  have htimely : ∀ fs, registeredIn fs = [] → Timely v (es ++ fs) :=
    fun fs hquiet hshort => (hone hshort).1.quietly hes hquiet
  refine (skip_reads hsees .executor).logs_bind (htimely _ rfl) ?_
  rintro ⟨⟩ t₂ es₂ w₂ hes₂ hquiet₂ hsees₂ ⟨hexecutors, -, hlength₂⟩
  have hopened₂ : Sentence .opened v.lexer.table (takenIn es ++ takenIn es₂) w₂.lexer.table := by
    rw [hes₂.table_eq hquiet₂]
    exact hopened.skipAll hexecutors
  refine (accept_reads hsees₂ _).logs_bind (htimely _ (by simp [hquiet₂])) ?_
  rintro (_ | _) t₃ es₃ w₃ hes₃ hquiet₃ hsees₃ haccepted
  · obtain ⟨htaken₃, -, hlength₃⟩ := haccepted
    have hfront : ∀ es₄, (w₃.ahead.length ≤ 1 → Prompt w₃.ahead es₄) →
        Timely v (es ++ (es₂ ++ (es₃ ++ es₄))) := by
      intro es₄ hprompt₄ hshort
      have := (hone hshort).2
      exact (hone hshort).1.append hes ((Prompt.quiet hquiet₂).append hes₂ ((Prompt.quiet hquiet₃).append hes₃
        (hprompt₄ (by omega))))
    refine (hread t₃ w₃ hsees₃).bind (fun es₄ htimely₄ => hfront es₄ htimely₄) ?_
    rintro statement t₄ es₄ w₄ hes₄ hsees₄ ⟨hstatement, hprompt⟩
    rw [hes₃.table_eq hquiet₃] at hstatement
    have hbefore := hes.trans (hes₂.trans (hes₃.trans hes₄))
    have hall := hfront es₄ fun hshort => (hprompt hshort).1
    have hhalted₄ : v.ahead.length ≤ 1 → Halted w₄ := fun hshort => by
      have := (hone hshort).2
      exact (hprompt (by omega)).2
    have htimely₄ : ∀ fs, registeredIn fs = [] → Timely v (es ++ (es₂ ++ (es₃ ++ (es₄ ++ fs)))) :=
      fun fs hquiet hshort => by simpa using (hall hshort).quietly hbefore hquiet
    refine (accept_reads hsees₄ _).logs_bind (htimely₄ _ rfl) ?_
    rintro (_ | _) t₅ es₅ w₅ hes₅ hquiet₅ hsees₅ haccepted
    · -- Without an executor the statement has been the last one.
      obtain ⟨htaken₅, -, hlength₅⟩ := haccepted
      refine (expect_reads hsees₅ _).logs_bind (htimely₄ _ (by simp [hquiet₅])) ?_
      rintro ⟨⟩ t₆ es₆ w₆ hes₆ hquiet₆ hsees₆ ⟨closing, htaken₆, hclosing, hahead₆, hhead₆⟩
      have htable : w₆.lexer.table = w₄.lexer.table :=
        (hes₆.table_eq hquiet₆).trans (hes₅.table_eq hquiet₅)
      refine ⟨[], w₆, .refl w₆, hsees₆, takenIn es ++ takenIn es₂ ++ takenIn es₄, closing, ?_, ?_, hclosing, ?_⟩
      · simp [htaken₃, htaken₅, htaken₆]
      · rw [htable]
        exact hopened₂.last hstatement
      · intro hshort
        have hhalted₅ := (hhalted₄ hshort).of_passes ⟨es₅, hes₅, hquiet₅, htaken₅⟩ hlength₅
        have := hhalted₅.length_le hhead₆ (by simp [hclosing])
        refine ⟨?_, by rw [hahead₆, List.length_tail]; omega⟩
        simpa using htimely₄ (es₅ ++ es₆) (by simp [hquiet₅, hquiet₆]) hshort
    · obtain ⟨executor, htaken₅, hexecutor, hahead₅, hhead₅⟩ := haccepted
      refine ⟨[], w₅, .refl w₅, hsees₅, ?_, ?_⟩
      · rw [hes₅.table_eq hquiet₅]
        simpa [htaken₃, htaken₅] using hopened₂.next hstatement hexecutor
      · intro hshort
        have := (hhalted₄ hshort).length_le hhead₅ (by simp [hexecutor])
        refine ⟨?_, by rw [hahead₅, List.length_tail]; omega⟩
        simpa using htimely₄ es₅ hquiet₅ hshort
  · obtain ⟨closing, htaken₃, hclosing, hahead, -⟩ := haccepted
    refine ⟨[], w₃, .refl w₃, hsees₃, takenIn es ++ takenIn es₂, closing, ?_, ?_, hclosing, ?_⟩
    · simp [htaken₃]
    · rw [hes₃.table_eq hquiet₃]
      exact hopened₂.ended
    · intro hshort
      have := (hone hshort).2
      refine ⟨?_, by rw [hahead, List.length_tail]; omega⟩
      simpa using htimely (es₂ ++ es₃) (by simp [hquiet₂, hquiet₃]) hshort

/-- **An architecture**, behind the words that announce it. -/
theorem architectureBy_logs (hread : States read) (h : s.Sees v) {define word : Token}
    (hdefine : define.kind = .define) (hword : word.isWord "architecture" = true) :
    Logs v (Timely v) (fun _ es w => Sentence .statement v.lexer.table (define :: word :: takenIn es) w.lexer.table ∧
      (v.ahead.length ≤ 1 → Prompt v.ahead es ∧ w.ahead.length ≤ 1)) (architectureBy read s) := by
  refine (name_reads h).logs_bind (.quiet rfl) ?_
  rintro _ t₁ es₁ w₁ hes₁ hquiet₁ hsees₁ ⟨⟨name, htaken₁, hname, rfl⟩, hlength₁⟩
  refine (entityReference_reads hsees₁).logs_bind (.quiet (by simp [hquiet₁])) ?_
  rintro entity t₂ es₂ w₂ hes₂ hquiet₂ hsees₂ ⟨⟨reference, htaken₂, hreference⟩, hlength₂⟩
  refine (expect_reads hsees₂ _).logs_bind (.quiet (by simp [hquiet₁, hquiet₂])) ?_
  rintro ⟨⟩ t₃ es₃ w₃ hes₃ hquiet₃ hsees₃ ⟨opening, htaken₃, hopening, hahead₃, -⟩
  refine (tell_reads (.beginArchitecture name.text entity) hsees₃).logs_bind
    (.quiet (by simp [hquiet₁, hquiet₂, hquiet₃])) ?_
  rintro ⟨⟩ t₄ es₄ w₄ hes₄ hquiet₄ hsees₄ ⟨htaken₄, rfl⟩
  have hbefore := hes₁.trans (hes₂.trans (hes₃.trans hes₄))
  have hfront : ∀ es₅, (w₄.ahead.length ≤ 1 → Prompt w₄.ahead es₅) →
      Timely v (es₁ ++ (es₂ ++ (es₃ ++ (es₄ ++ es₅)))) := by
    intro es₅ hprompt₅ hshort
    have hquiet : Prompt v.ahead (es₁ ++ (es₂ ++ (es₃ ++ es₄))) :=
      .quiet (by simp [hquiet₁, hquiet₂, hquiet₃, hquiet₄])
    simpa using hquiet.append hbefore (hprompt₅ (by rw [hahead₃, List.length_tail]; omega))
  refine (bodyBy_logs hread hsees₄).bind hfront ?_
  rintro body t₅ es₅ w₅ hes₅ hsees₅ ⟨tokens, closing, htaken₅, hbody, hclosing, hprompt⟩
  have htimely : ∀ fs, registeredIn fs = [] → Timely v (es₁ ++ (es₂ ++ (es₃ ++ (es₄ ++ (es₅ ++ fs))))) :=
    fun fs hquiet => hfront _ fun hshort => (hprompt hshort).1.quietly hes₅ hquiet
  refine (tell_reads .endArchitecture hsees₅).logs_bind (htimely _ rfl) ?_
  rintro ⟨⟩ t₆ es₆ w₆ hes₆ hquiet₆ hsees₆ ⟨htaken₆, rfl⟩
  have htable : w₄.lexer.table = v.lexer.table :=
    (hes₃.table_eq hquiet₃).trans ((hes₂.table_eq hquiet₂).trans (hes₁.table_eq hquiet₁))
  refine ⟨[], w₆, .refl w₆, hsees₆, ?_, fun hshort => ?_⟩
  · have hsentence := Sentence.architecture hdefine hword hname hreference hopening (htable ▸ hbody) hclosing
    simpa [htaken₁, htaken₂, htaken₃, htaken₄, htaken₅, htaken₆] using hsentence
  · have hshort₅ := (hprompt (by rw [hahead₃, List.length_tail]; omega)).2
    exact ⟨by simpa using htimely es₆ hquiet₆ hshort, hshort₅⟩

/-- **A definition**, behind the reserved word for it. -/
theorem definitionBy_logs (hread : States read) (h : s.Sees v) {define : Token}
    (hdefine : define.kind = .define) :
    Logs v (Timely v) (fun _ es w => Sentence .statement v.lexer.table (define :: takenIn es) w.lexer.table ∧
      (v.ahead.length ≤ 1 → Prompt v.ahead es ∧ w.ahead.length ≤ 1)) (definitionBy read s) := by
  refine (acceptWord_reads h "entity").logs_bind (.quiet rfl) ?_
  rintro (_ | _) t₁ es₁ w₁ hes₁ hquiet₁ hsees₁ haccepted
  · obtain ⟨htaken₁, -, hlength₁⟩ := haccepted
    refine (acceptWord_reads hsees₁ "architecture").logs_bind (.quiet (by simp [hquiet₁])) ?_
    rintro (_ | _) t₂ es₂ w₂ hes₂ hquiet₂ hsees₂ haccepted
    · exact (mismatch_reads (Q := fun _ _ _ => False) hsees₂ _).logs
        (.quiet (by simp [hquiet₁, hquiet₂])) fun _ _ _ _ _ => False.elim
    · obtain ⟨word, htaken₂, hword, hahead₂, -⟩ := haccepted
      refine (architectureBy_logs hread hsees₂ hdefine hword).mono ?_ ?_
      · exact fun es htimely hshort => (Prompt.quiet hquiet₁).append hes₁ ((Prompt.quiet hquiet₂).append hes₂
          (htimely (by rw [hahead₂, List.length_tail]; omega)))
      rintro statement es w hes ⟨hsentence, hprompt⟩
      rw [hes₂.table_eq hquiet₂, hes₁.table_eq hquiet₁] at hsentence
      refine ⟨by simpa [htaken₁, htaken₂] using hsentence, fun hshort => ?_⟩
      obtain ⟨hprompt₂, hshort₂⟩ := hprompt (by rw [hahead₂, List.length_tail]; omega)
      exact ⟨(Prompt.quiet hquiet₁).append hes₁ ((Prompt.quiet hquiet₂).append hes₂ hprompt₂), hshort₂⟩
  · obtain ⟨word, htaken₁, hword, hahead₁, -⟩ := haccepted
    refine (entityDefinition_logs hsees₁).mono
      (fun es hquiet => .quiet (by simp [hquiet₁, hquiet])) ?_
    rintro statement es w hes ⟨before, e, rfl, hquiet, hdefinition, hlength⟩
    obtain ⟨u, hbefore, hregister⟩ := hes.split
    have htable : w.lexer.table = v.lexer.table.insert e.operator := by
      rw [hes.table, registeredIn_append, hquiet, hes₁.table_eq hquiet₁]
      rfl
    refine ⟨?_, fun hshort => ?_⟩
    · rw [htable]
      simpa [htaken₁] using Sentence.entity hdefine hword hdefinition
    · have hone := hlength (by rw [hahead₁, List.length_tail]; omega)
      have hahead : u.ahead = w.ahead := by simpa using hregister.ahead
      obtain ⟨token, htoken⟩ := List.length_eq_one_iff.1 hone
      refine ⟨(Prompt.quiet hquiet₁).append hes₁ (.define hquiet ?_ hdefinition), Nat.le_of_eq hone⟩
      exact ⟨token, by rw [hbefore.ahead, hahead, htoken]⟩

end

/-! ### Instances -/

/-- A label and the arrow behind it are both taken, or neither. -/
theorem bindingLabel_reads (h : s.Sees v) :
    Reads v (fun _ tokens w => (tokens = [] ∨ ∃ label arrow, tokens = [label, arrow] ∧
      label.kind = .identifier ∧ arrow.kind = .association) ∧
      (v.ahead.length ≤ 2 → w.ahead.length ≤ 2)) (bindingLabel s) := by
  refine (peekKind_reads h).bind ?_
  rintro _ t₁ _ w₁ - hsees₁ ⟨rfl, ⟨label, rest, hrest, rfl⟩, hlength₁⟩
  split
  · next hlabel =>
    refine (kindAt_reads hsees₁ 1).bind ?_
    rintro _ t₂ _ w₂ hpasses₂ hsees₂ ⟨rfl, ⟨arrow, harrow, rfl⟩, hlength₂⟩
    obtain ⟨rest₂, hrest₂⟩ := List.head?_eq_some_iff.1 (hpasses₂.head_eq hrest)
    split
    · next hassociation =>
      refine (consume_known hsees₂ hrest₂).bind ?_
      rintro _ t₃ _ w₃ - hsees₃ ⟨rfl, rfl, hahead₃⟩
      refine (consume_reads hsees₃).bind ?_
      rintro arrow' t₄ _ w₄ - hsees₄ ⟨rfl, hahead₄, hhead₄⟩
      rw [hrest₂, List.getElem?_cons_succ, ← List.head?_eq_getElem?] at harrow
      obtain rfl := hhead₄ arrow (by rw [hahead₃, hrest₂]; exact harrow)
      refine .pure hsees₄ ⟨.inr ⟨label, arrow, rfl, hlabel, hassociation⟩, fun hshort => ?_⟩
      rw [hahead₄, hahead₃, List.length_tail, List.length_tail]
      omega
    · exact .pure hsees₂ ⟨.inl rfl, by omega⟩
  · exact .pure hsees₁ ⟨.inl rfl, by omega⟩

section

variable {P : Operator.Table → List Token → Prop} {read : Run (Session σ) Expr}

/-- Bindings, where what is bound is read as it should. -/
theorem bindingsBy_reads (hread : ∀ (s : Session σ) (v : Sight σ), s.Sees v →
      Reads v (fun _ tokens w => P v.lexer.table tokens ∧ (v.ahead.length ≤ 2 → w.ahead.length ≤ 1))
        (read s)) (h : s.Sees v) :
    Reads v (fun _ tokens w => Separated (Labelled (P v.lexer.table)) tokens ∧
      (v.ahead.length ≤ 1 → w.ahead.length = 1)) (bindingsBy read s) := by
  -- What has been read so far, with a separator behind it, waits for another binding.
  refine Reads.iterate (I := fun _ tokens w => (∀ next, Labelled (P v.lexer.table) next →
    Separated (Labelled (P v.lexer.table)) (tokens ++ next)) ∧ (v.ahead.length ≤ 1 → w.ahead.length ≤ 1)) h
    ⟨fun next hnext => .one hnext, id⟩ ?_
  rintro bindings tokens w t₁ hpasses hsees ⟨hrow, hone⟩
  refine (bindingLabel_reads hsees).bind ?_
  rintro label t₂ labels w₂ hpasses₂ hsees₂ ⟨hlabel, hlength₂⟩
  refine (hread t₂ w₂ hsees₂).bind ?_
  rintro node t₃ values w₃ - hsees₃ ⟨hvalue, hlength₃⟩
  rw [hpasses₂.table_eq, hpasses.table_eq] at hvalue
  have hbinding : Labelled (P v.lexer.table) (labels ++ values) := by
    rcases hlabel with rfl | ⟨label, arrow, rfl, hlabel, harrow⟩
    · exact .placed hvalue
    · exact .labelled hlabel harrow hvalue
  have hmore := hrow _ hbinding
  refine (accept_reads hsees₃ _).bind ?_
  rintro (_ | _) t₄ _ w₄ - hsees₄ haccepted
  · obtain ⟨rfl, -, hlength₄⟩ := haccepted
    refine .pure hsees₄ ⟨by simpa using hmore, fun hshort => ?_⟩
    have := hone hshort
    omega
  · obtain ⟨separator, rfl, hseparator, hahead, -⟩ := haccepted
    refine .pure hsees₄ ⟨fun next hnext => ?_, fun hshort => ?_⟩
    · simpa using Separated.more hmore hseparator hnext
    · have := hone hshort
      rw [hahead, List.length_tail]
      omega

theorem bindingsAfterWord_reads (word : String)
    (hread : ∀ (s : Session σ) (v : Sight σ), s.Sees v →
      Reads v (fun _ tokens w => P v.lexer.table tokens ∧ (v.ahead.length ≤ 2 → w.ahead.length ≤ 1))
        (read s)) (h : s.Sees v) :
    Reads v (fun _ tokens w =>
      Clause (·.isWord word = true) (Separated (Labelled (P v.lexer.table))) tokens ∧
      (v.ahead.length ≤ 1 → w.ahead.length = 1)) (bindingsAfterWord word read s) := by
  refine (acceptWord_reads h word).bind ?_
  rintro (_ | _) t₁ tokens w₁ hpasses₁ hsees₁ haccepted
  · obtain ⟨rfl, -, hlength⟩ := haccepted
    exact .pure hsees₁ ⟨.absent, by omega⟩
  · obtain ⟨token, rfl, hword, hahead, -⟩ := haccepted
    refine (bindingsBy_reads hread hsees₁).mono ?_
    rintro bindings tokens w - ⟨hrow, hlength⟩
    rw [hpasses₁.table_eq] at hrow
    refine ⟨.present hword hrow, fun hshort => hlength ?_⟩
    rw [hahead, List.length_tail]
    omega

end

theorem outputSignal_reads (h : s.Sees v) :
    Reads v (fun _ tokens w => Name tokens ∧ (v.ahead.length ≤ 2 → w.ahead.length ≤ 1))
      (outputSignal s) := by
  refine (name_reads h).bind ?_
  rintro _ t₁ _ w₁ - hsees₁ ⟨⟨token, rfl, hname, rfl⟩, hlength⟩
  refine (tell_reads (.useSignal token.text) hsees₁).mono ?_
  rintro node _ _ - ⟨rfl, rfl⟩
  exact ⟨⟨token, rfl, hname⟩, by omega⟩

/-- **An instance** is one of the grammar. -/
theorem instantiation_reads (h : s.Sees v) :
    Reads v (fun _ tokens w => Sentence .statement v.lexer.table tokens v.lexer.table ∧
      (v.ahead.length ≤ 1 → w.ahead.length = 1)) (instantiation s) := by
  refine (expect_reads h _).bind ?_
  rintro ⟨⟩ t₁ _ w₁ hpasses₁ hsees₁ ⟨instantiate, rfl, hinstantiate, hahead₁, -⟩
  refine (entityReference_reads hsees₁).bind ?_
  rintro entity t₂ _ w₂ hpasses₂ hsees₂ ⟨⟨reference, rfl, hreference⟩, hlength₂⟩
  refine (bindingsAfterWord_reads (P := (Phrase · .expression)) "in" ?_ hsees₂).bind ?_
  · intro s v h
    refine (expression_reads h).mono ?_
    rintro _ tokens w - ⟨hphrase, hlength⟩
    exact ⟨hphrase, fun hshort => Nat.le_of_eq (hlength hshort)⟩
  rintro inputs t₃ ins w₃ hpasses₃ hsees₃ ⟨hinputs, hlength₃⟩
  refine (bindingsAfterWord_reads (P := fun _ => Name) "out" (fun s v h => outputSignal_reads h)
    hsees₃).bind ?_
  rintro outputs t₄ outs w₄ - hsees₄ ⟨houtputs, hlength₄⟩
  refine (busNames_reads hsees₄).bind ?_
  rintro names t₅ buses w₅ - hsees₅ ⟨hbuses, hlength₅⟩
  refine ((Still.mapM (fun name => Still.tell (.useBus name)) names).reads hsees₅).bind ?_
  rintro nodes t₆ _ _ - hsees₆ ⟨rfl, rfl⟩
  refine (tell_reads (.instantiate entity inputs outputs nodes) hsees₆).bind ?_
  rintro pins t₇ _ _ - hsees₇ ⟨rfl, rfl⟩
  rw [hpasses₂.table_eq, hpasses₁.table_eq] at hinputs
  refine .pure hsees₇ ⟨?_, fun hshort => ?_⟩
  · simpa using Sentence.instantiation hinstantiate hreference hinputs houtputs hbuses
  · rw [hahead₁, List.length_tail] at hlength₂
    omega

/-! ### Assignments -/

/-- Targets and their arrow are taken, or what has been taken goes on with a separator behind its first
token. -/
theorem tryTargets_reads (h : s.Sees v) :
    Reads v (fun found tokens w => (match found with
        | some names => ∃ targets arrow, tokens = targets ++ [arrow] ∧ Names targets names ∧
            arrow.kind = .assignment
        | none => ∀ token ∈ tokens.tail.head?, token.kind = .separator) ∧
      (v.ahead.length ≤ 1 → w.ahead.length ≤ 1)) (tryTargets s) := by
  refine Reads.iterate (I := fun names tokens w => (∀ token : Token,
      token.kind.isTextIdentifier = true → Names (tokens ++ [token]) (token.text :: names).reverse) ∧
    (∀ token ∈ tokens.tail.head?, token.kind = .separator) ∧
    (v.ahead.length ≤ 1 → w.ahead.length ≤ 1)) h ⟨fun token htoken => .one htoken, by simp, id⟩ ?_
  rintro names tokens w t₁ - hsees₁ ⟨hnames, hsecond, hone⟩
  refine (peekKind_reads hsees₁).bind ?_
  rintro _ t₂ _ w₂ - hsees₂ ⟨rfl, ⟨token, rest, hrest, rfl⟩, hlength₂⟩
  split
  · next hname =>
    have hmore := hnames token hname
    refine (consume_known hsees₂ hrest).bind ?_
    rintro _ t₃ _ w₃ - hsees₃ ⟨rfl, rfl, hahead₃⟩
    have hshort₃ : v.ahead.length ≤ 1 → w₃.ahead.length ≤ 1 := fun hshort => by
      have := hone hshort
      rw [hahead₃, List.length_tail]
      omega
    refine (accept_reads hsees₃ _).bind ?_
    rintro (_ | _) t₄ _ w₄ - hsees₄ haccepted
    · obtain ⟨rfl, -, hlength₄⟩ := haccepted
      refine (accept_reads hsees₄ _).bind ?_
      rintro (_ | _) t₅ _ w₅ - hsees₅ haccepted
      · obtain ⟨rfl, -, hlength₅⟩ := haccepted
        refine .pure hsees₅ ⟨by simpa using hmore.second, fun hshort => ?_⟩
        have := hshort₃ hshort
        omega
      · obtain ⟨arrow, rfl, harrow, hahead₅, -⟩ := haccepted
        refine .pure hsees₅ ⟨⟨tokens ++ [token], arrow, by simp, hmore, harrow⟩, fun hshort => ?_⟩
        have := hshort₃ hshort
        rw [hahead₅, List.length_tail]
        omega
    · obtain ⟨separator, rfl, hseparator, hahead₄, -⟩ := haccepted
      refine .pure hsees₄ ⟨fun next hnext => ?_, ?_, fun hshort => ?_⟩
      · simpa using Names.more hmore hseparator hnext
      · cases tokens with
        | nil => simpa using hseparator
        | cons first behind =>
          have hbehind := hmore.second
          cases behind with
          | nil => exact hbehind
          | cons second others => exact hbehind
      · have := hshort₃ hshort
        rw [hahead₄, List.length_tail]
        omega
  · refine .pure hsees₂ ⟨by simpa using hsecond, fun hshort => ?_⟩
    have := hone hshort
    omega

/-- Targets and their arrow are taken, or nothing. -/
theorem assignmentTargets_reads (h : s.Sees v) :
    Reads v (fun found tokens w => match found with
      | some names => (∃ targets arrow, tokens = targets ++ [arrow] ∧ Names targets names ∧
          arrow.kind = .assignment) ∧ (v.ahead.length ≤ 1 → w.ahead.length ≤ 1)
      | none => tokens = [] ∧ (v.ahead.length ≤ 1 → w.ahead.length ≤ 2 ∨
          ∃ first separator rest, w.ahead = first :: separator :: rest ∧ separator.kind = .separator))
      (assignmentTargets s) := by
  obtain ⟨c, hmark, hc⟩ := Cursor.Sees.mark h
  unfold assignmentTargets
  rw [Run.bind_apply, onTokens_ok hmark]
  dsimp only
  have htry := tryTargets_reads (s := { s with tokens := c }) hc
  rw [Run.bind_apply]
  cases hr : tryTargets { s with tokens := c } with
  | error e t => exact Run.Ends.of_error htry hr
  | ok found t =>
    rw [hr] at htry
    obtain ⟨tokens, w, ⟨es, hes, hquiet, rfl⟩, hsees, hfound, hlength⟩ := htry
    have hmarked := hes.marked
    cases found with
    | some names =>
      obtain ⟨c', hcommit, hc'⟩ := Cursor.Sees.commit hsees hmarked
      dsimp only
      rw [Run.bind_apply, onTokens_ok hcommit]
      exact ⟨takenIn es, _, ⟨es, hes.withMarked v.marked, hquiet, rfl⟩, hc', hfound, hlength⟩
    | none =>
      obtain ⟨c', hrollback, hc'⟩ := Cursor.Sees.rollback hsees hmarked
      dsimp only
      rw [Run.bind_apply, onTokens_ok hrollback]
      refine ⟨[], v.extend (scannedIn es) w.lexer, ⟨untaken es, hes.untaken v rfl, ?_, takenIn_untaken es⟩,
        hc', rfl, fun hshort => ?_⟩
      · rw [registeredIn_untaken, hquiet]
      · have hone := hlength hshort
        have hahead : (v.extend (scannedIn es) w.lexer).ahead = takenIn es ++ w.ahead := hes.ahead
        rw [hahead]
        match htaken : takenIn es with
        | [] => exact .inl (by simp; omega)
        | [first] => exact .inl (by simp; omega)
        | first :: second :: others =>
          rw [htaken] at hfound
          exact .inr ⟨first, second, others ++ w.ahead, rfl, hfound second rfl⟩

theorem assignmentOrExpression_reads (h : s.Sees v) :
    Reads v (fun _ tokens w => Sentence .statement v.lexer.table tokens v.lexer.table ∧
      (v.ahead.length ≤ 1 → Halted w)) (assignmentOrExpression s) := by
  refine (assignmentTargets_reads h).bind ?_
  rintro (_ | names) t₁ tokens w₁ hpasses₁ hsees₁ htargets
  · obtain ⟨rfl, hlength₁⟩ := htargets
    refine (expression_reads hsees₁).bind ?_
    rintro value t₂ tokens w₂ hpasses₂ hsees₂ ⟨hphrase, hlength₂⟩
    rw [hpasses₁.table_eq] at hphrase
    refine .pure hsees₂ ⟨by simpa using Sentence.expression hphrase, fun hshort => ?_⟩
    rcases hlength₁ hshort with hshort₁ | ⟨first, separator, rest, hrest, hseparator⟩
    · exact .inl (Nat.le_of_eq (hlength₂ hshort₁))
    · -- The names were not targets: the expression is the first of them.
      obtain ⟨scanned, hscanned⟩ := hpasses₂.ahead
      obtain ⟨head, behind, rfl, -⟩ := hphrase.shapes.begins
      rw [hrest, List.cons_append, List.cons_append, List.cons_append, List.cons.injEq] at hscanned
      cases behind with
      | nil => exact .inr ⟨separator, rest ++ scanned, hscanned.2.symm, hseparator⟩
      | cons second others =>
        obtain ⟨rfl, -⟩ := List.cons.inj hscanned.2
        exact absurd hseparator (hphrase.second_ne (.inr rfl) separator rfl)
  · obtain ⟨⟨targets, arrow, rfl, hnames, harrow⟩, hlength₁⟩ := htargets
    refine ((Still.mapM (fun name => Still.tell (.useSignal name)) names).reads hsees₁).bind ?_
    rintro nodes t₂ _ _ - hsees₂ ⟨rfl, rfl⟩
    refine (expression_reads hsees₂).bind ?_
    rintro value t₃ tokens w₃ - hsees₃ ⟨hphrase, hlength₃⟩
    rw [hpasses₁.table_eq] at hphrase
    refine (tell_reads (.assign nodes value) hsees₃).bind ?_
    rintro ⟨⟩ t₄ _ _ - hsees₄ ⟨rfl, rfl⟩
    refine .pure hsees₄ ⟨by simpa using Sentence.assignment hnames harrow hphrase, fun hshort => ?_⟩
    have := hlength₁ hshort
    exact .inl (Nat.le_of_eq (hlength₃ (by omega)))

/-! ### Statements -/

/-- Where no operator is registered, a sentence is made of what is read. -/
theorem produces_of_reads {r : EStateM.Result Failure (Session σ) Statement}
    (h : Reads v (fun _ tokens w => Sentence .statement v.lexer.table tokens v.lexer.table ∧
      (v.ahead.length ≤ 1 → Halted w)) r) : Logs v (Timely v) (fun _ => Produces .statement v) r := by
  refine h.logs (.quiet rfl) ?_
  rintro statement es w hes hquiet ⟨hsentence, hhalted⟩
  exact ⟨by rwa [hes.table_eq hquiet], fun hshort => ⟨.quiet hquiet, hhalted hshort⟩⟩

/-- **Signals or buses** are declared by their names behind a word. -/
theorem declaration_reads {word : Token} {rest : List Token} (h : s.Sees v) (hv : v.ahead = word :: rest)
    (make : List Expr → Statement)
    (hmake : ∀ tokens names, Names tokens names →
      Sentence .statement v.lexer.table (word :: tokens) v.lexer.table)
    {f : String → Run (Session σ) Expr} (hf : ∀ name, Still (f name)) :
    Reads v (fun _ tokens w => Sentence .statement v.lexer.table tokens v.lexer.table ∧
      (v.ahead.length ≤ 1 → Halted w))
      ((do
        let _ ← consume
        return make (← (← names).mapM f) : Run (Session σ) Statement) s) := by
  refine (consume_known h hv).bind ?_
  rintro _ t₁ _ w₁ - hsees₁ ⟨rfl, rfl, hahead₁⟩
  refine (names_reads hsees₁).bind ?_
  rintro names t₂ tokens w₂ - hsees₂ ⟨hnames, hlength₂⟩
  refine ((Still.mapM hf names).reads hsees₂).bind ?_
  rintro nodes t₃ _ _ - hsees₃ ⟨rfl, rfl⟩
  refine .pure hsees₃ ⟨by simpa using hmake tokens names hnames, fun hshort => ?_⟩
  exact .inl (Nat.le_of_eq (hlength₂ (by rw [hahead₁, List.length_tail]; omega)))

/-- **A statement** makes a sentence. -/
theorem statementBy_logs {read : Run (Session σ) Statement} (hread : States read) (h : s.Sees v) :
    Logs v (Timely v) (fun _ => Produces .statement v) (statementBy read s) := by
  refine (peekKind_reads h).logs_bind (.quiet rfl) ?_
  rintro _ t₁ es₁ w₁ hes₁ hquiet₁ hsees₁ ⟨htaken₁, ⟨token, rest, hrest, rfl⟩, hlength₁⟩
  have htable := hes₁.table_eq hquiet₁
  have hbehind : ∀ es w, Produces .statement w₁ es w → Produces .statement v (es₁ ++ es) w := by
    rintro es w ⟨hsentence, hprompt⟩
    refine ⟨by simpa [htaken₁, htable] using hsentence, fun hshort => ?_⟩
    obtain ⟨hprompt, hhalted⟩ := hprompt (by omega)
    exact ⟨(Prompt.quiet hquiet₁).append hes₁ hprompt, hhalted⟩
  -- From here on the judgement is about what stands behind the look at the first token.
  refine Logs.mono (E := Timely w₁) (Q := fun _ => Produces .statement w₁) ?_
    (fun es htimely hshort => (Prompt.quiet hquiet₁).append hes₁ (htimely (by omega)))
    fun _ es w _ => hbehind es w
  cases hkind : token.kind with
  | define =>
    refine (consume_reads hsees₁).logs_bind (.quiet rfl) ?_
    rintro token' t₂ es₂ w₂ hes₂ hquiet₂ hsees₂ ⟨htaken₂, hahead₂, hhead₂⟩
    obtain rfl := hhead₂ token (by rw [hrest]; exact rfl)
    refine (definitionBy_logs hread hsees₂ hkind).mono ?_ ?_
    · exact fun es htimely hshort => (Prompt.quiet hquiet₂).append hes₂
        (htimely (by rw [hahead₂, List.length_tail]; omega))
    rintro statement es w hes ⟨hsentence, hprompt⟩
    rw [hes₂.table_eq hquiet₂] at hsentence
    refine ⟨by simpa [htaken₂] using hsentence, fun hshort => ?_⟩
    obtain ⟨hprompt, hone⟩ := hprompt (by rw [hahead₂, List.length_tail]; omega)
    exact ⟨(Prompt.quiet hquiet₂).append hes₂ hprompt, .inl hone⟩
  | instantiate =>
    refine produces_of_reads ((instantiation_reads hsees₁).mono ?_)
    rintro statement tokens w - ⟨hsentence, hlength⟩
    exact ⟨hsentence, fun hshort => .inl (Nat.le_of_eq (hlength hshort))⟩
  | signal =>
    exact produces_of_reads (declaration_reads hsees₁ hrest .signals
      (fun _ _ hnames => .signals hkind hnames) fun name => Still.tell (.declareSignal name))
  | bus =>
    exact produces_of_reads (declaration_reads hsees₁ hrest .buses
      (fun _ _ hnames => .buses hkind hnames) fun name => Still.tell (.declareBus name))
  | _ => exact produces_of_reads (assignmentOrExpression_reads hsees₁)

theorem statement_states (depth : Nat) : States (statement depth : Run (Session σ) Statement) := by
  induction depth with
  | zero => exact fun s v h => ⟨[], v, .refl v, ⟨v, h, rfl⟩, .quiet rfl⟩
  | succ depth ih => exact fun s v h => statementBy_logs ih h

end Parser

end Dataflow
