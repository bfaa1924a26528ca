import Dataflow.Proofs.Crossing
import Dataflow.Proofs.PairedExpressions

/-!
# Dataflow.Proofs.PairedStatements

**Statements side by side.** Over coupled texts two sessions read the same statement
(`statement_keeps`).

Only a body takes executors. Where the second text ends inside one, its session fails, whatever it
goes on to try (`AtEnd`).
-/

namespace Dataflow.Parser

open Reading Lexer Circuit Session

variable {σ β : Type} [Supply σ Char] {c : Coupling} {n m : Nat} {marks : List Nat}
  {s s' : Session σ}

/-! ### Names -/

/-- Both runs take a name, which none of the further entities goes by. -/
def TakesName (c : Coupling) (m : Nat) (marks : List Nat)
    (r r' : EStateM.Result Failure (Session σ) String) : Prop :=
  Together c (fun b b' t t' => b = b' ∧ Foreign c.extra b ∧ 0 < m ∧
    Coupled c { pending := m - 1, marks } t t') r r'

theorem TakesName.takes {r r' : EStateM.Result Failure (Session σ) String}
    (h : TakesName c m marks r r') : Takes c m marks r r' :=
  Together.mono h fun _ _ _ _ ⟨hb, _, hpos, ht⟩ => ⟨hb, hpos, ht⟩

/-- The text of a token that has to be of a certain kind, with a name in it. -/
theorem textOf_takesName (h : Coupled c { pending := n, marks } s s') {P : Token.Kind → Prop}
    [DecidablePred P] (hnamed : ∀ kind, P kind → kind.isIdentifier = true ∨ kind = .literal)
    (expected : String) :
    TakesName c n marks
      ((do
        if P (← peekKind) then
          return (← consume).text
        else
          mismatch expected : Run (Session σ) String) s)
      ((do
        if P (← peekKind) then
          return (← consume).text
        else
          mismatch expected : Run (Session σ) String) s') := by
  have hsolid (kind : Token.Kind) (hP : P kind) : kind.isSolid = true := by
    rcases hnamed kind hP with hname | rfl
    · exact Token.Kind.isSolid_of_isIdentifier hname
    · rfl
  refine h.peekKind.bind ?_
  rintro _ _ u u' ⟨t, t', rfl, rfl, hu⟩
  refine .ite (hu.alike.iff P (fun hP => nomatch hsolid _ hP) fun hP => nomatch hsolid _ hP)
    (fun hP => ?_) fun _ => hu.mismatch expected
  have hforeign := hu.alike.named (hnamed _ hP)
  obtain ⟨v, v', hconsume, hconsume', hpos, rfl, hv⟩ := hu.consume (hsolid _ hP)
  rw [Run.bind_apply, Run.bind_apply, hconsume, hconsume']
  exact .answers ⟨rfl, hforeign, hpos, hv.forget (Nat.le_refl _)⟩

theorem name_takesName (h : Coupled c { pending := n, marks } s s') :
    TakesName c n marks (name s) (name s') :=
  textOf_takesName h (P := (Token.Kind.isTextIdentifier · = true))
    (fun kind htext => .inl (by cases kind <;> first | rfl | cases htext)) "identifier"

theorem name_takes (h : Coupled c { pending := n, marks } s s') :
    Takes c n marks (name s) (name s') :=
  (name_takesName h).takes

theorem entityReference_takesName (h : Coupled c { pending := n, marks } s s') :
    TakesName c n marks (entityReference s) (entityReference s') :=
  textOf_takesName h (P := fun kind => kind.isIdentifier = true ∨ kind = .literal)
    (fun _ => id) "entity name"

theorem names_takes (h : Coupled c { pending := n, marks } s s') :
    Takes c n marks (names s) (names s') := by
  unfold names
  refine (name_takes h).bind ?_
  rintro first _ t t' ⟨rfl, hpos, ht⟩
  refine Keeps.takes ?_ hpos
  refine ht.iterate (I := fun names names' _ => names = names') (fun _ _ => rfl) ?_
  rintro names _ k u u' hk rfl hu
  refine (hu.accept (by simp) (by simp)).bind ?_
  rintro b _ v v' ⟨rfl, ⟨rfl, hv⟩ | ⟨rfl, _, hv⟩⟩
  · refine (name_takes hv).bind ?_
    rintro next _ x x' ⟨rfl, hless, hx⟩
    exact .answers (.again (Nat.sub_lt hless Nat.one_pos) rfl hx)
  · exact .answers (.done ⟨rfl, hv.forget hk⟩)

theorem namesAfterWord_keeps (h : Coupled c { pending := n, marks } s s') (word : String) :
    Keeps c { pending := n, marks } (namesAfterWord word s) (namesAfterWord word s') := by
  unfold namesAfterWord
  refine (h.acceptWord word).bind ?_
  rintro b _ t t' ⟨rfl, ⟨rfl, ht⟩ | ⟨rfl, _, ht⟩⟩
  · exact (names_takes ht).keeps
  · exact .answers ⟨rfl, ht.forget (Nat.le_refl n)⟩

theorem busNames_keeps (h : Coupled c { pending := n, marks } s s') :
    Keeps c { pending := n, marks } (busNames s) (busNames s') := by
  unfold busNames
  refine (h.accept (by simp) (by simp)).bind ?_
  rintro b _ t t' ⟨rfl, ⟨rfl, ht⟩ | ⟨rfl, _, ht⟩⟩
  · exact (names_takes ht).keeps
  · exact .answers ⟨rfl, ht.forget (Nat.le_refl n)⟩

/-- Symbols stand side by side in both texts or in neither, wherever their lines are. -/
theorem adjacentSymbols_keeps (h : Coupled c { pending := n, marks } s s') (text : String)
    (stop : Text.Position) :
    Keeps c { pending := n, marks } (adjacentSymbols text (stop.down c.lines) s)
      (adjacentSymbols text stop s') := by
  unfold adjacentSymbols
  refine h.iterate (I := fun passed passed' _ => passed = (passed'.1, passed'.2.down c.lines))
    (fun _ _ => rfl) ?_
  rintro _ ⟨text, stop⟩ k t t' hk rfl ht
  refine ht.peek.bind fun r r' u u' hu => ?_
  have hsame : (r.kind = .symbol ∧ r.span.start = stop.down c.lines) ↔
      r'.kind = .symbol ∧ r'.span.start = stop := by
    cases hu.alike with
    | same _ _ => exact and_congr_right fun _ => Text.Position.down_inj
    | border _ hexecutor _ hlast => simp [hexecutor, hlast]
  refine .ite hsame (fun hsymbol => ?_) fun _ => .answers (.done ⟨rfl, hu.forget hk⟩)
  obtain ⟨v, v', hconsume, hconsume', hpos, rfl, hv⟩ := hu.consume (by simp [hsymbol.1])
  rw [Run.bind_apply, Run.bind_apply, hconsume, hconsume']
  exact .answers (.again (Nat.sub_lt hpos Nat.one_pos) rfl hv)

theorem definedSymbol_keeps (h : Coupled c { pending := n, marks } s s') :
    Keeps c { pending := n, marks } (definedSymbol s) (definedSymbol s') := by
  unfold definedSymbol
  refine h.peekKind.bind ?_
  rintro _ _ u u' ⟨t, t', rfl, rfl, hu⟩
  refine .ite (hu.alike.iff (fun kind => kind = .literal ∨ kind.isTextIdentifier = true)
    (by simp [Token.Kind.isTextIdentifier]) (by simp [Token.Kind.isTextIdentifier]))
    (fun hword => ?_) fun _ => .ite (hu.alike.iff (· = .symbol) (by simp) (by simp))
    (fun hsymbol => ?_) fun _ => hu.mismatch _
  · have hsolid : t'.kind.isSolid = true :=
      hword.elim (fun hliteral => by simp [hliteral]) Token.Kind.isSolid_of_isTextIdentifier
    obtain ⟨v, v', hconsume, hconsume', -, rfl, hv⟩ := hu.consume hsolid
    rw [Run.bind_apply, Run.bind_apply, hconsume, hconsume']
    exact .answers ⟨rfl, hv.forget (Nat.sub_le n 1)⟩
  · obtain ⟨v, v', hconsume, hconsume', -, rfl, hv⟩ := hu.consume (by simp [hsymbol])
    rw [Run.bind_apply, Run.bind_apply, hconsume, hconsume']
    exact (adjacentSymbols_keeps hv t'.text t'.span.stop).mono (Nat.sub_le n 1)

/-! ### Definitions -/

theorem definedNotation_eq : (definedNotation : Run (Session σ) Notation) = (do
    let token ← peek
    if token.kind = .identifier then
      match Notation.ofName? token.text with
      | some form =>
        let _ ← consume
        return form
      | none => mismatch "notation"
    else
      mismatch "notation") := by
  unfold definedNotation
  refine congrArg (peek >>= ·) (funext fun token => ?_)
  by_cases hkind : token.kind = .identifier
  · cases Notation.ofName? token.text <;> simp only [if_pos hkind]
  · cases Notation.ofName? token.text <;> simp only [if_neg hkind]

theorem definedNotation_keeps (h : Coupled c { pending := n, marks } s s') :
    Keeps c { pending := n, marks } (definedNotation s) (definedNotation s') := by
  rw [definedNotation_eq]
  refine h.peek.bind fun t t' u u' hu => ?_
  refine .ite (hu.alike.iff (· = .identifier) (by simp) (by simp)) (fun hkind => ?_)
    fun _ => hu.mismatch _
  obtain ⟨v, v', hconsume, hconsume', -, rfl, hv⟩ := hu.consume (by simp [hkind])
  rw [Token.text_down]
  cases Notation.ofName? t'.text with
  | none => exact hu.mismatch _
  | some form =>
    dsimp only
    rw [Run.bind_apply, Run.bind_apply, hconsume, hconsume']
    exact .answers ⟨rfl, hv.forget (Nat.sub_le n 1)⟩

theorem definedPrecedence_keeps (h : Coupled c { pending := n, marks } s s') :
    Keeps c { pending := n, marks } (definedPrecedence s) (definedPrecedence s') := by
  unfold definedPrecedence
  refine h.peekKind.bind ?_
  rintro _ _ u u' ⟨t, t', rfl, rfl, hu⟩
  refine .ite (hu.alike.iff (· = .integer) (by simp) (by simp)) (fun hkind => ?_)
    fun _ => .answers ⟨rfl, hu.forget (Nat.le_refl n)⟩
  obtain ⟨v, v', hpeek, hpeek', hv⟩ := hu.peek_known
  obtain ⟨x, x', hconsume, hconsume', -, rfl, hx⟩ := hv.consume (by simp [hkind])
  rw [Run.bind_apply, Run.bind_apply, hpeek, hpeek']
  refine .ite Iff.rfl (fun _ => ?_) fun _ => hv.mismatch _
  rw [Run.bind_apply, Run.bind_apply, hconsume, hconsume']
  exact .answers ⟨rfl, hx.forget (Nat.sub_le n 1)⟩

theorem entityDefinition_keeps (h : Coupled c { pending := n, marks } s s') :
    Keeps c { pending := n, marks } (entityDefinition s) (entityDefinition s') := by
  unfold entityDefinition
  refine (name_takesName h).bind ?_
  rintro label _ t t' ⟨rfl, hforeign, hpos, ht⟩
  have h : Coupled c { pending := n, marks } t t' := ht.forget (Nat.sub_le n 1)
  have hlabel : ∀ name ∈ some label, Foreign c.extra name := by
    rintro _ ⟨⟩
    exact hforeign
  refine (definedSymbol_keeps h).bind fun symbol _ _ h => ?_
  refine (definedNotation_keeps h).bind fun form _ _ h => ?_
  refine (definedPrecedence_keeps h).bind fun precedence _ _ h => ?_
  refine (namesAfterWord_keeps h "in").bind fun inputs _ _ h => ?_
  refine (namesAfterWord_keeps h "out").bind fun outputs _ _ h => ?_
  refine (busNames_keeps h).bind fun buses _ _ h => ?_
  refine (h.tell (.defineEntity { label, symbol, form, precedence, inputs, outputs, buses })
    hlabel).bind fun _ _ _ h => ?_
  exact .answers ⟨rfl, h.insertOperator hforeign⟩

/-! ### Instances -/

theorem bindingLabel_keeps (h : Coupled c { pending := n, marks } s s') :
    Keeps c { pending := n, marks } (bindingLabel s) (bindingLabel s') := by
  unfold bindingLabel
  refine h.peekKind.bind ?_
  rintro _ _ u u' ⟨t, t', rfl, rfl, hu⟩
  refine .ite (hu.alike.iff (· = .identifier) (by simp) (by simp)) (fun hkind => ?_)
    fun _ => .answers ⟨rfl, hu.forget (Nat.le_refl n)⟩
  refine (hu.secondKind (by simp [hkind])).bind ?_
  rintro _ _ v v' ⟨r, r', rfl, rfl, halike, hv⟩
  refine .ite (halike.iff (· = .association) (by simp) (by simp)) (fun hsecond => ?_)
    fun _ => .answers ⟨rfl, hv.forget (Nat.le_refl n)⟩
  obtain ⟨x, x', hconsume, hconsume', -, rfl, hx⟩ := hv.consume (by simp [hkind])
  obtain ⟨y, y', hconsume₁, hconsume₁', -, -, hy⟩ := hx.consume (by simp [hsecond])
  rw [Run.bind_apply, Run.bind_apply, hconsume, hconsume']
  dsimp only
  rw [Run.bind_apply, Run.bind_apply, hconsume₁, hconsume₁']
  exact .answers ⟨rfl, hy.forget (Nat.le_trans (Nat.sub_le (n - 1) 1) (Nat.sub_le n 1))⟩

theorem bindingsBy_keeps {read : Run (Session σ) Expr}
    (hread : ∀ m s s', Coupled c { pending := m, marks } s s' → Takes c m marks (read s) (read s'))
    (h : Coupled c { pending := n, marks } s s') :
    Keeps c { pending := n, marks } (bindingsBy read s) (bindingsBy read s') := by
  unfold bindingsBy
  refine h.iterate (I := fun bindings bindings' _ => bindings = bindings') (fun _ _ => rfl) ?_
  rintro bindings _ k t t' hk rfl ht
  refine (bindingLabel_keeps ht).bind fun label u u' hu => ?_
  refine (hread k u u' hu).bind ?_
  rintro value _ v v' ⟨rfl, hpos, hv⟩
  refine (hv.accept (by simp) (by simp)).bind ?_
  rintro b _ x x' ⟨rfl, ⟨rfl, hx⟩ | ⟨rfl, _, hx⟩⟩
  · exact .answers (.again (Nat.sub_lt hpos Nat.one_pos) rfl hx)
  · exact .answers (.done ⟨rfl, hx.forget (Nat.le_trans (Nat.sub_le k 1) hk)⟩)

theorem bindingsAfterWord_keeps {read : Run (Session σ) Expr}
    (hread : ∀ m s s', Coupled c { pending := m, marks } s s' → Takes c m marks (read s) (read s'))
    (h : Coupled c { pending := n, marks } s s') (word : String) :
    Keeps c { pending := n, marks } (bindingsAfterWord word read s)
      (bindingsAfterWord word read s') := by
  unfold bindingsAfterWord
  refine (h.acceptWord word).bind ?_
  rintro b _ t t' ⟨rfl, ⟨rfl, ht⟩ | ⟨rfl, _, ht⟩⟩
  · exact bindingsBy_keeps hread ht
  · exact .answers ⟨rfl, ht.forget (Nat.le_refl n)⟩

theorem outputSignal_takes (h : Coupled c { pending := n, marks } s s') :
    Takes c n marks (outputSignal s) (outputSignal s') := by
  unfold outputSignal
  refine (name_takes h).bind ?_
  rintro name _ t t' ⟨rfl, hpos, ht⟩
  exact (ht.tell (.useSignal name) nofun).takes hpos

/-- The netlists are told one thing for each name. -/
theorem mapM_keeps {w : View} {f : String → Run (Session σ) β}
    (hf : ∀ name s s', Coupled c w s s' → Keeps c w (f name s) (f name s'))
    (h : Coupled c w s s') (names : List String) :
    Keeps c w (names.mapM f s) (names.mapM f s') := by
  induction names generalizing s s' with
  | nil => exact .answers ⟨rfl, h⟩
  | cons name names ih =>
    rw [List.mapM_cons]
    refine (hf name s s' h).bind fun b t t' ht => ?_
    exact (ih ht).bind fun bs u u' hu => .answers ⟨rfl, hu⟩

theorem instantiation_takes (h : Coupled c { pending := n, marks } s s') :
    Takes c n marks (instantiation s) (instantiation s') := by
  unfold instantiation
  refine (h.expect (by simp) (by simp)).bind ?_
  intro _ _ t t' ht
  refine (entityReference_takesName ht).bind ?_
  rintro entity _ _ _ ⟨rfl, hforeign, hpos, h⟩
  have hentity : ∀ name ∈ some entity, Foreign c.extra name := by
    rintro _ ⟨⟩
    exact hforeign
  refine Keeps.takes ?_ hpos
  refine (bindingsAfterWord_keeps (fun _ _ _ => expression_takes) h "in").bind
    fun inputs _ _ h => ?_
  refine (bindingsAfterWord_keeps (fun _ _ _ => outputSignal_takes) h "out").bind
    fun outputs _ _ h => ?_
  refine (busNames_keeps h).bind fun names _ _ h => ?_
  refine (mapM_keeps (fun name _ _ h => h.tell (.useBus name) nofun) h names).bind
    fun buses _ _ h => ?_
  refine (h.tell (.instantiate entity inputs outputs buses) hentity).bind fun nodes _ _ h => ?_
  exact .answers ⟨rfl, h⟩

/-! ### Assignments -/

theorem tryTargets_keeps (h : Coupled c { pending := n, marks } s s') :
    Keeps c { pending := n, marks } (tryTargets s) (tryTargets s') := by
  unfold tryTargets
  refine h.iterate (I := fun names names' _ => names = names') (fun _ _ => rfl) ?_
  rintro names _ k t t' hk rfl ht
  refine ht.peekKind.bind ?_
  rintro _ _ u u' ⟨r, r', rfl, rfl, hu⟩
  refine .ite (hu.alike.iff (Token.Kind.isTextIdentifier · = true)
    (by simp [Token.Kind.isTextIdentifier]) (by simp [Token.Kind.isTextIdentifier]))
    (fun hname => ?_) fun _ => .answers (.done ⟨rfl, hu.forget hk⟩)
  obtain ⟨v, v', hconsume, hconsume', hpos, rfl, hv⟩ :=
    hu.consume (Token.Kind.isSolid_of_isTextIdentifier hname)
  rw [Run.bind_apply, Run.bind_apply, hconsume, hconsume']
  refine (hv.accept (by simp) (by simp)).bind ?_
  rintro b _ x x' ⟨rfl, ⟨rfl, hx⟩ | ⟨rfl, _, hx⟩⟩
  · exact .answers (.again (Nat.sub_lt hpos Nat.one_pos) rfl hx)
  · refine ((hx.forget (Nat.le_refl _)).accept (by simp) (by simp)).bind ?_
    rintro b _ y y' ⟨rfl, ⟨rfl, hy⟩ | ⟨rfl, _, hy⟩⟩
    · exact .answers (.done ⟨rfl, hy.forget (Nat.le_trans (Nat.sub_le k 1) hk)⟩)
    · exact .answers (.done ⟨rfl, hy.forget (Nat.le_trans (Nat.sub_le k 1) hk)⟩)

theorem assignmentTargets_keeps (h : Coupled c { pending := n, marks } s s') :
    Keeps c { pending := n, marks } (assignmentTargets s) (assignmentTargets s') := by
  unfold assignmentTargets
  obtain ⟨t, t', hmark, hmark', ht⟩ := h.mark
  rw [Run.bind_apply, Run.bind_apply, hmark, hmark']
  refine (tryTargets_keeps ht).bind fun found u u' hu => ?_
  cases found with
  | some names =>
    obtain ⟨v, v', hcommit, hcommit', hv⟩ := hu.commit
    dsimp only
    rw [Run.bind_apply, Run.bind_apply, hcommit, hcommit']
    exact .answers ⟨rfl, hv⟩
  | none =>
    obtain ⟨v, v', hrollback, hrollback', hv⟩ := hu.rollback
    dsimp only
    rw [Run.bind_apply, Run.bind_apply, hrollback, hrollback']
    exact .answers ⟨rfl, hv⟩

theorem assignmentOrExpression_takes (h : Coupled c { pending := n, marks } s s') :
    Takes c n marks (assignmentOrExpression s) (assignmentOrExpression s') := by
  unfold assignmentOrExpression
  refine (assignmentTargets_keeps h).bind fun found t t' ht => ?_
  cases found with
  | some names =>
    refine (mapM_keeps (fun name _ _ h => h.tell (.useSignal name) nofun) ht names).bind
      fun targets u u' hu => ?_
    refine (expression_takes hu).bind ?_
    rintro value _ v v' ⟨rfl, hpos, hv⟩
    refine (hv.tell (.assign targets value) nofun).bind fun _ x x' hx => ?_
    exact .answers ⟨rfl, hpos, hx⟩
  | none =>
    refine (expression_takes ht).bind ?_
    rintro e _ u u' ⟨rfl, hpos, hu⟩
    exact .answers ⟨rfl, hpos, hu⟩

/-! ### Bodies -/

/-- The readers of statements go on together where fewer than `n` tokens are to come, and the
second one finds nothing at the end. -/
structure StatementsKeep (c : Coupling) (n : Nat) (read read' : Run (Session σ) Statement) :
    Prop where
  takes : ∀ m s s', m < n → Coupled c { pending := m } s s' →
    Takes c m [] (read s) (read' s')
  atEnd : ∀ s g v, s.AtEnd g v → Fails (read' s)

variable {read read' : Run (Session σ) Statement}

theorem bodyBy_keeps (hread : StatementsKeep c n read read')
    (h : Coupled c { pending := m } s s') (hm : m < n) :
    Keeps c { pending := m } (bodyBy read s) (bodyBy read' s') := by
  unfold bodyBy
  refine h.iterate (I := fun statements statements' _ => statements = statements')
    (fun _ _ => rfl) ?_
  rintro statements _ k t t' hk rfl ht
  rcases skip_cases ht with ⟨s₁, u', -, hskip', hpassed⟩ | hskip
  · -- The second text ends inside the body.
    obtain ⟨g, v, hend⟩ := hpassed.atEnd
    obtain ⟨x', haccept, hx'⟩ := hend.accept (show Token.Kind.closing .set ≠ .endOfFile by simp)
    refine .of_fails hpassed.parted ?_
    rw [Run.bind_apply, hskip']
    dsimp only
    rw [Run.bind_apply, haccept]
    exact (hread.atEnd _ g v hx').bind _
  refine hskip.bind ?_
  rintro _ _ u u' ⟨r, r', hu, -⟩
  refine ((hu.forget (Nat.le_refl k)).accept (by simp) (by simp)).bind ?_
  rintro b _ x x' ⟨rfl, ⟨rfl, hx⟩ | ⟨rfl, _, hx⟩⟩
  · exact .answers (.done ⟨rfl, hx.forget hk⟩)
  refine (hread.takes k x x' (Nat.lt_of_le_of_lt hk hm) (hx.forget (Nat.le_refl k))).bind ?_
  rintro statement _ y y' ⟨rfl, hpos, hy⟩
  refine hy.acceptExecutor.bind ?_
  rintro b b' z z' (⟨rfl, rfl, i, hi, hz, -⟩ | ⟨rfl, rfl, r, r', hz, -⟩ | ⟨rfl, rfl, hz⟩)
  · exact .answers (.again (Nat.lt_of_le_of_lt hi (Nat.sub_lt hpos Nat.one_pos)) rfl hz)
  · refine ((hz.forget (Nat.le_refl _)).expect (by simp) (by simp)).bind ?_
    intro _ _ z z' hz
    exact .answers (.done ⟨rfl, hz.forget (Nat.le_trans (Nat.sub_le k 1) hk)⟩)
  · obtain ⟨g, v, hend⟩ := hz.atEnd
    exact .of_fails hz.parted ((hend.expect (by simp)).bind _)

theorem architectureBy_keeps (hread : StatementsKeep c n read read')
    (h : Coupled c { pending := m } s s') (hm : m ≤ n) :
    Keeps c { pending := m } (architectureBy read s) (architectureBy read' s') := by
  unfold architectureBy
  refine (name_takes h).bind ?_
  rintro name _ _ _ ⟨rfl, hpos, h⟩
  refine Takes.keeps (Keeps.takes ?_ hpos)
  refine (entityReference_takesName h).bind ?_
  rintro entity _ u u' ⟨rfl, hforeign, _, hu⟩
  have hentity : ∀ name ∈ some entity, Foreign c.extra name := by
    rintro _ ⟨⟩
    exact hforeign
  have h : Coupled c { pending := m - 1 } u u' := hu.forget (Nat.sub_le _ 1)
  refine (h.expect (by simp) (by simp)).bind ?_
  intro _ _ t t' h
  refine (h.tell (.beginArchitecture name entity) hentity).bind fun _ _ _ h => ?_
  refine (bodyBy_keeps hread h (by omega)).bind fun body _ _ h => ?_
  refine (h.tell .endArchitecture nofun).bind fun _ _ _ h => ?_
  exact .answers ⟨rfl, h⟩

theorem definitionBy_keeps (hread : StatementsKeep c n read read')
    (h : Coupled c { pending := m } s s') (hm : m ≤ n) :
    Keeps c { pending := m } (definitionBy read s) (definitionBy read' s') := by
  unfold definitionBy
  refine (h.acceptWord "entity").bind ?_
  rintro b _ t t' ⟨rfl, ⟨rfl, ht⟩ | ⟨rfl, _, ht⟩⟩
  · exact entityDefinition_keeps ht
  refine ((ht.forget (Nat.le_refl m)).acceptWord "architecture").bind ?_
  rintro b _ u u' ⟨rfl, ⟨rfl, hu⟩ | ⟨rfl, ⟨r, r'⟩, hu⟩⟩
  · exact architectureBy_keeps hread hu hm
  · exact hu.mismatch _

/-! ### Statements -/

/-- A statement takes something. -/
theorem statementBy_takes (hread : StatementsKeep c n read read')
    (h : Coupled c { pending := m } s s') (hm : m ≤ n) :
    Takes c m [] (statementBy read s) (statementBy read' s') := by
  unfold statementBy
  refine h.peekKind.bind ?_
  rintro _ _ u u' ⟨t, t', rfl, rfl, hu⟩
  have hforget := hu.forget (Nat.le_refl m)
  cases hu.alike with
  | border _ hexecutor _ hlast =>
    rw [hexecutor, hlast]
    exact assignmentOrExpression_takes hforget
  | same _ _ =>
    rw [Token.kind_down]
    cases hkind : t'.kind with
    | define =>
      obtain ⟨v, v', hconsume, hconsume', hpos, -, hv⟩ := hu.consume (by simp [hkind])
      dsimp only
      rw [Run.bind_apply, Run.bind_apply, hconsume, hconsume']
      exact (definitionBy_keeps hread hv (Nat.le_trans (Nat.sub_le m 1) hm)).takes hpos
    | instantiate => exact instantiation_takes hforget
    | signal =>
      obtain ⟨v, v', hconsume, hconsume', hpos, -, hv⟩ := hu.consume (by simp [hkind])
      dsimp only
      rw [Run.bind_apply, Run.bind_apply, hconsume, hconsume']
      refine (names_takes hv).keeps.bind fun names _ _ h => ?_
      refine (mapM_keeps (fun name _ _ h => h.tell (.declareSignal name) nofun) h names).bind
        fun nodes _ _ h => ?_
      exact .answers ⟨rfl, hpos, h⟩
    | bus =>
      obtain ⟨v, v', hconsume, hconsume', hpos, -, hv⟩ := hu.consume (by simp [hkind])
      dsimp only
      rw [Run.bind_apply, Run.bind_apply, hconsume, hconsume']
      refine (names_takes hv).keeps.bind fun names _ _ h => ?_
      refine (mapM_keeps (fun name _ _ h => h.tell (.declareBus name) nofun) h names).bind
        fun nodes _ _ h => ?_
      exact .answers ⟨rfl, hpos, h⟩
    | _ => exact assignmentOrExpression_takes hforget

/-- Whatever the depths are, as long as there are more levels than tokens to come. -/
theorem statement_keeps (depth depth' : Nat) :
    StatementsKeep (σ := σ) c (min depth depth') (statement depth) (statement depth') := by
  induction depth generalizing depth' with
  | zero => exact ⟨fun m _ _ hm => absurd hm (by simp), fun s g v => statement_atEnd depth'⟩
  | succ depth ih =>
    cases depth' with
    | zero => exact ⟨fun m _ _ hm => absurd hm (by simp), fun s g v => statement_atEnd 0⟩
    | succ depth' =>
      refine ⟨fun m s s' hm h => ?_, fun s g v => statement_atEnd (depth' + 1)⟩
      rw [Nat.succ_min_succ] at hm
      exact statementBy_takes (ih depth') h (Nat.le_of_lt_succ hm)

/-- **The next statement of two sessions.** Either the second text has no more statements, and the
first session goes on behind the border; or both sessions read the same, with the first one maybe
across the border afterwards. -/
theorem parseStatement_cases (h : Coupled c { pending := n } s s') :
    (∃ s₁ t', parseStatement s = parseStatement s₁ ∧ parseStatement s' = .ok none t' ∧
      Passed c s₁ t') ∨
    Together c (fun x x' t t' => x = x' ∧ (x = none → c.behind = none) ∧
        (Coupled c { pending := n } t t' ∨ Passed c t t'))
      (parseStatement s) (parseStatement s') := by
  unfold parseStatement
  refine (skip_cases h).imp ?_ fun hskip => ?_
  · rintro ⟨s₁, t', hskip, hskip', hpassed⟩
    obtain ⟨u', hpeek, hu⟩ := hpassed.peekKind
    refine ⟨s₁, u', ?_, ?_, hu⟩
    · rw [Run.bind_apply, hskip, Run.bind_apply]
    · rw [Run.bind_apply, hskip']
      dsimp only
      rw [Run.bind_apply, hpeek]
      rfl
  refine hskip.bind ?_
  rintro _ _ t t' ⟨r, r', ht, hlast⟩
  obtain ⟨u, u', hpeek, hpeek', hu⟩ := ht.peekKind_known
  rw [Run.bind_apply, Run.bind_apply, hpeek, hpeek', ht.alike.kind_eq hlast]
  refine .ite Iff.rfl (fun hend => ?_) fun _ => ?_
  · exact .answers ⟨rfl, fun _ => hlast hend, .inl (hu.forget (Nat.le_refl n))⟩
  refine Together.get_bind ?_
  obtain ⟨k, hk, hremaining, hremaining', htight⟩ := (hu.forget (Nat.le_refl n)).tight
  have hstatement := (statement_keeps (c := c) (u.remaining + 1) (u'.remaining + 1)).takes k u u'
    (Nat.lt_min.2 ⟨Nat.lt_succ_of_le hremaining, Nat.lt_succ_of_le hremaining'⟩) htight
  refine (hstatement.mono hk).keeps.bind fun statement x x' hx => ?_
  refine hx.acceptExecutor.bind ?_
  rintro b b' y y' (⟨rfl, rfl, i, hi, hy, -⟩ | ⟨rfl, rfl, r, r', hy, hlast⟩ | ⟨rfl, rfl, hy⟩)
  · exact .answers ⟨rfl, by simp, .inl (hy.forget hi)⟩
  · obtain ⟨z, z', hpeek, hpeek', hz⟩ := hy.peekKind_known
    rw [if_neg Bool.false_ne_true, Run.bind_apply, Run.bind_apply, hpeek, hpeek',
      hy.alike.kind_eq hlast]
    refine .ite Iff.rfl (fun hend => ?_) fun _ => hz.mismatch _
    exact .answers ⟨rfl, by simp, .inl (hz.forget (Nat.le_refl n))⟩
  · obtain ⟨z', hpeek, hz⟩ := hy.peekKind
    rw [if_pos rfl, if_neg Bool.false_ne_true, Run.bind_apply, hpeek]
    exact .answers ⟨rfl, by simp, .inr hz⟩

end Dataflow.Parser
