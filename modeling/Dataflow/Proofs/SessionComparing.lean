import Dataflow.Parser.Statement
import Dataflow.Proofs.Matching
import Dataflow.Proofs.Standing

/-!
# Dataflow.Proofs.SessionComparing

**Two sessions side by side.** A parser looks at its session through few steps: the tokens at the cursor,
the operators, and what the netlist answers. What is claimed of two sessions, in whatever way they are
compared, holds of all of the parser if it holds of these steps (`Parser.Compared`); no rule of the grammar
has to be understood for it. There is one lemma for each rule, in the order of the code.

An error message names the token at the cursor and what is around it. The parser composes one only where
it has looked at that token, and so a second relation, closer than the first, is kept for such sessions.
-/

namespace Dataflow

open Reading Circuit Session

/-- The call defines an entity. -/
def Circuit.Call.defines : Call → Bool
  | .defineEntity _ => true
  | _ => false

/-- The call applies an operator. -/
def Circuit.Call.applies : Call → Bool
  | .applyOperator .. => true
  | _ => false

namespace Parser

variable {σ τ α β : Type} [Source σ Char] [Source τ Char]

/-- Tells the netlist of an entity and registers the entity's symbol. -/
def define (e : Entity) : Run (Session σ) Unit := do
  tell (.defineEntity e)
  modify fun s => s.insertOperator e.operator

/-- A computation keeps sessions related. -/
abbrev KeptBy (k : Run.Comparison (Session σ) (Session τ)) (R : Session σ → Session τ → Prop)
    (x : Run (Session σ) β) (x' : Run (Session τ) β) : Prop :=
  k.Holds R (fun _ => R) x x'

/-- The steps of a parser on the tokens keep sessions related by `R`; where the token at the cursor has
been looked at, they are related by `S`. Loops and rules inside each other are bounded by what remains. -/
structure ComparedTokens (k : Run.Comparison (Session σ) (Session τ)) (R S : Session σ → Session τ → Prop) :
    Prop where
  loosen {s : Session σ} {t : Session τ} : S s t → R s t
  peek : k.Holds R (fun _ => S) peek peek
  second : k.Holds S (fun _ => S) (kindAt 1) (kindAt 1)
  consume : KeptBy k R consume consume
  mismatch {β : Type} (Q : β → Session σ → Session τ → Prop) (expected : String) :
    k.Holds S Q (mismatch expected) (mismatch expected)
  unexpectedOperand {β : Type} (Q : β → Session σ → Session τ → Prop) :
    k.Holds S Q unexpectedOperand unexpectedOperand
  violate {β : Type} (Q : β → Session σ → Session τ → Prop) (v : Violation) :
    k.Holds R Q (Run.violate v) (Run.violate v)
  table (s : Session σ) (t : Session τ) : R s t → s.table = t.table
  iterate {α β : Type} {step : α → Run (Session σ) (Run.Round α β)}
    {step' : α → Run (Session τ) (Run.Round α β)} (a : α) (hstep : ∀ a, KeptBy k R (step a) (step' a)) :
    KeptBy k R (Run.iterate Session.remaining a step) (Run.iterate Session.remaining a step')
  descend {ι β : Type} {f : Nat → ι → Run (Session σ) β} {g : Nat → ι → Run (Session τ) β}
    (hzero : ∀ i, f 0 i = throw .stalled) (hzero' : ∀ i, g 0 i = throw .stalled)
    (hsucc : ∀ d d', (∀ i, KeptBy k R (f d i) (g d' i)) → ∀ i, KeptBy k R (f (d + 1) i) (g (d' + 1) i))
    (i : ι) : KeptBy k R (fun s => f (s.remaining + 1) i s) (fun t => g (t.remaining + 1) i t)

/-- The steps of a parser in an expression keep sessions related: it sets no marks, and defines nothing. -/
structure ComparedTerms (k : Run.Comparison (Session σ) (Session τ)) (R S : Session σ → Session τ → Prop) :
    Prop where
  tokens : ComparedTokens k R S
  tell (call : Call) (hcall : call.defines = false) : KeptBy k R (tell call) (tell call)

/-- All steps of a parser keep sessions related. -/
structure Compared (k : Run.Comparison (Session σ) (Session τ)) (R S : Session σ → Session τ → Prop) : Prop
    extends ComparedTerms k R S where
  targets : KeptBy k R assignmentTargets assignmentTargets
  define (e : Entity) : KeptBy k R (define e) (define e)

variable {k : Run.Comparison (Session σ) (Session τ)} {R S : Session σ → Session τ → Prop}

/-! ### Tokens -/

section Tokens

variable (h : ComparedTokens k R S)

include h

/-- Who has looked at the token at the cursor need not know that. -/
theorem ComparedTokens.from {Q : β → Session σ → Session τ → Prop} {x : Run (Session σ) β}
    {x' : Run (Session τ) β} (hx : k.Holds R Q x x') : k.Holds S Q x x' :=
  hx.of fun _ _ => h.loosen

theorem peekKind_related : k.Holds R (fun _ => S) peekKind peekKind := by
  rw [peekKind_eq, peekKind_eq]
  exact h.peek.bind fun _ => .pure _

/-- A token is consumed, or it has been looked at. -/
theorem accept_related (kind : Token.Kind) :
    k.Holds R (fun accepted => if accepted then R else S) (accept kind) (accept kind) := by
  rw [Session.accept_eq, Session.accept_eq]
  refine h.peek.bind fun token => .ite ((h.from h.consume).bind fun _ => ?_) ?_
  · exact .pure_of fun _ _ hs => hs
  · exact .pure_of fun _ _ hs => hs

theorem acceptWord_related (word : String) :
    k.Holds R (fun accepted => if accepted then R else S) (acceptWord word) (acceptWord word) := by
  refine h.peek.bind fun token => .ite ((h.from h.consume).bind fun _ => ?_) ?_
  · exact .pure_of fun _ _ hs => hs
  · exact .pure_of fun _ _ hs => hs

/-- Whatever comes of it, the sessions are related. -/
theorem ComparedTokens.either (accepted : Bool) (s : Session σ) (t : Session τ)
    (hs : (if accepted then R else S) s t) : R s t := by
  cases accepted with
  | true => exact hs
  | false => exact h.loosen hs

theorem accept_keptBy (kind : Token.Kind) : KeptBy k R (accept kind) (accept kind) :=
  (accept_related h kind).mono (fun _ _ hs => hs) h.either

theorem acceptWord_keptBy (word : String) : KeptBy k R (acceptWord word) (acceptWord word) :=
  (acceptWord_related h word).mono (fun _ _ hs => hs) h.either

theorem expect_keptBy (kind : Token.Kind) : KeptBy k R (expect kind) (expect kind) := by
  rw [Session.expect_eq, Session.expect_eq]
  refine (accept_related h kind).bind fun accepted => ?_
  cases accepted with
  | true => exact .pure ()
  | false => exact h.mismatch _ _

theorem skip_keptBy (kind : Token.Kind) : KeptBy k R (skip kind) (skip kind) :=
  h.iterate _ fun _ => (accept_keptBy h kind).bind fun _ => .ite (.pure _) (.pure _)

theorem operatorAt_related (fixity : Fixity) :
    k.Holds R (fun _ => S) (operatorAt fixity) (operatorAt fixity) := by
  exact h.peek.bind fun token => .ite (.get_of table table (fun s t hs => h.table s t (h.loosen hs))
    (f := fun table => pure (table.get? token.text fixity)) fun _ => .pure _) (.pure _)

theorem operatorAt_keptBy (fixity : Fixity) : KeptBy k R (operatorAt fixity) (operatorAt fixity) :=
  (operatorAt_related h fixity).mono (fun _ _ hs => hs) fun _ _ _ => h.loosen

theorem popOperand_keptBy (operands : List Expr) : KeptBy k R (popOperand operands) (popOperand operands) := by
  cases operands with
  | nil => exact h.violate _ _
  | cons e rest => exact .pure _

theorem name_keptBy : KeptBy k R name name :=
  (peekKind_related h).bind fun _ => .ite (h.from (h.consume.bind fun _ => .pure _)) (h.mismatch _ _)

theorem names_keptBy : KeptBy k R names names := by
  refine (name_keptBy h).bind fun first => h.iterate _ fun names => ?_
  exact (accept_keptBy h _).bind fun _ => .ite ((name_keptBy h).bind fun _ => .pure _) (.pure _)

theorem namesAfterWord_keptBy (word : String) : KeptBy k R (namesAfterWord word) (namesAfterWord word) :=
  (acceptWord_keptBy h word).bind fun _ => .ite (names_keptBy h) (.pure _)

theorem busNames_keptBy : KeptBy k R busNames busNames :=
  (accept_keptBy h _).bind fun _ => .ite (names_keptBy h) (.pure _)

theorem entityReference_keptBy : KeptBy k R entityReference entityReference :=
  (peekKind_related h).bind fun _ => .ite (h.from (h.consume.bind fun _ => .pure _)) (h.mismatch _ _)

theorem adjacentSymbols_keptBy (text : String) (stop : Text.Position) :
    KeptBy k R (adjacentSymbols text stop) (adjacentSymbols text stop) :=
  h.iterate _ fun (_, _) => h.peek.bind fun _ =>
    h.from (.ite (h.consume.bind fun _ => .pure _) (.pure _))

theorem definedSymbol_keptBy : KeptBy k R definedSymbol definedSymbol :=
  (peekKind_related h).bind fun _ => .ite (h.from (h.consume.bind fun _ => .pure _))
    (.ite (h.from (h.consume.bind fun _ => adjacentSymbols_keptBy h _ _)) (h.mismatch _ _))

theorem definedNotation_keptBy : KeptBy k R definedNotation definedNotation := by
  refine h.peek.bind fun token => ?_
  split
  · exact .ite (h.from (h.consume.bind fun _ => .pure _)) (h.mismatch _ _)
  · exact h.mismatch _ _

theorem definedPrecedence_keptBy : KeptBy k R definedPrecedence definedPrecedence := by
  refine (peekKind_related h).bind fun kind => .ite ((h.from h.peek).bind fun token => ?_)
    (h.from (.pure _))
  exact .ite (h.from (h.consume.bind fun _ => .pure _)) (h.mismatch _ _)

/-- What stands in a definition, up to where the netlist is told. -/
def entityParts : Run (Session σ) Entity := do
  let label ← name
  let symbol ← definedSymbol
  let form ← definedNotation
  let precedence ← definedPrecedence
  let inputs ← namesAfterWord "in"
  let outputs ← namesAfterWord "out"
  let buses ← busNames
  return { label, symbol, form, precedence, inputs, outputs, buses }

omit h in
/-- A definition is read, and then made. -/
theorem entityDefinition_eq : (entityDefinition : Run (Session σ) Statement) = do
    let e ← entityParts
    define e
    return .entity e := by
  unfold entityDefinition entityParts define
  simp only [bind_assoc, pure_bind]

theorem entityParts_keptBy : KeptBy k R entityParts entityParts :=
  (name_keptBy h).bind fun _ => (definedSymbol_keptBy h).bind fun _ => (definedNotation_keptBy h).bind fun _ =>
    (definedPrecedence_keptBy h).bind fun _ => (namesAfterWord_keptBy h _).bind fun _ =>
    (namesAfterWord_keptBy h _).bind fun _ => (busNames_keptBy h).bind fun _ => .pure _

theorem bindingLabel_keptBy : KeptBy k R bindingLabel bindingLabel := by
  refine (peekKind_related h).bind fun kind => .ite (h.second.bind fun second => ?_) (h.from (.pure _))
  refine h.from (.ite ?_ (.pure _))
  exact h.consume.bind fun _ => h.consume.bind fun _ => .pure _

theorem tryTargets_keptBy : KeptBy k R tryTargets tryTargets := by
  refine h.iterate _ fun names => (peekKind_related h).bind fun kind => h.from (.ite ?_ (.pure _))
  refine h.consume.bind fun _ => (accept_keptBy h _).bind fun _ => .ite (.pure _) ?_
  exact (accept_keptBy h _).bind fun _ => .ite (.pure _) (.pure _)

/-- What is tried, if marks are kept, too. -/
theorem assignmentTargets_keptBy (hmark : KeptBy k R (onTokens Cursor.mark) (onTokens Cursor.mark))
    (hcommit : KeptBy k R (onTokens Cursor.commit) (onTokens Cursor.commit))
    (hrollback : KeptBy k R (onTokens Cursor.rollback) (onTokens Cursor.rollback)) :
    KeptBy k R assignmentTargets assignmentTargets := by
  refine hmark.bind fun _ => (tryTargets_keptBy h).bind fun found => ?_
  cases found with
  | some names => exact hcommit.bind fun _ => .pure _
  | none => exact hrollback.bind fun _ => .pure _

end Tokens

/-! ### Expressions -/

section Terms

variable (h : ComparedTerms k R S)

include h

section Operands

variable {read : ExprReader σ} {read' : ExprReader τ} (hread : ∀ bound, KeptBy k R (read bound) (read' bound))

include hread

theorem itemsBy_keptBy (container : Container) : KeptBy k R (itemsBy read container) (itemsBy read' container) := by
  refine (accept_keptBy h.tokens _).bind fun _ => .ite (.pure _) (h.tokens.iterate _ fun items => ?_)
  refine (hread none).bind fun e => (accept_keptBy h.tokens _).bind fun _ => .ite (.pure _) ?_
  exact (expect_keptBy h.tokens _).bind fun _ => .pure _

theorem groupBy_keptBy : KeptBy k R (groupBy read) (groupBy read') := by
  refine h.tokens.consume.bind fun token => ?_
  split
  · exact (itemsBy_keptBy h hread _).bind fun _ => .pure _
  · exact h.tokens.violate _ _

omit hread h in
/-- What a name applies to the operands behind it. -/
def applyNamed {υ : Type} (name : String) (arguments : List Expr) (table : Operator.Table) :
    Run (Session υ) Expr :=
  tell (.applyOperator ((table.resolve? name arguments.length).getD (.adHoc name arguments.length)) arguments)

theorem callBy_keptBy : KeptBy k R (callBy read) (callBy read') := by
  refine h.tokens.consume.bind fun token => (groupBy_keptBy h hread).bind fun (_, arguments) => ?_
  exact .get_of table table h.tokens.table (f := applyNamed token.text arguments)
    (g := applyNamed token.text arguments) fun _ => h.tell (.applyOperator _ arguments) rfl

theorem prefixedBy_keptBy (op : Operator) : KeptBy k R (prefixedBy read op) (prefixedBy read' op) :=
  h.tokens.consume.bind fun _ => (hread _).bind fun operand => h.tell (.applyOperator op [operand]) rfl

omit hread h in
/-- A name as an operand, when it is known whether it is registered. -/
def namedKnown {υ : Type} [Source υ Char] (read : ExprReader υ) (kind : Token.Kind) (known : Bool) :
    Run (Session υ) Expr := do
  if (← kindAt 1) = .opening .list ∧ (known ∨ kind ≠ .symbol) then
    callBy read
  else
    match ← operatorAt .prefixOp with
    | some op => prefixedBy read op
    | none =>
      if kind = .symbol then
        unexpectedOperand
      else
        let name := (← consume).text
        tell (.useSignal name)

theorem namedKnown_related (kind : Token.Kind) (known : Bool) :
    k.Holds S (fun _ => R) (namedKnown read kind known) (namedKnown read' kind known) := by
  refine h.tokens.second.bind fun second => .ite (h.tokens.from (callBy_keptBy h hread)) ?_
  refine (h.tokens.from (operatorAt_related h.tokens _)).bind fun found => ?_
  cases found with
  | some op => exact h.tokens.from (prefixedBy_keptBy h hread op)
  | none =>
    refine .ite (h.tokens.unexpectedOperand _) (h.tokens.from (h.tokens.consume.bind fun token => ?_))
    exact h.tell (.useSignal token.text) rfl

theorem namedBy_keptBy (kind : Token.Kind) : KeptBy k R (namedBy read kind) (namedBy read' kind) :=
  h.tokens.peek.bind fun token => .get_of table table (fun s t hs => h.tokens.table s t (h.tokens.loosen hs))
    (f := fun table => namedKnown read kind (table.contains token.text))
    (g := fun table => namedKnown read' kind (table.contains token.text)) fun _ =>
      namedKnown_related h hread kind _

theorem operandBy_keptBy : KeptBy k R (operandBy read) (operandBy read') := by
  refine (peekKind_related h.tokens).bind fun kind => ?_
  split
  · next constant _ =>
    refine h.tokens.from (h.tokens.consume.bind fun token => ?_)
    exact h.tell (.constant constant token.text) rfl
  · refine .ite (h.tokens.from ((groupBy_keptBy h hread).bind fun found => ?_))
      (.ite (h.tokens.from (namedBy_keptBy h hread kind)) (h.tokens.unexpectedOperand _))
    split
    · exact .pure _
    · next container items _ => exact h.tell (.encapsulate container items) rfl

omit hread

theorem reduceWhile_keptBy (first : Operator → Bool) (n : Nat) (held : Stacks) :
    KeptBy k R (reduceWhile first n held) (reduceWhile first n held) := by
  induction n generalizing held with
  | zero => exact .pure _
  | succ n ih =>
    refine .ite (.bind ?_ ih) (.pure _)
    unfold reduce
    split
    · exact h.tokens.violate _ _
    · next op operators _ =>
      refine (popOperand_keptBy h.tokens _).bind fun (right, rest) =>
        (popOperand_keptBy h.tokens _).bind fun (left, rest) => ?_
      exact (h.tell (.applyOperator op [left, right]) rfl).bind fun _ => .pure _

include hread

theorem infixesBy_keptBy (bound : Option Nat) (held : Stacks) :
    KeptBy k R (infixesBy read bound held) (infixesBy read' bound held) := by
  refine h.tokens.iterate _ fun held => (operatorAt_keptBy h.tokens _).bind fun found => ?_
  cases found with
  | none => exact .pure _
  | some op =>
    refine .ite ((reduceWhile_keptBy h _ _ _).bind fun held => ?_) (.pure _)
    exact h.tokens.consume.bind fun _ => (operandBy_keptBy h hread).bind fun _ => .pure _

omit hread

theorem postfixesBy_keptBy (bound : Option Nat) (operand : Expr) :
    KeptBy k R (postfixesBy bound operand) (postfixesBy bound operand) := by
  refine h.tokens.iterate _ fun (operand, applied) => (operatorAt_keptBy h.tokens _).bind fun found => ?_
  cases found with
  | none => exact .pure _
  | some op =>
    refine .ite (h.tokens.consume.bind fun _ => ?_) (.pure _)
    exact (h.tell (.applyOperator op [operand]) rfl).bind fun _ => .pure _

include hread

theorem climbBy_keptBy (bound : Option Nat) : KeptBy k R (climbBy read bound) (climbBy read' bound) := by
  refine (operandBy_keptBy h hread).bind fun first => h.tokens.iterate _ fun first => ?_
  exact (infixesBy_keptBy h hread _ _).bind fun held => (reduceWhile_keptBy h _ _ _).bind
    fun held => (popOperand_keptBy h.tokens _).bind fun whole => (postfixesBy_keptBy h _ _).bind
    fun found => (operatorAt_keptBy h.tokens _).bind fun _ => .ite (.pure _) (.pure _)

end Operands

theorem expression_keptBy : KeptBy k R (expression : Run (Session σ) Expr) expression :=
  h.tokens.descend (fun _ => rfl) (fun _ => rfl) (fun _ _ ih bound => climbBy_keptBy h ih bound) none

end Terms

/-! ### Statements -/

/-- The steps of a parser outside of expressions keep sessions related, and so does an expression, whatever it
is made of. -/
structure ComparedRules (k : Run.Comparison (Session σ) (Session τ)) (R S : Session σ → Session τ → Prop) :
    Prop where
  tokens : ComparedTokens k R S
  tell (call : Call) (hdefines : call.defines = false) (happlies : call.applies = false) :
    KeptBy k R (tell call) (tell call)
  expression : KeptBy k R expression expression
  targets : KeptBy k R assignmentTargets assignmentTargets
  define (e : Entity) : KeptBy k R (define e) (define e)

theorem Compared.rules (h : Compared k R S) : ComparedRules k R S where
  tokens := h.tokens
  tell call hdefines _ := h.tell call hdefines
  expression := expression_keptBy h.toComparedTerms
  targets := h.targets
  define := h.define

section Rules

variable (h : ComparedRules k R S)

include h

theorem entityDefinition_keptBy : KeptBy k R entityDefinition entityDefinition := by
  rw [entityDefinition_eq, entityDefinition_eq]
  exact (entityParts_keptBy h.tokens).bind fun e => (h.define e).bind fun _ => .pure _

section Bodies

variable {read : Run (Session σ) Statement} {read' : Run (Session τ) Statement} (hread : KeptBy k R read read')

include hread

theorem bodyBy_keptBy : KeptBy k R (bodyBy read) (bodyBy read') := by
  refine h.tokens.iterate _ fun statements => (skip_keptBy h.tokens _).bind fun _ =>
    (accept_keptBy h.tokens _).bind fun _ => .ite (.pure _) ?_
  refine hread.bind fun statement => (accept_keptBy h.tokens _).bind fun _ => .ite (.pure _) ?_
  exact (expect_keptBy h.tokens _).bind fun _ => .pure _

theorem architectureBy_keptBy : KeptBy k R (architectureBy read) (architectureBy read') :=
  (name_keptBy h.tokens).bind fun name => (entityReference_keptBy h.tokens).bind fun entity =>
    (expect_keptBy h.tokens _).bind fun _ => (h.tell (.beginArchitecture name entity) rfl rfl).bind fun _ =>
    (bodyBy_keptBy h hread).bind fun _ =>
    (h.tell .endArchitecture rfl rfl).bind fun _ => .pure _

theorem definitionBy_keptBy : KeptBy k R (definitionBy read) (definitionBy read') := by
  refine (acceptWord_keptBy h.tokens _).bind fun _ => .ite (entityDefinition_keptBy h) ?_
  refine (acceptWord_related h.tokens _).bind fun accepted => ?_
  cases accepted with
  | true => exact architectureBy_keptBy h hread
  | false => exact h.tokens.mismatch _ _

end Bodies

theorem bindingsAfterWord_keptBy (word : String) {read : Run (Session σ) Expr} {read' : Run (Session τ) Expr}
    (hread : KeptBy k R read read') : KeptBy k R (bindingsAfterWord word read) (bindingsAfterWord word read') := by
  refine (acceptWord_keptBy h.tokens word).bind fun _ => .ite ?_ (.pure _)
  refine h.tokens.iterate _ fun bindings => ?_
  exact (bindingLabel_keptBy h.tokens).bind fun _ => hread.bind fun _ =>
    (accept_keptBy h.tokens _).bind fun _ => .ite (.pure _) (.pure _)

theorem outputSignal_keptBy : KeptBy k R outputSignal outputSignal :=
  (name_keptBy h.tokens).bind fun name => h.tell (.useSignal name) rfl rfl

theorem instantiation_keptBy : KeptBy k R instantiation instantiation :=
  (expect_keptBy h.tokens _).bind fun _ => (entityReference_keptBy h.tokens).bind fun entity =>
    (bindingsAfterWord_keptBy h _ h.expression).bind fun inputs =>
    (bindingsAfterWord_keptBy h _ (outputSignal_keptBy h)).bind fun outputs =>
    (busNames_keptBy h.tokens).bind fun _ =>
    (Run.Comparison.Holds.mapM (fun name => h.tell (.useBus name) rfl rfl) _).bind fun buses =>
    (h.tell (.instantiate entity inputs outputs buses) rfl rfl).bind fun _ => .pure _

theorem assignmentOrExpression_keptBy : KeptBy k R assignmentOrExpression assignmentOrExpression := by
  refine h.targets.bind fun targets => ?_
  cases targets with
  | none => exact h.expression.bind fun _ => .pure _
  | some names =>
    refine (Run.Comparison.Holds.mapM (fun name => h.tell (.useSignal name) rfl rfl) _).bind fun targets => ?_
    exact h.expression.bind fun value => (h.tell (.assign targets value) rfl rfl).bind fun _ => .pure _

theorem statementBy_keptBy {read : Run (Session σ) Statement} {read' : Run (Session τ) Statement}
    (hread : KeptBy k R read read') : KeptBy k R (statementBy read) (statementBy read') := by
  refine (peekKind_related h.tokens).bind fun kind => h.tokens.from ?_
  split
  · exact h.tokens.consume.bind fun _ => definitionBy_keptBy h hread
  · exact instantiation_keptBy h
  · exact h.tokens.consume.bind fun _ => (names_keptBy h.tokens).bind fun _ =>
      (Run.Comparison.Holds.mapM (fun name => h.tell (.declareSignal name) rfl rfl) _).bind fun _ => .pure _
  · exact h.tokens.consume.bind fun _ => (names_keptBy h.tokens).bind fun _ =>
      (Run.Comparison.Holds.mapM (fun name => h.tell (.declareBus name) rfl rfl) _).bind fun _ => .pure _
  · exact assignmentOrExpression_keptBy h

/-- A statement, in which others stand inside each other. -/
theorem statement_keptBy : KeptBy k R (MonadState.get >>= fun s => statement (s.remaining + 1))
    (MonadState.get >>= fun t => statement (t.remaining + 1)) :=
  h.tokens.descend (f := fun depth (_ : Unit) => statement depth) (g := fun depth _ => statement depth)
    (fun _ => rfl) (fun _ => rfl) (fun _ _ ih _ => statementBy_keptBy h (ih ())) ()

/-- **A statement.** -/
theorem parseStatement_keptBy : KeptBy k R parseStatement parseStatement := by
  refine (skip_keptBy h.tokens _).bind fun _ => (peekKind_related h.tokens).bind fun kind => h.tokens.from
    (.ite (.pure _) ?_)
  rw [← bind_assoc, ← bind_assoc]
  refine (statement_keptBy h).bind fun statement => (accept_keptBy h.tokens _).bind fun _ => .ite (.pure _) ?_
  exact (peekKind_related h.tokens).bind fun _ => .ite (h.tokens.from (.pure _)) (h.tokens.mismatch _ _)

/-- **All statements.** -/
theorem parseAll_keptBy : KeptBy k R parseAll parseAll := by
  refine h.tokens.iterate _ fun statements => (parseStatement_keptBy h).bind fun found => ?_
  cases found with
  | none => exact .pure _
  | some statement => exact .pure _

end Rules

end Parser

end Dataflow
