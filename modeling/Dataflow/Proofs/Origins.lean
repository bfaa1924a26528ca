import Dataflow.Proofs.Sentences
import Dataflow.Proofs.Spelling
import Dataflow.Proofs.Transcript

/-!
# Dataflow.Proofs.Origins

**Where the names in a tree come from.** Whatever is read as an expression, its numbers and signals are
tokens that have been read, and what is applied in it is the entity of an operator of the table, or again
a token, of a name that is called and that no operator has to be applied for (`Expr.Stems`). So what is
known of all tokens, and of the entities of a table, is known of the names in all trees.

* `Operator.Table.Labels` — the entities that the operators of a table stand for;
* `Expr.Stems` — the judgement on trees, with a list of one item left out, because that only groups;
* `Sight.Hands` — a session that hands out tokens of one sort only;
* `Parser.expression_stems`, `Parser.stems_of_parseAll` — expressions, and expressions that are all of a
  text.
-/

namespace Dataflow

open Reading Circuit Session

/-- The label is that of an entity that some operator of the table applies. -/
def Operator.Table.Labels (t : Operator.Table) (label : String) : Prop :=
  ∃ symbol fixity op, t.get? symbol fixity = some op ∧ op.entity = label

namespace Operator.Table

variable {t : Table} {name : String} {arity : Nat} {op : Operator}

theorem Labels.of_get? {f : Fixity} (h : t.get? name f = some op) : t.Labels op.entity :=
  ⟨name, f, op, h, rfl⟩

theorem Labels.of_found {token : Token} {f : Fixity}
    (h : some op = if token.kind.isIdentifier then t.get? token.text f else none) : t.Labels op.entity := by
  split at h
  · exact .of_get? h.symm
  · cases h

/-- Only the symbols that are registered have to be looked up. -/
theorem labels_iff {label : String} :
    t.Labels label ↔ ∃ symbol ∈ t.symbols, ∃ f ∈ Fixity.all, ∃ op ∈ t.get? symbol f, op.entity = label := by
  constructor
  · rintro ⟨symbol, f, op, hop, rfl⟩
    exact ⟨symbol, mem_symbols_of_get? hop, f, f.mem_all, op, hop, rfl⟩
  · rintro ⟨symbol, -, f, -, op, hop, rfl⟩
    exact .of_get? hop

instance (t : Table) (label : String) : Decidable (t.Labels label) := decidable_of_iff _ labels_iff.symm

/-- What a name stands for when it is called has been registered. -/
theorem Labels.of_resolve? (h : t.resolve? name arity = some op) : t.Labels op.entity := by
  unfold resolve? at h
  rcases Option.or_eq_some_iff.1 h with h | ⟨-, h⟩
  · exact .of_get? (Option.filter_eq_some_iff.1 h).1
  · split at h
    · exact .of_get? h
    · exact .of_get? h
    · cases h

/-- A call applies an operator of the table or, if there is none, what is called. -/
theorem applied_cases (t : Table) (name : String) (arity : Nat) :
    t.Labels (t.applied name arity).entity ∨ (t.applied name arity).entity = name := by
  unfold applied
  cases hresolve : t.resolve? name arity with
  | some op => exact .inl (.of_resolve? hresolve)
  | none => exact .inr rfl

end Operator.Table

/-! ### Trees -/

namespace Circuit.Expr

variable {t : Operator.Table} {G : Token → Prop}

mutual

/-- The tree stems from tokens of which `G` holds, and from the operators of the table. -/
def Stems (t : Operator.Table) (G : Token → Prop) : Expr → Prop
  | literal _ => True
  | integer digits => ∃ token, G token ∧ token.kind = .integer ∧ token.text = digits
  | real number => ∃ token, G token ∧ token.kind = .real ∧ token.text = number
  | signal name => t.get? name .prefixOp = none ∧
      ∃ token, G token ∧ token.kind.isTextIdentifier = true ∧ token.text = name
  | apply entity arguments => (t.Labels entity ∨ (t.applied entity arguments.length).entity = entity ∧
      ∃ token, G token ∧ token.kind.isIdentifier = true ∧ token.text = entity ∧
        (t.contains entity = true ∨ token.kind ≠ .symbol)) ∧ StemsAll t G arguments
  | group container items => (container = .list → items.length ≠ 1) ∧ StemsAll t G items
  | bus _ | pin _ _ => False

/-- All these trees stem from such tokens and from the operators. -/
def StemsAll (t : Operator.Table) (G : Token → Prop) : List Expr → Prop
  | [] => True
  | e :: rest => Stems t G e ∧ StemsAll t G rest

end

theorem stemsAll_iff {es : List Expr} : StemsAll t G es ↔ ∀ e ∈ es, e.Stems t G := by
  induction es with
  | nil => simp [StemsAll]
  | cons e es ih => simp [StemsAll, ih]

/-- An operator of the table, applied to trees. -/
theorem stems_apply {op : Operator} {arguments : List Expr} (hop : t.Labels op.entity)
    (h : ∀ e ∈ arguments, e.Stems t G) : (apply op.entity arguments).Stems t G :=
  ⟨.inl hop, stemsAll_iff.2 h⟩

/-- A name that is called with trees. -/
theorem stems_call {token : Token} {arguments : List Expr} (hG : G token)
    (hname : token.kind.isIdentifier = true)
    (hknown : t.contains token.text = true ∨ token.kind ≠ .symbol)
    (h : ∀ e ∈ arguments, e.Stems t G) :
    (apply (t.applied token.text arguments.length).entity arguments).Stems t G := by
  refine ⟨(t.applied_cases token.text arguments.length).imp_right fun hsame => ?_, stemsAll_iff.2 h⟩
  rw [hsame]
  exact ⟨hsame, token, hG, hname, rfl, hknown⟩

theorem stems_constant {token : Token} {kind : ConstantKind} (hG : G token)
    (hkind : Parser.constantKind? token.kind = some kind) : (constant kind token.text).Stems t G := by
  cases htoken : token.kind <;> rw [htoken] at hkind <;> cases hkind
  · exact trivial
  · exact ⟨token, hG, htoken, rfl⟩
  · exact ⟨token, hG, htoken, rfl⟩

end Circuit.Expr

/-! ### Sessions -/

variable {σ : Type} [Source σ Char] {s : Session σ} {v w : Sight σ} {t : Operator.Table}
  {G : Token → Prop}

/-- As long as no operator is registered, only tokens of which `G` holds come into view, and the
operators are those of the table. -/
structure Sight.Hands (t : Operator.Table) (G : Token → Prop) (v : Sight σ) : Prop where
  table : v.lexer.table = t
  good : ∀ {tokens w}, v.Passes tokens w → ∀ token ∈ tokens ++ w.ahead, G token

namespace Sight.Hands

variable {tokens rest : List Token} {token : Token}

theorem passes (h : v.Hands t G) (hpasses : v.Passes tokens w) : w.Hands t G where
  table := hpasses.table_eq.trans h.table
  good hmore token htoken := h.good (hpasses.trans hmore) token (by
    rw [List.append_assoc]
    exact List.mem_append_right _ htoken)

theorem of_ahead (h : v.Hands t G) (hv : v.ahead = token :: rest) : G token :=
  h.good (.refl v) token (by rw [hv]; exact List.mem_cons_self)

end Sight.Hands

namespace Session

/-- What the netlist answers to a call that it accepts. -/
theorem tell_answers (call : Call) (h : s.Sees v) :
    Reads v (fun node tokens w => tokens = [] ∧ w = v ∧ ∃ n m, Netlist.Effect call n node m)
      (tell call s) := by
  have hreads := tell_reads call h
  cases hperform : Netlist.perform call s.netlist with
  | ok node n =>
    rw [tell_ok call hperform] at hreads ⊢
    obtain ⟨tokens, w, hpasses, hsees, htokens, hw⟩ := hreads
    exact ⟨tokens, w, hpasses, hsees, htokens, hw, _, _, Netlist.effect_of_perform hperform⟩
  | error cause n =>
    rw [tell_error call hperform] at hreads ⊢
    exact hreads

end Session

namespace Parser

/-- The computation answers with trees that stem from the tokens of the session. -/
def Grows {β : Type} (t : Operator.Table) (G : Token → Prop) (trees : β → List Expr)
    (x : Run (Session σ) β) : Prop :=
  ∀ s v, s.Sees v → v.Hands t G → Reads v (fun b _ _ => ∀ e ∈ trees b, e.Stems t G) (x s)

/-- An application that the netlist accepts. -/
theorem apply_stems {op : Operator} {arguments : List Expr}
    (h : (Expr.apply op.entity arguments).Stems t G) :
    Grows t G (fun e => [e]) (tell (.applyOperator op arguments) : Run (Session σ) Expr) := by
  intro s v hs _
  refine (tell_answers (.applyOperator op arguments) hs).mono ?_
  rintro node _ _ - ⟨-, -, n, m, rfl, -⟩ e he
  rwa [List.mem_singleton.1 he]

/-! ### Operators between operands -/

/-- The operands stem from the tokens, and the operators are those of the table. -/
structure Stacks.Stem (t : Operator.Table) (G : Token → Prop) (held : Stacks) : Prop where
  operands : ∀ e ∈ held.operands, e.Stems t G
  operators : ∀ op ∈ held.operators, t.Labels op.entity

theorem reduce_stems {held : Stacks} (hheld : held.Stem t G) (h : s.Sees v) :
    Reads v (fun held' tokens w => tokens = [] ∧ w = v ∧ held'.Stem t G) (reduce held s) := by
  obtain ⟨operands, operators⟩ := held
  rcases operators with _ | ⟨op, operators⟩
  · exact .violate h _
  rcases operands with _ | ⟨right, _ | ⟨left, rest⟩⟩
  · exact .violate h _
  · exact .violate h _
  refine (tell_answers (.applyOperator op [left, right]) h).bind ?_
  rintro node t₁ _ _ - hsees ⟨rfl, rfl, n, m, rfl, -⟩
  have hleft := hheld.operands left (by simp)
  have hright := hheld.operands right (by simp)
  refine .pure hsees ⟨rfl, rfl, ?_, fun op' hop => hheld.operators op' (List.mem_cons_of_mem _ hop)⟩
  intro e he
  rcases List.mem_cons.1 he with rfl | he
  · exact Expr.stems_apply (hheld.operators op List.mem_cons_self) (by simp [hleft, hright])
  · exact hheld.operands e (by simp [he])

theorem reduceWhile_stems (first : Operator → Bool) (n : Nat) {held : Stacks} (hheld : held.Stem t G)
    (h : s.Sees v) :
    Reads v (fun held' tokens w => tokens = [] ∧ w = v ∧ held'.Stem t G)
      (reduceWhile first n held s) := by
  induction n generalizing held s with
  | zero => exact .pure h ⟨rfl, rfl, hheld⟩
  | succ n ih =>
    unfold reduceWhile
    split
    · refine (reduce_stems hheld h).bind ?_
      rintro held' t₁ _ _ - hsees ⟨rfl, rfl, hheld'⟩
      exact ih hheld' hsees
    · exact .pure h ⟨rfl, rfl, hheld⟩

/-! ### Operands -/

section

variable {read : ExprReader σ}

theorem itemsBy_stems (hread : ∀ bound, Grows t G (fun e => [e]) (read bound)) (container : Container) :
    Grows t G id (itemsBy read container) := by
  intro s v h hv
  refine (accept_reads h _).bind ?_
  rintro (_ | _) t₁ tokens₁ w₁ hpasses₁ hsees₁ -
  · refine Reads.iterate (I := fun items _ _ => ∀ e ∈ items, e.Stems t G) hsees₁ nofun ?_
    rintro items tokens u t₂ hpasses₂ hsees₂ hitems
    have hu := (hv.passes hpasses₁).passes hpasses₂
    refine (hread none t₂ u hsees₂ hu).bind ?_
    rintro value t₃ item u₃ - hsees₃ hvalue
    have hmore : ∀ e ∈ value :: items, e.Stems t G :=
      List.forall_mem_cons.2 ⟨hvalue value List.mem_cons_self, hitems⟩
    refine (accept_reads hsees₃ _).bind ?_
    rintro (_ | _) t₄ _ u₄ - hsees₄ -
    · refine (expect_reads hsees₄ _).bind ?_
      rintro ⟨⟩ t₅ _ u₅ - hsees₅ -
      exact .pure hsees₅ fun e he => hmore e (List.mem_reverse.1 he)
    · exact .pure hsees₄ hmore
  · exact .pure hsees₁ nofun

theorem groupBy_stems (hread : ∀ bound, Grows t G (fun e => [e]) (read bound)) :
    Grows t G Prod.snd (groupBy read) := by
  intro s v h hv
  refine (consume_reads h).bind ?_
  rintro opening t₁ _ w₁ hpasses₁ hsees₁ -
  cases opening.kind with
  | «opening» container =>
    refine (itemsBy_stems hread container t₁ w₁ hsees₁ (hv.passes hpasses₁)).bind ?_
    rintro items t₂ _ w₂ - hsees₂ hitems
    exact .pure hsees₂ hitems
  | _ => exact .violate hsees₁ _

/-- A call of the token in view. -/
theorem callBy_stems (hread : ∀ bound, Grows t G (fun e => [e]) (read bound)) (h : s.Sees v)
    (hv : v.Hands t G) {token : Token} {rest : List Token} (hahead : v.ahead = token :: rest)
    (hname : token.kind.isIdentifier = true)
    (hknown : t.contains token.text = true ∨ token.kind ≠ .symbol) :
    Reads v (fun e _ _ => ∀ e' ∈ [e], e'.Stems t G) (callBy read s) := by
  refine (consume_reads h).bind ?_
  rintro name t₁ _ w₁ hpasses₁ hsees₁ ⟨-, -, hhead⟩
  obtain rfl := hhead token (by rw [hahead]; exact rfl)
  have hw₁ := hv.passes hpasses₁
  refine (groupBy_stems hread t₁ w₁ hsees₁ hw₁).bind ?_
  rintro ⟨container, arguments⟩ t₂ _ w₂ hpasses₂ hsees₂ harguments
  dsimp only
  rw [Run.bind_apply, Run.get_apply]
  dsimp only
  have hw₂ := hw₁.passes hpasses₂
  rw [hsees₂.table_eq, hw₂.table]
  exact apply_stems (Expr.stems_call (hv.of_ahead hahead) hname hknown harguments) t₂ w₂ hsees₂ hw₂

theorem prefixedBy_stems (hread : ∀ bound, Grows t G (fun e => [e]) (read bound)) {op : Operator}
    (hop : t.Labels op.entity) : Grows t G (fun e => [e]) (prefixedBy read op) := by
  intro s v h hv
  refine (consume_reads h).bind ?_
  rintro token t₁ _ w₁ hpasses₁ hsees₁ -
  have hw₁ := hv.passes hpasses₁
  refine (hread _ t₁ w₁ hsees₁ hw₁).bind ?_
  rintro operand t₂ _ w₂ hpasses₂ hsees₂ hoperand
  exact apply_stems (Expr.stems_apply hop hoperand) t₂ w₂ hsees₂ (hw₁.passes hpasses₂)

/-- A name as an operand. -/
theorem namedBy_stems (hread : ∀ bound, Grows t G (fun e => [e]) (read bound)) (h : s.Sees v)
    (hv : v.Hands t G) {token : Token} {rest : List Token} (hahead : v.ahead = token :: rest)
    (hkind : token.kind.isIdentifier = true) :
    Reads v (fun e _ _ => ∀ e' ∈ [e], e'.Stems t G) (namedBy read token.kind s) := by
  refine (peek_reads h).bind ?_
  rintro token' t₁ _ w₁ hpasses₁ hsees₁ ⟨rfl, ⟨rest₁, hrest₁⟩, -⟩
  obtain rfl : token = token' := by simpa [hrest₁] using (hpasses₁.head_eq hahead).symm
  have hw₁ := hv.passes hpasses₁
  rw [Run.bind_apply, Run.get_apply]
  dsimp only
  rw [hsees₁.table_eq, hw₁.table]
  refine (kindAt_reads hsees₁ 1).bind ?_
  rintro second t₂ _ w₂ hpasses₂ hsees₂ ⟨rfl, -, -⟩
  have hw₂ := hw₁.passes hpasses₂
  obtain ⟨rest₂, hrest₂⟩ := List.head?_eq_some_iff.1 (hpasses₂.head_eq hrest₁)
  split
  · next hcall => exact callBy_stems hread hsees₂ hw₂ hrest₂ hkind hcall.2
  · refine (operatorAt_answers hsees₂ .prefixOp).bind ?_
    rintro found t₃ _ w₃ hpasses₃ hsees₃ ⟨rfl, -, token', rest₃, hrest₃, hfound⟩
    obtain rfl : token = token' := by simpa [hrest₃] using (hpasses₃.head_eq hrest₂).symm
    have hw₃ := hw₂.passes hpasses₃
    rw [if_pos hkind, hw₂.table] at hfound
    cases found with
    | some op => exact prefixedBy_stems hread (.of_get? hfound.symm) t₃ w₃ hsees₃ hw₃
    | none =>
      dsimp only
      split
      · exact unexpectedOperand_reads hsees₃
      · next hsymbol =>
        refine (consume_known hsees₃ hrest₃).bind ?_
        rintro _ t₄ _ w₄ - hsees₄ ⟨rfl, rfl, -⟩
        refine (tell_answers (.useSignal token.text) hsees₄).mono ?_
        rintro node _ _ - ⟨-, -, n, m, rfl, -⟩ e he
        rw [List.mem_singleton.1 he]
        have hname := isTextIdentifier_of_isIdentifier hkind hsymbol
        exact ⟨hfound.symm, token, hv.of_ahead hahead, hname, rfl⟩

/-- **An operand**. A list of one item is that item. -/
theorem operandBy_stems (hread : ∀ bound, Grows t G (fun e => [e]) (read bound)) :
    Grows t G (fun e => [e]) (operandBy read) := by
  intro s v h hv
  refine (peekKind_reads h).bind ?_
  rintro _ t₁ _ w₁ hpasses₁ hsees₁ ⟨rfl, ⟨token, rest, hrest, rfl⟩, -⟩
  have hw₁ := hv.passes hpasses₁
  cases hconstant : constantKind? token.kind with
  | some constant =>
    refine (consume_known hsees₁ hrest).bind ?_
    rintro _ t₂ _ w₂ - hsees₂ ⟨rfl, rfl, -⟩
    refine (tell_answers (.constant constant token.text) hsees₂).mono ?_
    rintro node _ _ - ⟨-, -, n, m, rfl, -⟩ e he
    rw [List.mem_singleton.1 he]
    exact Expr.stems_constant (hw₁.of_ahead hrest) hconstant
  | none =>
    dsimp only
    split
    · refine (groupBy_stems hread t₁ w₁ hsees₁ hw₁).bind ?_
      rintro answer t₂ _ w₂ - hsees₂ hitems
      split
      · exact .pure hsees₂ hitems
      · next container items hother =>
        refine (tell_answers (.encapsulate container items) hsees₂).mono ?_
        rintro node _ _ - ⟨-, -, n, m, rfl, -⟩ e he
        rw [List.mem_singleton.1 he]
        refine ⟨fun hlist hone => ?_, Expr.stemsAll_iff.2 hitems⟩
        obtain ⟨item, rfl⟩ := List.length_eq_one_iff.1 hone
        exact hother item hlist rfl
    split
    · next hkind => exact namedBy_stems hread hsees₁ hw₁ hrest hkind
    · exact unexpectedOperand_reads hsees₁

/-! ### Expressions -/

theorem infixesBy_stems (hread : ∀ bound, Grows t G (fun e => [e]) (read bound)) (bound : Option Nat)
    {held : Stacks} (hheld : held.Stem t G) (h : s.Sees v) (hv : v.Hands t G) :
    Reads v (fun held' _ _ => held'.Stem t G) (infixesBy read bound held s) := by
  refine Reads.iterate (I := fun held _ _ => held.Stem t G) h hheld ?_
  rintro held tokens w t₁ hpasses hsees hheld
  have hw := hv.passes hpasses
  refine (operatorAt_answers hsees .infixOp).bind ?_
  rintro found t₂ _ w₂ hpasses₂ hsees₂ ⟨rfl, -, token, rest, hrest, hfound⟩
  have hw₂ := hw.passes hpasses₂
  cases found with
  | none => exact .pure hsees₂ hheld
  | some op =>
    have hop : t.Labels op.entity := Operator.Table.Labels.of_found (hw.table ▸ hfound)
    dsimp only
    split
    · refine (reduceWhile_stems _ _ hheld hsees₂).bind ?_
      rintro held' t₃ _ _ - hsees₃ ⟨rfl, rfl, hheld'⟩
      refine (consume_reads hsees₃).bind ?_
      rintro token' t₄ _ w₄ hpasses₄ hsees₄ -
      refine (operandBy_stems hread t₄ w₄ hsees₄ (hw₂.passes hpasses₄)).bind ?_
      rintro operand t₅ more w₅ - hsees₅ hoperand
      refine .pure hsees₅ ⟨?_, ?_⟩
      · exact List.forall_mem_cons.2 ⟨hoperand operand List.mem_cons_self, hheld'.operands⟩
      · exact List.forall_mem_cons.2 ⟨hop, hheld'.operators⟩
    · exact .pure hsees₂ hheld

theorem postfixesBy_stems (bound : Option Nat) {operand : Expr} (hoperand : operand.Stems t G)
    (h : s.Sees v) (hv : v.Hands t G) :
    Reads v (fun found _ _ => found.1.Stems t G) (postfixesBy bound operand s) := by
  refine Reads.iterate (I := fun found _ _ => found.1.Stems t G) h hoperand ?_
  rintro ⟨operand, applied⟩ tokens w t₁ hpasses hsees hoperand
  have hw := hv.passes hpasses
  refine (operatorAt_answers hsees .postfixOp).bind ?_
  rintro found t₂ _ w₂ hpasses₂ hsees₂ ⟨rfl, -, token, rest, hrest, hfound⟩
  cases found with
  | none => exact .pure hsees₂ hoperand
  | some op =>
    have hop : t.Labels op.entity := Operator.Table.Labels.of_found (hw.table ▸ hfound)
    dsimp only
    split
    · refine (consume_reads hsees₂).bind ?_
      rintro token' t₃ _ w₃ - hsees₃ -
      refine (tell_answers (.applyOperator op [operand]) hsees₃).bind ?_
      rintro node t₄ _ _ - hsees₄ ⟨rfl, rfl, n, m, rfl, -⟩
      exact .pure hsees₄ (Expr.stems_apply hop (by simpa using hoperand))
    · exact .pure hsees₂ hoperand

theorem climbBy_stems (hread : ∀ bound, Grows t G (fun e => [e]) (read bound)) (bound : Option Nat) :
    Grows t G (fun e => [e]) (climbBy read bound) := by
  intro s v h hv
  refine (operandBy_stems hread s v h hv).bind ?_
  rintro first t₁ operand w₁ hpasses₁ hsees₁ hfirst
  have hw₁ := hv.passes hpasses₁
  refine Reads.iterate (I := fun first _ _ => ∀ e ∈ [first], e.Stems t G) hsees₁ hfirst ?_
  rintro first tokens w t₂ hpasses₂ hsees₂ hfirst
  have hw₂ := hw₁.passes hpasses₂
  refine (infixesBy_stems hread bound ⟨hfirst, fun _ hop => (List.not_mem_nil hop).elim⟩ hsees₂ hw₂).bind ?_
  rintro reading t₃ between w₃ hpasses₃ hsees₃ hreading
  refine (reduceWhile_stems _ _ hreading hsees₃).bind ?_
  rintro ⟨operands, operators⟩ t₄ _ _ - hsees₄ ⟨rfl, rfl, hreduced⟩
  cases operands with
  | nil => exact .violate hsees₄ _
  | cons whole others =>
    refine Reads.bind (Q := fun found _ _ => found.1 = whole) (.pure hsees₄ rfl) ?_
    rintro ⟨_, others⟩ t₅ _ w₅ hpasses₅ hsees₅ rfl
    have hw₅ := (hw₂.passes hpasses₃).passes hpasses₅
    refine (postfixesBy_stems bound (hreduced.operands _ List.mem_cons_self) hsees₅ hw₅).bind ?_
    rintro ⟨whole, applied⟩ t₆ behind w₆ hpasses₆ hsees₆ hwhole
    refine (operatorAt_reads hsees₆ .infixOp).bind ?_
    rintro found t₇ _ w₇ - hsees₇ -
    have hlast : ∀ e ∈ [whole], e.Stems t G := List.forall_mem_singleton.2 hwhole
    dsimp only
    split
    · exact .pure hsees₇ hlast
    · exact .pure hsees₇ hlast

end

theorem climb_stems (depth : Nat) (bound : Option Nat) :
    Grows t G (fun e => [e]) (climb depth bound : Run (Session σ) Expr) := by
  induction depth generalizing bound with
  | zero => exact fun s v h _ => ⟨v, h, rfl⟩
  | succ depth ih => exact climbBy_stems ih bound

/-- **An expression** stems from the tokens that have been read for it. -/
theorem expression_stems : Grows t G (fun e => [e]) (expression : Run (Session σ) Expr) :=
  fun s v h hv => climb_stems _ none s v h hv

/-! ### Statements -/

/-- The trees of a statement that is an expression, and of no other. -/
def statedTree : Statement → List Expr
  | .expression e => [e]
  | _ => []

theorem assignmentOrExpression_stems :
    Grows t G statedTree (assignmentOrExpression : Run (Session σ) Statement) := by
  intro s v h hv
  refine (assignmentTargets_reads h).bind ?_
  rintro (_ | names) t₁ tokens w₁ hpasses₁ hsees₁ -
  · refine (expression_stems t₁ w₁ hsees₁ (hv.passes hpasses₁)).bind ?_
    rintro value t₂ _ w₂ - hsees₂ hvalue
    exact .pure hsees₂ hvalue
  · refine ((Still.mapM (fun name => Still.tell (.useSignal name)) names).reads hsees₁).bind ?_
    rintro nodes t₂ _ _ - hsees₂ -
    refine (expression_reads hsees₂).bind ?_
    rintro value t₃ _ w₃ - hsees₃ -
    refine (tell_reads (.assign nodes value) hsees₃).bind ?_
    rintro ⟨⟩ t₄ _ _ - hsees₄ -
    exact .pure hsees₄ nofun

/-- The computation answers with a statement of another form, if it answers. -/
def Treeless (x : Run (Session σ) Statement) : Prop :=
  Run.Leads (fun _ _ => True) (fun _ => True) (fun statement _ => statedTree statement = []) x

omit [Source σ Char] in
theorem Treeless.behind {α : Type} {x : Run (Session σ) α} {f : α → Run (Session σ) Statement}
    (hf : ∀ a, Treeless (f a)) : Treeless (x >>= f) :=
  Run.Leads.bind (Q := fun _ _ => True) (fun _ _ => .of_true _) hf

omit [Source σ Char] in
theorem Treeless.pure {statement : Statement} (h : statedTree statement = []) :
    Treeless (Pure.pure statement : Run (Session σ) Statement) :=
  fun _ _ => h

theorem mismatch_treeless (expected : String) :
    Treeless (mismatch expected : Run (Session σ) Statement) := by
  intro s _
  unfold mismatch
  refine Run.Ends.bind (.of_true _) (fun _ _ _ => ?_) fun _ _ _ => trivial
  exact trivial

theorem definitionBy_treeless (read : Run (Session σ) Statement) : Treeless (definitionBy read) := by
  refine .behind fun entity => Run.Leads.ite ?_ (Treeless.behind fun architecture =>
    Run.Leads.ite ?_ (mismatch_treeless _))
  · refine Treeless.behind fun label => .behind fun symbol => .behind fun form => .behind fun precedence =>
      .behind fun inputs => .behind fun outputs => .behind fun buses => .behind fun _ => .behind fun _ => ?_
    exact .pure rfl
  · refine Treeless.behind fun name => .behind fun entity => .behind fun _ => .behind fun _ =>
      .behind fun body => .behind fun _ => ?_
    exact .pure rfl

theorem instantiation_treeless : Treeless (instantiation : Run (Session σ) Statement) := by
  refine .behind fun _ => .behind fun entity => .behind fun inputs => .behind fun outputs =>
    .behind fun names => .behind fun buses => .behind fun nodes => ?_
  exact .pure rfl

/-- Where a statement is an expression, it has been read as one. -/
theorem statement_stems (depth : Nat) (h : s.Sees v) (hv : v.Hands t G) :
    Run.Ends (fun statement _ => ∀ e ∈ statedTree statement, e.Stems t G) (fun _ _ => True)
      (statement depth s) := by
  have htreeless {x : Run (Session σ) Statement} (hx : Treeless x) (s : Session σ) :
      Run.Ends (fun statement _ => ∀ e ∈ statedTree statement, e.Stems t G) (fun _ _ => True) (x s) := by
    refine (hx s trivial).mono (fun statement _ hnone => ?_) fun _ _ _ => trivial
    rw [hnone]
    exact nofun
  cases depth with
  | zero => exact trivial
  | succ depth =>
    refine Run.Ends.bind (peekKind_reads h) ?_ fun _ _ _ => trivial
    rintro kind t₁ ⟨tokens, w, hpasses, hsees, -⟩
    split
    · exact htreeless (.behind fun _ => definitionBy_treeless _) t₁
    · exact htreeless instantiation_treeless t₁
    · exact htreeless (.behind fun _ => .behind fun names => .behind fun nodes => .pure rfl) t₁
    · exact htreeless (.behind fun _ => .behind fun names => .behind fun nodes => .pure rfl) t₁
    · refine Run.Ends.mono (assignmentOrExpression_stems t₁ w hsees (hv.passes hpasses)) ?_
        fun _ _ _ => trivial
      rintro statement t₂ ⟨_, _, -, -, hstems⟩
      exact hstems

theorem parseStatement_stems (h : s.Sees v) (hv : v.Hands t G) :
    Run.Ends (fun reply _ => ∀ e ∈ reply.toList.flatMap statedTree, e.Stems t G) (fun _ _ => True)
      (parseStatement s) := by
  unfold parseStatement
  refine Run.Ends.bind (skip_reads h .executor) ?_ fun _ _ _ => trivial
  rintro ⟨⟩ t₁ ⟨_, w₁, hpasses₁, hsees₁, -⟩
  have hw₁ := hv.passes hpasses₁
  refine Run.Ends.bind (peekKind_reads hsees₁) ?_ fun _ _ _ => trivial
  rintro kind t₂ ⟨_, w₂, hpasses₂, hsees₂, -⟩
  split
  · exact nofun
  · rw [Run.bind_apply, Run.get_apply]
    refine Run.Ends.bind (statement_stems _ hsees₂ (hw₁.passes hpasses₂)) ?_ fun _ _ _ => trivial
    intro statement t₃ hstatement
    have hreply : ∀ e ∈ (some statement).toList.flatMap statedTree, e.Stems t G := by simpa using hstatement
    refine Run.Ends.bind (.of_true _) (fun ended t₄ _ => ?_) fun _ _ _ => trivial
    split
    · exact hreply
    · refine Run.Ends.bind (.of_true _) (fun kind t₅ _ => ?_) fun _ _ _ => trivial
      split
      · exact hreply
      · unfold mismatch
        exact Run.Ends.bind (.of_true _) (fun _ _ _ => trivial) fun _ _ _ => trivial

/-- **An expression that is all of a text** stems from the tokens of the text. -/
theorem stems_of_parseAll {e : Expr} {s' : Session σ} (h : s.Sees v) (hv : v.Hands t G)
    (hparsed : parseAll s = .ok [.expression e] s') : e.Stems t G := by
  obtain ⟨replies, u, hyields, -, hanswers⟩ := yields_of_parseAll hparsed
  cases hyields with
  | nil => cases hanswers
  | @cons _ _ _ statement replies hfirst hrest =>
    obtain rfl : statement = .expression e := by simpa using (List.cons.inj hanswers).1
    exact (parseStatement_stems h hv).of_ok hfirst e (by simp [statedTree])

end Parser

end Dataflow
