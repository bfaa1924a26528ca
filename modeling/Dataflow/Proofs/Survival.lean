import Dataflow.Proofs.Consumption
import Dataflow.Proofs.Endurance
import Dataflow.Proofs.Telling

/-!
# Dataflow.Proofs.Survival

**A parser survives whatever it reads.** Each function that reads a part of a statement ends with an
answer or an error, and has a lexer with its footing then; where the end of the input has no role, it
ends at all. There is one lemma for each.

* Loops end because every round but the last takes a token, which the grammar says of it already
  (`Item.properTokens_pos`).
* Expressions and statements inside each other go no deeper than there are tokens, because each stands
  behind a token of its own (`Manages`, `Handles`).
* The stacks of an expression hold one operand more than operators (`Stacks.Balanced`), so that no
  operator lacks its operands.

`parseStatement_survives` and `parseAll_survives` say it of the calls of a parser.
-/

namespace Dataflow

open Reading Circuit Session Grammar

/-- Of an item, at least the first token is to be taken. -/
theorem Grammar.Item.properTokens_pos {tokens : List Token} (h : Item tokens) : 0 < properTokens tokens := by
  obtain ⟨token, rest, rfl, -⟩ := h.begins
  exact Dataflow.properTokens_pos (List.mem_cons_self ..) (h.solid.ordered.inside token (List.mem_cons_self ..))

theorem properTokens_single {token : Token} {kind : Token.Kind} (h : token.kind = kind)
    (hkind : kind ≠ .endOfFile) : 0 < properTokens [token] :=
  properTokens_pos (List.mem_cons_self ..) (h ▸ hkind)

theorem properTokens_single_of_isIdentifier {token : Token} (h : token.kind.isIdentifier = true) :
    0 < properTokens [token] :=
  (Item.name h).properTokens_pos

namespace Parser

variable {σ : Type} [Source σ Char] {I : Nat → σ → Prop} {d : Lexer.Dialect} {s : Session σ}
  {v : Sight σ} {n : Nat}

/-! ### Operators between operands -/

/-- With one operand more than operators, and an operator, there are two operands. -/
theorem reduce_lasts (hI : Ebbs I) (h : s.Sees v) {held : Stacks} (hheld : held.Balanced)
    (hoperators : held.operators ≠ []) :
    Lasts I d v (fun held' tokens w => tokens = [] ∧ w = v ∧ held'.Balanced) (reduce held s) := by
  obtain ⟨operands, operators⟩ := held
  unfold Stacks.Balanced at hheld
  match operators, operands, hheld with
  | op :: operators, right :: left :: rest, hheld =>
    refine (tell_lasts (.applyOperator op [left, right]) h).bind hI ?_
    rintro node t _ _ - hsees ⟨rfl, rfl⟩
    refine .pure hsees ⟨rfl, rfl, ?_⟩
    simpa [Stacks.Balanced] using hheld
  | [], _, _ => exact absurd rfl hoperators

theorem reduceWhile_lasts (hI : Ebbs I) (first : Operator → Bool) (k : Nat) (h : s.Sees v) {held : Stacks}
    (hheld : held.Balanced) :
    Lasts I d v (fun held' tokens w => tokens = [] ∧ w = v ∧ held'.Balanced)
      (reduceWhile first k held s) := by
  induction k generalizing held s with
  | zero => exact .pure h ⟨rfl, rfl, hheld⟩
  | succ k ih =>
    unfold reduceWhile
    split
    · next hfirst =>
      have hoperators : held.operators ≠ [] := by
        intro hnone
        rw [hnone] at hfirst
        cases hfirst
      refine (reduce_lasts hI h hheld hoperators).bind hI ?_
      rintro held' t _ _ - hsees ⟨rfl, rfl, hheld'⟩
      exact ih hsees hheld'
    · exact .pure h ⟨rfl, rfl, hheld⟩

theorem operatorAt_lasts (hI : Ebbs I) (h : s.Sees v) (fixity : Fixity) :
    Lasts I d v (fun found tokens w => tokens = [] ∧ w.ahead.length = max v.ahead.length 1 ∧
      ∃ token rest, w.ahead = token :: rest ∧ ∀ op, found = some op →
        token.kind.isIdentifier = true ∧ v.lexer.table.get? token.text fixity = some op)
      (operatorAt fixity s) := by
  refine .reads ?_ (operatorAt_reads h fixity)
  refine .bind hI (peek_lasts hI h) ?_
  intro token t tokens w _ hsees _
  split
  · exact .pure (b := t.table.get? token.text fixity) hsees
  · exact .pure hsees _

/-! ### Operands -/

section

variable {read : ExprReader σ}

/-- Where no more levels than `n` are needed, an expression is read, or there is an error. -/
def Manages (I : Nat → σ → Prop) (d : Lexer.Dialect) (n : Nat) (read : ExprReader σ) : Prop :=
  ∀ (bound : Option Nat) (s : Session σ) (v : Sight σ), s.Sees v → v.Below I d n →
    Survives I d v (read bound s)

theorem Manages.lasts (hread : Derives read) (hdeep : Manages I d n read) (bound : Option Nat)
    (h : s.Sees v) (hv : v.Below I d n) :
    Lasts I d v (fun _ tokens _ => 0 < properTokens tokens) (read bound s) :=
  (Lasts.reads (hdeep bound s v h hv) (hread bound s v h)).mono
    fun _ _ _ hphrase => hphrase.1.shapes.properTokens_pos

variable (hI : Ebbs I) (hread : Derives read) (hdeep : Manages I d n read)
include hI hread hdeep

theorem itemsBy_survives (container : Container) (h : s.Sees v) (hv : v.Below I d n) :
    Survives I d v (itemsBy read container s) := by
  refine .bind hI (accept_lasts hI h _) ?_
  intro accepted t tokens w hreaches hsees _
  cases accepted with
  | true => exact .pure hsees _
  | false =>
    refine Lasts.iterate hI (J := fun _ _ _ => True) hsees trivial ?_
    intro items taken u t₁ hreaches₁ hsees₁ _
    have hbelow := hreaches₁.below hI (hreaches.below hI hv)
    refine (hdeep.lasts hread none hsees₁ hbelow).bind hI ?_
    intro value t₂ item u₂ _ hsees₂ hitem
    refine (accept_lasts hI hsees₂ _).bind hI ?_
    intro more t₃ separator u₃ _ hsees₃ _
    cases more with
    | true =>
      refine .pure hsees₃ ⟨?_, trivial⟩
      rw [properTokens_append]
      exact Nat.add_pos_left hitem _
    | false => exact (expect_lasts hI hsees₃ _).bind hI fun _ _ _ _ _ hsees₄ _ => .pure hsees₄ trivial

/-- A bracket has been seen where a group is read. What stands inside needs one level less. -/
theorem groupBy_survives (h : s.Sees v) (hv : v.Below I d (n + 1)) {opening : Token} {rest : List Token}
    {container : Container} (hahead : v.ahead = opening :: rest)
    (hopening : opening.kind = .opening container) : Survives I d v (groupBy read s) := by
  refine .bind hI (consume_known_lasts hI h hahead) ?_
  rintro _ t _ w hreaches hsees ⟨rfl, rfl, -⟩
  have hbelow := hreaches.below_taken hI (properTokens_single hopening nofun) hv
  rw [hopening]
  exact .bind hI (itemsBy_survives hI hread hdeep container hsees hbelow) fun _ _ _ _ _ hsees' _ =>
    .pure hsees' _

theorem callBy_survives (h : s.Sees v) (hv : v.Below I d (n + 1)) {name opening : Token}
    {rest : List Token} {container : Container} (hahead : v.ahead = name :: opening :: rest)
    (hopening : opening.kind = .opening container) : Survives I d v (callBy read s) := by
  refine .bind hI (consume_lasts hI h) ?_
  rintro name' t _ w hreaches hsees ⟨rfl, htail, -⟩
  rw [hahead, List.tail_cons] at htail
  refine .bind hI (groupBy_survives hI hread hdeep hsees (hreaches.below hI hv) htail hopening) ?_
  intro ⟨_, arguments⟩ t₁ _ w₁ _ hsees₁ _
  dsimp only
  rw [Run.bind_apply, Run.get_apply]
  exact (tell_lasts _ hsees₁).survives

omit hread in
theorem prefixedBy_survives (h : s.Sees v) (hv : v.Below I d (n + 1)) {token : Token} {rest : List Token}
    (hahead : v.ahead = token :: rest) (hkind : token.kind.isIdentifier = true) (op : Operator) :
    Survives I d v (prefixedBy read op s) := by
  refine .bind hI (consume_known_lasts hI h hahead) ?_
  rintro _ t _ w hreaches hsees ⟨rfl, rfl, -⟩
  have hbelow := hreaches.below_taken hI (properTokens_single_of_isIdentifier hkind) hv
  exact .bind hI (hdeep _ t w hsees hbelow) fun _ _ _ _ _ hsees' _ => (tell_lasts _ hsees').survives

theorem namedBy_survives (h : s.Sees v) (hv : v.Below I d (n + 1)) {token : Token} {rest : List Token}
    (hahead : v.ahead = token :: rest) (hkind : token.kind.isIdentifier = true) :
    Survives I d v (namedBy read token.kind s) := by
  refine .bind hI (peek_lasts hI h) ?_
  rintro _ t₁ _ w₁ hreaches₁ hsees₁ ⟨rfl, -, -⟩
  obtain ⟨rest₁, hahead₁⟩ := hreaches₁.head_eq hahead
  rw [Run.bind_apply, Run.get_apply]
  refine .bind hI (kindAt_lasts hI hsees₁ 1) ?_
  rintro _ t₂ _ w₂ hreaches₂ hsees₂ ⟨rfl, ⟨second, hsecond, rfl⟩, -⟩
  obtain ⟨rest₂, hahead₂⟩ := hreaches₂.head_eq hahead₁
  have hbelow₂ := hreaches₂.below hI (hreaches₁.below hI hv)
  split
  · next hcall =>
    obtain ⟨rest₃, hahead₃⟩ : ∃ rest₃, w₂.ahead = token :: second :: rest₃ := by
      rw [hahead₂] at hsecond ⊢
      cases rest₂ with
      | nil => cases hsecond
      | cons next others => exact ⟨others, by simpa using hsecond⟩
    exact callBy_survives hI hread hdeep hsees₂ hbelow₂ hahead₃ hcall.1
  · refine .bind hI (operatorAt_lasts hI hsees₂ .prefixOp) ?_
    rintro found t₃ _ w₃ hreaches₃ hsees₃ ⟨rfl, -, -⟩
    obtain ⟨rest₃, hahead₃⟩ := hreaches₃.head_eq hahead₂
    cases found with
    | some op =>
      exact prefixedBy_survives hI hdeep hsees₃ (hreaches₃.below hI hbelow₂) hahead₃ hkind op
    | none =>
      dsimp only
      split
      · exact unexpectedOperand_survives hI hsees₃
      · exact .bind hI (consume_lasts hI hsees₃) fun _ _ _ _ _ hsees₄ _ => (tell_lasts _ hsees₄).survives

theorem operandBy_lasts (h : s.Sees v) (hv : v.Below I d (n + 1)) :
    Lasts I d v (fun _ tokens _ => 0 < properTokens tokens) (operandBy read s) := by
  refine Lasts.mono (.reads ?_ (operandBy_reads hread h)) fun _ _ _ hphrase => hphrase.1.shapes.properTokens_pos
  refine .bind hI (peekKind_lasts hI h) ?_
  rintro _ t₁ _ w₁ hreaches₁ hsees₁ ⟨rfl, ⟨token, rest, hahead, rfl⟩, -⟩
  have hbelow₁ := hreaches₁.below hI hv
  cases constantKind? token.kind with
  | some constant =>
    exact .bind hI (consume_lasts hI hsees₁) fun _ _ _ _ _ hsees₂ _ => (tell_lasts _ hsees₂).survives
  | none =>
    dsimp only
    split
    · next hopening =>
      obtain ⟨container, hcontainer⟩ : ∃ container, token.kind = .opening container := by
        cases hkind : token.kind with
        | «opening» container => exact ⟨container, rfl⟩
        | _ => simp [hkind, Token.Kind.isOpening] at hopening
      refine .bind hI (groupBy_survives hI hread hdeep hsees₁ hbelow₁ hahead hcontainer) ?_
      intro group t₂ _ w₂ _ hsees₂ _
      split
      · exact .pure hsees₂ _
      · exact (tell_lasts _ hsees₂).survives
    split
    · next hkind => exact namedBy_survives hI hread hdeep hsees₁ hbelow₁ hahead hkind
    · exact unexpectedOperand_survives hI hsees₁

/-! ### Expressions -/

theorem infixesBy_lasts (bound : Option Nat) {held : Stacks} (hheld : held.Balanced) (h : s.Sees v)
    (hv : v.Below I d (n + 1)) :
    Lasts I d v (fun held' _ _ => held'.Balanced) (infixesBy read bound held s) := by
  refine Lasts.iterate hI (J := fun held _ _ => held.Balanced) h hheld ?_
  intro held tokens w t₁ hreaches hsees hheld
  refine (operatorAt_lasts hI hsees .infixOp).bind hI ?_
  rintro found t₂ _ w₂ hreaches₂ hsees₂ ⟨rfl, -, -⟩
  cases found with
  | none => exact .pure hsees₂ hheld
  | some op =>
    dsimp only
    split
    · refine (reduceWhile_lasts hI _ _ hsees₂ hheld).bind hI ?_
      rintro held' t₃ _ _ - hsees₃ ⟨rfl, rfl, hheld'⟩
      refine (consume_lasts hI hsees₃).bind hI ?_
      intro token t₄ taken w₄ hreaches₄ hsees₄ _
      have hbelow := hreaches₄.below hI (hreaches₂.below hI (hreaches.below hI hv))
      refine (operandBy_lasts hI hread hdeep hsees₄ hbelow).bind hI ?_
      intro operand t₅ more w₅ _ hsees₅ hmore
      refine .pure hsees₅ ⟨?_, ?_⟩
      · simp only [List.nil_append, List.append_nil, properTokens_append]
        omega
      · unfold Stacks.Balanced at hheld' ⊢
        simpa using hheld'
    · exact .pure hsees₂ hheld

omit hread hdeep in
/-- Where operators stand behind the operand, tokens are taken. -/
theorem postfixesBy_lasts (bound : Option Nat) (operand : Expr) (h : s.Sees v) :
    Lasts I d v (fun found tokens _ => found.2 = true → 0 < properTokens tokens)
      (postfixesBy bound operand s) := by
  refine Lasts.iterate hI (J := fun found tokens _ => found.2 = true → 0 < properTokens tokens) h nofun ?_
  intro ⟨operand, applied⟩ tokens w t₁ _ hsees hfound
  refine (operatorAt_lasts hI hsees .postfixOp).bind hI ?_
  rintro found t₂ _ w₂ - hsees₂ ⟨rfl, -, token, rest, hahead, hidentifier⟩
  cases found with
  | none => exact .pure hsees₂ (by simpa using hfound)
  | some op =>
    dsimp only
    split
    · refine (consume_known_lasts hI hsees₂ hahead).bind hI ?_
      rintro _ t₃ _ w₃ - hsees₃ ⟨rfl, rfl, -⟩
      have htoken := properTokens_single_of_isIdentifier (hidentifier op rfl).1
      refine (tell_lasts (.applyOperator op [operand]) hsees₃).bind hI ?_
      rintro reply t₄ _ _ - hsees₄ ⟨rfl, rfl⟩
      refine .pure hsees₄ ⟨by simpa using htoken, fun _ => ?_⟩
      simp only [List.nil_append, List.append_nil, properTokens_append]
      omega
    · exact .pure hsees₂ (by simpa using hfound)

theorem climbBy_survives (bound : Option Nat) (h : s.Sees v) (hv : v.Below I d (n + 1)) :
    Survives I d v (climbBy read bound s) := by
  refine .bind hI (operandBy_lasts hI hread hdeep h hv) ?_
  intro first t₁ operand w₁ hreaches₁ hsees₁ _
  refine Lasts.iterate hI (J := fun _ _ _ => True) hsees₁ trivial ?_
  intro first tokens w t₂ hreaches₂ hsees₂ _
  have hbelow := hreaches₂.below hI (hreaches₁.below hI hv)
  refine (infixesBy_lasts hI hread hdeep bound (by rfl) hsees₂ hbelow).bind hI ?_
  intro reading t₃ between w₃ _ hsees₃ hreading
  refine (reduceWhile_lasts hI _ _ hsees₃ hreading).bind hI ?_
  rintro ⟨operands, operators⟩ t₄ _ _ - hsees₄ ⟨rfl, rfl, hreduced⟩
  cases operands with
  | nil => cases hreduced
  | cons whole others =>
    refine (postfixesBy_lasts hI bound whole hsees₄).bind hI ?_
    intro ⟨whole, applied⟩ t₅ behind w₅ _ hsees₅ happlied
    refine (operatorAt_lasts hI hsees₅ .infixOp).bind hI ?_
    rintro found t₆ _ w₆ - hsees₆ ⟨rfl, -, -⟩
    dsimp only
    split
    · next hmore =>
      have hbehind := happlied (Bool.and_eq_true_iff.1 hmore).1
      refine .pure hsees₆ ⟨?_, trivial⟩
      simp only [List.nil_append, List.append_nil, properTokens_append]
      omega
    · exact .pure hsees₆ trivial

end

/-- **Expressions inside each other** stand behind a token each. -/
theorem climb_manages (hI : Ebbs I) (depth : Nat) : Manages I d depth (climb depth : ExprReader σ) := by
  induction depth with
  | zero =>
    intro bound s v h hv hsecure
    refine ⟨.inr ⟨rfl, fun hplain => ?_⟩, v, h, hsecure⟩
    obtain ⟨m, hm, -⟩ := hv.2 hplain
    exact Nat.not_lt_zero m hm
  | succ depth ih =>
    intro bound s v h hv
    exact climbBy_survives hI (climb_derives depth) ih bound h hv

theorem expression_survives (hI : Ebbs I) (h : s.Sees v) : Survives I d v (expression s) := by
  intro hv
  exact climb_manages hI _ none s v h (h.below hI hv) hv

/-! ### Names -/

section

variable (hI : Ebbs I)
include hI

theorem name_lasts (h : s.Sees v) :
    Lasts I d v (fun _ tokens _ => 0 < properTokens tokens) (name s) := by
  refine Lasts.mono (.reads ?_ (name_reads h)) ?_
  · refine .bind hI (peekKind_lasts hI h) ?_
    intro kind t tokens w _ hsees _
    split
    · exact .bind hI (consume_lasts hI hsees) fun _ _ _ _ _ hsees' _ => .pure hsees' _
    · exact mismatch_survives hI hsees _
  · rintro _ tokens w ⟨⟨token, rfl, hkind, -⟩, -⟩
    exact properTokens_single_of_isIdentifier (isIdentifier_of_isTextIdentifier hkind)

theorem names_survives (h : s.Sees v) : Survives I d v (names s) := by
  refine .bind hI (name_lasts hI h) ?_
  intro first t tokens w _ hsees _
  refine Lasts.iterate hI (J := fun _ _ _ => True) hsees trivial ?_
  intro names taken u t₁ _ hsees₁ _
  refine (accept_lasts hI hsees₁ _).bind hI ?_
  intro more t₂ separator u₂ _ hsees₂ _
  cases more with
  | false => exact .pure hsees₂ trivial
  | true =>
    refine (name_lasts hI hsees₂).bind hI ?_
    intro name t₃ more u₃ _ hsees₃ hname
    refine .pure hsees₃ ⟨?_, trivial⟩
    simp only [List.append_nil, properTokens_append]
    omega

theorem namesAfterWord_survives (h : s.Sees v) (word : String) :
    Survives I d v (namesAfterWord word s) := by
  refine .bind hI (acceptWord_lasts hI h word) ?_
  intro accepted t tokens w _ hsees _
  cases accepted with
  | true => exact names_survives hI hsees
  | false => exact .pure hsees _

theorem busNames_survives (h : s.Sees v) : Survives I d v (busNames s) := by
  refine .bind hI (accept_lasts hI h .bus) ?_
  intro accepted t tokens w _ hsees _
  cases accepted with
  | true => exact names_survives hI hsees
  | false => exact .pure hsees _

theorem entityReference_survives (h : s.Sees v) : Survives I d v (entityReference s) := by
  refine .bind hI (peekKind_lasts hI h) ?_
  intro kind t tokens w _ hsees _
  split
  · exact .bind hI (consume_lasts hI hsees) fun _ _ _ _ _ hsees' _ => .pure hsees' _
  · exact mismatch_survives hI hsees _

/-! ### Definitions -/

theorem adjacentSymbols_survives (h : s.Sees v) (text : String) (stop : Text.Position) :
    Survives I d v (adjacentSymbols text stop s) := by
  refine Lasts.iterate hI (J := fun _ _ _ => True) h trivial ?_
  intro ⟨text, stop⟩ tokens w t₁ _ hsees _
  refine (peek_lasts hI hsees).bind hI ?_
  rintro token t₂ _ w₂ - hsees₂ ⟨rfl, ⟨rest, hahead⟩, -⟩
  show Lasts I d _ _ ((if token.kind = .symbol ∧ token.span.start = stop then do
      let token ← consume
      return .again (text ++ token.text, token.span.stop)
    else return .done text : Run (Session σ) (Run.Round (String × Text.Position) String)) t₂)
  split
  · next hbeside =>
    refine (consume_known_lasts hI hsees₂ hahead).bind hI ?_
    rintro _ t₃ _ w₃ - hsees₃ ⟨rfl, rfl, -⟩
    refine .pure hsees₃ ⟨?_, trivial⟩
    simpa using properTokens_single hbeside.1 nofun
  · exact .pure hsees₂ trivial

theorem definedSymbol_survives (h : s.Sees v) : Survives I d v (definedSymbol s) := by
  refine .bind hI (peekKind_lasts hI h) ?_
  intro kind t tokens w _ hsees _
  split
  · exact .bind hI (consume_lasts hI hsees) fun _ _ _ _ _ hsees' _ => .pure hsees' _
  split
  · exact .bind hI (consume_lasts hI hsees) fun _ _ _ _ _ hsees' _ => adjacentSymbols_survives hI hsees' _ _
  · exact mismatch_survives hI hsees _

theorem definedNotation_survives (h : s.Sees v) : Survives I d v (definedNotation s) := by
  refine .bind hI (peek_lasts hI h) ?_
  intro token t tokens w _ hsees _
  cases Notation.ofName? token.text with
  | none => exact mismatch_survives hI hsees _
  | some form =>
    dsimp only
    split
    · exact .bind hI (consume_lasts hI hsees) fun _ _ _ _ _ hsees' _ => .pure hsees' _
    · exact mismatch_survives hI hsees _

theorem definedPrecedence_survives (h : s.Sees v) : Survives I d v (definedPrecedence s) := by
  refine .bind hI (peekKind_lasts hI h) ?_
  intro kind t tokens w _ hsees _
  dsimp only
  split
  · refine .bind hI (peek_lasts hI hsees) ?_
    intro token t₁ tokens₁ w₁ _ hsees₁ _
    split
    · exact .bind hI (consume_lasts hI hsees₁) fun _ _ _ _ _ hsees' _ => .pure hsees' _
    · exact mismatch_survives hI hsees₁ _
  · exact .pure hsees _

theorem entityDefinition_survives (h : s.Sees v) : Survives I d v (entityDefinition s) := by
  refine .bind hI (name_lasts hI h) ?_
  intro label t₁ _ w₁ _ hsees₁ _
  refine .bind hI (definedSymbol_survives hI hsees₁) ?_
  intro symbol t₂ _ w₂ _ hsees₂ _
  refine .bind hI (definedNotation_survives hI hsees₂) ?_
  intro form t₃ _ w₃ _ hsees₃ _
  refine .bind hI (definedPrecedence_survives hI hsees₃) ?_
  intro precedence t₄ _ w₄ _ hsees₄ _
  refine .bind hI (namesAfterWord_survives hI hsees₄ "in") ?_
  intro inputs t₅ _ w₅ _ hsees₅ _
  refine .bind hI (namesAfterWord_survives hI hsees₅ "out") ?_
  intro outputs t₆ _ w₆ _ hsees₆ _
  refine .bind hI (busNames_survives hI hsees₆) ?_
  intro buses t₇ _ w₇ _ hsees₇ _
  refine .bind hI (tell_lasts (.defineEntity _) hsees₇) ?_
  rintro reply t₈ _ w₈ - hsees₈ -
  rw [Run.bind_apply, Run.modify_apply]
  intro _
  exact ⟨[], _, ⟨[.registered _], .single .register, rfl⟩, hsees₈.register _, trivial⟩

end

/-! ### Bodies -/

section

variable {read : Run (Session σ) Statement}

/-- Where no more levels than `n` are needed, a statement is read, or there is an error. -/
def Handles (I : Nat → σ → Prop) (d : Lexer.Dialect) (n : Nat) (read : Run (Session σ) Statement) : Prop :=
  ∀ (s : Session σ) (v : Sight σ), s.Sees v → v.Below I d n → Survives I d v (read s)

variable (hI : Ebbs I) (hdeep : Handles I d n read)
include hI hdeep

theorem bodyBy_survives (h : s.Sees v) (hv : v.Below I d n) : Survives I d v (bodyBy read s) := by
  refine Lasts.iterate hI (J := fun _ _ _ => True) h trivial ?_
  intro statements tokens w t₁ hreaches hsees _
  refine (skip_lasts hI hsees .executor nofun).bind hI ?_
  intro _ t₂ _ w₂ hreaches₂ hsees₂ _
  refine (accept_lasts hI hsees₂ _).bind hI ?_
  intro closed t₃ _ w₃ hreaches₃ hsees₃ _
  cases closed with
  | true => exact .pure hsees₃ trivial
  | false =>
    have hbelow := hreaches₃.below hI (hreaches₂.below hI (hreaches.below hI hv))
    refine Lasts.bind hI (hdeep t₃ w₃ hsees₃ hbelow) ?_
    intro statement t₄ _ w₄ _ hsees₄ _
    refine (accept_lasts hI hsees₄ _).bind hI ?_
    intro ended t₅ _ w₅ _ hsees₅ hended
    cases ended with
    | false => exact (expect_lasts hI hsees₅ _).bind hI fun _ _ _ _ _ hsees₆ _ => .pure hsees₆ trivial
    | true =>
      obtain ⟨executor, rfl, hexecutor, -⟩ := hended
      refine .pure hsees₅ ⟨?_, trivial⟩
      have hpos := properTokens_single hexecutor nofun
      simp only [List.append_nil, properTokens_append]
      omega

theorem architectureBy_survives (h : s.Sees v) (hv : v.Below I d n) :
    Survives I d v (architectureBy read s) := by
  refine .bind hI (name_lasts hI h) ?_
  intro name t₁ _ w₁ hreaches₁ hsees₁ _
  refine .bind hI (entityReference_survives hI hsees₁) ?_
  intro entity t₂ _ w₂ hreaches₂ hsees₂ _
  refine .bind hI (expect_lasts hI hsees₂ _) ?_
  intro _ t₃ _ w₃ hreaches₃ hsees₃ _
  refine .bind hI (tell_lasts (.beginArchitecture name entity) hsees₃) ?_
  intro _ t₄ _ w₄ hreaches₄ hsees₄ _
  have hbelow := hreaches₄.below hI (hreaches₃.below hI (hreaches₂.below hI (hreaches₁.below hI hv)))
  refine .bind hI (bodyBy_survives hI hdeep hsees₄ hbelow) ?_
  intro body t₅ _ w₅ _ hsees₅ _
  exact .bind hI (tell_lasts .endArchitecture hsees₅) fun _ _ _ _ _ hsees₆ _ => .pure hsees₆ _

theorem definitionBy_survives (h : s.Sees v) (hv : v.Below I d n) :
    Survives I d v (definitionBy read s) := by
  refine .bind hI (acceptWord_lasts hI h "entity") ?_
  intro entity t₁ _ w₁ hreaches₁ hsees₁ _
  cases entity with
  | true => exact entityDefinition_survives hI hsees₁
  | false =>
    refine .bind hI (acceptWord_lasts hI hsees₁ "architecture") ?_
    intro architecture t₂ _ w₂ hreaches₂ hsees₂ _
    cases architecture with
    | true => exact architectureBy_survives hI hdeep hsees₂ (hreaches₂.below hI (hreaches₁.below hI hv))
    | false => exact mismatch_survives hI hsees₂ _

end

/-! ### Instances and assignments -/

section

variable (hI : Ebbs I)
include hI

theorem bindingLabel_survives (h : s.Sees v) : Survives I d v (bindingLabel s) := by
  refine .bind hI (peekKind_lasts hI h) ?_
  intro kind t₁ _ w₁ _ hsees₁ _
  split
  · refine .bind hI (kindAt_lasts hI hsees₁ 1) ?_
    intro next t₂ _ w₂ _ hsees₂ _
    split
    · refine .bind hI (consume_lasts hI hsees₂) ?_
      intro label t₃ _ w₃ _ hsees₃ _
      exact .bind hI (consume_lasts hI hsees₃) fun _ _ _ _ _ hsees₄ _ => .pure hsees₄ _
    · exact .pure hsees₂ _
  · exact .pure hsees₁ _

theorem bindingsBy_survives {read : Run (Session σ) Expr}
    (hread : ∀ (s : Session σ) (v : Sight σ), s.Sees v → Survives I d v (read s)) (h : s.Sees v) :
    Survives I d v (bindingsBy read s) := by
  refine Lasts.iterate hI (J := fun _ _ _ => True) h trivial ?_
  intro bindings tokens w t₁ _ hsees _
  refine Lasts.bind hI (bindingLabel_survives hI hsees) ?_
  intro label t₂ _ w₂ _ hsees₂ _
  refine Lasts.bind hI (hread t₂ w₂ hsees₂) ?_
  intro value t₃ _ w₃ _ hsees₃ _
  refine (accept_lasts hI hsees₃ _).bind hI ?_
  intro more t₄ _ w₄ _ hsees₄ hmore
  cases more with
  | false => exact .pure hsees₄ trivial
  | true =>
    obtain ⟨separator, rfl, hseparator, -⟩ := hmore
    have hpos := properTokens_single hseparator nofun
    refine .pure hsees₄ ⟨?_, trivial⟩
    simp only [List.append_nil, properTokens_append]
    omega

theorem bindingsAfterWord_survives (word : String) {read : Run (Session σ) Expr}
    (hread : ∀ (s : Session σ) (v : Sight σ), s.Sees v → Survives I d v (read s)) (h : s.Sees v) :
    Survives I d v (bindingsAfterWord word read s) := by
  refine .bind hI (acceptWord_lasts hI h word) ?_
  intro accepted t tokens w _ hsees _
  cases accepted with
  | true => exact bindingsBy_survives hI hread hsees
  | false => exact .pure hsees _

theorem outputSignal_survives (h : s.Sees v) : Survives I d v (outputSignal s) :=
  .bind hI (name_lasts hI h) fun _ _ _ _ _ hsees _ => (tell_lasts _ hsees).survives

theorem instantiation_survives (h : s.Sees v) : Survives I d v (instantiation s) := by
  refine .bind hI (expect_lasts hI h _) ?_
  intro _ t₁ _ w₁ _ hsees₁ _
  refine .bind hI (entityReference_survives hI hsees₁) ?_
  intro entity t₂ _ w₂ _ hsees₂ _
  refine .bind hI (bindingsAfterWord_survives hI "in" (fun s v h => expression_survives hI h) hsees₂) ?_
  intro inputs t₃ _ w₃ _ hsees₃ _
  refine .bind hI (bindingsAfterWord_survives hI "out" (fun s v h => outputSignal_survives hI h) hsees₃) ?_
  intro outputs t₄ _ w₄ _ hsees₄ _
  refine .bind hI (busNames_survives hI hsees₄) ?_
  intro names t₅ _ w₅ _ hsees₅ _
  refine .bind hI (tellAll_lasts hI (fun name s h => tell_lasts (.useBus name) h) names hsees₅) ?_
  intro buses t₆ _ w₆ _ hsees₆ _
  exact .bind hI (tell_lasts (.instantiate entity inputs outputs buses) hsees₆)
    fun _ _ _ _ _ hsees₇ _ => .pure hsees₇ _

theorem tryTargets_survives (h : s.Sees v) : Survives I d v (tryTargets s) := by
  refine Lasts.iterate hI (J := fun _ _ _ => True) h trivial ?_
  intro names tokens w t₁ _ hsees₁ _
  refine (peekKind_lasts hI hsees₁).bind hI ?_
  intro kind t₂ _ w₂ _ hsees₂ _
  split
  · refine (consume_lasts hI hsees₂).bind hI ?_
    intro name t₃ _ w₃ _ hsees₃ _
    refine (accept_lasts hI hsees₃ _).bind hI ?_
    intro more t₄ _ w₄ _ hsees₄ hmore
    cases more with
    | true =>
      obtain ⟨separator, rfl, hseparator, -⟩ := hmore
      have hpos := properTokens_single hseparator nofun
      refine .pure hsees₄ ⟨?_, trivial⟩
      simp only [List.append_nil, properTokens_append]
      omega
    | false =>
      refine (accept_lasts hI hsees₄ _).bind hI ?_
      intro arrow t₅ _ w₅ _ hsees₅ _
      cases arrow with
      | true => exact .pure hsees₅ trivial
      | false => exact .pure hsees₅ trivial
  · exact .pure hsees₂ trivial

/-- The mark for the targets is there when it is given up, and when it is gone back to. -/
theorem assignmentTargets_survives (h : s.Sees v) : Survives I d v (assignmentTargets s) := by
  intro hv
  obtain ⟨c, hmark, hc⟩ := Cursor.Sees.mark h
  unfold assignmentTargets
  rw [Run.bind_apply, onTokens_ok hmark]
  dsimp only
  have htry := tryTargets_survives hI (s := { s with tokens := c }) hc hv
  rw [Run.bind_apply]
  cases hr : tryTargets { s with tokens := c } with
  | error e t => exact htry.of_error hr
  | ok found t =>
    obtain ⟨_, w, ⟨es, hes, rfl⟩, hsees, -⟩ := htry.of_ok hr
    have hmarked := hes.marked
    cases found with
    | some names =>
      obtain ⟨c', hcommit, hc'⟩ := Cursor.Sees.commit hsees hmarked
      dsimp only
      rw [Run.bind_apply, onTokens_ok hcommit]
      exact ⟨takenIn es, _, ⟨es, hes.withMarked v.marked, rfl⟩, hc', trivial⟩
    | none =>
      obtain ⟨c', hrollback, hc'⟩ := Cursor.Sees.rollback hsees hmarked
      dsimp only
      rw [Run.bind_apply, onTokens_ok hrollback]
      exact ⟨[], v.extend (scannedIn es) w.lexer, ⟨untaken es, hes.untaken v rfl, takenIn_untaken es⟩, hc',
        trivial⟩

theorem assignmentOrExpression_survives (h : s.Sees v) : Survives I d v (assignmentOrExpression s) := by
  refine .bind hI (assignmentTargets_survives hI h) ?_
  intro found t₁ _ w₁ _ hsees₁ _
  cases found with
  | none => exact .bind hI (expression_survives hI hsees₁) fun _ _ _ _ _ hsees₂ _ => .pure hsees₂ _
  | some names =>
    refine .bind hI (tellAll_lasts hI (fun name s h => tell_lasts (.useSignal name) h) names hsees₁) ?_
    rintro targets t₂ _ _ - hsees₂ ⟨rfl, rfl⟩
    refine .bind hI (expression_survives hI hsees₂) ?_
    intro value t₃ _ w₃ _ hsees₃ _
    exact .bind hI (tell_lasts (.assign targets value) hsees₃) fun _ _ _ _ _ hsees₄ _ => .pure hsees₄ _

theorem declaration_survives (h : s.Sees v) (make : List Expr → Statement)
    {f : String → Run (Session σ) Expr}
    (hf : ∀ name (s : Session σ) v, s.Sees v → Lasts I d v (fun _ tokens w => tokens = [] ∧ w = v) (f name s)) :
    Survives I d v
      ((do
        let _ ← consume
        return make (← (← names).mapM f) : Run (Session σ) Statement) s) := by
  refine .bind hI (consume_lasts hI h) ?_
  intro word t₁ _ w₁ _ hsees₁ _
  refine .bind hI (names_survives hI hsees₁) ?_
  intro names t₂ _ w₂ _ hsees₂ _
  exact .bind hI (tellAll_lasts hI (fun name s h => hf name s w₂ h) names hsees₂)
    fun _ _ _ _ _ hsees₃ _ => .pure hsees₃ _

/-! ### Statements -/

theorem statementBy_survives {read : Run (Session σ) Statement} (hdeep : Handles I d n read) (h : s.Sees v)
    (hv : v.Below I d (n + 1)) : Survives I d v (statementBy read s) := by
  refine .bind hI (peekKind_lasts hI h) ?_
  rintro _ t₁ _ w₁ hreaches₁ hsees₁ ⟨rfl, ⟨token, rest, hahead, rfl⟩, -⟩
  cases hkind : token.kind with
  | define =>
    refine .bind hI (consume_known_lasts hI hsees₁ hahead) ?_
    rintro _ t₂ _ w₂ hreaches₂ hsees₂ ⟨rfl, rfl, -⟩
    have hpos := properTokens_single hkind nofun
    exact definitionBy_survives hI hdeep hsees₂ (hreaches₂.below_taken hI hpos (hreaches₁.below hI hv))
  | instantiate => exact instantiation_survives hI hsees₁
  | signal =>
    exact declaration_survives hI hsees₁ .signals fun name _ _ h => tell_lasts (.declareSignal name) h
  | bus => exact declaration_survives hI hsees₁ .buses fun name _ _ h => tell_lasts (.declareBus name) h
  | _ => exact assignmentOrExpression_survives hI hsees₁

/-- **Statements inside each other** stand behind a token each. -/
theorem statement_handles (depth : Nat) :
    Handles I d depth (statement depth : Run (Session σ) Statement) := by
  induction depth with
  | zero =>
    intro s v h hv hsecure
    refine ⟨.inr ⟨rfl, fun hplain => ?_⟩, v, h, hsecure⟩
    obtain ⟨m, hm, -⟩ := hv.2 hplain
    exact Nat.not_lt_zero m hm
  | succ depth ih =>
    intro s v h hv
    exact statementBy_survives hI ih h hv

/-- **The next statement** is read, or there is an error. -/
theorem parseStatement_survives (h : s.Sees v) : Survives I d v (parseStatement s) := by
  refine .bind hI (skip_lasts hI h .executor nofun) ?_
  intro _ t₁ _ w₁ _ hsees₁ _
  refine .bind hI (peekKind_lasts hI hsees₁) ?_
  intro kind t₂ _ w₂ _ hsees₂ _
  split
  · exact .pure hsees₂ _
  rw [Run.bind_apply, Run.get_apply]
  have hstatement : Survives I d w₂ (statement (t₂.remaining + 1) t₂) :=
    fun hv => statement_handles hI _ t₂ w₂ hsees₂ (hsees₂.below hI hv) hv
  refine .bind hI hstatement ?_
  intro statement t₃ _ w₃ _ hsees₃ _
  refine .bind hI (accept_lasts hI hsees₃ _) ?_
  intro ended t₄ _ w₄ _ hsees₄ _
  cases ended with
  | true => exact .pure hsees₄ _
  | false =>
    refine .bind hI (peekKind_lasts hI hsees₄) ?_
    intro kind t₅ _ w₅ _ hsees₅ _
    split
    · exact .pure hsees₅ _
    · exact mismatch_survives hI hsees₅ _

end

/-- A statement has tokens, and none of them is for the end. -/
theorem properTokens_of_sentence {t t' : Operator.Table} {tokens : List Token}
    (h : Sentence .statement t tokens t') : 0 < properTokens tokens := by
  obtain ⟨token, rest, rfl⟩ : ∃ token rest, tokens = token :: rest := by
    cases h with
    | assignment htargets harrow hvalue =>
      obtain ⟨token, rest, rfl, -⟩ := htargets.item.begins
      exact ⟨token, _, rfl⟩
    | expression h =>
      obtain ⟨token, rest, rfl, -⟩ := h.shapes.begins
      exact ⟨token, rest, rfl⟩
    | _ => exact ⟨_, _, rfl⟩
  exact properTokens_pos (List.mem_cons_self ..) (h.solid.ordered.inside token (List.mem_cons_self ..))

/-- **A statement takes a token**, and without a statement the end has come into view. -/
theorem parseStatement_lasts (hI : Ebbs I) (h : s.Sees v) :
    Lasts I d v (fun reply tokens w => match reply with
      | some _ => 0 < properTokens tokens
      | none => ∃ token rest, w.ahead = token :: rest ∧ token.kind = .endOfFile) (parseStatement s) := by
  refine .logs (parseStatement_survives hI h) (parseStatement_logs h) ?_
  intro reply es w hconsumes
  cases reply with
  | none => exact hconsumes.2.1
  | some statement =>
    obtain ⟨leading, tokens, ending, htaken, -, hsentence, -⟩ := hconsumes
    have hpos := properTokens_of_sentence hsentence
    show 0 < properTokens (takenIn es)
    rw [htaken, properTokens_append, properTokens_append]
    omega

/-- **All statements** are read up to the end, or there is an error. There are no more statements than
tokens. -/
theorem parseAll_lasts (hI : Ebbs I) (h : s.Sees v) :
    Lasts I d v (fun statements tokens w => statements.length ≤ properTokens tokens ∧
      ∃ token rest, w.ahead = token :: rest ∧ token.kind = .endOfFile) (parseAll s) := by
  refine Lasts.iterate hI (J := fun statements tokens _ => statements.length ≤ properTokens tokens) h
    (Nat.zero_le _) ?_
  intro statements tokens w t₁ _ hsees hcount
  refine (parseStatement_lasts hI hsees).bind hI ?_
  intro reply t₂ more w₂ _ hsees₂ hreply
  cases reply with
  | none =>
    refine .pure hsees₂ ⟨?_, hreply⟩
    rw [List.length_reverse, properTokens_append]
    omega
  | some statement =>
    have hreply : 0 < properTokens more := hreply
    refine .pure hsees₂ ⟨by rwa [List.append_nil], ?_⟩
    rw [List.length_cons, List.append_nil, properTokens_append]
    omega

end Parser

end Dataflow
