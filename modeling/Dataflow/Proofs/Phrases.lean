import Dataflow.Proofs.Grammar
import Dataflow.Proofs.Logging

/-!
# Dataflow.Proofs.Phrases

**What an expression takes is a phrase.** Each function that reads a part of an expression takes tokens
that are a phrase of its rank under the operators of the session, whatever its session is over and
whatever is in view: there is one lemma for each, and the loops only append to what is a phrase already
(`Extends`).

The second half of each lemma counts the tokens in view. Detecting a call takes two of them, and the
first one is always consumed then: with no more than two in view before it, an expression leaves exactly
one token in view behind it, the one at which it ended.
-/

namespace Dataflow

open Reading Circuit Session Grammar

namespace Parser

variable {σ : Type} [Source σ Char] {s : Session σ} {v : Sight σ} {t : Operator.Table}

/-- Behind an expression the tokens make a longer one. -/
def Extends (t : Operator.Table) (tokens : List Token) : Prop :=
  ∀ first, Phrase t .expression first → Phrase t .expression (first ++ tokens)

theorem Extends.nil : Extends t [] := fun first h => by rwa [List.append_nil]

theorem Extends.append {first second : List Token} (h : Extends t first) (h' : Extends t second) :
    Extends t (first ++ second) := by
  intro front hfront
  rw [← List.append_assoc]
  exact h' _ (h front hfront)

/-- However deep it stands, an expression that is read is one. -/
def Derives (read : ExprReader σ) : Prop :=
  ∀ (bound : Option Nat) (s : Session σ) (v : Sight σ), s.Sees v →
    Reads v (fun _ tokens w => Phrase v.lexer.table .expression tokens ∧
      (v.ahead.length ≤ 2 → w.ahead.length = 1)) (read bound s)

theorem operatorAt_answers (h : s.Sees v) (fixity : Fixity) :
    Reads v (fun found tokens w => tokens = [] ∧ w.ahead.length = max v.ahead.length 1 ∧
      ∃ token rest, w.ahead = token :: rest ∧
        found = if token.kind.isIdentifier then v.lexer.table.get? token.text fixity else none)
      (operatorAt fixity s) := by
  refine (peek_reads h).bind ?_
  rintro token t' _ w hpasses hsees ⟨rfl, ⟨rest, hrest⟩, hlength⟩
  split
  · next hkind =>
    refine .pure (b := t'.table.get? token.text fixity) hsees ⟨rfl, hlength, token, rest, hrest, ?_⟩
    rw [hsees.table_eq, hpasses.table_eq, if_pos hkind]
  · next hkind => exact .pure hsees ⟨rfl, hlength, token, rest, hrest, (if_neg hkind).symm⟩

theorem operatorAt_reads (h : s.Sees v) (fixity : Fixity) :
    Reads v (fun found tokens w => tokens = [] ∧ w.ahead.length = max v.ahead.length 1 ∧
      ∃ token rest, w.ahead = token :: rest ∧ ∀ op, found = some op →
        token.kind.isIdentifier = true ∧ v.lexer.table.get? token.text fixity = some op)
      (operatorAt fixity s) := by
  refine (operatorAt_answers h fixity).mono ?_
  rintro found _ w - ⟨rfl, hlength, token, rest, hrest, rfl⟩
  refine ⟨rfl, hlength, token, rest, hrest, fun op hop => ?_⟩
  split at hop
  · next hkind => exact ⟨hkind, hop⟩
  · cases hop

/-! ### Operators between operands -/

omit [Source σ Char] in
theorem popOperand_still (operands : List Expr) :
    Still (popOperand operands : Run (Session σ) (Expr × List Expr)) := by
  cases operands with
  | nil => exact .violate _
  | cons e rest => exact .pure _

omit [Source σ Char] in
theorem reduce_still (held : Stacks) : Still (reduce held : Run (Session σ) Stacks) := by
  unfold reduce
  split
  · exact .violate _
  · exact (popOperand_still _).bind fun _ => (popOperand_still _).bind fun _ => (Still.tell _).bind fun _ =>
      .pure _

omit [Source σ Char] in
theorem reduceWhile_still (first : Operator → Bool) (n : Nat) (held : Stacks) :
    Still (reduceWhile first n held : Run (Session σ) Stacks) := by
  induction n generalizing held with
  | zero => exact .pure held
  | succ n ih => exact .ite ((reduce_still held).bind ih) (.pure held)

section

variable {read : ExprReader σ}

/-! ### Operands -/

theorem itemsBy_reads (hread : Derives read) (container : Container) (h : s.Sees v) :
    Reads v (fun _ tokens w => ∃ items closing, tokens = items ++ [closing] ∧
      Phrase v.lexer.table .items items ∧ closing.kind = .closing container ∧
      (v.ahead.length ≤ 1 → w.ahead = [])) (itemsBy read container s) := by
  refine (accept_reads h _).bind ?_
  rintro (_ | _) t' tokens w hpasses hsees haccepted
  · obtain ⟨rfl, -, hlength⟩ := haccepted
    -- What has been read so far, with a separator behind it, waits for another item.
    refine Reads.iterate (I := fun _ tokens u => (∀ next, Phrase v.lexer.table .expression next →
      Phrase v.lexer.table .row (tokens ++ next)) ∧ (v.ahead.length ≤ 1 → u.ahead.length ≤ 1))
      hsees ⟨fun next hnext => .item hnext, by omega⟩ ?_
    rintro items tokens u t₁ hpasses₁ hsees₁ ⟨hrow, hone⟩
    refine (hread none t₁ u hsees₁).bind ?_
    rintro value t₂ item u₂ hpasses₂ hsees₂ ⟨hitem, hlength₂⟩
    rw [hpasses₁.table_eq, hpasses.table_eq] at hitem
    have hmore := hrow item hitem
    refine (accept_reads hsees₂ _).bind ?_
    rintro (_ | _) t₃ _ u₃ - hsees₃ haccepted
    · obtain ⟨rfl, -, hlength₃⟩ := haccepted
      refine (expect_reads hsees₃ _).bind ?_
      rintro ⟨⟩ t₄ _ u₄ - hsees₄ ⟨closing, rfl, hclosing, hahead, -⟩
      refine .pure hsees₄ ⟨tokens ++ item, closing, by simp, .some hmore, hclosing, fun hshort => ?_⟩
      exact List.eq_nil_of_length_eq_zero (by rw [hahead, List.length_tail]; have := hone hshort; omega)
    · obtain ⟨separator, rfl, hseparator, hahead, -⟩ := haccepted
      refine .pure hsees₃ ⟨fun next hnext => ?_, fun hshort => ?_⟩
      · simpa using Phrase.more hmore hseparator hnext
      · rw [hahead, List.length_tail]
        have := hone hshort
        omega
  · obtain ⟨closing, rfl, hclosing, hahead, -⟩ := haccepted
    refine .pure hsees ⟨[], closing, rfl, .none, hclosing, fun hshort => ?_⟩
    exact List.eq_nil_of_length_eq_zero (by rw [hahead, List.length_tail]; omega)

/-- A group: its brackets, and what stands between them. -/
theorem groupBy_reads (hread : Derives read) (h : s.Sees v) :
    Reads v (fun _ tokens w => ∃ opening container items closing,
      tokens = opening :: items ++ [closing] ∧ opening.kind = .opening container ∧
      Phrase v.lexer.table .items items ∧ closing.kind = .closing container ∧
      (∀ token ∈ v.ahead.head?, token = opening) ∧ (v.ahead.length ≤ 2 → w.ahead = []))
      (groupBy read s) := by
  refine (consume_reads h).bind ?_
  rintro opening t' _ w hpasses hsees ⟨rfl, hahead, hhead⟩
  cases hopening : opening.kind with
  | «opening» container =>
    refine (itemsBy_reads hread container hsees).bind ?_
    rintro items t₁ _ w₁ - hsees₁ ⟨tokens, closing, rfl, hitems, hclosing, hlength⟩
    rw [hpasses.table_eq] at hitems
    refine .pure hsees₁ ⟨opening, container, tokens, closing, by simp, hopening, hitems, hclosing, hhead,
      fun hshort => hlength ?_⟩
    rw [hahead, List.length_tail]
    omega
  | _ => exact .violate hsees _

/-- A call, of a name that may be called and with the bracket of a list behind it. -/
theorem callBy_reads (hread : Derives read) (h : s.Sees v) {name opening : Token} {rest : List Token}
    (hv : v.ahead = name :: opening :: rest) (hopening : opening.kind = .opening .list)
    (hname : name.kind.isTextIdentifier = true ∨
      name.kind = .symbol ∧ v.lexer.table.contains name.text = true) :
    Reads v (fun _ tokens w => Phrase v.lexer.table .operand tokens ∧
      (v.ahead.length ≤ 2 → w.ahead = [])) (callBy read s) := by
  refine (consume_known h hv).bind ?_
  rintro _ t₁ _ w₁ hpasses₁ hsees₁ ⟨rfl, rfl, hahead⟩
  rw [hv, List.tail_cons] at hahead
  refine (groupBy_reads hread hsees₁).bind ?_
  rintro ⟨container, arguments⟩ t₂ _ w₂ - hsees₂
    ⟨opening', container', items, closing, rfl, hopening', hitems, hclosing, hhead', hlength⟩
  obtain rfl := hhead' opening (by rw [hahead]; exact rfl)
  obtain rfl : container' = .list := Token.Kind.opening.inj (hopening'.symm.trans hopening)
  rw [hpasses₁.table_eq] at hitems
  dsimp only
  rw [Run.bind_apply, Run.get_apply]
  refine (tell_reads (.applyOperator _ arguments) hsees₂).mono ?_
  rintro reply _ w₃ - ⟨rfl, rfl⟩
  refine ⟨?_, fun hshort => hlength ?_⟩
  · simpa using Phrase.call hname hopening hitems hclosing
  · rw [hv, List.length_cons] at hshort
    rw [hahead]
    omega

theorem prefixedBy_reads (hread : Derives read) (h : s.Sees v) {token : Token} {rest : List Token}
    {op : Operator} (hv : v.ahead = token :: rest) (hkind : token.kind.isIdentifier = true)
    (hop : v.lexer.table.get? token.text .prefixOp = some op) :
    Reads v (fun _ tokens w => Phrase v.lexer.table .operand tokens ∧
      (v.ahead.length ≤ 2 → w.ahead.length ≤ 1)) (prefixedBy read op s) := by
  refine (consume_known h hv).bind ?_
  rintro _ t₁ _ w₁ hpasses₁ hsees₁ ⟨rfl, rfl, hahead⟩
  refine (hread _ t₁ w₁ hsees₁).bind ?_
  rintro operand t₂ tokens w₂ - hsees₂ ⟨hoperand, hlength⟩
  rw [hpasses₁.table_eq] at hoperand
  refine (tell_reads (.applyOperator op [operand]) hsees₂).mono ?_
  rintro reply _ w₃ - ⟨rfl, rfl⟩
  refine ⟨?_, fun hshort => Nat.le_of_eq (hlength ?_)⟩
  · simpa using Phrase.prefixed hkind hop hoperand
  · rw [hahead, List.length_tail]
    omega

theorem isTextIdentifier_of_isIdentifier {kind : Token.Kind} (h : kind.isIdentifier = true)
    (hsymbol : kind ≠ .symbol) : kind.isTextIdentifier = true := by
  cases kind <;> first | rfl | exact absurd rfl hsymbol | cases h

/-- A name as an operand. -/
theorem namedBy_reads (hread : Derives read) (h : s.Sees v) {token : Token} {rest : List Token}
    (hv : v.ahead = token :: rest) (hkind : token.kind.isIdentifier = true) :
    Reads v (fun _ tokens w => Phrase v.lexer.table .operand tokens ∧
      (v.ahead.length ≤ 2 → w.ahead.length ≤ 1)) (namedBy read token.kind s) := by
  refine (peek_reads h).bind ?_
  rintro token' t₁ _ w₁ hpasses₁ hsees₁ ⟨rfl, ⟨rest₁, hrest₁⟩, hlength₁⟩
  obtain rfl : token = token' := by simpa [hrest₁] using (hpasses₁.head_eq hv).symm
  rw [Run.bind_apply, Run.get_apply]
  refine (kindAt_reads hsees₁ 1).bind ?_
  rintro _ t₂ _ w₂ hpasses₂ hsees₂ ⟨rfl, ⟨second, hsecond, rfl⟩, hlength₂⟩
  have htable : w₂.lexer.table = v.lexer.table := hpasses₂.table_eq.trans hpasses₁.table_eq
  obtain ⟨rest₂, hrest₂⟩ : ∃ rest₂, w₂.ahead = token :: rest₂ :=
    List.head?_eq_some_iff.1 (hpasses₂.head_eq hrest₁)
  split
  · next hcall =>
    obtain ⟨hopening, hknown⟩ := hcall
    obtain ⟨rest₃, hrest₃⟩ : ∃ rest₃, w₂.ahead = token :: second :: rest₃ := by
      rw [hrest₂] at hsecond ⊢
      cases rest₂ with
      | nil => cases hsecond
      | cons next others => exact ⟨others, by simpa using hsecond⟩
    refine (callBy_reads hread hsees₂ hrest₃ hopening ?_).mono ?_
    · by_cases hsymbol : token.kind = .symbol
      · rw [htable, ← hpasses₁.table_eq, ← hsees₁.table_eq]
        exact .inr ⟨hsymbol, hknown.resolve_right (not_not_intro hsymbol)⟩
      · exact .inl (isTextIdentifier_of_isIdentifier hkind hsymbol)
    · rintro _ tokens w - ⟨hphrase, hlength⟩
      rw [htable] at hphrase
      exact ⟨hphrase, fun hshort => by rw [hlength (by omega)]; exact Nat.zero_le 1⟩
  · refine (operatorAt_reads hsees₂ .prefixOp).bind ?_
    rintro found t₃ _ w₃ hpasses₃ hsees₃ ⟨rfl, hlength₃, token', rest₃, hrest₃, hfound⟩
    obtain rfl : token = token' := by simpa [hrest₃] using (hpasses₃.head_eq hrest₂).symm
    have htable₃ : w₃.lexer.table = v.lexer.table := hpasses₃.table_eq.trans htable
    cases found with
    | some op =>
      have hop : w₃.lexer.table.get? token.text .prefixOp = some op := by
        rw [hpasses₃.table_eq]
        exact (hfound op rfl).2
      refine (prefixedBy_reads hread hsees₃ hrest₃ hkind hop).mono ?_
      rintro _ tokens w - ⟨hphrase, hlength⟩
      rw [htable₃] at hphrase
      exact ⟨hphrase, fun hshort => hlength (by omega)⟩
    | none =>
      dsimp only
      split
      · exact unexpectedOperand_reads hsees₃
      · next hsymbol =>
        refine (consume_known hsees₃ hrest₃).bind ?_
        rintro _ t₄ _ w₄ - hsees₄ ⟨rfl, rfl, hahead⟩
        refine (tell_reads (.useSignal token.text) hsees₄).mono ?_
        rintro reply _ w₅ - ⟨rfl, rfl⟩
        refine ⟨.name (isTextIdentifier_of_isIdentifier hkind hsymbol), fun hshort => ?_⟩
        rw [hahead, List.length_tail]
        omega

theorem isConstant_of_constantKind? {kind : Token.Kind} {constant : ConstantKind}
    (h : constantKind? kind = some constant) : kind.isConstant = true := by
  cases kind <;> first | rfl | cases h

/-- **An operand** is an operand of the grammar. -/
theorem operandBy_reads (hread : Derives read) (h : s.Sees v) :
    Reads v (fun _ tokens w => Phrase v.lexer.table .operand tokens ∧
      (v.ahead.length ≤ 2 → w.ahead.length ≤ 1)) (operandBy read s) := by
  refine (peekKind_reads h).bind ?_
  rintro _ t₁ _ w₁ hpasses₁ hsees₁ ⟨rfl, ⟨token, rest, hrest, rfl⟩, hlength₁⟩
  have htable : w₁.lexer.table = v.lexer.table := hpasses₁.table_eq
  cases hconstant : constantKind? token.kind with
  | some constant =>
    refine (consume_known hsees₁ hrest).bind ?_
    rintro _ t₂ _ w₂ - hsees₂ ⟨rfl, rfl, hahead⟩
    refine (tell_reads (.constant constant token.text) hsees₂).mono ?_
    rintro reply _ w₃ - ⟨rfl, rfl⟩
    refine ⟨.constant (isConstant_of_constantKind? hconstant), fun hshort => ?_⟩
    rw [hahead, List.length_tail]
    omega
  | none =>
    dsimp only
    split
    · refine (groupBy_reads hread hsees₁).bind ?_
      rintro answer t₂ _ w₂ - hsees₂ ⟨opening, container, items, closing, rfl, hopening, hitems,
        hclosing, -, hlength⟩
      rw [htable] at hitems
      have hphrase : Phrase v.lexer.table .operand ([] ++ (opening :: items ++ [closing] ++ [])) := by
        simpa using Phrase.group hopening hitems hclosing
      have hshort : v.ahead.length ≤ 2 → w₂.ahead.length ≤ 1 := fun hshort => by
        rw [hlength (by omega)]
        exact Nat.zero_le 1
      split
      · exact .pure hsees₂ ⟨hphrase, hshort⟩
      · refine (tell_reads (.encapsulate _ _) hsees₂).mono ?_
        rintro reply _ w₃ - ⟨rfl, rfl⟩
        exact ⟨hphrase, hshort⟩
    split
    · next hkind =>
      refine (namedBy_reads hread hsees₁ hrest hkind).mono ?_
      rintro _ tokens w - ⟨hphrase, hlength⟩
      rw [htable] at hphrase
      exact ⟨hphrase, fun hshort => hlength (by omega)⟩
    · exact unexpectedOperand_reads hsees₁

/-! ### Expressions -/

theorem infixesBy_reads (hread : Derives read) (bound : Option Nat) (held : Stacks) (h : s.Sees v) :
    Reads v (fun _ tokens w => Extends v.lexer.table tokens ∧ (v.ahead.length ≤ 1 → w.ahead.length = 1))
      (infixesBy read bound held s) := by
  refine Reads.iterate (I := fun _ tokens w => Extends v.lexer.table tokens ∧
    (v.ahead.length ≤ 1 → w.ahead.length ≤ 1)) h ⟨.nil, id⟩ ?_
  rintro held tokens w t₁ hpasses hsees ⟨hextends, hone⟩
  refine (operatorAt_reads hsees .infixOp).bind ?_
  rintro found t₂ _ w₂ hpasses₂ hsees₂ ⟨rfl, hlength₂, token, rest, hrest, hfound⟩
  have hdone : (v.ahead.length ≤ 1 → w₂.ahead.length = 1) := fun hshort => by
    have := hone hshort
    omega
  have htable₂ := hpasses₂.table_eq.trans hpasses.table_eq
  cases found with
  | none => exact .pure hsees₂ ⟨by simpa using hextends, hdone⟩
  | some op =>
    obtain ⟨hkind, hop⟩ := hfound op rfl
    rw [hpasses.table_eq] at hop
    dsimp only
    split
    · refine ((reduceWhile_still _ _ held).reads hsees₂).bind ?_
      rintro held' t₃ _ _ - hsees₃ ⟨rfl, rfl⟩
      refine (consume_known hsees₃ hrest).bind ?_
      rintro _ t₄ _ w₄ hpasses₄ hsees₄ ⟨rfl, rfl, hahead⟩
      refine (operandBy_reads hread hsees₄).bind ?_
      rintro operand t₅ more w₅ - hsees₅ ⟨hoperand, hlength₅⟩
      rw [hpasses₄.table_eq, htable₂] at hoperand
      refine .pure hsees₅ ⟨?_, fun hshort => hlength₅ ?_⟩
      · have hnext : Extends v.lexer.table (token :: more) :=
          fun first hfirst => .infixed hfirst hkind hop hoperand
        simpa using hextends.append hnext
      · rw [hahead, List.length_tail]
        have := hdone hshort
        omega
    · exact .pure hsees₂ ⟨by simpa using hextends, hdone⟩

theorem postfixesBy_reads (bound : Option Nat) (operand : Expr) (h : s.Sees v) :
    Reads v (fun _ tokens w => Extends v.lexer.table tokens ∧ (v.ahead.length ≤ 1 → w.ahead.length = 1))
      (postfixesBy bound operand s) := by
  refine Reads.iterate (I := fun _ tokens w => Extends v.lexer.table tokens ∧
    (v.ahead.length ≤ 1 → w.ahead.length ≤ 1)) h ⟨.nil, id⟩ ?_
  rintro ⟨operand, applied⟩ tokens w t₁ hpasses hsees ⟨hextends, hone⟩
  refine (operatorAt_reads hsees .postfixOp).bind ?_
  rintro found t₂ _ w₂ hpasses₂ hsees₂ ⟨rfl, hlength₂, token, rest, hrest, hfound⟩
  have hdone : (v.ahead.length ≤ 1 → w₂.ahead.length = 1) := fun hshort => by
    have := hone hshort
    omega
  cases found with
  | none => exact .pure hsees₂ ⟨by simpa using hextends, hdone⟩
  | some op =>
    obtain ⟨hkind, hop⟩ := hfound op rfl
    rw [hpasses.table_eq] at hop
    dsimp only
    split
    · refine (consume_known hsees₂ hrest).bind ?_
      rintro _ t₃ _ w₃ - hsees₃ ⟨rfl, rfl, hahead⟩
      refine (tell_reads (.applyOperator op [operand]) hsees₃).bind ?_
      rintro reply t₄ _ _ - hsees₄ ⟨rfl, rfl⟩
      refine .pure hsees₄ ⟨?_, fun hshort => ?_⟩
      · have hnext : Extends v.lexer.table [token] := fun first hfirst => .postfixed hfirst hkind hop
        simpa using hextends.append hnext
      · rw [hahead, List.length_tail]
        have := hdone hshort
        omega
    · exact .pure hsees₂ ⟨by simpa using hextends, hdone⟩

theorem climbBy_reads (hread : Derives read) (bound : Option Nat) (h : s.Sees v) :
    Reads v (fun _ tokens w => Phrase v.lexer.table .expression tokens ∧
      (v.ahead.length ≤ 2 → w.ahead.length = 1)) (climbBy read bound s) := by
  refine (operandBy_reads hread h).bind ?_
  rintro first t₁ operand w₁ hpasses₁ hsees₁ ⟨hoperand, hlength₁⟩
  refine Reads.iterate (I := fun _ tokens w => Extends v.lexer.table tokens ∧
    (v.ahead.length ≤ 2 → w.ahead.length ≤ 1)) hsees₁ ⟨.nil, hlength₁⟩ ?_
  rintro first tokens w t₂ hpasses₂ hsees₂ ⟨hextends, hone⟩
  have htable : w.lexer.table = v.lexer.table := hpasses₂.table_eq.trans hpasses₁.table_eq
  refine (infixesBy_reads hread bound _ hsees₂).bind ?_
  rintro reading t₃ between w₃ hpasses₃ hsees₃ ⟨hbetween, hlength₃⟩
  refine ((reduceWhile_still _ _ reading).reads hsees₃).bind ?_
  rintro reduced t₄ _ _ - hsees₄ ⟨rfl, rfl⟩
  refine ((popOperand_still reduced.operands).reads hsees₄).bind ?_
  rintro ⟨whole, others⟩ t₅ _ _ - hsees₅ ⟨rfl, rfl⟩
  refine (postfixesBy_reads bound whole hsees₅).bind ?_
  rintro ⟨whole, applied⟩ t₆ behind w₆ hpasses₆ hsees₆ ⟨hbehind, hlength₆⟩
  refine (operatorAt_reads hsees₆ .infixOp).bind ?_
  rintro found t₇ _ w₇ - hsees₇ ⟨rfl, hlength₇, -⟩
  rw [htable] at hbetween
  rw [hpasses₃.table_eq, htable] at hbehind
  have hall : Extends v.lexer.table (tokens ++ (between ++ ([] ++ ([] ++ (behind ++ ([] ++ [])))))) := by
    simpa using hextends.append (hbetween.append hbehind)
  have hdone : v.ahead.length ≤ 2 → w₇.ahead.length = 1 := fun hshort => by
    have := hlength₆ (Nat.le_of_eq (hlength₃ (hone hshort)))
    omega
  dsimp only
  split
  · exact .pure hsees₇ ⟨hall, fun hshort => Nat.le_of_eq (hdone hshort)⟩
  · exact .pure hsees₇ ⟨hall operand (.operand hoperand), hdone⟩

end

theorem climb_derives (depth : Nat) : Derives (climb depth : ExprReader σ) := by
  induction depth with
  | zero => exact fun bound s v h => ⟨v, h, rfl⟩
  | succ depth ih => exact fun bound s v h => climbBy_reads ih bound h

/-- **An expression** is an expression of the grammar, and ends one token behind it. -/
theorem expression_reads (h : s.Sees v) :
    Reads v (fun _ tokens w => Phrase v.lexer.table .expression tokens ∧
      (v.ahead.length ≤ 2 → w.ahead.length = 1)) (expression s) :=
  climb_derives _ none s v h

end Parser

end Dataflow
