import Dataflow.Proofs.Origins
import Dataflow.Proofs.Splitting

/-!
# Dataflow.Proofs.Bounds

**Reading with a bound follows the rules.** Whatever the operators are and whatever a session is over, an
expression that is read with a bound is what the rules of `Splits` make of the tokens before the session,
and the session is left where they leave off. There is one lemma for each function. The two loops over
operators together add one row of links and then the links behind it (`Underway`).

* `Divides` — how an expression is read inside another one: by the rules;
* `climb_divides` — so it is, to every depth;
* `operand_ends_at_bound` — the links of the expression bind below the bound, they build its tree, it stops at
  the first token that is no further link, and there is no other way to read the tokens.
-/

namespace Dataflow.Parser

open Reading Circuit Session

variable {σ : Type} [Source σ Char] {s : Session σ} {v w u : Sight σ} {t : Operator.Table}

/-- What has been said of the tokens in view holds of those that come behind them. -/
theorem Splits.behind_passes {part : Part} {tokens more : List Token}
    (h : Splits t part (tokens ++ w.ahead) w.ahead) (hpasses : w.Passes more u) :
    Splits t part (tokens ++ (more ++ u.ahead)) (more ++ u.ahead) := by
  obtain ⟨scanned, hscanned⟩ := hpasses.ahead
  have hmore := h.append scanned
  rwa [List.append_assoc, hscanned] at hmore

/-- Whatever its bound and wherever it stands, an expression is read by the rules. -/
def Divides (read : ExprReader σ) : Prop :=
  ∀ (bound : Option Nat) (s : Session σ) (v : Sight σ), s.Sees v →
    Reads v (fun e tokens w => Splits v.lexer.table (.whole bound e) (tokens ++ w.ahead) w.ahead)
      (read bound s)

/-! ### Operands -/

theorem grouped_eq {container : Container} {items : List Expr}
    (h : ∀ item, container = .list → items = [item] → False) :
    grouped container items = .group container items := by
  unfold grouped
  split
  · exact (h _ rfl rfl).elim
  · rfl

section

variable {read : ExprReader σ}

theorem itemsBy_splits (hread : Divides read) (container : Container) (h : s.Sees v) :
    Reads v (fun es tokens w => Splits v.lexer.table (.items container es) (tokens ++ w.ahead) w.ahead)
      (itemsBy read container s) := by
  refine (accept_reads h _).bind ?_
  rintro (_ | _) t₁ _ w₁ hpasses₁ hsees₁ haccepted
  · obtain ⟨rfl, ⟨first, others, hfirst, hother⟩, -⟩ := haccepted
    -- Behind the items so far and their separators, further ones make a longer listing.
    have hlisting : Reads w₁ (fun es tokens w =>
        Splits w₁.lexer.table (.listing container es) (tokens ++ w.ahead) w.ahead)
        (Run.iterate remaining [] (fun items => do
          let items := (← read none) :: items
          if ← accept .separator then
            return .again items
          else
            expect (.closing container)
            return .done items.reverse) t₁) := by
      refine Reads.iterate (I := fun (items : List Expr) tokens u => ∀ es more rest,
        Splits w₁.lexer.table (.listing container es) (u.ahead ++ more) rest →
        Splits w₁.lexer.table (.listing container (items.reverse ++ es)) (tokens ++ (u.ahead ++ more)) rest)
        hsees₁ (fun es more rest hes => hes) ?_
      intro items tokens u t₂ hpasses₂ hsees₂ hbefore
      refine (hread none t₂ u hsees₂).bind ?_
      intro value t₃ item u₃ hpasses₃ hsees₃ hitem
      rw [hpasses₂.table_eq] at hitem
      obtain ⟨scanned, hscanned⟩ := hpasses₃.ahead
      refine (accept_reads hsees₃ _).bind ?_
      rintro (_ | _) t₄ _ u₄ hpasses₄ hsees₄ haccepted
      · obtain ⟨rfl, ⟨closing, others, hclosing, -⟩, -⟩ := haccepted
        refine (expect_reads hsees₄ _).bind ?_
        rintro ⟨⟩ t₅ _ u₅ hpasses₅ hsees₅ ⟨closing, rfl, hclosing, -, -⟩
        refine .pure hsees₅ ?_
        have hpasses := (hpasses₄.trans hpasses₅)
        have hlast := Splits.last (hitem.behind_passes hpasses) hclosing
        obtain ⟨scanned, hscanned⟩ := (hpasses₃.trans hpasses).ahead
        have hall := hbefore [value] scanned u₅.ahead
        rw [hscanned] at hall
        simpa using hall (by simpa using hlast)
      · obtain ⟨separator, rfl, hseparator, -, -⟩ := haccepted
        refine .pure hsees₄ ?_
        intro es more rest hes
        have hmore := Splits.more ((hitem.behind_passes hpasses₄).append more) hseparator hes
        obtain ⟨scanned, hscanned⟩ := (hpasses₃.trans hpasses₄).ahead
        have hall := hbefore (value :: es) (scanned ++ more) rest
        rw [← List.append_assoc, hscanned] at hall
        simpa using hall (by simpa using hmore)
    rw [hpasses₁.table_eq] at hlisting
    refine hlisting.mono ?_
    intro es tokens w hpasses hes
    obtain ⟨scanned, hscanned⟩ := hpasses.ahead
    rw [hfirst, List.cons_append] at hscanned
    rw [List.nil_append]
    rw [← hscanned] at hes ⊢
    exact .filled hother hes
  · obtain ⟨closing, rfl, hclosing, -, -⟩ := haccepted
    exact .pure hsees₁ (.empty hclosing)

/-- A group: the bracket that opens it, and its items. -/
theorem groupBy_splits (hread : Divides read) (h : s.Sees v) :
    Reads v (fun found tokens w => ∃ opening more, tokens = opening :: more ∧
      opening.kind = .opening found.1 ∧ (∀ token ∈ v.ahead.head?, token = opening) ∧
      Splits v.lexer.table (.items found.1 found.2) (more ++ w.ahead) w.ahead) (groupBy read s) := by
  refine (consume_reads h).bind ?_
  rintro opening t₁ _ w₁ hpasses₁ hsees₁ ⟨rfl, -, hhead⟩
  cases hopening : opening.kind with
  | «opening» container =>
    refine (itemsBy_splits hread container hsees₁).bind ?_
    intro items t₂ more w₂ _ hsees₂ hitems
    rw [hpasses₁.table_eq] at hitems
    exact .pure hsees₂ ⟨opening, more, by simp, hopening, hhead, hitems⟩
  | _ => exact .violate hsees₁ _

/-- A call, where the bracket behind the name is in view. -/
theorem callBy_splits (hread : Divides read) (h : s.Sees v) {name opening : Token} {rest : List Token}
    (hv : v.ahead = name :: opening :: rest) (hname : name.kind.isIdentifier = true)
    (hcalled : Called v.lexer.table name opening) :
    Reads v (fun e tokens w => Splits v.lexer.table (.operand e) (tokens ++ w.ahead) w.ahead)
      (callBy read s) := by
  refine (consume_known h hv).bind ?_
  rintro _ t₁ _ w₁ hpasses₁ hsees₁ ⟨rfl, rfl, hahead⟩
  rw [hv, List.tail_cons] at hahead
  refine (groupBy_splits hread hsees₁).bind ?_
  rintro ⟨container, arguments⟩ t₂ _ w₂ hpasses₂ hsees₂ ⟨opening', more, rfl, hopening, hhead', hitems⟩
  obtain rfl := hhead' opening (by rw [hahead]; exact rfl)
  obtain rfl : container = .list := Token.Kind.opening.inj (hopening.symm.trans hcalled.1)
  have htable : t₂.table = v.lexer.table :=
    hsees₂.table_eq.trans (hpasses₂.table_eq.trans hpasses₁.table_eq)
  rw [hpasses₁.table_eq] at hitems
  dsimp only
  rw [Run.bind_apply, Run.get_apply]
  dsimp only
  rw [htable]
  refine (tell_answers (.applyOperator _ arguments) hsees₂).mono ?_
  rintro node _ w₃ - ⟨rfl, rfl, n, m, rfl, -⟩
  simpa [Operator.Table.applied] using Splits.call hname hcalled hitems

/-- An operator in front of its operand, where no bracket behind it makes it a call. -/
theorem prefixedBy_splits (hread : Divides read) (h : s.Sees v) {name next : Token} {rest : List Token}
    {op : Operator} (hv : v.ahead = name :: next :: rest) (hname : name.kind.isIdentifier = true)
    (hcalled : ¬ Called v.lexer.table name next) (hop : v.lexer.table.get? name.text .prefixOp = some op) :
    Reads v (fun e tokens w => Splits v.lexer.table (.operand e) (tokens ++ w.ahead) w.ahead)
      (prefixedBy read op s) := by
  refine (consume_known h hv).bind ?_
  rintro _ t₁ _ w₁ hpasses₁ hsees₁ ⟨rfl, rfl, hahead⟩
  rw [hv, List.tail_cons] at hahead
  refine (hread _ t₁ w₁ hsees₁).bind ?_
  intro operand t₂ tokens w₂ hpasses₂ hsees₂ hoperand
  rw [hpasses₁.table_eq] at hoperand
  refine (tell_answers (.applyOperator op [operand]) hsees₂).mono ?_
  rintro node _ w₃ - ⟨rfl, rfl, n, m, rfl, -⟩
  -- What stands behind the operator was in view before.
  obtain ⟨scanned, hscanned⟩ := hpasses₂.ahead
  rw [hahead, List.cons_append] at hscanned
  rw [← hscanned] at hoperand
  simpa [← hscanned] using Splits.prefixed hname hcalled hop hoperand

/-- A name as an operand. -/
theorem namedBy_splits (hread : Divides read) (h : s.Sees v) {name : Token} {rest : List Token}
    (hv : v.ahead = name :: rest) (hname : name.kind.isIdentifier = true) :
    Reads v (fun e tokens w => Splits v.lexer.table (.operand e) (tokens ++ w.ahead) w.ahead)
      (namedBy read name.kind s) := by
  refine (peek_reads h).bind ?_
  rintro name' t₁ _ w₁ hpasses₁ hsees₁ ⟨rfl, ⟨rest₁, hrest₁⟩, -⟩
  obtain rfl : name = name' := by simpa [hrest₁] using (hpasses₁.head_eq hv).symm
  rw [Run.bind_apply, Run.get_apply]
  dsimp only
  rw [hsees₁.table_eq, hpasses₁.table_eq]
  refine (kindAt_reads hsees₁ 1).bind ?_
  rintro _ t₂ _ w₂ hpasses₂ hsees₂ ⟨rfl, ⟨next, hnext, rfl⟩, -⟩
  have htable₂ : w₂.lexer.table = v.lexer.table := hpasses₂.table_eq.trans hpasses₁.table_eq
  obtain ⟨rest₂, hrest₂⟩ : ∃ rest₂, w₂.ahead = name :: next :: rest₂ := by
    obtain ⟨others, hothers⟩ := List.head?_eq_some_iff.1 (hpasses₂.head_eq hrest₁)
    rw [hothers] at hnext ⊢
    cases others with
    | nil => cases hnext
    | cons second others => exact ⟨others, by simpa using hnext⟩
  simp only [List.nil_append]
  split
  · next hcall =>
    rw [← htable₂] at hcall ⊢
    exact callBy_splits hread hsees₂ hrest₂ hname hcall
  · next hcall =>
    have hcalled : ¬ Called v.lexer.table name next := hcall
    refine (operatorAt_answers hsees₂ .prefixOp).bind ?_
    rintro found t₃ _ w₃ hpasses₃ hsees₃ ⟨rfl, -, name', rest₃, hrest₃, hfound⟩
    obtain rfl : name = name' := by simpa [hrest₃] using (hpasses₃.head_eq hrest₂).symm
    have htable₃ : w₃.lexer.table = v.lexer.table := hpasses₃.table_eq.trans htable₂
    obtain ⟨scanned₃, hscanned₃⟩ := hpasses₃.ahead
    have hrest₃ : w₃.ahead = name :: next :: (rest₂ ++ scanned₃) := by
      rw [← List.nil_append w₃.ahead, ← hscanned₃, hrest₂]
      rfl
    rw [if_pos hname, htable₂] at hfound
    cases found with
    | some op =>
      rw [← htable₃] at hfound hcalled ⊢
      exact prefixedBy_splits hread hsees₃ hrest₃ hname hcalled hfound.symm
    | none =>
      dsimp only
      split
      · exact unexpectedOperand_reads hsees₃
      · next hsymbol =>
        refine (consume_known hsees₃ hrest₃).bind ?_
        rintro _ t₄ _ w₄ - hsees₄ ⟨rfl, rfl, hahead⟩
        rw [hrest₃, List.tail_cons] at hahead
        refine (tell_answers (.useSignal name.text) hsees₄).mono ?_
        rintro node _ w₅ - ⟨rfl, rfl, n, m, rfl, -⟩
        rw [hahead]
        exact .signal (isTextIdentifier_of_isIdentifier hname hsymbol) hcalled hfound.symm

/-- **An operand** is what the rules make it. -/
theorem operandBy_splits (hread : Divides read) (h : s.Sees v) :
    Reads v (fun e tokens w => Splits v.lexer.table (.operand e) (tokens ++ w.ahead) w.ahead)
      (operandBy read s) := by
  refine (peekKind_reads h).bind ?_
  rintro _ t₁ _ w₁ hpasses₁ hsees₁ ⟨rfl, ⟨token, rest, hrest, rfl⟩, -⟩
  rw [← hpasses₁.table_eq]
  simp only [List.nil_append]
  cases hconstant : constantKind? token.kind with
  | some constant =>
    refine (consume_known hsees₁ hrest).bind ?_
    rintro _ t₂ _ w₂ - hsees₂ ⟨rfl, rfl, -⟩
    refine (tell_answers (.constant constant token.text) hsees₂).mono ?_
    rintro node _ w₃ - ⟨rfl, rfl, n, m, rfl, -⟩
    exact .constant hconstant
  | none =>
    dsimp only
    split
    · refine (groupBy_splits hread hsees₁).bind ?_
      rintro found t₂ _ w₂ - hsees₂ ⟨opening, more, rfl, hopening, -, hitems⟩
      have hgroup : Splits w₁.lexer.table (.operand (grouped found.1 found.2))
          (opening :: more ++ w₂.ahead) w₂.ahead := .group hopening hitems
      split
      · exact .pure hsees₂ (by simpa [grouped] using hgroup)
      · next container items hother =>
        refine (tell_answers (.encapsulate container items) hsees₂).mono ?_
        rintro node _ w₃ - ⟨rfl, rfl, n, m, rfl, -⟩
        rw [grouped_eq hother] at hgroup
        simpa using hgroup
    split
    · next hname => exact namedBy_splits hread hsees₁ hrest hname
    · exact unexpectedOperand_reads hsees₁

end

/-! ### Operators between operands -/

/-- The stacks hold the row behind an operand as trees. -/
def Stacks.Holds (held : Stacks) (first : Expr) (row : List (Operator × Expr)) (trees : List Tree) : Prop :=
  held.operands = trees.map Tree.value ∧ Spine trees held.operators first row

/-- Operators are applied until none is left at the top of which `p` holds. -/
theorem reduceWhile_settles {p : Operator → Bool} {held : Stacks} {first : Expr}
    {row : List (Operator × Expr)} {top : Tree} {trees : List Tree}
    (hholds : held.Holds first row (top :: trees)) (htop : ∀ op, top.root? = some op → p op = true) {n : Nat}
    (hn : held.operators.length ≤ n) (h : s.Sees v) :
    Reads v (fun held' tokens w => tokens = [] ∧ w = v ∧
      ∃ trees', held'.operands = trees'.map Tree.value ∧ Settled p first row trees' held'.operators)
      (reduceWhile p n held s) := by
  induction n generalizing held s top trees with
  | zero =>
    obtain ⟨hoperands, hspine⟩ := hholds
    have hnil := List.eq_nil_of_length_eq_zero (Nat.eq_zero_of_le_zero hn)
    refine .pure h ⟨rfl, rfl, top :: trees, hoperands, hspine, ?_, top, trees, rfl, htop⟩
    simp [hnil]
  | succ n ih =>
    obtain ⟨operands, operators⟩ := held
    obtain ⟨rfl, hspine⟩ := hholds
    unfold reduceWhile
    split
    · next hfirst =>
      cases operators with
      | nil => cases hfirst
      | cons op operators =>
        cases trees with
        | nil => exact absurd hspine.length_eq (by simp)
        | cons left trees =>
          refine Reads.bind (Q := fun held' tokens w => tokens = [] ∧ w = v ∧
            held' = ⟨(Tree.node op left top :: trees).map Tree.value, operators⟩) ?_ ?_
          · refine (tell_answers (.applyOperator op [left.value, top.value]) h).bind ?_
            rintro node t₁ _ _ - hsees ⟨rfl, rfl, n, m, rfl, -⟩
            exact .pure hsees ⟨rfl, rfl, rfl⟩
          · rintro _ t₁ _ _ - hsees ⟨rfl, rfl, rfl⟩
            refine ih ⟨rfl, hspine.reduce⟩ ?_ (by simpa using hn) hsees
            intro op' hop'
            cases hop'
            simpa using hfirst
    · next hfirst =>
      refine .pure h ⟨rfl, rfl, top :: trees, rfl, hspine, ?_, top, trees, rfl, htop⟩
      intro op hop
      simpa [hop] using hfirst

/-- If the links end with an operator behind an operand, the token in view is no further one. -/
def Turned (t : Operator.Table) (bound : Option Nat) (links : List Link) (ahead : List Token) : Prop :=
  EndsBehind links → ∃ token rest, ahead = token :: rest ∧ bindingAt t bound .postfixOp token = none

theorem Turned.head {bound : Option Nat} {links : List Link} {token : Token} {rest : List Token}
    (h : Turned t bound links v.ahead) (hpasses : v.Passes [] w) (hw : w.ahead = token :: rest) :
    EndsBehind links → bindingAt t bound .postfixOp token = none := by
  intro hends
  obtain ⟨token', others, hahead, hnone⟩ := h hends
  have hhead := hpasses.head_eq hahead
  rw [hw] at hhead
  cases hhead
  exact hnone

/-- The operator at the cursor, as far as the bound is concerned. -/
theorem bindingAt_eq (bound : Option Nat) {fixity : Fixity} {token : Token} {found : Option Operator}
    (h : found = if token.kind.isIdentifier then t.get? token.text fixity else none) :
    bindingAt t bound fixity token = found.filter (binds bound ·.precedence) := by
  rw [h]
  rfl

section

variable {read : ExprReader σ} {bound : Option Nat} {first whole : Expr} {links : List Link}
  {front : List Token}

theorem infixesBy_splits (whole : Expr) (hread : Divides read)
    (hcourse : Splits v.lexer.table (.course bound first links) (front ++ v.ahead) v.ahead)
    (hturned : Turned v.lexer.table bound links v.ahead) (h : s.Sees v) :
    Reads v (fun held tokens w => ∃ row top trees token rest, held.Holds whole row (top :: trees) ∧
      Splits v.lexer.table (.course bound first (links ++ row.map Link.ofRow)) (front ++ tokens ++ w.ahead)
        w.ahead ∧ w.ahead = token :: rest ∧ bindingAt v.lexer.table bound .infixOp token = none)
      (infixesBy read bound { operands := [whole], operators := [] } s) := by
  refine Reads.iterate (I := fun held tokens w => ∃ row operand trees,
    held.Holds whole row (.leaf operand :: trees) ∧
    Splits v.lexer.table (.course bound first (links ++ row.map Link.ofRow)) (front ++ tokens ++ w.ahead)
      w.ahead ∧ Turned v.lexer.table bound (links ++ row.map Link.ofRow) w.ahead) h ?_ ?_
  · refine ⟨[], whole, [], ⟨rfl, .base (t := .leaf whole) trivial⟩, ?_, ?_⟩
    · simpa using hcourse
    · simpa using hturned
  rintro held tokens w t₁ hpasses₁ hsees₁ ⟨row, operand, trees, hholds, hcourse, hturned⟩
  refine (operatorAt_answers hsees₁ .infixOp).bind ?_
  rintro found t₂ _ w₂ hpasses₂ hsees₂ ⟨rfl, -, token, rest, hrest, hfound⟩
  rw [hpasses₁.table_eq] at hfound
  have hbinding := bindingAt_eq bound hfound
  have hdone : Splits v.lexer.table (.course bound first (links ++ row.map Link.ofRow))
      (front ++ (tokens ++ []) ++ w₂.ahead) w₂.ahead := by
    simpa using hcourse.behind_passes hpasses₂
  cases found with
  | none => exact .pure hsees₂ ⟨row, _, trees, token, rest, hholds, by simpa using hdone, hrest, hbinding⟩
  | some op =>
    dsimp only
    split
    · next hbinds =>
      have hop : bindingAt v.lexer.table bound .infixOp token = some op := by
        rw [hbinding]
        simp [hbinds]
      refine (reduceWhile_settles hholds (by simp [Tree.root?]) (Nat.le_refl _) hsees₂).bind ?_
      rintro ⟨_, operators⟩ t₃ _ _ - hsees₃ ⟨rfl, rfl, trees', rfl, hsettled⟩
      refine (consume_known hsees₃ hrest).bind ?_
      rintro _ t₄ _ w₄ hpasses₄ hsees₄ ⟨rfl, rfl, hahead⟩
      refine (operandBy_splits hread hsees₄).bind ?_
      intro operand' t₅ more w₅ hpasses₅ hsees₅ hoperand
      rw [hpasses₄.table_eq, hpasses₂.table_eq, hpasses₁.table_eq] at hoperand
      have hfront : Splits v.lexer.table (.course bound first (links ++ row.map Link.ofRow))
          (front ++ tokens ++ (token :: (more ++ w₅.ahead))) (token :: (more ++ w₅.ahead)) := by
        simpa using hcourse.behind_passes (hpasses₂.trans (hpasses₄.trans hpasses₅))
      have hnext := Splits.between hfront hop (hturned.head hpasses₂ hrest) hoperand
      refine .pure hsees₅ ⟨row ++ [(op, operand')], operand', trees', ⟨rfl, hsettled.push operand'⟩, ?_, ?_⟩
      · simpa [Link.ofRow] using hnext
      · rw [List.map_append, ← List.append_assoc]
        exact fun hends => absurd hends (not_endsBehind_snoc _ _ _)
    · next hbinds =>
      refine .pure hsees₂ ⟨row, _, trees, token, rest, hholds, by simpa using hdone, hrest, ?_⟩
      rw [hbinding]
      simp [hbinds]

theorem postfixesBy_splits
    (hcourse : Splits v.lexer.table (.course bound first links) (front ++ v.ahead) v.ahead)
    (hbuilds : Builds first links whole)
    (hturned : ∃ token rest, v.ahead = token :: rest ∧ bindingAt v.lexer.table bound .infixOp token = none)
    (h : s.Sees v) :
    Reads v (fun found tokens w => ∃ links' token rest, Builds first links' found.1 ∧
      Splits v.lexer.table (.course bound first links') (front ++ tokens ++ w.ahead) w.ahead ∧
      w.ahead = token :: rest ∧ bindingAt v.lexer.table bound .postfixOp token = none ∧
      (if found.2 then EndsBehind links' else bindingAt v.lexer.table bound .infixOp token = none))
      (postfixesBy bound whole s) := by
  refine Reads.iterate (I := fun found tokens w => ∃ links', Builds first links' found.1 ∧
    Splits v.lexer.table (.course bound first links') (front ++ tokens ++ w.ahead) w.ahead ∧
    (if found.2 then EndsBehind links' else ∃ token rest, w.ahead = token :: rest ∧
      bindingAt v.lexer.table bound .infixOp token = none)) h ?_ ?_
  · exact ⟨links, hbuilds, by simpa using hcourse, hturned⟩
  rintro ⟨operand, applied⟩ tokens w t₁ hpasses₁ hsees₁ ⟨links', hbuilds, hcourse, hturned⟩
  refine (operatorAt_answers hsees₁ .postfixOp).bind ?_
  rintro found t₂ _ w₂ hpasses₂ hsees₂ ⟨rfl, -, token, rest, hrest, hfound⟩
  rw [hpasses₁.table_eq] at hfound
  have hbinding := bindingAt_eq bound hfound
  have hdone : Splits v.lexer.table (.course bound first links') (front ++ (tokens ++ []) ++ w₂.ahead)
      w₂.ahead := by
    simpa using hcourse.behind_passes hpasses₂
  -- That no operator stands between operands here has been seen on the token before this round.
  have hhead : if applied then EndsBehind links' else bindingAt v.lexer.table bound .infixOp token = none := by
    cases applied with
    | true => exact hturned
    | false =>
      obtain ⟨token', others, hahead, hnone⟩ := hturned
      have hhead := hpasses₂.head_eq hahead
      rw [hrest] at hhead
      cases hhead
      exact hnone
  cases found with
  | none =>
    exact .pure hsees₂ ⟨links', token, rest, hbuilds, by simpa using hdone, hrest, hbinding, hhead⟩
  | some op =>
    dsimp only
    split
    · next hbinds =>
      have hop : bindingAt v.lexer.table bound .postfixOp token = some op := by
        rw [hbinding]
        simp [hbinds]
      refine (consume_reads hsees₂).bind ?_
      rintro token' t₃ _ w₃ hpasses₃ hsees₃ ⟨rfl, hahead, hsame⟩
      obtain rfl := hsame token (by rw [hrest]; exact rfl)
      refine (tell_answers (.applyOperator op [operand]) hsees₃).bind ?_
      rintro node t₄ _ w₄ - hsees₄ ⟨rfl, rfl, n, m, rfl, -⟩
      have hfront : Splits v.lexer.table (.course bound first links')
          (front ++ tokens ++ (token :: w₄.ahead)) (token :: w₄.ahead) := by
        simpa using hcourse.behind_passes (hpasses₂.trans hpasses₃)
      have hturn : ¬ EndsBehind links' → bindingAt v.lexer.table bound .infixOp token = none := by
        cases applied with
        | true => exact fun hnot => absurd hhead hnot
        | false => exact fun _ => hhead
      have hnext := Splits.behind hfront hop hturn
      refine .pure hsees₄ ⟨links' ++ [.behind op], hbuilds.behind op, by simpa using hnext, ?_⟩
      rw [if_pos rfl]
      exact endsBehind_snoc links' op
    · next hbinds =>
      refine .pure hsees₂ ⟨links', token, rest, hbuilds, by simpa using hdone, hrest, ?_, hhead⟩
      rw [hbinding]
      simp [hbinds]

theorem climbBy_splits (hread : Divides read) (bound : Option Nat) (h : s.Sees v) :
    Reads v (fun e tokens w => Splits v.lexer.table (.whole bound e) (tokens ++ w.ahead) w.ahead)
      (climbBy read bound s) := by
  refine (operandBy_splits hread h).bind ?_
  intro first t₁ front w₁ hpasses₁ hsees₁ hfirst
  refine Reads.iterate (I := fun whole tokens w => ∃ links, Builds first links whole ∧
    ¬ EndsBetween links ∧ Turned v.lexer.table bound links w.ahead ∧
    Splits v.lexer.table (.course bound first links) (front ++ tokens ++ w.ahead) w.ahead) hsees₁ ?_ ?_
  · exact ⟨[], .operand, not_endsBetween_nil, fun hends => absurd hends not_endsBehind_nil,
      by simpa using Splits.first hfirst⟩
  rintro whole tokens w₂ t₂ hpasses₂ hsees₂ ⟨links, hbuilds, hends, hturned, hcourse⟩
  have htable : w₂.lexer.table = v.lexer.table := hpasses₂.table_eq.trans hpasses₁.table_eq
  rw [← htable] at hturned hcourse ⊢
  refine (infixesBy_splits whole hread hcourse hturned hsees₂).bind ?_
  rintro held t₃ between w₃ hpasses₃ hsees₃ ⟨row, top, trees, token, rest, hholds, hcourse₃, hrest, hnone⟩
  refine (reduceWhile_settles hholds (fun _ _ => rfl) (Nat.le_refl _) hsees₃).bind ?_
  rintro ⟨_, operators⟩ t₄ _ w₄ - hsees₄ ⟨rfl, rfl, trees', rfl, hsettled⟩
  obtain ⟨tree, rfl, rfl, hordered, rfl, rfl⟩ := hsettled.tree
  have hbuilds₄ := hbuilds.tree hends hordered
  refine Reads.bind (Q := fun found tokens w => tokens = [] ∧ w = w₄ ∧ found.1 = tree.value)
    (.pure hsees₄ ⟨rfl, rfl, rfl⟩) ?_
  rintro ⟨_, others⟩ t₅ _ w₅ - hsees₅ ⟨rfl, rfl, rfl⟩
  rw [← hpasses₃.table_eq] at hcourse₃ hnone
  refine (postfixesBy_splits hcourse₃ hbuilds₄ ⟨token, rest, hrest, hnone⟩ hsees₅).bind ?_
  rintro ⟨whole', applied⟩ t₆ behind w₆ hpasses₆ hsees₆
    ⟨links', token', rest', hbuilds', hcourse', hrest', hnone', happlied⟩
  refine (operatorAt_answers hsees₆ .infixOp).bind ?_
  rintro found t₇ _ w₇ hpasses₇ hsees₇ ⟨rfl, -, token'', rest'', hrest'', hfound⟩
  obtain rfl : token' = token'' := by simpa [hrest''] using (hpasses₇.head_eq hrest').symm
  have htable₆ : w₆.lexer.table = w₂.lexer.table := hpasses₆.table_eq.trans hpasses₃.table_eq
  rw [htable₆] at hfound
  have hbinding := bindingAt_eq bound hfound
  rw [hpasses₃.table_eq] at hcourse' hnone' happlied
  have hcourse₇ : Splits w₂.lexer.table (.course bound first links')
      (front ++ (tokens ++ (between ++ ([] ++ ([] ++ (behind ++ ([] ++ [])))))) ++ w₇.ahead) w₇.ahead := by
    simpa using hcourse'.behind_passes hpasses₇
  dsimp only
  split
  · next hagain =>
    obtain ⟨happly, -⟩ := Bool.and_eq_true_iff.1 hagain
    rw [if_pos happly] at happlied
    exact .pure hsees₇ ⟨links', hbuilds', happlied.not_between,
      fun _ => ⟨token', rest'', hrest'', hnone'⟩, hcourse₇⟩
  · next hlast =>
    -- Without an operator behind the row, the row has stopped at this token already.
    have hbetween : bindingAt w₂.lexer.table bound .infixOp token' = none := by
      cases applied with
      | false => exact happlied
      | true =>
        rw [hbinding, Option.filter_eq_none_iff]
        intro op hop hbinds
        exact hlast (by simp [hop, hbinds])
    rw [hrest''] at hcourse₇
    refine .pure hsees₇ ?_
    rw [hrest'']
    simpa using Splits.whole hcourse₇ ⟨hbetween, hnone'⟩ hbuilds'

end

theorem climb_divides (depth : Nat) : Divides (climb depth : ExprReader σ) := by
  induction depth with
  | zero => exact fun bound s v h => ⟨v, h, rfl⟩
  | succ depth ih => exact fun bound s v h => climbBy_splits ih bound h

/-- **An expression with a bound ends where the bound says.** In any session, whatever its table, an
expression that is read with or without a bound is an operand and links of its own. Each of them binds
below the bound, and they build the tree that is the answer. The token behind them is neither an operator
between operands nor one behind an operand that binds below the bound; whatever else comes, no other split
of the tokens is an operand and links, except for those that have not come to their end. -/
theorem climb_ends_at_bound {depth : Nat} {bound : Option Nat} {e : Expr} {s' : Session σ} (h : s.Sees v)
    (hclimb : climb depth bound s = .ok e s') :
    ∃ tokens w first links next rest,
      v.Passes tokens w ∧ s'.Sees w ∧ w.ahead = next :: rest ∧
      Splits v.lexer.table (.course bound first links) (tokens ++ w.ahead) w.ahead ∧
      (∀ link ∈ links, ∀ p, bound = some p → link.operator.precedence < p) ∧
      Builds first links e ∧ (∀ e', Builds first links e' → e' = e) ∧
      Stops v.lexer.table bound next ∧
      ∀ more first' links' rest',
        Splits v.lexer.table (.course bound first' links') (tokens ++ w.ahead ++ more) rest' →
        first' = first ∧ (links' = links ∧ rest' = w.ahead ++ more ∨
          GoesOn v.lexer.table bound links' rest' links (w.ahead ++ more)) := by
  have hreads := climb_divides depth bound s v h
  rw [hclimb] at hreads
  obtain ⟨tokens, w, hpasses, hsees, hwhole⟩ := hreads
  generalize hahead : w.ahead = ahead at hwhole
  cases hwhole with
  | @whole _ rest next _ first _ links course hstops hbuilds =>
    refine ⟨tokens, w, first, links, next, rest, hpasses, hsees, hahead, hahead ▸ course, ?_, hbuilds,
      fun e' hbuilds' => hbuilds'.unique hbuilds, hstops, ?_⟩
    · intro link hlink p hp
      have hbinds := course.binds_links link hlink
      rw [hp] at hbinds
      simpa [binds] using hbinds
    · intro more first' links' rest' hother
      rw [hahead] at hother ⊢
      exact (course.append more).longest hstops hother

theorem climb_ends_at_sum :
    let s := Session.ofSource (Items.ofText "a^2!+b") {} Operator.Table.standard
    let e := Expr.apply "Factorial" [.apply "Power" [.signal "a", .integer "2"]]
    ∃ v s', s.Sees v ∧ climb 1 (some 60) s = .ok e s' ∧ ∃ tokens w first links next rest,
      v.Passes tokens w ∧ s'.Sees w ∧ w.ahead = next :: rest ∧
      Splits v.lexer.table (.course (some 60) first links) (tokens ++ w.ahead) w.ahead ∧
      (∀ link ∈ links, ∀ p, some 60 = some p → link.operator.precedence < p) ∧
      Builds first links e ∧ (∀ e', Builds first links e' → e' = e) ∧
      Stops v.lexer.table (some 60) next ∧
      ∀ more first' links' rest',
        Splits v.lexer.table (.course (some 60) first' links') (tokens ++ w.ahead ++ more) rest' →
        first' = first ∧ (links' = links ∧ rest' = w.ahead ++ more ∨
          GoesOn v.lexer.table (some 60) links' rest' links (w.ahead ++ more)) := by
  intro s e
  have hsees : s.Sees { lexer := Lexer.ofSource (Items.ofText "a^2!+b") {} .standard } :=
    Cursor.sees_ofSource _ _
  have hclimb : climb 1 (some 60) s = .ok e _ := Run.eq_ok_of_answer? (by decide +kernel)
  exact ⟨_, _, hsees, hclimb, climb_ends_at_bound hsees hclimb⟩

end Dataflow.Parser
