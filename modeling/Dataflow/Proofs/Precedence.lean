import Dataflow.Proofs.Building
import Dataflow.Proofs.Framing

/-!
# Dataflow.Proofs.Precedence

**What precedence means.** A row of operands with operators between them can be bracketed in many
ways, and precedence picks one. Which one is said here without any stack: `Tree.Ordered` is a
condition on neighbours in the tree, and every row has exactly one tree that meets it.

* `Before` — an operator is applied before the one that follows it in the row;
* `Tree`, `Tree.first`, `Tree.rest` — a bracketing, and the row that it is a bracketing of;
* `Tree.Ordered`, `Tree.eq_of_ordered` — the condition, and that it leaves no choice;
* `Spine` — what the two stacks of the parser hold while a row is read;
* `Row`, `expression_of_row` — a session with a row before it, and what the parser makes of it.
-/

namespace Dataflow.Parser

open Reading Lexer Circuit Session

/-! ### Trees -/

/-- In a row, `f` is applied before `g`, which stands to its right: it binds tighter, or as tight
and the row groups to the left. -/
def Before (f g : Operator) : Prop :=
  f.precedence < g.precedence ∨ f.precedence = g.precedence ∧ g.isRightAssociative = false

theorem reducesBefore_iff {f g : Operator} : reducesBefore f g = true ↔ Before f g := by
  simp [reducesBefore, Before]

/-- A bracketing of a row. -/
inductive Tree where
  | leaf (operand : Expr)
  | node (op : Operator) (left right : Tree)

namespace Tree

/-- The operator that is applied last. -/
def root? : Tree → Option Operator
  | leaf _ => none
  | node op _ _ => some op

/-- The first operand of the row. -/
def first : Tree → Expr
  | leaf e => e
  | node _ left _ => left.first

/-- The rest of the row: operators, each with the operand to its right. -/
def rest : Tree → List (Operator × Expr)
  | leaf _ => []
  | node op left right => left.rest ++ (op, right.first) :: right.rest

/-- The expression that the netlist is to build. -/
def value : Tree → Expr
  | leaf e => e
  | node op left right => .apply op.entity [left.value, right.value]

/-- An operator on the left is applied before the one above it, and one on the right is not kept
waiting by it. -/
def Ordered : Tree → Prop
  | leaf _ => True
  | node f left right =>
    (∀ g, left.root? = some g → Before g f) ∧ (∀ g, right.root? = some g → ¬ Before f g) ∧
      left.Ordered ∧ right.Ordered

theorem before_trans {f g h : Operator} (hgf : Before g f) (hh : Before h g) : Before h f := by
  unfold Before at *
  rcases hgf with hgf | ⟨hgf, hf⟩ <;> rcases hh with hh | ⟨hh, hg⟩ <;> first
    | exact .inl (by omega)
    | exact .inr ⟨by omega, hf⟩

theorem before_of_not_before {f g h : Operator} (hgf : Before g f) (hh : ¬ Before g h) :
    Before h f := by
  unfold Before at *
  rcases hgf with hgf | ⟨hgf, hf⟩
  · exact .inl (by omega)
  · rcases Nat.lt_or_ge h.precedence f.precedence with hlt | hge
    · exact .inl hlt
    · exact .inr ⟨by omega, hf⟩

/-- All operators of a tree come before `f` if the last one does. -/
theorem Ordered.all_before {f : Operator} {t : Tree} (h : t.Ordered)
    (hroot : ∀ g, t.root? = some g → Before g f) : ∀ p ∈ t.rest, Before p.1 f := by
  induction t with
  | leaf e => simp [rest]
  | node g left right ihl ihr =>
    obtain ⟨hleft, hright, hl, hr⟩ := h
    have hgf := hroot g rfl
    intro p hp
    rcases List.mem_append.1 hp with hp | hp
    · exact ihl hl (fun k hk => before_trans hgf (hleft k hk)) p hp
    rcases List.mem_cons.1 hp with rfl | hp
    · exact hgf
    · exact ihr hr (fun k hk => before_of_not_before hgf (hright k hk)) p hp

/-- Before no operator of a tree comes `f` if it does not come before the last one. -/
theorem Ordered.all_not_before {f : Operator} {t : Tree} (h : t.Ordered)
    (hroot : ∀ g, t.root? = some g → ¬ Before f g) : ∀ p ∈ t.rest, ¬ Before f p.1 := by
  induction t with
  | leaf e => simp [rest]
  | node g left right ihl ihr =>
    obtain ⟨hleft, hright, hl, hr⟩ := h
    have hfg := hroot g rfl
    intro p hp
    rcases List.mem_append.1 hp with hp | hp
    · exact ihl hl (fun k hk hfk => hfg (before_trans (hleft k hk) hfk)) p hp
    rcases List.mem_cons.1 hp with rfl | hp
    · exact hfg
    · exact ihr hr (fun k hk hfk => hright k hk (before_of_not_before hfk hfg)) p hp

/-- Two ways to cut a row at an operator are the same if all operators on the left come before
the one at the cut, and it comes before none on the right. -/
theorem cut_unique {f f' : Operator} {x x' : Expr} {left left' right right' : List (Operator × Expr)}
    (hcut : left ++ (f, x) :: right = left' ++ (f', x') :: right')
    (hleft : ∀ p ∈ left, Before p.1 f) (hright : ∀ p ∈ right, ¬ Before f p.1)
    (hleft' : ∀ p ∈ left', Before p.1 f') (hright' : ∀ p ∈ right', ¬ Before f' p.1) :
    left = left' ∧ f = f' ∧ x = x' ∧ right = right' := by
  rcases List.append_eq_append_iff.1 hcut with ⟨more, hl, hr⟩ | ⟨more, hl, hr⟩
  · cases more with
    | nil =>
      simp only [List.nil_append, List.cons.injEq, Prod.mk.injEq] at hr
      exact ⟨by simpa using hl.symm, hr.1.1, hr.1.2, hr.2⟩
    | cons p more =>
      -- The first cut is on the left of the second one.
      rw [List.cons_append, List.cons.injEq] at hr
      obtain ⟨rfl, hr⟩ := hr
      have hbefore := hleft' (f, x) (by rw [hl]; simp)
      have hnot := hright (f', x') (by rw [hr]; simp)
      exact absurd hbefore hnot
  · cases more with
    | nil =>
      simp only [List.nil_append, List.cons.injEq, Prod.mk.injEq] at hr
      exact ⟨by simpa using hl, hr.1.1.symm, hr.1.2.symm, hr.2.symm⟩
    | cons p more =>
      rw [List.cons_append, List.cons.injEq] at hr
      obtain ⟨rfl, hr⟩ := hr
      have hbefore := hleft (f', x') (by rw [hl]; simp)
      have hnot := hright' (f, x) (by rw [hr]; simp)
      exact absurd hbefore hnot

/-- A row has no more than one ordered tree. -/
theorem eq_of_ordered {t u : Tree} (ht : t.Ordered) (hu : u.Ordered) (hfirst : t.first = u.first)
    (hrest : t.rest = u.rest) : t = u := by
  induction t generalizing u with
  | leaf e =>
    cases u with
    | leaf e' => exact congrArg leaf hfirst
    | node f left right => exact absurd hrest (by simp [rest])
  | node f left right ihl ihr =>
    cases u with
    | leaf e' => exact absurd hrest (by simp [rest])
    | node f' left' right' =>
      obtain ⟨hleft, hright, hl, hr⟩ := ht
      obtain ⟨hleft', hright', hl', hr'⟩ := hu
      obtain ⟨hsame, rfl, hx, hsame'⟩ := cut_unique hrest (hl.all_before hleft)
        (hr.all_not_before hright) (hl'.all_before hleft') (hr'.all_not_before hright')
      rw [ihl hl hl' hfirst hsame, ihr hr hr' hx hsame']

end Tree

/-! ### The stacks -/

/-- The stacks of the parser while it reads a row, as trees: the operands with the last one first,
the operators between them, and the part of the row that has been read. No operator on the stack
comes before the one above it, and every operand fits on its two sides. -/
inductive Spine : List Tree → List Operator → Expr → List (Operator × Expr) → Prop
  | base {t : Tree} (ht : t.Ordered) : Spine [t] [] t.first t.rest
  | push {left right : Tree} {trees : List Tree} {f : Operator} {operators : List Operator}
    {first : Expr} {rest : List (Operator × Expr)}
    (below : Spine (left :: trees) operators first rest)
    (hleft : ∀ g, left.root? = some g → Before g f)
    (hbelow : ∀ g, operators.head? = some g → ¬ Before g f) (ht : right.Ordered)
    (hright : ∀ g, right.root? = some g → ¬ Before f g) :
    Spine (right :: left :: trees) (f :: operators) first
      (rest ++ (f, right.first) :: right.rest)

namespace Spine

variable {left right : Tree} {trees : List Tree} {f : Operator} {operators : List Operator}
  {first : Expr} {rest : List (Operator × Expr)}

/-- Applying the last operator keeps everything in place. -/
theorem reduce (h : Spine (right :: left :: trees) (f :: operators) first rest) :
    Spine (.node f left right :: trees) operators first rest := by
  cases h with
  | push below hleft hbelow ht hright =>
    cases below with
    | base hl => exact .base ⟨hleft, hright, hl, ht⟩
    | push below hleft' hbelow' hl hright' =>
      rw [List.append_assoc]
      refine .push below hleft' hbelow' ⟨hleft, hright, hl, ht⟩ ?_
      rintro g hg
      cases hg
      exact hbelow _ rfl

/-- There is one operand more than there are operators. -/
theorem length_eq {trees : List Tree} (h : Spine trees operators first rest) :
    trees.length = operators.length + 1 := by
  induction h with
  | base => rfl
  | push _ _ _ _ _ ih => simp [ih]

end Spine

/-- Operators are applied from the top of the stack as long as `p` holds of them. -/
inductive Applied (p : Operator → Bool) :
    List Tree → List Operator → List Tree → List Operator → Prop
  | stop {trees : List Tree} {operators : List Operator}
    (h : operators.head?.any p = false) : Applied p trees operators trees operators
  | step {left right : Tree} {trees trees' : List Tree} {f : Operator}
    {operators operators' : List Operator} (h : p f = true)
    (rest : Applied p (.node f left right :: trees) operators trees' operators') :
    Applied p (right :: left :: trees) (f :: operators) trees' operators'

/-- What stands on the stacks when operators have been applied as long as `p` holds. -/
structure Settled (p : Operator → Bool) (first : Expr) (rest : List (Operator × Expr))
    (trees : List Tree) (operators : List Operator) : Prop where
  spine : Spine trees operators first rest
  operators : ∀ f, operators.head? = some f → p f = false
  operand : ∃ top below, trees = top :: below ∧ ∀ g, top.root? = some g → p g = true

/-- Applying operators comes to an end, and keeps the stacks in order. -/
theorem Spine.settle {p : Operator → Bool} {top : Tree} {trees : List Tree}
    {operators : List Operator} {first : Expr} {rest : List (Operator × Expr)}
    (h : Spine (top :: trees) operators first rest)
    (htop : ∀ g, top.root? = some g → p g = true) :
    ∃ trees' operators', Applied p (top :: trees) operators trees' operators' ∧
      Settled p first rest trees' operators' ∧ operators' <:+ operators := by
  induction operators generalizing top trees with
  | nil =>
    exact ⟨_, _, .stop rfl, ⟨h, by simp, top, trees, rfl, htop⟩, List.suffix_refl _⟩
  | cons f operators ih =>
    cases hf : p f with
    | false =>
      refine ⟨_, _, .stop (by simp [hf]), ⟨h, ?_, top, trees, rfl, htop⟩, List.suffix_refl _⟩
      rintro g hg
      cases hg
      exact hf
    | true =>
      cases trees with
      | nil => exact absurd h.length_eq (by simp)
      | cons left trees =>
        obtain ⟨trees', operators', happlied, hsettled, hsuffix⟩ := ih h.reduce (by
          rintro g hg
          cases hg
          exact hf)
        exact ⟨trees', operators', .step hf happlied, hsettled,
          hsuffix.trans (List.suffix_cons f operators)⟩

/-- The next operator and its right operand go on top of stacks that have been settled for it. -/
theorem Settled.push {next : Operator} {first : Expr} {rest : List (Operator × Expr)}
    {trees : List Tree} {operators : List Operator}
    (h : Settled (reducesBefore · next) first rest trees operators) (operand : Expr) :
    Spine (.leaf operand :: trees) (next :: operators) first (rest ++ [(next, operand)]) := by
  obtain ⟨hspine, hoperators, top, below, rfl, hroot⟩ := h
  refine .push hspine (fun g hg => reducesBefore_iff.1 (hroot g hg)) ?_ trivial (by simp [Tree.root?])
  intro g hg hbefore
  have := hoperators g hg
  rw [reducesBefore_iff.2 hbefore] at this
  cases this

/-- When all operators have been applied, one ordered tree is left. -/
theorem Settled.tree {first : Expr} {rest : List (Operator × Expr)} {trees : List Tree}
    {operators : List Operator} (h : Settled (fun _ => true) first rest trees operators) :
    ∃ tree : Tree, trees = [tree] ∧ operators = [] ∧ tree.Ordered ∧ tree.first = first ∧
      tree.rest = rest := by
  obtain ⟨hspine, hoperators, -⟩ := h
  cases hspine with
  | base ht => exact ⟨_, rfl, rfl, ht, rfl, rfl⟩
  | push => exact absurd (hoperators _ rfl) (by simp)

/-- A row that goes on can be put on the stacks. -/
theorem Spine.exists_append {operand : Expr} {trees : List Tree} {operators : List Operator}
    {first : Expr} {rest : List (Operator × Expr)}
    (h : Spine (.leaf operand :: trees) operators first rest) (more : List (Operator × Expr)) :
    ∃ operand' trees' operators', Spine (.leaf operand' :: trees') operators' first (rest ++ more) := by
  induction more generalizing operand trees operators rest with
  | nil => exact ⟨operand, trees, operators, by rw [List.append_nil]; exact h⟩
  | cons p more ih =>
    obtain ⟨next, operand'⟩ := p
    obtain ⟨trees', operators', -, hsettled, -⟩ :=
      h.settle (p := (reducesBefore · next)) (by simp [Tree.root?])
    have hpush := ih (hsettled.push operand')
    rw [List.append_assoc] at hpush
    exact hpush

/-- Every row has an ordered tree. -/
theorem Tree.exists_ordered (first : Expr) (rest : List (Operator × Expr)) :
    ∃ tree : Tree, tree.Ordered ∧ tree.first = first ∧ tree.rest = rest := by
  obtain ⟨operand, trees, operators, hspine⟩ :=
    Spine.exists_append (Spine.base (t := .leaf first) trivial) rest
  obtain ⟨trees', operators', -, hsettled, -⟩ :=
    hspine.settle (p := fun _ => true) (fun _ _ => rfl)
  obtain ⟨tree, -, -, htree⟩ := hsettled.tree
  exact ⟨tree, htree⟩

theorem Tree.existsUnique_ordered (first : Expr) (rest : List (Operator × Expr)) :
    ∃! tree : Tree, tree.Ordered ∧ tree.first = first ∧ tree.rest = rest := by
  obtain ⟨tree, hordered, hfirst, hrest⟩ := exists_ordered first rest
  refine ⟨tree, ⟨hordered, hfirst, hrest⟩, ?_⟩
  rintro other ⟨ho, hf, hr⟩
  exact eq_of_ordered ho hordered (hf.trans hfirst.symm) (hr.trans hrest.symm)

/-! ### The parser on a row -/

/-- One round of the loop over the operators between operands. -/
def infixRound {σ : Type} [Source σ Char] (read : ExprReader σ) (bound : Option Nat)
    (held : Stacks) : Run (Session σ) (Run.Round Stacks Stacks) := do
  match ← operatorAt .infixOp with
  | none => return .done held
  | some op =>
    if binds bound op.precedence then
      let held ← reduceFor op held
      let _ ← consume
      let operand ← operandBy read
      return .again
        { operands := operand :: held.operands, operators := op :: held.operators }
    else
      return .done held

theorem infixesBy_eq {σ : Type} [Source σ Char] (read : ExprReader σ) (bound : Option Nat)
    (held : Stacks) : infixesBy read bound held =
      Run.iterate Session.remaining held (infixRound read bound) := rfl

/-- One round of an expression: operators between operands, and operators behind all of it. -/
def climbRound {σ : Type} [Source σ Char] (read : ExprReader σ) (bound : Option Nat)
    (first : Expr) : Run (Session σ) (Run.Round Expr Expr) := do
  let reading ← infixesBy read bound { operands := [first], operators := [] }
  let reading ← reduceAll reading
  let (whole, _) ← popOperand reading.operands
  let (whole, applied) ← postfixesBy bound whole
  let more := (← operatorAt .infixOp).any fun op => binds bound op.precedence
  if applied && more then
    return .again whole
  else
    return .done whole

theorem climbBy_eq {σ : Type} [Source σ Char] (read : ExprReader σ) (bound : Option Nat) :
    climbBy read bound = operandBy read >>= fun first =>
      Run.iterate Session.remaining first (climbRound read bound) := rfl

variable {σ : Type} [Supply σ Char] {g : Setting} {m : Netlist} {f : Footing} {s : Session σ}
  {read : ExprReader σ}

/-- In a session behind an operand, operators with operands behind them follow, up to where
neither an operator between operands nor one behind an operand comes next. -/
inductive Row (read : ExprReader σ) : Session σ → List (Operator × Expr) → Prop
  | last {s t u : Session σ} (hbetween : operatorAt .infixOp s = .ok none t)
    (hbehind : operatorAt .postfixOp t = .ok none u) : Row read s []
  | more {s t u v : Session σ} {op : Operator} {token : Token} {operand : Expr}
    {rest : List (Operator × Expr)} (hbetween : operatorAt .infixOp s = .ok (some op) t)
    (hconsume : consume t = .ok token u) (hoperand : operandBy read u = .ok operand v)
    (hrest : Row read v rest) : Row read s ((op, operand) :: rest)

omit [Supply σ Char] in
theorem reduce_ok {op : Operator} {left right : Expr} {operands : List Expr}
    {operators : List Operator} (h : s.netlist.Accepts op 2) :
    reduce ⟨right :: left :: operands, op :: operators⟩ s =
      .ok ⟨.apply op.entity [left, right] :: operands, operators⟩
        { s with calls := .applyOperator op [left, right] :: s.calls } := by
  have htell := tell_ok (s := s) (.applyOperator op [left, right]) (Netlist.applyOperator_ok h)
  unfold reduce popOperand
  simp only [Run.bind_apply, Run.pure_apply, htell]

omit [Supply σ Char] in
/-- Applying operators on the stacks is applying them in the trees. -/
theorem reduceWhile_applied {p : Operator → Bool} {trees trees' : List Tree}
    {operators operators' : List Operator} (h : Applied p trees operators trees' operators')
    (haccepts : ∀ f ∈ operators, s.netlist.Accepts f 2) {n : Nat} (hn : operators.length ≤ n) :
    ∃ calls, reduceWhile p n ⟨trees.map Tree.value, operators⟩ s =
      .ok ⟨trees'.map Tree.value, operators'⟩ { s with calls } := by
  induction h generalizing s n with
  | stop hstop =>
    refine ⟨s.calls, ?_⟩
    cases n with
    | zero => rfl
    | succ n =>
      unfold reduceWhile
      rw [if_neg (by simp [hstop])]
      rfl
  | @step left right _ _ f _ _ hf _ ih =>
    cases n with
    | zero => exact absurd hn (by simp)
    | succ n =>
      unfold reduceWhile
      rw [if_pos (by simp [hf]), Run.bind_apply]
      simp only [List.map_cons]
      rw [reduce_ok (haccepts _ List.mem_cons_self)]
      obtain ⟨calls, hcalls⟩ := ih
        (s := { s with calls := .applyOperator f [left.value, right.value] :: s.calls })
        (fun f' hf' => haccepts f' (List.mem_cons_of_mem _ hf')) (n := n) (by simpa using hn)
      exact ⟨calls, hcalls⟩

/-- Of every token that is consumed there is one less to come. -/
theorem Row.length_le {rest : List (Operator × Expr)} (h : Row read s rest)
    (hread : ReaderFinds g m (fun _ => True) read) (hs : s.Stands g m f) :
    rest.length ≤ f.pending := by
  induction h generalizing f with
  | last => exact Nat.zero_le _
  | @more _ _ _ _ _ token _ _ hbetween hconsume hoperand _ ih =>
    obtain ⟨ht, token', q, hq, hfound⟩ := (operatorAt_ends hs .infixOp).of_ok hbetween
    obtain ⟨hname, -⟩ := some_of_operatorAt hfound
    obtain ⟨token', q', -, hq', -, -, hpending⟩ := ht.peek_viewed
    rw [hq] at hq'
    cases hq'
    have hone := covering_of_covers
      (Place.covers_of_isSolid hq (Token.Kind.isSolid_of_isIdentifier hname))
    obtain ⟨rfl, hu⟩ := (ht.consume hq (ne_endOfFile_of_isIdentifier hname)).of_ok hconsume
    obtain ⟨-, f', hv, -, hle⟩ := (operandBy_finds closed_true hread hu).answer hoperand
    have hrest := ih hv
    have hpass : (f.view.pass token q).pending = f.pending - 1 := by
      show f.pending - covering [token] = _
      rw [hone]
    rw [List.length_cons]
    omega

/-- Where a loop over the operators of a row leaves the session: at the end of the row, with an
operand on top of the stack. -/
structure Finished (g : Setting) (m : Netlist) (first : Expr) (rest : List (Operator × Expr))
    (held : Stacks) (s : Session σ) : Prop where
  spine : ∃ operand trees, held.operands = (Tree.leaf operand :: trees).map Tree.value ∧
    Spine (.leaf operand :: trees) held.operators first rest
  accepts : ∀ op ∈ held.operators, m.Accepts op 2
  row : ∃ (t u : Session σ) (f : Footing), s.Like t ∧ t.Stands g m f.view ∧ operatorAt .postfixOp t = .ok none u

theorem infixes_of_row {u : Session σ} {more : List (Operator × Expr)} (hrow : Row read u more)
    (hread : ReaderFinds g m (fun _ => True) read) (hframed : ∀ bound, Framed (read bound))
    (hu : u.Stands g m f) (hs : s.Like u) {operand first : Expr} {trees : List Tree}
    {operators : List Operator} {rest : List (Operator × Expr)}
    (hspine : Spine (.leaf operand :: trees) operators first rest)
    (hbelow : ∀ op ∈ operators, m.Accepts op 2) (hmore : ∀ p ∈ more, m.Accepts p.1 2) {n : Nat}
    (hn : more.length < n) :
    ∃ held t, Run.iterateFor (infixRound read none) n
      ⟨(Tree.leaf operand :: trees).map Tree.value, operators⟩ s = .ok held t ∧
      Finished g m first (rest ++ more) held t := by
  induction hrow generalizing s f operand trees operators rest n with
  | last hbetween hbehind =>
    obtain ⟨n, rfl⟩ : ∃ k, n = k + 1 := ⟨n - 1, by omega⟩
    obtain ⟨ht, -⟩ := (operatorAt_ends hu .infixOp).of_ok hbetween
    obtain ⟨s', hs', hlike⟩ := (operatorAt_framed .infixOp).transfer hs hbetween
    refine ⟨⟨(Tree.leaf operand :: trees).map Tree.value, operators⟩, s', ?_, ⟨operand, trees, rfl, by rw [List.append_nil]; exact hspine⟩, hbelow,
      _, _, f, hlike, ht, hbehind⟩
    rw [Run.iterateFor_succ]
    unfold infixRound
    simp only [Run.bind_apply, hs', Run.pure_apply]
  | @more _ _ _ _ op token operand' more hbetween hconsume hoperand hrest ih =>
    obtain ⟨n, rfl⟩ : ∃ k, n = k + 1 := ⟨n - 1, by omega⟩
    obtain ⟨ht, token', q, hq, hfound⟩ := (operatorAt_ends hu .infixOp).of_ok hbetween
    obtain ⟨hname, -⟩ := some_of_operatorAt hfound
    obtain ⟨rfl, hu'⟩ := (ht.consume hq (ne_endOfFile_of_isIdentifier hname)).of_ok hconsume
    obtain ⟨-, f', hv, -, -⟩ := (operandBy_finds closed_true hread hu').answer hoperand
    -- The session itself has applied operators in between, which only its trace knows.
    obtain ⟨s₁, hs₁, hlike₁⟩ := (operatorAt_framed .infixOp).transfer hs hbetween
    obtain ⟨trees₁, operators₁, happlied, hsettled, hsuffix⟩ :=
      hspine.settle (p := (reducesBefore · op)) (by simp [Tree.root?])
    have hknown : ∀ op ∈ operators, s₁.netlist.Accepts op 2 := fun op hop =>
      (hbelow op hop).of_entities (by rw [hlike₁.netlist, ht.entities])
    obtain ⟨calls, hreduce⟩ := reduceWhile_applied happlied hknown (Nat.le_refl _)
    obtain ⟨s₂, hs₂, hlike₂⟩ := (Framed.onTokens Cursor.consume).transfer
      (hlike₁.of_calls calls) hconsume
    obtain ⟨s₃, hs₃, hlike₃⟩ := (operandBy_framed hframed).transfer hlike₂ hoperand
    have hpush := hsettled.push operand'
    obtain ⟨held, t, hrounds, hfinished⟩ := ih hv hlike₃ hpush
      (fun op' hop' => by
        rcases List.mem_cons.1 hop' with rfl | hop'
        · exact hmore _ List.mem_cons_self
        · exact hbelow op' (hsuffix.subset hop'))
      (fun p hp => hmore p (List.mem_cons_of_mem _ hp)) (n := n) (by simpa using hn)
    rw [List.append_assoc] at hfinished
    refine ⟨held, t, ?_, hfinished⟩
    have hround : infixRound read none
        ⟨(Tree.leaf operand :: trees).map Tree.value, operators⟩ s =
          .ok (.again ⟨(Tree.leaf operand' :: trees₁).map Tree.value, op :: operators₁⟩) s₃ := by
      have hbinds : binds none op.precedence = true := rfl
      unfold infixRound reduceFor Session.consume
      simp only [Run.bind_apply, hs₁, hbinds, if_true, hreduce, hs₂, hs₃, Run.pure_apply]
      rfl
    rw [Run.iterateFor_succ, hround]
    exact hrounds

/-- **A row becomes its precedence tree.** Every row of operands and operators has exactly one
tree in which precedence and associativity are respected. Where a session has a row before it
whose applications the netlist accepts, the expression that is read is that tree. -/
theorem expression_of_row {first : Expr} {rest : List (Operator × Expr)} {t : Session σ}
    (htokens : s.tokens.Stands g f) (hfirst : operandBy (climb s.remaining) s = .ok first t)
    (hrow : Row (climb s.remaining) t rest)
    (haccepts : ∀ p ∈ rest, s.netlist.Accepts p.1 2) :
    (∀ first rest, ∃! tree : Tree, tree.Ordered ∧ tree.first = first ∧ tree.rest = rest) ∧
      ∃ (tree : Tree) (t' : Session σ), tree.Ordered ∧ tree.first = first ∧ tree.rest = rest ∧
        expression s = .ok tree.value t' := by
  have hs : s.Stands g s.netlist f := ⟨htokens, rfl, rfl⟩
  have hread : ReaderFinds (σ := σ) g s.netlist (fun _ => True) (climb s.remaining) :=
    climb_finds closed_true s.remaining
  obtain ⟨-, f', ht, -, -⟩ := (operandBy_finds closed_true hread hs).answer hfirst
  obtain ⟨n, hn, hremaining, ht'⟩ := ht.tight
  have hlength : rest.length ≤ t.remaining := Nat.le_trans (hrow.length_le hread ht') hremaining
  obtain ⟨held, t₁, hoperators, ⟨operand, trees, hoperands, hspine⟩, hknown, u, u', f'', hlike, hu,
    hbehind⟩ := infixes_of_row hrow hread (climb_framed _) ht Session.Like.rfl
      (Spine.base (t := .leaf first) trivial) (by simp) haccepts (n := t.remaining + 1) (by omega)
  obtain ⟨trees', operators', happlied, hsettled, -⟩ :=
    hspine.settle (p := fun _ => true) (fun _ _ => rfl)
  obtain ⟨tree, rfl, rfl, hordered, htreeFirst, htreeRest⟩ := hsettled.tree
  -- All operators that wait are applied, and the whole is the only operand left.
  have hknown₁ : ∀ op ∈ held.operators, t₁.netlist.Accepts op 2 := fun op hop =>
    (hknown op hop).of_entities (by rw [hlike.netlist, hu.entities])
  obtain ⟨calls, hreduce⟩ := reduceWhile_applied happlied hknown₁ (Nat.le_refl _)
  rw [← hoperands] at hreduce
  -- Nothing goes on behind it.
  obtain ⟨t₂, hbehind₂, hlike₂⟩ := (operatorAt_framed .postfixOp).transfer
    (hlike.of_calls calls) hbehind
  obtain ⟨hu', -⟩ := (operatorAt_ends hu .postfixOp).of_ok hbehind
  obtain ⟨found, u'', hbetween⟩ := operatorAt_viewed hu' .infixOp
  obtain ⟨t₃, hbetween₃, -⟩ := (operatorAt_framed .infixOp).transfer hlike₂ hbetween
  have happlied : postfixesBy none tree.value { t₁ with calls } = .ok (tree.value, false) t₂ := by
    unfold postfixesBy Run.iterate
    rw [Run.iterateFor_succ]
    simp only [Run.bind_apply, hbehind₂, Run.pure_apply]
  have hround : climbRound (climb s.remaining) none first t = .ok (.done tree.value) t₃ := by
    have hstacks : infixesBy (climb s.remaining) none { operands := [first], operators := [] } t =
        .ok held t₁ := hoperators
    unfold climbRound reduceAll
    simp only [Run.bind_apply, hstacks, hreduce, List.map_cons, List.map_nil, popOperand,
      Run.pure_apply, happlied, hbetween₃, Bool.false_and, Bool.false_eq_true, if_false]
  refine ⟨Tree.existsUnique_ordered, tree, t₃, hordered, htreeFirst, htreeRest, ?_⟩
  show climbBy (climb s.remaining) none s = _
  rw [climbBy_eq, Run.bind_apply, hfirst]
  unfold Run.iterate
  simp only [Run.iterateFor_succ, hround]

theorem expression_of_difference :
    (∀ first rest, ∃! tree : Tree, tree.Ordered ∧ tree.first = first ∧ tree.rest = rest) ∧
      ∃ (tree : Tree) (t' : Session (Items Char)), tree.Ordered ∧ tree.first = .signal "a" ∧
        tree.rest =
          [({ entity := "Subtract", symbol := "-", form := .infixLeft, precedence := 60 },
            .integer "2"),
          ({ entity := "Power", symbol := "^", form := .infixRight, precedence := 19 },
            .integer "3")] ∧
        expression (Session.ofSource (Items.ofText "a-2^3") {} .standard) =
          .ok tree.value t' := by
  refine expression_of_row (Cursor.stands_ofText "a-2^3" {} .standard)
    (Run.eq_ok_of_answer? (by decide +kernel))
    (.more (Run.eq_ok_of_answer? (by decide +kernel)) (Run.eq_ok_of_isSome (by decide +kernel))
      (Run.eq_ok_of_answer? (by decide +kernel)) <|
    .more (Run.eq_ok_of_answer? (by decide +kernel)) (Run.eq_ok_of_isSome (by decide +kernel))
      (Run.eq_ok_of_answer? (by decide +kernel)) <|
    .last (Run.eq_ok_of_answer? (by decide +kernel))
      (Run.eq_ok_of_answer? (by decide +kernel))) ?_
  intro p hp e he
  cases he

end Dataflow.Parser
